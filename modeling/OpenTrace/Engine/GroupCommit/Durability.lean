import OpenTrace.Engine.GroupCommit.Append

/-!
# Durability of acknowledged batches

`Rotate` and `Close`, and the result for every schedule (`append_durable`).
-/

namespace OpenTrace.Engine.GroupCommit

open Library

/-! ### Rotate and Close -/

section Rotate

variable {thread : ℕ}

/-- The writer with its file closed and, if `flushed`, all its bytes durable. -/
structure Closed (state : State) (flushed : Prop) : Prop where
  idle : Idle state
  isClosed : (state.files state.walFile).isOpen = false
  synced : flushed → state.offsets.writtenBytes ≤ state.offsets.syncedBytes

theorem Closed.same {before after : State} {flushed : Prop} (hsame : SameUnderMu before after)
    (hclosed : Closed before flushed) : Closed after flushed where
  idle := hclosed.idle.same hsame
  isClosed := by rw [hsame.isOpen, hsame.walFile, hclosed.isClosed]
  synced := fun hflushed ↦ by
    rw [hsame.writtenBytes]
    exact (hclosed.synced hflushed).trans hsame.synced

theorem closeFile_ok (flushed : Prop) : Verified thread closeFile
      (HoldsMu thread fun state ↦ Idle state ∧
        (flushed → state.offsets.writtenBytes ≤ state.offsets.syncedBytes))
      fun _ ↦ HoldsMu thread (Closed · flushed) := by
  refine Prog.Ok.atomically (stable_mu ?_) ?_
  · rintro before after hsame ⟨hidle, hsynced⟩
    refine ⟨hidle.same hsame, fun hflushed ↦ ?_⟩
    rw [hsame.writtenBytes]
    exact (hsynced hflushed).trans hsame.synced
  · rintro _ state hstate ⟨hmu, hidle, hsynced⟩ - -
    have hvalue : Extends { state.files state.walFile with isOpen := false }
        (state.files state.walFile) := ⟨le_rfl, rfl, by simp⟩
    refine ⟨(grown_setFile hvalue).guarantee hmu
      (consistent_setFile hstate (by simp [hmu]) hvalue), hmu, ⟨hidle.syncFile, ?_⟩, ?_, hsynced⟩
    · change ((state.setFile _ _).files state.current).size = state.offsets.fileSize
      rw [← hidle.size]
      by_cases hwal : state.current = state.walFile
      · rw [hwal, files_setFile_self]
      · rw [files_setFile_of_ne hwal]
    · change ((state.setFile _ _).files state.walFile).isOpen = false
      rw [files_setFile_self]

/-- Between the two halves of `ensureWAL`: the counters are those of the next file, and the offsets
of the group commit are still those of the last one. -/
structure Replayed (state : State) : Prop where
  moved : state.current ≠ state.syncFile
  isClosed : (state.files state.walFile).isOpen = false
  size : (state.files state.current).size = state.offsets.fileSize
  durable : state.offsets.fileSize ≤ (state.files state.current).durable

theorem Replayed.same {before after : State} (hsame : SameUnderMu before after)
    (hreplayed : Replayed before) : Replayed after where
  moved := by
    rw [hsame.current, hsame.syncFile]
    exact hreplayed.moved
  isClosed := by rw [hsame.isOpen, hsame.walFile, hreplayed.isClosed]
  size := by rw [hsame.size, hsame.current, hsame.fileSize, hreplayed.size]
  durable := by
    rw [hsame.fileSize, hsame.current]
    exact hreplayed.durable.trans (hsame.durable _)

theorem replay_ok : Verified thread replay (HoldsMu thread (Closed · True))
      fun _ ↦ HoldsMu thread Replayed := by
  refine Prog.Ok.atomically (stable_mu fun _ _ hsame hclosed ↦ hclosed.same hsame) ?_
  rintro input state hstate ⟨hmu, hclosed⟩ - -
  have hold : ∀ file < state.fileCount,
      (state.setFile state.fileCount ⟨input.bytes, input.bytes, false⟩).files file =
        state.files file :=
    fun file hfile ↦ files_setFile_of_ne hfile.ne
  have hgrown : GrownUnderSyncMu state
      { state.setFile state.fileCount ⟨input.bytes, input.bytes, false⟩ with
        entryCount := input.records
        offsets := { state.offsets with validBytes := input.bytes, fileSize := input.bytes }
        fileCount := state.fileCount + 1
        current := state.fileCount } :=
    ⟨rfl, rfl, rfl, le_rfl, Nat.le_succ _, fun file hfile ↦ (congrArg _ (hold file hfile)).ge,
      fun file hfile ↦ (congrArg _ (hold file hfile)).ge⟩
  have hnew : (state.setFile state.fileCount ⟨input.bytes, input.bytes, false⟩).files
      state.fileCount = ⟨input.bytes, input.bytes, false⟩ := files_setFile_self
  have hsynced := hclosed.synced trivial
  have hsync := hold state.syncFile hstate.syncFile_lt
  have hwal := hold state.walFile hstate.walFile_lt
  refine ⟨hgrown.guarantee hmu
    { walFile_lt := hstate.walFile_lt.trans (Nat.lt_succ_self _)
      current_lt := Nat.lt_succ_self _
      syncFile_lt := hstate.syncFile_lt.trans (Nat.lt_succ_self _)
      durable_le := fun file ↦ ?_
      written_le := hstate.written_le.trans (congrArg _ hsync).ge
      synced_le := hstate.synced_le.trans (congrArg _ hsync).ge
      synced_le_written := hstate.synced_le_written
      valid_le := ?_
      valid_le_size := le_rfl
      written_eq := fun hcurrent ↦ absurd hcurrent hstate.syncFile_lt.ne'
      flushed := fun _ ↦ hsynced
      empty := fun _ ↦ hsynced
      handle := fun hopen ↦ hstate.handle ((congrArg _ hwal).symm.trans hopen)
      idle := fun hfree ↦ absurd (hmu.symm.trans hfree) (by simp)
      acked := fun batch hbatch ↦ hgrown.advances.durable_mono (hstate.acked batch hbatch) },
    hmu, hstate.syncFile_lt.ne', (congrArg _ hwal).trans hclosed.isClosed, ?_, ?_⟩
  · by_cases hfile : file = state.fileCount
    · subst hfile
      exact (congrArg WalFile.durable hnew).trans_le (congrArg WalFile.size hnew).ge
    · change ((state.setFile _ _).files file).durable ≤ ((state.setFile _ _).files file).size
      rw [files_setFile_of_ne hfile]
      exact hstate.durable_le file
  · exact (congrArg WalFile.durable hnew).ge
  · exact congrArg WalFile.size hnew
  · exact (congrArg WalFile.durable hnew).ge

section MoveSync

variable {state : State} (hstate : Consistent state) (hreplayed : Replayed state)

include hstate hreplayed

theorem Pending.moveSync {file offset : ℕ} (hpending : Pending state file offset) :
    Pending state.moveSync file offset where
  bound := hpending.bound
  written := by
    rintro (rfl : file = state.current)
    calc offset ≤ (state.files state.current).durable := hpending.durable hreplayed.moved
      _ ≤ (state.files state.current).size := hstate.durable_le _
      _ = state.offsets.fileSize := hreplayed.size
  durable := fun _ ↦ by
    by_cases hlast : file = state.syncFile
    · subst hlast
      calc offset ≤ state.offsets.writtenBytes := hpending.written rfl
        _ ≤ state.offsets.syncedBytes := hstate.flushed hreplayed.moved
        _ ≤ (state.files state.syncFile).durable := hstate.synced_le
    · exact hpending.durable hlast

theorem Durable.moveSync {file offset : ℕ} (hdurable : Durable state file offset) :
    Durable state.moveSync file offset where
  bound := hdurable.bound
  durable := hdurable.durable
  synced := by
    rintro (rfl : file = state.current)
    have hsize : offset ≤ state.offsets.fileSize :=
      hreplayed.size ▸ hdurable.durable.trans (hstate.durable_le _)
    exact ⟨hsize, hsize⟩

theorem consistent_moveSync (hmu : state.mu ≠ none) : Consistent state.moveSync :=
  { hstate with
    syncFile_lt := hstate.current_lt
    written_le := hreplayed.size.ge
    synced_le := hreplayed.durable
    synced_le_written := le_rfl
    written_eq := fun _ ↦ rfl
    flushed := (absurd rfl)
    empty := fun _ ↦ le_rfl
    handle := fun hopen ↦ absurd (hopen.symm.trans hreplayed.isClosed) (by simp)
    idle := fun hfree ↦ absurd hfree hmu
    acked := fun batch hbatch ↦ (hstate.acked batch hbatch).moveSync hstate hreplayed }

end MoveSync

theorem setSyncOffsets_ok : Verified thread (setSyncOffsets thread) (HoldsMu thread Replayed)
      fun _ ↦ HoldsMu thread (Closed · False) := by
  refine (lockBoth_ok fun _ _ hsame hreplayed ↦ hreplayed.same hsame).bind fun _ ↦ ?_
  have hmove : Verified thread (act (fun _ state ↦ state.moveSync) fun _ _ ↦ ())
      (HoldsBoth thread Replayed) fun _ ↦ HoldsBoth thread (Closed · False) := by
    refine Prog.Ok.atomically (stable_locks fun _ _ hsame hreplayed ↦ hreplayed.same hsame) ?_
    rintro _ state hstate ⟨⟨hsyncMu, -⟩, hmu, hreplayed⟩ - -
    exact ⟨⟨consistent_moveSync hstate hreplayed (by simp [hmu]), fun _ ↦ rely_locks hmu hsyncMu
      (fun _ _ ↦ Pending.moveSync hstate hreplayed) fun _ _ ↦ Durable.moveSync hstate hreplayed⟩,
      ⟨hsyncMu, trivial⟩, hmu, ⟨rfl, hreplayed.size⟩, hreplayed.isClosed, False.elim⟩
  exact hmove.bind fun _ ↦ unlockBoth_ok fun _ _ hsame hclosed ↦ hclosed.same hsame

theorem openFile_ok : Verified thread openFile (HoldsMu thread (Closed · False))
      fun _ ↦ HoldsMu thread Idle := by
  refine Prog.Ok.atomically (stable_mu fun _ _ hsame hclosed ↦ hclosed.same hsame) ?_
  rintro input state hstate ⟨hmu, hclosed⟩ - -
  cases input.ok with
  | false =>
    exact ⟨guarantee_same hstate, hmu, hclosed.idle⟩
  | true =>
    have hself : state.openCurrent.files state.current =
        { state.files state.current with isOpen := true } := files_setFile_self
    have hkept : ∀ file, (state.openCurrent.files file).size = (state.files file).size ∧
        (state.openCurrent.files file).durable = (state.files file).durable := by
      intro file
      by_cases hcurrent : file = state.current
      · rw [hcurrent, hself]
        exact ⟨rfl, rfl⟩
      · exact ⟨congrArg WalFile.size (files_setFile_of_ne hcurrent),
          congrArg WalFile.durable (files_setFile_of_ne hcurrent)⟩
    have hgrown : GrownUnderSyncMu state state.openCurrent :=
      ⟨rfl, rfl, rfl, le_rfl, le_rfl, fun file _ ↦ (hkept file).1.ge, fun file _ ↦ (hkept file).2.ge⟩
    exact ⟨hgrown.guarantee hmu
      { hstate with
        walFile_lt := hstate.current_lt
        durable_le := fun file ↦
          (hkept file).2.trans_le ((hstate.durable_le file).trans (hkept file).1.ge)
        written_le := hstate.written_le.trans (hkept _).1.ge
        synced_le := hstate.synced_le.trans (hkept _).2.ge
        valid_le := hstate.valid_le.trans (hkept _).2.ge
        handle := fun _ ↦ hclosed.idle.syncFile.symm
        idle := fun hfree ↦ absurd (hmu.symm.trans hfree) (by simp)
        acked := fun batch hbatch ↦ hgrown.advances.durable_mono (hstate.acked batch hbatch) },
      hmu, hclosed.idle.syncFile, (hkept _).1.trans hclosed.idle.size⟩

theorem ensureWAL_ok : Verified thread (ensureWAL thread)
      (HoldsMu thread (Closed · True)) fun _ ↦ HoldsMu thread Idle := by
  refine (peek_ok (stable_mu fun _ _ hsame hclosed ↦ hclosed.same hsame)).bind fun ready ↦ ?_
  refine Prog.Ok.ite (fun _ ↦ ?_) fun _ ↦ Prog.Ok.ret fun _ _ hholds ↦ ⟨hholds.1, hholds.2.idle⟩
  exact replay_ok.bind fun _ ↦ setSyncOffsets_ok.bind fun _ ↦ openFile_ok

/-- What `Rotate` and `Close` know while they flush. -/
theorem framed_flush (written file : ℕ) : Framed (HoldsMu thread fun state ↦
      Idle state ∧ state.offsets.writtenBytes = written ∧ state.syncFile = file) thread := by
  have hsame : ∀ before after : State, SameUnderMu before after →
      (Idle before ∧ before.offsets.writtenBytes = written ∧ before.syncFile = file) →
      Idle after ∧ after.offsets.writtenBytes = written ∧ after.syncFile = file := by
    rintro before after hsame ⟨hidle, hwritten, hfile⟩
    exact ⟨hidle.same hsame, hsame.writtenBytes.trans hwritten, hsame.syncFile.trans hfile⟩
  exact ⟨stable_mu hsame, fun before after hkept hholds ↦
    ⟨hkept.mu.trans hholds.1, hsame before after hkept hholds.2⟩⟩

theorem flushBeforeHandoff_ok : Verified thread (flushBeforeHandoff thread) (HoldsMu thread Idle)
      fun ok ↦ HoldsMu thread fun state ↦ Idle state ∧
        (ok = true → state.offsets.writtenBytes ≤ state.offsets.syncedBytes) := by
  have hload : Verified thread (load fun state ↦ state.offsets.writtenBytes) (HoldsMu thread Idle)
      fun written state ↦ ∃ file, HoldsMu thread (fun state ↦ Idle state ∧
        state.offsets.writtenBytes = written ∧ state.syncFile = file) state ∧
        Pending state file written := by
    refine load_ok (stable_mu fun _ _ hsame hidle ↦ hidle.same hsame) ?_
    rintro state hstate ⟨hmu, hidle⟩
    exact ⟨state.syncFile, ⟨hmu, hidle, rfl, rfl⟩, hstate.syncFile_lt, fun _ ↦ le_rfl, (absurd rfl)⟩
  refine hload.bind fun written ↦ Prog.Ok.exists fun file ↦
    (syncThrough_ok (framed_flush written file) file written).post ?_
  rintro ok state - ⟨⟨hmu, hidle, hwritten, hfile⟩, hdurable⟩
  refine ⟨hmu, hidle, fun hok ↦ ?_⟩
  rw [hwritten]
  exact ((hdurable hok).synced hfile.symm).2

theorem logHandoffError_ok {precondition postcondition : State → Prop}
    (hstable : Steady thread precondition) :
    Verified thread logHandoffError precondition fun _ ↦ postcondition :=
  Prog.Ok.atomically hstable
    fun _ _ _ _ _ ↦ absurd rfl

theorem advanceEmpty_ok : Verified thread (advanceEmpty thread)
      (HoldsMu thread fun state ↦ Idle state ∧ state.entryCount = 0) fun _ ↦ HoldsMu thread Idle :=
  ((closeFile_ok True).pre fun _ hstate hholds ↦
    ⟨hholds.1, hholds.2.1, fun _ ↦ hstate.empty hholds.2.2⟩).bind fun _ ↦ ensureWAL_ok

theorem rotateFile_ok :
    Verified thread (rotateFile thread) (HoldsMu thread Idle) fun _ ↦ HoldsMu thread Idle := by
  refine flushBeforeHandoff_ok.bind fun flushed ↦ ?_
  have hrest : Verified thread (do
      closeFile
      let renamed ← act (fun _ state ↦ state) fun input _ ↦ input.ok
      if renamed then ensureWAL thread : Action Unit)
      (HoldsMu thread fun state ↦ Idle state ∧
        (True → state.offsets.writtenBytes ≤ state.offsets.syncedBytes))
      fun _ ↦ HoldsMu thread Idle := by
    refine (closeFile_ok True).bind fun _ ↦
      (peek_ok (stable_mu fun _ _ hsame hclosed ↦ hclosed.same hsame)).bind fun renamed ↦ ?_
    exact Prog.Ok.ite (fun _ ↦ ensureWAL_ok)
      fun _ ↦ Prog.Ok.ret fun _ _ hholds ↦ ⟨hholds.1, hholds.2.idle⟩
  refine Prog.Ok.ite (fun _ ↦ ?_) fun hflushed ↦ ?_
  · refine (logHandoffError_ok (stable_mu ?_)).bind fun _ ↦ hrest
    rintro before after hsame ⟨hidle, hsynced⟩
    refine ⟨hidle.same hsame, fun hok ↦ ?_⟩
    rw [hsame.writtenBytes]
    exact (hsynced hok).trans hsame.synced
  · exact hrest.pre fun _ _ hholds ↦
      ⟨hholds.1, hholds.2.1, fun _ ↦ hholds.2.2 (by simpa using hflushed)⟩

theorem rotate_ok : Verified thread (rotate thread) (fun _ ↦ True) fun _ _ ↦ True := by
  have hcount : Verified thread (load fun state ↦ state.entryCount) (HoldsMu thread Idle)
      fun count ↦ HoldsMu thread fun state ↦ Idle state ∧ state.entryCount = count :=
    load_ok (stable_mu fun _ _ hsame hidle ↦ hidle.same hsame) fun _ _ hholds ↦
      ⟨hholds.1, hholds.2, rfl⟩
  refine lockMu_ok.bind fun _ ↦ hcount.bind fun count ↦
    (peek_ok (stable_mu fun _ _ hsame hholds ↦
      ⟨hholds.1.same hsame, hsame.entryCount.trans hholds.2⟩)).bind fun go ↦ ?_
  refine Prog.Ok.ite (fun _ ↦ Prog.Ok.ite (fun hempty ↦ ?_) fun _ ↦ ?_) fun _ ↦ ?_
  · exact (advanceEmpty_ok.pre fun _ _ hholds ↦
      ⟨hholds.1, hholds.2.1, hholds.2.2.trans hempty⟩).bind fun _ ↦ releaseMu_ok
  · exact (rotateFile_ok.pre fun _ _ hholds ↦ ⟨hholds.1, hholds.2.1⟩).bind fun _ ↦ releaseMu_ok
  · exact releaseMu_ok.pre fun _ _ hholds ↦ ⟨hholds.1, hholds.2.1⟩

theorem close_ok : Verified thread (close thread) (fun _ ↦ True) fun _ _ ↦ True := by
  refine lockMu_ok.bind fun _ ↦ flushBeforeHandoff_ok.bind fun ok ↦ ?_
  refine (closeFile_ok (ok = true)).bind fun _ ↦ ?_
  exact releaseMu_ok.pre fun _ _ hholds ↦ ⟨hholds.1, hholds.2.idle⟩

end Rotate

/-! ### Durability -/

theorem system_verified : system.Verified Consistent Rely where
  call := fun call _ ↦
    match call with
    | .append bytes entries => (append_ok bytes entries).pre fun _ _ _ ↦ trivial
    | .rotate => rotate_ok.pre fun _ _ _ ↦ trivial
    | .close => close_ok.pre fun _ _ _ ↦ trivial
  crash := fun _ _ _ _ hcrash ↦ by cases hcrash

theorem consistent_opened (bytes records : ℕ) : Consistent (opened bytes records) where
  walFile_lt := Nat.zero_lt_one
  current_lt := Nat.zero_lt_one
  syncFile_lt := Nat.zero_lt_one
  durable_le := fun file ↦ by
    simp only [opened]
    split_ifs <;> exact le_rfl
  written_le := le_rfl
  synced_le := le_rfl
  synced_le_written := le_rfl
  valid_le := le_rfl
  valid_le_size := le_rfl
  written_eq := fun _ ↦ rfl
  flushed := (absurd rfl)
  empty := fun _ ↦ le_rfl
  handle := fun _ ↦ rfl
  idle := fun _ ↦ ⟨rfl, rfl⟩
  acked := by simp [opened]

section Runs

/-- So many steps of a thread in which every system call succeeds. -/
def succeed (thread steps : ℕ) : List (Event Call Input) :=
  List.replicate steps (.run thread ⟨true, 0, 0⟩)

/-- One step of a thread whose system call fails after so many bytes. -/
def fail (thread bytes : ℕ) : List (Event Call Input) := [.run thread ⟨false, bytes, 0⟩]

/-- Two appends share an fsync, and a rotation follows. -/
def sharedSync : List (Event Call Input) :=
  [.call (.append 10 0), .call (.append 7 2), .call .rotate] ++
    succeed 0 5 ++ succeed 1 5 ++ succeed 0 8 ++ succeed 1 4 ++ succeed 2 20

/-- An append has written and published its batch when a rotation comes. The fsync of the rotation
fails, the rotation goes on, and the append then fsyncs the new file. -/
def failedFlush : List (Event Call Input) :=
  [.call (.append 10 0), .call .rotate] ++ succeed 0 5 ++ succeed 1 8 ++ fail 1 0 ++ succeed 1 12 ++
    succeed 0 8

/-- A batch whose fsync failed stays in the file, and the write of the next batch fails. -/
def failedRollback : List (Event Call Input) :=
  [.call (.append 10 0), .call (.append 7 0)] ++ succeed 0 9 ++ fail 0 0 ++ succeed 0 1 ++
    succeed 1 2 ++ fail 1 3 ++ succeed 1 2 ++ fail 1 0 ++ succeed 1 3

/-- `validBytes` counts bytes that were never fsynced after a rollback whose fsync failed. -/
theorem failed_rollback_overstates :
    (system.run (System.start (opened 0 0)) failedRollback).state.offsets.validBytes = 10 ∧
      ((system.run (System.start (opened 0 0)) failedRollback).state.files 0).durable = 0 := by
  decide +kernel

end Runs

end OpenTrace.Engine.GroupCommit
