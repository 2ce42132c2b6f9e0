import OpenTrace.Engine.GroupCommit.Fsync

/-!
# Append and its rollback

The steps of `Append` under `mu`, and the rollback of a failed write under both locks.
-/

namespace OpenTrace.Engine.GroupCommit

open Library

/-! ### Append -/

/-- A step inside `mu` that only lets files and offsets grow. -/
theorem GrownUnderSyncMu.guarantee {before after : State}
    (hgrown : GrownUnderSyncMu before after) {thread : ℕ} (hmu : before.mu = some thread) (hafter : Consistent after) :
    Guarantee Consistent Rely thread before after :=
  ⟨hafter, fun _ hother ↦
    { mu := fun hheld ↦ absurd (Option.some.inj (hmu.symm.trans hheld)).symm hother
      syncMu := fun _ ↦ hgrown
      pending := fun _ _ ↦ hgrown.advances.pending
      durable := fun _ _ ↦ hgrown.advances.durable_mono }⟩

section SetFile

variable {state : State} {file : ℕ} {value : WalFile}

@[simp] theorem files_setFile_self : (state.setFile file value).files file = value :=
  Function.update_self ..

theorem files_setFile_of_ne {other : ℕ} (hother : other ≠ file) :
    (state.setFile file value).files other = state.files other :=
  Function.update_of_ne hother ..

/-- A file may grow, and its handle be closed, inside `mu`. -/
structure Extends (value old : WalFile) : Prop where
  size : old.size ≤ value.size
  durable : value.durable = old.durable
  isOpen : value.isOpen → old.isOpen

theorem extends_setFile (hvalue : Extends value (state.files file)) (other : ℕ) :
    Extends ((state.setFile file value).files other) (state.files other) := by
  by_cases hother : other = file
  · subst hother
    rw [files_setFile_self]
    exact hvalue
  · rw [files_setFile_of_ne hother]
    exact ⟨le_rfl, rfl, id⟩

theorem grown_setFile (hvalue : Extends value (state.files file)) :
    GrownUnderSyncMu state (state.setFile file value) where
  syncMu := rfl
  syncFile := rfl
  synced := rfl
  written := le_rfl
  fileCount := le_rfl
  size := fun other _ ↦ (extends_setFile hvalue other).size
  durable := fun other _ ↦ (extends_setFile hvalue other).durable.ge

theorem consistent_setFile (hstate : Consistent state) (hmu : state.mu ≠ none)
    (hvalue : Extends value (state.files file)) : Consistent (state.setFile file value) :=
  { hstate with
    durable_le := fun other ↦ by
      have hother := extends_setFile hvalue other
      exact hother.durable.trans_le ((hstate.durable_le other).trans hother.size)
    written_le := hstate.written_le.trans (extends_setFile hvalue _).size
    synced_le := hstate.synced_le.trans (extends_setFile hvalue _).durable.ge
    valid_le := hstate.valid_le.trans (extends_setFile hvalue _).durable.ge
    handle := fun hopen ↦ hstate.handle ((extends_setFile hvalue _).isOpen hopen)
    idle := fun hfree ↦ absurd hfree hmu
    acked := fun batch hbatch ↦ (grown_setFile hvalue).advances.durable_mono (hstate.acked batch hbatch) }

end SetFile

section Append

variable {thread : ℕ}

/-- Between a successful write and its publication: the bytes are in the file, and the offsets do not
count them yet. -/
structure Written (state : State) (lastGood bytes file : ℕ) : Prop where
  current : file = state.current
  syncFile : state.syncFile = state.current
  fileSize : state.offsets.fileSize = lastGood
  size : (state.files file).size = lastGood + bytes

/-- After a failed write: the file may be too long. -/
structure Torn (state : State) (lastGood : ℕ) : Prop where
  syncFile : state.syncFile = state.current
  fileSize : state.offsets.fileSize = lastGood
  size_le : lastGood ≤ (state.files state.current).size
  closed : (state.files state.walFile).isOpen = false → (state.files state.current).size = lastGood

variable {before after : State} {assertion : State → Prop} (lastGood : ℕ)

theorem Written.same {lastGood bytes file : ℕ} (hsame : SameUnderMu before after)
    (hwritten : Written before lastGood bytes file) :
    Written after lastGood bytes file where
  current := by rw [hsame.current, hwritten.current]
  syncFile := by rw [hsame.syncFile, hsame.current, hwritten.syncFile]
  fileSize := by rw [hsame.fileSize, hwritten.fileSize]
  size := by rw [hsame.size, hwritten.size]

theorem Torn.same {lastGood : ℕ} (hsame : SameUnderMu before after) (htorn : Torn before lastGood) :
    Torn after lastGood where
  syncFile := by rw [hsame.syncFile, hsame.current, htorn.syncFile]
  fileSize := by rw [hsame.fileSize, htorn.fileSize]
  size_le := by
    rw [hsame.size, hsame.current]
    exact htorn.size_le
  closed := by
    rw [hsame.isOpen, hsame.walFile, hsame.size, hsame.current]
    exact htorn.closed

theorem write_ok (bytes : ℕ) : Verified thread (write bytes) (HoldsMu thread Idle)
      fun written state ↦ state.mu = some thread ∧
        if written.2.2 then Written state written.1 bytes written.2.1 else Torn state written.1 := by
  refine Prog.Ok.atomically (stable_mu fun _ _ hsame hidle ↦ hidle.same hsame) ?_
  rintro input state hstate ⟨hmu, hidle⟩ - -
  cases hopen : (state.files state.walFile).isOpen with
  | false =>
    simp only [hopen, Bool.and_false]
    exact ⟨guarantee_same hstate, hmu, hidle.syncFile, rfl, hidle.size.ge, fun _ ↦ hidle.size⟩
  | true =>
    have hwal : state.walFile = state.current := (hstate.handle hopen).trans hidle.syncFile
    have hvalue : ∀ added, Extends ⟨(state.files state.walFile).size + added,
        (state.files state.walFile).durable, true⟩ (state.files state.walFile) :=
      fun added ↦ ⟨Nat.le_add_right _ _, rfl, fun _ ↦ hopen⟩
    simp only [hopen, ↓reduceIte]
    refine ⟨(grown_setFile (hvalue _)).guarantee hmu
      (consistent_setFile hstate (by simp [hmu]) (hvalue _)), hmu, ?_⟩
    cases input.ok with
    | true =>
      refine ⟨hwal, hidle.syncFile, rfl, ?_⟩
      simp [hwal, hidle.size]
    | false =>
      refine ⟨hidle.syncFile, rfl, ?_, ?_⟩
      · change _ ≤ ((state.setFile _ _).files state.current).size
        simp [hwal, hidle.size]
      · change ((state.setFile _ _).files state.walFile).isOpen = false → _
        simp

theorem publish_ok (lastGood bytes entries file : ℕ) : (act (fun _ state ↦ { state with
      offsets := state.offsets.wrote (lastGood + bytes)
      entryCount := state.entryCount + (entries + 1) }) fun _ _ ↦ ()).Ok Consistent Rely thread
      (HoldsMu thread (Written · lastGood bytes file))
      fun _ state ↦ HoldsMu thread Idle state ∧ Pending state file (lastGood + bytes) := by
  refine Prog.Ok.atomically (stable_mu fun _ _ hsame hwritten ↦ hwritten.same hsame) ?_
  rintro input state hstate ⟨hmu, hwritten⟩ - -
  have hsize : (state.files state.current).size = lastGood + bytes :=
    hwritten.current ▸ hwritten.size
  have hbefore : state.offsets.writtenBytes = lastGood :=
    (hstate.written_eq hwritten.syncFile.symm).trans hwritten.fileSize
  have hgrown : GrownUnderSyncMu state { state with
      offsets := state.offsets.wrote (lastGood + bytes)
      entryCount := state.entryCount + (entries + 1) } :=
    ⟨rfl, rfl, rfl, hbefore.trans_le (Nat.le_add_right _ _), le_rfl, fun _ _ ↦ le_rfl,
      fun _ _ ↦ le_rfl⟩
  refine ⟨hgrown.guarantee hmu
    { hstate with
      written_le := ?_
      synced_le_written := hstate.synced_le_written.trans hgrown.written
      valid_le_size := hstate.valid_le_size.trans (hwritten.fileSize.trans_le (Nat.le_add_right _ _))
      written_eq := fun _ ↦ rfl
      flushed := (absurd hwritten.syncFile.symm)
      empty := fun hempty ↦ absurd hempty (by simp)
      idle := fun hfree ↦ ?_
      acked := fun batch hbatch ↦ hgrown.advances.durable_mono (hstate.acked batch hbatch) },
    ⟨hmu, hwritten.syncFile, hsize⟩, ?_, fun _ ↦ le_rfl, ?_⟩
  · change lastGood + bytes ≤ (state.files state.syncFile).size
    rw [hwritten.syncFile, hsize]
  · rw [hmu] at hfree
    cases hfree
  · exact hwritten.current ▸ hstate.current_lt
  · exact fun hmoved ↦ absurd (hwritten.current.trans hwritten.syncFile.symm) hmoved

/-- What a rollback knows between its steps, with both locks held. -/
structure RollingBack (state : State) (lastGood : ℕ) (truncated : Bool) : Prop where
  idle : Idle state
  fileSize : state.offsets.fileSize = lastGood
  walFile : truncated → state.walFile = state.current

theorem RollingBack.same {lastGood : ℕ} {truncated : Bool} (hsame : SameUnderMu before after)
    (hrolling : RollingBack before lastGood truncated) :
    RollingBack after lastGood truncated where
  idle := hrolling.idle.same hsame
  fileSize := by rw [hsame.fileSize, hrolling.fileSize]
  walFile := by
    rw [hsame.walFile, hsame.current]
    exact hrolling.walFile

/-- Assertions of a goroutine that holds both locks. -/
theorem stable_locks
    (hassertion : ∀ before after, SameUnderMu before after → assertion before → assertion after) :
    Steady thread (HoldsBoth thread assertion) :=
  (stable_syncMu fun _ _ _ _ _ _ ↦ trivial).and (stable_mu hassertion)

/-- A step with both locks held. -/
theorem rely_locks (hmu : before.mu = some thread) (hsyncMu : before.syncMu = some thread)
    (hpending : ∀ file offset, Pending before file offset → Pending after file offset)
    (hdurable : ∀ file offset, Durable before file offset → Durable after file offset) {other : ℕ}
    (hother : other ≠ thread) : Rely other before after where
  mu := fun hheld ↦ absurd (Option.some.inj (hmu.symm.trans hheld)).symm hother
  syncMu := fun hheld ↦ absurd (Option.some.inj (hsyncMu.symm.trans hheld)).symm hother
  pending := hpending
  durable := hdurable

section Cut

variable {state : State} {lastGood : ℕ}

theorem files_cut_of_ne {other : ℕ} (hother : other ≠ state.walFile) :
    (state.cut lastGood).files other = state.files other :=
  files_setFile_of_ne hother

theorem Durable.cut (hstate : Consistent state) (htorn : Torn state lastGood)
    (hwal : state.walFile = state.current) {file offset : ℕ} (hdurable : Durable state file offset) :
    Durable (state.cut lastGood) file offset where
  bound := hdurable.bound
  durable := by
    by_cases hfile : file = state.walFile
    · subst hfile
      have hwritten := (hdurable.synced (hwal.trans htorn.syncFile.symm)).1
      rw [hstate.written_eq htorn.syncFile.symm, htorn.fileSize] at hwritten
      simp only [State.cut, files_setFile_self]
      exact le_min hdurable.durable hwritten
    · rw [files_cut_of_ne hfile]
      exact hdurable.durable
  synced := hdurable.synced

theorem Pending.cut (htorn : Torn state lastGood) (hwal : state.walFile = state.current)
    {file offset : ℕ} (hpending : Pending state file offset) :
    Pending (state.cut lastGood) file offset where
  bound := hpending.bound
  written := hpending.written
  durable := fun hmoved ↦ by
    have hfile : file ≠ state.walFile := fun hfile ↦
      hmoved (hfile.trans (hwal.trans htorn.syncFile.symm))
    rw [files_cut_of_ne hfile]
    exact hpending.durable hmoved

theorem consistent_cut (hstate : Consistent state) (hmu : state.mu ≠ none)
    (htorn : Torn state lastGood) (hwal : state.walFile = state.current) :
    Consistent (state.cut lastGood) := by
  have hsync : state.walFile = state.syncFile := hwal.trans htorn.syncFile.symm
  have hwritten : state.offsets.writtenBytes = lastGood :=
    (hstate.written_eq htorn.syncFile.symm).trans htorn.fileSize
  have hself : (state.cut lastGood).files state.walFile = { state.files state.walFile with
      size := lastGood, durable := min (state.files state.walFile).durable lastGood } :=
    files_setFile_self
  refine { hstate with
    durable_le := fun file ↦ ?_
    written_le := ?_
    synced_le := ?_
    valid_le := ?_
    handle := fun _ ↦ hsync
    idle := fun hfree ↦ absurd hfree hmu
    acked := fun batch hbatch ↦ (hstate.acked batch hbatch).cut hstate htorn hwal }
  · by_cases hfile : file = state.walFile
    · rw [hfile, hself]
      exact min_le_right _ _
    · rw [files_cut_of_ne hfile]
      exact hstate.durable_le file
  · change state.offsets.writtenBytes ≤ ((state.cut lastGood).files state.syncFile).size
    rw [← hsync, hself, hwritten]
  · change state.offsets.syncedBytes ≤ ((state.cut lastGood).files state.syncFile).durable
    rw [← hsync, hself]
    exact le_min (hsync ▸ hstate.synced_le) (hwritten ▸ hstate.synced_le_written)
  · change state.offsets.validBytes ≤ ((state.cut lastGood).files state.current).durable
    rw [← hwal, hself]
    exact le_min (hwal ▸ hstate.valid_le) (htorn.fileSize ▸ hstate.valid_le_size)

end Cut

theorem truncate_ok : Verified thread (truncate lastGood) (HoldsBoth thread (Torn · lastGood))
      fun truncated ↦ HoldsBoth thread (RollingBack · lastGood truncated) := by
  refine Prog.Ok.atomically (stable_locks fun _ _ hsame htorn ↦ htorn.same hsame) ?_
  rintro input state hstate ⟨⟨hsyncMu, -⟩, hmu, htorn⟩ - hcovered
  have hkept : Guarantee Consistent Rely thread state state := guarantee_same hstate
  have hwal : (state.files state.walFile).isOpen = true → state.walFile = state.current :=
    fun hopen ↦ (hstate.handle hopen).trans htorn.syncFile
  by_cases hcut : (input.ok && (state.files state.walFile).isOpen) = true
  · simp only [hcut]
    have hwal := hwal (Bool.and_eq_true_iff.mp hcut).2
    refine ⟨⟨consistent_cut hstate (by simp [hmu]) htorn hwal, fun _ ↦ rely_locks hmu hsyncMu
      (fun _ _ ↦ Pending.cut htorn hwal) fun _ _ ↦ Durable.cut hstate htorn hwal⟩,
      ⟨hsyncMu, trivial⟩, hmu, ⟨htorn.syncFile, ?_⟩, htorn.fileSize, fun _ ↦ hwal⟩
    change ((state.cut lastGood).files state.current).size = state.offsets.fileSize
    rw [← hwal, State.cut, files_setFile_self, htorn.fileSize]
  · simp only [hcut, Bool.false_eq_true, ↓reduceIte]
    refine ⟨hkept, ⟨hsyncMu, trivial⟩, hmu, ⟨htorn.syncFile, ?_⟩, htorn.fileSize, by simp⟩
    cases hopen : (state.files state.walFile).isOpen with
    | false => exact (htorn.closed hopen).trans htorn.fileSize.symm
    | true =>
      rw [hopen, Bool.and_true] at hcut
      rw [← hwal hopen]
      simpa [hopen, hcut] using hcovered

theorem syncTruncated_ok : Verified thread syncTruncated
      (HoldsBoth thread (RollingBack · lastGood true))
      fun _ ↦ HoldsBoth thread fun state ↦ Idle state ∧ state.offsets.fileSize = lastGood ∧
        lastGood ≤ (state.files state.current).durable := by
  refine Prog.Ok.atomically (stable_locks fun _ _ hsame hrolling ↦ hrolling.same hsame) ?_
  rintro input state hstate ⟨⟨hsyncMu, -⟩, hmu, hrolling⟩ - hcovered
  have hwal : state.walFile = state.current := hrolling.walFile rfl
  have hsize : (state.files state.walFile).size = lastGood :=
    hwal ▸ hrolling.idle.size.trans hrolling.fileSize
  cases hok : input.ok with
  | true =>
    have hhardened := hardened_harden state state.walFile (state.files state.walFile).size
    refine ⟨⟨consistent_harden hstate le_rfl, fun _ ↦ hhardened.rely hsyncMu⟩, ⟨hsyncMu, trivial⟩,
      hmu, hrolling.idle.same hhardened.same, hrolling.fileSize, ?_⟩
    change _ ≤ ((state.harden _ _).files state.current).durable
    rw [durable_harden, if_pos hwal.symm, hsize]
    exact le_max_right _ _
  | false =>
    simp only [Bool.false_eq_true, ↓reduceIte]
    refine ⟨guarantee_same hstate, ⟨hsyncMu, trivial⟩, hmu, hrolling.idle, hrolling.fileSize, ?_⟩
    rw [← hwal]
    simpa [hok, hsize] using hcovered

theorem storeRolledBack_ok :
    Verified thread (act (fun _ state ↦ { state with offsets := state.offsets.rolledBack lastGood })
      fun _ _ ↦ ())
      (HoldsBoth thread fun state ↦ Idle state ∧ state.offsets.fileSize = lastGood ∧
        lastGood ≤ (state.files state.current).durable)
      fun _ ↦ HoldsBoth thread Idle := by
  refine Prog.Ok.atomically (stable_locks ?_) ?_
  · rintro before after hsame ⟨hidle, hsize, hdurable⟩
    refine ⟨hidle.same hsame, hsame.fileSize.trans hsize, ?_⟩
    rw [hsame.current]
    exact hdurable.trans (hsame.durable _)
  · rintro _ state hstate ⟨⟨hsyncMu, -⟩, hmu, hidle, hsize, hdurable⟩ - -
    have hwritten : state.offsets.writtenBytes = lastGood :=
      (hstate.written_eq hidle.syncFile.symm).trans hsize
    have hsynced : min state.offsets.syncedBytes lastGood = state.offsets.syncedBytes :=
      min_eq_left (hwritten ▸ hstate.synced_le_written)
    have hhardened : Hardened state
        { state with offsets := state.offsets.rolledBack lastGood } :=
      ⟨⟨rfl, hsize.symm, hwritten.symm, rfl, rfl, rfl, rfl, rfl, fun _ ↦ rfl, fun _ ↦ rfl,
        hsynced.ge, fun _ ↦ le_rfl⟩, rfl, rfl⟩
    refine ⟨⟨hhardened.consistent hstate hstate.durable_le (hsynced.trans_le hstate.synced_le)
      (min_le_right _ _) hdurable le_rfl, fun _ ↦ hhardened.rely hsyncMu⟩,
      ⟨hsyncMu, trivial⟩, hmu, hidle.same hhardened.same⟩

section

variable (hassertion : ∀ before after, SameUnderMu before after → assertion before → assertion after)

include hassertion

theorem lockBoth_ok : Verified thread (lockSyncMu thread) (HoldsMu thread assertion)
      fun _ ↦ HoldsBoth thread assertion :=
  (lockSyncMu_ok (stable_mu hassertion) fun before after hunmoved hmu hholds ↦
    ⟨hmu.trans hholds.1, hassertion before after (hunmoved.sameUnderMu hmu) hholds.2⟩).post
    fun _ _ _ hholds ↦ ⟨⟨hholds.1, trivial⟩, hholds.2⟩

theorem unlockBoth_ok :
    Verified thread unlockSyncMu (HoldsBoth thread assertion) fun _ ↦ HoldsMu thread assertion :=
  unlockSyncMu_ok (stable_mu hassertion) fun before after hunmoved hmu hholds ↦
    ⟨hmu.trans hholds.1, hassertion before after (hunmoved.sameUnderMu hmu) hholds.2⟩

end

theorem rollback_ok : Verified thread (rollback thread lastGood)
      (HoldsMu thread (Torn · lastGood)) fun _ ↦ HoldsMu thread Idle := by
  refine (lockBoth_ok fun _ _ hsame htorn ↦ htorn.same hsame).bind fun _ ↦
    (truncate_ok lastGood).bind fun truncated ↦ ?_
  have hunlock : Verified thread unlockSyncMu (HoldsBoth thread Idle) fun _ ↦ HoldsMu thread Idle :=
    unlockBoth_ok fun _ _ hsame hidle ↦ hidle.same hsame
  cases truncated with
  | true =>
    exact (syncTruncated_ok lastGood).bind fun _ ↦ (storeRolledBack_ok lastGood).bind fun _ ↦ hunlock
  | false =>
    exact hunlock.pre fun _ _ hholds ↦ ⟨hholds.1, hholds.2.1, hholds.2.2.idle⟩

theorem storeAcked_ok (file offset : ℕ) :
    (act (fun _ state ↦ { state with acked := (file, offset) :: state.acked })
      fun _ _ ↦ ()).Ok Consistent Rely thread (fun state ↦ Durable state file offset)
      fun _ _ ↦ True := by
  refine Prog.Ok.atomically (stable_durable file offset) ?_
  intro _ state hstate hdurable _ _
  have hkept : Unmoved state { state with acked := (file, offset) :: state.acked } :=
    ⟨rfl, rfl, rfl, rfl, rfl, rfl, rfl⟩
  refine ⟨⟨hkept.consistent hstate hstate.idle fun batch hbatch ↦ ?_,
    fun _ _ ↦ hkept.rely (fun _ ↦ rfl) fun _ ↦ rfl⟩, trivial⟩
  rcases List.mem_cons.mp hbatch with rfl | hold
  · exact hdurable
  · exact hstate.acked batch hold

theorem framed_true : Framed (fun _ ↦ True) thread := ⟨Stable.true, fun _ _ _ _ ↦ trivial⟩

theorem releaseMu_ok : Verified thread unlockMu (HoldsMu thread Idle) fun _ _ ↦ True :=
  (unlockMu_ok Stable.true fun _ _ _ _ ↦ trivial).pre fun _ _ hholds ↦ ⟨hholds, trivial⟩

theorem append_ok (bytes entries : ℕ) :
    Verified thread (append thread bytes entries) (fun _ ↦ True) fun _ _ ↦ True := by
  refine lockMu_ok.bind fun _ ↦ ?_
  refine (loadKept_ok (stable_mu fun _ _ hsame hidle ↦ hidle.same hsame)).bind fun count ↦ ?_
  generalize segmentHasRoom count (entries + 1 : ℕ) = room
  refine Prog.Ok.ite (fun _ ↦ ?_) fun _ ↦ releaseMu_ok
  refine (write_ok bytes).bind ?_
  rintro ⟨lastGood, file, written⟩
  cases written with
  | true =>
    refine (publish_ok lastGood bytes entries file).bind fun _ ↦ ?_
    refine (unlockMu_ok (stable_pending file _) fun _ _ hunmoved hpending ↦
      hunmoved.advances.pending hpending).bind fun _ ↦ ?_
    refine ((syncThrough_ok framed_true file (lastGood + bytes)).pre
      fun _ _ hpending ↦ ⟨trivial, hpending⟩).bind fun ok ↦ ?_
    cases ok with
    | true => exact (storeAcked_ok file _).pre fun _ _ hholds ↦ hholds.2 rfl
    | false => exact Prog.Ok.ret fun _ _ _ ↦ trivial
  | false => exact (rollback_ok lastGood).bind fun _ ↦ releaseMu_ok

end Append

end OpenTrace.Engine.GroupCommit
