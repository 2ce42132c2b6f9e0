import OpenTrace.Engine.GroupCommit.Model

/-!
# What the locks protect

The invariant of the group commit, what a goroutine may rely on while it holds `mu` or `syncMu`, and
the rules for taking and releasing the two.
-/

namespace OpenTrace.Engine.GroupCommit

open Library

/-! ### Invariant -/

/-- A batch that ends at an offset of a file is written, and durable if the group commit has moved
on to another file. -/
structure Pending (state : State) (file offset : ℕ) : Prop where
  bound : file < state.fileCount
  written : file = state.syncFile → offset ≤ state.offsets.writtenBytes
  durable : file ≠ state.syncFile → offset ≤ (state.files file).durable

/-- A batch that ends at an offset of a file is durable, and the group commit knows it. -/
structure Durable (state : State) (file offset : ℕ) : Prop where
  bound : file < state.fileCount
  durable : offset ≤ (state.files file).durable
  synced : file = state.syncFile →
    offset ≤ state.offsets.writtenBytes ∧ offset ≤ state.offsets.syncedBytes

/-- How the writer is when no goroutine is inside `mu`. -/
structure Idle (state : State) : Prop where
  syncFile : state.syncFile = state.current
  size : (state.files state.current).size = state.offsets.fileSize

structure Consistent (state : State) : Prop where
  walFile_lt : state.walFile < state.fileCount
  current_lt : state.current < state.fileCount
  syncFile_lt : state.syncFile < state.fileCount
  durable_le : ∀ file, (state.files file).durable ≤ (state.files file).size
  written_le : state.offsets.writtenBytes ≤ (state.files state.syncFile).size
  synced_le : state.offsets.syncedBytes ≤ (state.files state.syncFile).durable
  synced_le_written : state.offsets.syncedBytes ≤ state.offsets.writtenBytes
  valid_le : state.offsets.validBytes ≤ (state.files state.current).durable
  valid_le_size : state.offsets.validBytes ≤ state.offsets.fileSize
  written_eq : state.current = state.syncFile → state.offsets.writtenBytes = state.offsets.fileSize
  flushed : state.current ≠ state.syncFile → state.offsets.writtenBytes ≤ state.offsets.syncedBytes
  empty : state.entryCount = 0 → state.offsets.writtenBytes ≤ state.offsets.syncedBytes
  handle : (state.files state.walFile).isOpen → state.walFile = state.syncFile
  idle : state.mu = none → Idle state
  acked : ∀ batch ∈ state.acked, Durable state batch.1 batch.2

/-- What others leave alone while a goroutine is inside `mu`. -/
structure SameUnderMu (before after : State) : Prop where
  mu : after.mu = before.mu
  fileSize : after.offsets.fileSize = before.offsets.fileSize
  writtenBytes : after.offsets.writtenBytes = before.offsets.writtenBytes
  entryCount : after.entryCount = before.entryCount
  walFile : after.walFile = before.walFile
  current : after.current = before.current
  syncFile : after.syncFile = before.syncFile
  fileCount : after.fileCount = before.fileCount
  size : ∀ file, (after.files file).size = (before.files file).size
  isOpen : ∀ file, (after.files file).isOpen = (before.files file).isOpen
  synced : before.offsets.syncedBytes ≤ after.offsets.syncedBytes
  durable : ∀ file, (before.files file).durable ≤ (after.files file).durable

/-- What others may do while a goroutine is inside `syncMu`. -/
structure GrownUnderSyncMu (before after : State) : Prop where
  syncMu : after.syncMu = before.syncMu
  syncFile : after.syncFile = before.syncFile
  synced : after.offsets.syncedBytes = before.offsets.syncedBytes
  written : before.offsets.writtenBytes ≤ after.offsets.writtenBytes
  fileCount : before.fileCount ≤ after.fileCount
  size : ∀ file < before.fileCount, (before.files file).size ≤ (after.files file).size
  durable : ∀ file < before.fileCount, (before.files file).durable ≤ (after.files file).durable

structure Rely (thread : ℕ) (before after : State) : Prop where
  mu : before.mu = some thread → SameUnderMu before after
  syncMu : before.syncMu = some thread → GrownUnderSyncMu before after
  pending : ∀ file offset, Pending before file offset → Pending after file offset
  durable : ∀ file offset, Durable before file offset → Durable after file offset

/-- A step that stays with the file of the group commit and takes nothing back. -/
structure Advances (before after : State) : Prop where
  fileCount : before.fileCount ≤ after.fileCount
  syncFile : after.syncFile = before.syncFile
  written : before.offsets.writtenBytes ≤ after.offsets.writtenBytes
  synced : before.offsets.syncedBytes ≤ after.offsets.syncedBytes
  durable : ∀ file < before.fileCount, (before.files file).durable ≤ (after.files file).durable

variable {before after : State}

theorem Advances.pending (hadvances : Advances before after) {file offset : ℕ}
    (hpending : Pending before file offset) : Pending after file offset where
  bound := hpending.bound.trans_le hadvances.fileCount
  written := by
    rw [hadvances.syncFile]
    exact fun hcurrent ↦ (hpending.written hcurrent).trans hadvances.written
  durable := by
    rw [hadvances.syncFile]
    exact fun hmoved ↦ (hpending.durable hmoved).trans (hadvances.durable file hpending.bound)

theorem Advances.durable_mono (hadvances : Advances before after) {file offset : ℕ}
    (hdurable : Durable before file offset) : Durable after file offset where
  bound := hdurable.bound.trans_le hadvances.fileCount
  durable := hdurable.durable.trans (hadvances.durable file hdurable.bound)
  synced := by
    rw [hadvances.syncFile]
    intro hcurrent
    obtain ⟨hwritten, hsynced⟩ := hdurable.synced hcurrent
    exact ⟨hwritten.trans hadvances.written, hsynced.trans hadvances.synced⟩

theorem SameUnderMu.advances (hsame : SameUnderMu before after) : Advances before after :=
  ⟨hsame.fileCount.ge, hsame.syncFile, hsame.writtenBytes.ge, hsame.synced,
    fun file _ ↦ hsame.durable file⟩

theorem GrownUnderSyncMu.advances (hgrown : GrownUnderSyncMu before after) :
    Advances before after :=
  ⟨hgrown.fileCount, hgrown.syncFile, hgrown.written, hgrown.synced.ge, hgrown.durable⟩

/-- The program is verified for the thread. -/
abbrev Verified (thread : ℕ) {α : Type} (program : Action α) (precondition : State → Prop)
    (postcondition : α → State → Prop) : Prop :=
  program.Ok Consistent Rely thread precondition postcondition

/-- The steps of other threads keep the assertion. -/
abbrev Steady (thread : ℕ) (assertion : State → Prop) : Prop := Stable Consistent Rely thread assertion

/-- The thread holds the writer's lock. -/
abbrev HoldsMu (thread : ℕ) (assertion : State → Prop) (state : State) : Prop :=
  state.mu = some thread ∧ assertion state

/-- The thread holds both locks. -/
abbrev HoldsBoth (thread : ℕ) (assertion : State → Prop) (state : State) : Prop :=
  (state.syncMu = some thread ∧ True) ∧ HoldsMu thread assertion state

section Stability

variable {thread : ℕ}

theorem stable_mu {assertion : State → Prop}
    (hassertion : ∀ before after, SameUnderMu before after → assertion before → assertion after) :
    Steady thread fun state ↦ state.mu = some thread ∧ assertion state := by
  rintro before after - - hrely ⟨hmu, hholds⟩
  have hsame := hrely.mu hmu
  exact ⟨hsame.mu.trans hmu, hassertion before after hsame hholds⟩

theorem stable_syncMu {assertion : State → Prop}
    (hassertion : ∀ before after, Consistent before → Consistent after →
      GrownUnderSyncMu before after → assertion before → assertion after) :
    Steady thread fun state ↦ state.syncMu = some thread ∧ assertion state := by
  rintro before after hbefore hafter hrely ⟨hmu, hholds⟩
  have hgrown := hrely.syncMu hmu
  exact ⟨hgrown.syncMu.trans hmu, hassertion before after hbefore hafter hgrown hholds⟩

theorem stable_pending (file offset : ℕ) : Steady thread fun state ↦ Pending state file offset :=
  fun _ _ _ _ hrely ↦ hrely.pending file offset

theorem stable_durable (file offset : ℕ) : Steady thread fun state ↦ Durable state file offset :=
  fun _ _ _ _ hrely ↦ hrely.durable file offset

theorem Idle.same {before after : State} (hsame : SameUnderMu before after) (hidle : Idle before) :
    Idle after where
  syncFile := by rw [hsame.syncFile, hsame.current, hidle.syncFile]
  size := by rw [hsame.size, hsame.current, hsame.fileSize, hidle.size]

end Stability

/-! ### Locks -/

/-- The states agree on everything but the locks and the log. -/
structure Unmoved (before after : State) : Prop where
  offsets : after.offsets = before.offsets
  entryCount : after.entryCount = before.entryCount
  walFile : after.walFile = before.walFile
  files : after.files = before.files
  fileCount : after.fileCount = before.fileCount
  current : after.current = before.current
  syncFile : after.syncFile = before.syncFile

namespace Unmoved

variable {before after : State}

section

variable (hunmoved : Unmoved before after)

include hunmoved

theorem sameUnderMu (hmu : after.mu = before.mu) : SameUnderMu before after where
  mu := hmu
  fileSize := by rw [hunmoved.offsets]
  writtenBytes := by rw [hunmoved.offsets]
  entryCount := hunmoved.entryCount
  walFile := hunmoved.walFile
  current := hunmoved.current
  syncFile := hunmoved.syncFile
  fileCount := hunmoved.fileCount
  size := fun _ ↦ by rw [hunmoved.files]
  isOpen := fun _ ↦ by rw [hunmoved.files]
  synced := by rw [hunmoved.offsets]
  durable := fun _ ↦ by rw [hunmoved.files]

theorem advances : Advances before after :=
  ⟨hunmoved.fileCount.ge, hunmoved.syncFile, by rw [hunmoved.offsets], by rw [hunmoved.offsets],
    fun _ _ ↦ by rw [hunmoved.files]⟩

theorem grownUnderSyncMu (hsyncMu : after.syncMu = before.syncMu) :
    GrownUnderSyncMu before after where
  syncMu := hsyncMu
  syncFile := hunmoved.syncFile
  synced := by rw [hunmoved.offsets]
  written := by rw [hunmoved.offsets]
  fileCount := by rw [hunmoved.fileCount]
  size := fun _ _ ↦ by rw [hunmoved.files]
  durable := fun _ _ ↦ by rw [hunmoved.files]

theorem rely {other : ℕ} (hmu : before.mu = some other → after.mu = before.mu)
    (hsyncMu : before.syncMu = some other → after.syncMu = before.syncMu) :
    Rely other before after where
  mu := fun hother ↦ hunmoved.sameUnderMu (hmu hother)
  syncMu := fun hother ↦ hunmoved.grownUnderSyncMu (hsyncMu hother)
  pending := fun _ _ ↦ hunmoved.advances.pending
  durable := fun _ _ ↦ hunmoved.advances.durable_mono

theorem consistent (hbefore : Consistent before) (hidle : after.mu = none → Idle before)
    (hacked : ∀ batch ∈ after.acked, Durable before batch.1 batch.2) : Consistent after := by
  obtain ⟨mu, syncMu, offsets, entryCount, walFile, files, fileCount, current, syncFile, acked⟩ :=
    after
  obtain ⟨rfl, rfl, rfl, rfl, rfl, rfl, rfl⟩ := hunmoved
  exact { hbefore with
    idle := fun hfree ↦ ⟨(hidle hfree).syncFile, (hidle hfree).size⟩
    acked := fun batch hbatch ↦
      ⟨(hacked batch hbatch).bound, (hacked batch hbatch).durable, (hacked batch hbatch).synced⟩ }

end

end Unmoved

section Locks

variable {thread : ℕ}

theorem guarantee_same {state : State} (hstate : Consistent state) :
    Guarantee Consistent Rely thread state state :=
  ⟨hstate, fun _ _ ↦ (Unmoved.mk rfl rfl rfl rfl rfl rfl rfl).rely (fun _ ↦ rfl) fun _ ↦ rfl⟩

variable {α : Type} {precondition : State → Prop}

section

variable (hstable : Steady thread precondition)

include hstable

/-- A step that only reads: it rests at a stable assertion and learns the value it loads. -/
theorem load_ok {result : State → α} {postcondition : α → State → Prop}
    (hpost : ∀ state, Consistent state → precondition state → postcondition (result state) state) :
    Verified thread (load result) precondition postcondition :=
  Prog.Ok.atomically hstable fun _ state hstate hholds _ _ ↦
    ⟨guarantee_same hstate, hpost state hstate hholds⟩

/-- A step that changes nothing and returns anything. -/
theorem peek_ok {result : Input → State → α} :
    Verified thread (act (fun _ state ↦ state) result) precondition fun _ ↦ precondition :=
  Prog.Ok.atomically hstable fun _ _ hstate hholds _ _ ↦ ⟨guarantee_same hstate, hholds⟩

theorem loadKept_ok {result : State → α} :
    Verified thread (load result) precondition fun _ ↦ precondition :=
  load_ok hstable fun _ _ hholds ↦ hholds

end

theorem lockMu_ok : Verified thread (lockMu thread) (fun _ ↦ True) fun _ ↦ HoldsMu thread Idle :=
  Prog.Ok.atomically Stable.true <| by
    intro _ state hstate _ hfree _
    have hnone : state.mu = none := by simpa using hfree
    have hkept : Unmoved state { state with mu := some thread } := ⟨rfl, rfl, rfl, rfl, rfl, rfl, rfl⟩
    have hidle := hstate.idle hnone
    refine ⟨⟨hkept.consistent hstate (fun _ ↦ hidle) hstate.acked, fun other _ ↦ ?_⟩,
      rfl, ⟨hidle.syncFile, hidle.size⟩⟩
    exact hkept.rely (fun hother ↦ by simp [hnone] at hother) fun _ ↦ rfl

theorem unlockMu_ok {precondition : State → Prop} (hstable : Steady thread precondition)
    (hunmoved : ∀ before after, Unmoved before after → precondition before → precondition after) :
    Verified thread unlockMu
      (fun state ↦ (state.mu = some thread ∧ Idle state) ∧ precondition state)
      fun _ state ↦ precondition state :=
  Prog.Ok.atomically ((stable_mu fun _ _ hsame hidle ↦ hidle.same hsame).and hstable) <| by
    intro _ state hstate hholds _ _
    obtain ⟨⟨hmu, hidle⟩, hpre⟩ := hholds
    have hkept : Unmoved state { state with mu := none } := ⟨rfl, rfl, rfl, rfl, rfl, rfl, rfl⟩
    refine ⟨⟨hkept.consistent hstate (fun _ ↦ hidle) hstate.acked, fun other hother ↦ ?_⟩,
      hunmoved _ _ hkept hpre⟩
    exact hkept.rely (fun howned ↦ absurd (Option.some.inj (hmu.symm.trans howned)).symm hother)
      fun _ ↦ rfl

section

variable (hstable : Steady thread precondition)
  (hunmoved : ∀ before after, Unmoved before after → after.mu = before.mu → precondition before → precondition after)

include hstable hunmoved

theorem lockSyncMu_ok : Verified thread (lockSyncMu thread) precondition
      fun _ state ↦ state.syncMu = some thread ∧ precondition state :=
  Prog.Ok.atomically hstable <| by
    intro _ state hstate hholds hfree _
    have hnone : state.syncMu = none := by simpa using hfree
    have hkept : Unmoved state { state with syncMu := some thread } :=
      ⟨rfl, rfl, rfl, rfl, rfl, rfl, rfl⟩
    refine ⟨⟨hkept.consistent hstate hstate.idle hstate.acked, fun other _ ↦ ?_⟩, rfl,
      hunmoved _ _ hkept rfl hholds⟩
    exact hkept.rely (fun _ ↦ rfl) fun hother ↦ by simp [hnone] at hother

theorem unlockSyncMu_ok : Verified thread unlockSyncMu
      (fun state ↦ (state.syncMu = some thread ∧ True) ∧ precondition state)
      fun _ state ↦ precondition state :=
  Prog.Ok.atomically ((stable_syncMu fun _ _ _ _ _ _ ↦ trivial).and hstable) <| by
    intro _ state hstate hholds _ _
    obtain ⟨⟨hsyncMu, -⟩, hpre⟩ := hholds
    have hkept : Unmoved state { state with syncMu := none } := ⟨rfl, rfl, rfl, rfl, rfl, rfl, rfl⟩
    refine ⟨⟨hkept.consistent hstate hstate.idle hstate.acked, fun other hother ↦ ?_⟩,
      hunmoved _ _ hkept rfl hpre⟩
    exact hkept.rely (fun _ ↦ rfl)
      fun howned ↦ absurd (Option.some.inj (hsyncMu.symm.trans howned)).symm hother

end

end Locks

end OpenTrace.Engine.GroupCommit
