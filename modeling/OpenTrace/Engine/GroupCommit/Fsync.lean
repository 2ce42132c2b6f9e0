import OpenTrace.Engine.GroupCommit.Invariant

/-!
# The shared fsync

`syncThrough` makes a batch that is pending in a file durable: `syncThrough_ok`. The file may be
rotated away between the write and the fsync; then the batch is durable already.
-/

namespace OpenTrace.Engine.GroupCommit

open Library

/-! ### Fsync -/

/-- A step inside `syncMu` that only makes more bytes durable or records that they are. -/
structure Hardened (before after : State) : Prop where
  same : SameUnderMu before after
  syncMu : after.syncMu = before.syncMu
  acked : after.acked = before.acked

namespace Hardened

variable {before after : State}

theorem rely (hhardened : Hardened before after) {thread other : ℕ}
    (howned : before.syncMu = some thread) (hother : other ≠ thread) : Rely other before after where
  mu := fun _ ↦ hhardened.same
  syncMu := fun hheld ↦ absurd (Option.some.inj (howned.symm.trans hheld)).symm hother
  pending := fun _ _ ↦ hhardened.same.advances.pending
  durable := fun _ _ ↦ hhardened.same.advances.durable_mono

theorem consistent (hhardened : Hardened before after) (hbefore : Consistent before)
    (hdurable : ∀ file, (after.files file).durable ≤ (after.files file).size)
    (hsynced : after.offsets.syncedBytes ≤ (after.files after.syncFile).durable)
    (hwritten : after.offsets.syncedBytes ≤ after.offsets.writtenBytes)
    (hvalid : after.offsets.validBytes ≤ (after.files after.current).durable)
    (hvalid_size : after.offsets.validBytes ≤ after.offsets.fileSize) : Consistent after := by
  have hsame := hhardened.same
  refine
    { walFile_lt := ?_, current_lt := ?_, syncFile_lt := ?_, durable_le := hdurable,
      written_le := ?_, synced_le := hsynced, synced_le_written := hwritten, valid_le := hvalid,
      valid_le_size := hvalid_size, written_eq := ?_, flushed := ?_, empty := ?_, handle := ?_,
      idle := ?_, acked := ?_ }
  · rw [hsame.walFile, hsame.fileCount]
    exact hbefore.walFile_lt
  · rw [hsame.current, hsame.fileCount]
    exact hbefore.current_lt
  · rw [hsame.syncFile, hsame.fileCount]
    exact hbefore.syncFile_lt
  · rw [hsame.writtenBytes, hsame.size, hsame.syncFile]
    exact hbefore.written_le
  · rw [hsame.current, hsame.syncFile, hsame.writtenBytes, hsame.fileSize]
    exact hbefore.written_eq
  · rw [hsame.current, hsame.syncFile, hsame.writtenBytes]
    exact fun hmoved ↦ (hbefore.flushed hmoved).trans hsame.synced
  · rw [hsame.entryCount, hsame.writtenBytes]
    exact fun hempty ↦ (hbefore.empty hempty).trans hsame.synced
  · rw [hsame.isOpen, hsame.walFile, hsame.syncFile]
    exact hbefore.handle
  · rw [hsame.mu]
    exact fun hfree ↦ (hbefore.idle hfree).same hsame
  · rw [hhardened.acked]
    exact fun batch hbatch ↦ hhardened.same.advances.durable_mono (hbefore.acked batch hbatch)

end Hardened

section Harden

variable (state : State) (file offset : ℕ)

@[simp] theorem size_harden (other : ℕ) :
    ((state.harden file offset).files other).size = (state.files other).size := by
  simp only [State.harden, State.setFile, Function.update_apply]
  split_ifs with hsame <;> simp [hsame]

@[simp] theorem isOpen_harden (other : ℕ) :
    ((state.harden file offset).files other).isOpen = (state.files other).isOpen := by
  simp only [State.harden, State.setFile, Function.update_apply]
  split_ifs with hsame <;> simp [hsame]

theorem durable_harden (other : ℕ) : ((state.harden file offset).files other).durable =
      if other = file then max (state.files file).durable offset
      else (state.files other).durable := by
  simp only [State.harden, State.setFile, Function.update_apply]
  split_ifs <;> rfl

theorem hardened_harden : Hardened state (state.harden file offset) where
  same :=
    { mu := rfl, fileSize := rfl, writtenBytes := rfl, entryCount := rfl, walFile := rfl,
      current := rfl, syncFile := rfl, fileCount := rfl, synced := le_rfl
      size := size_harden state file offset
      isOpen := isOpen_harden state file offset
      durable := fun other ↦ by
        rw [durable_harden]
        split_ifs with hsame
        · exact hsame ▸ le_max_left _ _
        · exact le_rfl }
  syncMu := rfl
  acked := rfl

variable {state file offset}

theorem consistent_harden (hstate : Consistent state) (hoffset : offset ≤ (state.files file).size) :
    Consistent (state.harden file offset) := by
  have hhardened := hardened_harden state file offset
  refine hhardened.consistent hstate (fun other ↦ ?_)
    (hstate.synced_le.trans (hhardened.same.durable _)) hstate.synced_le_written
    (hstate.valid_le.trans (hhardened.same.durable _)) hstate.valid_le_size
  rw [durable_harden, size_harden]
  split_ifs with hsame
  · rw [hsame]
    exact max_le (hstate.durable_le file) hoffset
  · exact hstate.durable_le other

end Harden

section Sync

variable {thread : ℕ}

/-- What an fsync in flight knows: the offset it loaded, and where its batch stands against it. -/
def Covers (file target covered : ℕ) (state : State) : Prop :=
  covered ≤ state.offsets.writtenBytes ∧ (file = state.syncFile → target ≤ covered)

theorem Covers.grown {file target covered : ℕ} {before after : State}
    (hgrown : GrownUnderSyncMu before after) (hcovers : Covers file target covered before) :
    Covers file target covered after :=
  ⟨hcovers.1.trans hgrown.written, fun hcurrent ↦ hcovers.2 (hcurrent.trans hgrown.syncFile)⟩

/-- What a started fsync works on. -/
def Begun (covered : ℕ) (begun : Option (ℕ × ℕ)) (state : State) : Prop :=
  ∀ file size, begun = some (file, size) →
    file = state.syncFile ∧ covered ≤ size ∧ size ≤ (state.files file).size

theorem Begun.grown {covered : ℕ} {begun : Option (ℕ × ℕ)} {before after : State}
    (hbefore : Consistent before) (hgrown : GrownUnderSyncMu before after)
    (hbegun : Begun covered begun before) : Begun covered begun after := by
  intro file size hstarted
  obtain ⟨rfl, hcovered, hsize⟩ := hbegun file size hstarted
  exact ⟨hgrown.syncFile.symm, hcovered, hsize.trans (hgrown.size _ hbefore.syncFile_lt)⟩

/-- What the caller of `syncThrough` keeps through the call: `frame` is whatever it knows from
holding `mu`, if it does. -/
structure Framed (frame : State → Prop) (thread : ℕ) : Prop where
  stable : Steady thread frame
  same : ∀ before after, SameUnderMu before after → frame before → frame after

/-- The thread holds `syncMu` and has yet to make its bytes durable. -/
abbrev Syncing (thread : ℕ) (frame : State → Prop) (file target : ℕ) (assertion : State → Prop)
    (state : State) : Prop :=
  (state.syncMu = some thread ∧ assertion state) ∧ (frame state ∧ Pending state file target)

theorem Pending.durable_of_synced {state : State} {file target : ℕ} (hstate : Consistent state)
    (hpending : Pending state file target)
    (hsynced : file = state.syncFile → target ≤ state.offsets.syncedBytes) :
    Durable state file target where
  bound := hpending.bound
  durable := by
    by_cases hcurrent : file = state.syncFile
    · subst hcurrent
      exact (hsynced rfl).trans hstate.synced_le
    · exact hpending.durable hcurrent
  synced := fun hcurrent ↦ ⟨hpending.written hcurrent, hsynced hcurrent⟩

/-- What the store after a successful fsync does. -/
theorem hardened_synced {state : State} {covered : ℕ} (hstate : Consistent state)
    (hwritten : covered ≤ state.offsets.writtenBytes)
    (hcovered : covered ≤ (state.files state.syncFile).durable) :
    let after := { state with offsets := state.offsets.synced covered }
    Hardened state after ∧ Consistent after ∧ covered ≤ after.offsets.syncedBytes := by
  by_cases hlater : state.offsets.syncedBytes < covered
  · -- before the offsets of the next file are in place, nothing is left to record
    have hcurrent : state.current = state.syncFile := by
      by_contra hmoved
      have hflushed := hstate.flushed hmoved
      omega
    have hhardened : Hardened state { state with offsets := state.offsets.synced covered } := by
      refine ⟨⟨rfl, ?_, ?_, rfl, rfl, rfl, rfl, rfl, fun _ ↦ rfl, fun _ ↦ rfl, ?_, fun _ ↦ le_rfl⟩,
        rfl, rfl⟩ <;> simp [Offsets.synced, hlater, hlater.le]
    refine ⟨hhardened, hhardened.consistent hstate hstate.durable_le ?_ ?_ ?_ ?_, ?_⟩
      <;> simp only [Offsets.synced, hlater, ↓reduceIte, le_refl]
    · exact hcovered
    · exact hwritten
    · exact hcurrent ▸ hcovered
    · exact hstate.written_eq hcurrent ▸ hwritten
  · have hkept : state.offsets.synced covered = state.offsets := by
      simp only [Offsets.synced, hlater, ↓reduceIte]
    simp only [hkept]
    exact ⟨⟨(Unmoved.mk rfl rfl rfl rfl rfl rfl rfl).sameUnderMu rfl, rfl, rfl⟩, hstate,
      not_lt.mp hlater⟩

variable {frame : State → Prop} (hframe : Framed frame thread) (file target : ℕ)

include hframe

theorem Framed.pending_stable : Steady thread fun state ↦ frame state ∧ Pending state file target :=
  hframe.stable.and (stable_pending file target)

theorem Framed.hardened {before after : State} (hhardened : Hardened before after)
    (hholds : frame before ∧ Pending before file target) :
    frame after ∧ Pending after file target :=
  ⟨hframe.same before after hhardened.same hholds.1, hhardened.same.advances.pending hholds.2⟩

theorem endSync_ok (covered : ℕ) (begun : Option (ℕ × ℕ)) : Verified thread (endSync begun)
      (Syncing thread frame file target fun state ↦
        Covers file target covered state ∧ Begun covered begun state)
      fun ok ↦ Syncing thread frame file target fun state ↦ Covers file target covered state ∧
        (ok = true → covered ≤ (state.files state.syncFile).durable) := by
  refine Prog.Ok.atomically ((stable_syncMu fun before after hbefore _ hgrown hholds ↦
      ⟨hholds.1.grown hgrown, hholds.2.grown hbefore hgrown⟩).and
      (hframe.pending_stable file target)) ?_
  intro input state hstate hholds _ _
  obtain ⟨⟨hsyncMu, hcovers, hbegun⟩, hframed⟩ := hholds
  have hfailed : Guarantee Consistent Rely thread state state := guarantee_same hstate
  match begun with
  | none => exact ⟨hfailed, ⟨hsyncMu, hcovers, by simp⟩, hframed⟩
  | some (synced, size) =>
    obtain ⟨rfl, hcovered, hsize⟩ := hbegun synced size rfl
    cases hok : input.ok with
    | false =>
      exact ⟨hfailed, ⟨hsyncMu, hcovers, by simp⟩, hframed⟩
    | true =>
      have hhardened := hardened_harden state state.syncFile size
      refine ⟨⟨consistent_harden hstate hsize, fun other ↦ hhardened.rely hsyncMu⟩,
        ⟨hsyncMu, hcovers, fun _ ↦ ?_⟩, hframe.hardened file target hhardened hframed⟩
      refine hcovered.trans ?_
      change _ ≤ ((state.harden state.syncFile size).files state.syncFile).durable
      rw [durable_harden, if_pos rfl]
      exact le_max_right _ _

theorem storeSynced_ok (covered : ℕ) :
    Verified thread (act (fun _ state ↦ { state with offsets := state.offsets.synced covered })
      fun _ _ ↦ ())
      (Syncing thread frame file target fun state ↦ Covers file target covered state ∧
        covered ≤ (state.files state.syncFile).durable)
      fun _ state ↦ (state.syncMu = some thread ∧ True) ∧ (frame state ∧ Durable state file target) := by
  refine Prog.Ok.atomically
    ((stable_syncMu fun before after hbefore _ hgrown hholds ↦ ⟨hholds.1.grown hgrown, by
      rw [hgrown.syncFile]
      exact hholds.2.trans (hgrown.durable _ hbefore.syncFile_lt)⟩).and
      (hframe.pending_stable file target)) ?_
  intro _ state hstate hholds _ _
  obtain ⟨⟨hsyncMu, hcovers, hcovered⟩, hframed⟩ := hholds
  obtain ⟨hhardened, hafter, hsynced⟩ := hardened_synced hstate hcovers.1 hcovered
  obtain ⟨hframed, hpending⟩ := hframe.hardened file target hhardened hframed
  exact ⟨⟨hafter, fun other ↦ hhardened.rely hsyncMu⟩, ⟨hsyncMu, trivial⟩, hframed,
    hpending.durable_of_synced hafter fun hcurrent ↦ (hcovers.2 hcurrent).trans hsynced⟩

/-- The end of `syncThrough`: what the caller may use is kept while the lock is released. -/
theorem returnSynced_ok (ok : Bool) :
    Verified thread (unlockSyncMu >>= fun _ ↦ pure ok : Action Bool)
      (fun state ↦ (state.syncMu = some thread ∧ True) ∧
        (frame state ∧ (ok = true → Durable state file target)))
      fun ok state ↦ frame state ∧ (ok = true → Durable state file target) := by
  have hstable : Steady thread fun state ↦ frame state ∧ (ok = true → Durable state file target) :=
    hframe.stable.and fun _ _ _ _ hrely hdurable hok ↦ hrely.durable _ _ (hdurable hok)
  refine (unlockSyncMu_ok hstable fun before after hunmoved hmu hholds ↦
    ⟨hframe.same before after (hunmoved.sameUnderMu hmu) hholds.1,
      fun hok ↦ hunmoved.advances.durable_mono (hholds.2 hok)⟩).bind fun _ ↦ ?_
  exact Prog.Ok.ret fun _ _ hholds ↦ hholds

/-- The branch of `syncThrough` that fsyncs. -/
theorem syncWritten_ok : Verified thread (do
      let covered ← load fun state ↦ state.offsets.writtenBytes
      let begun ← beginSync
      let ok ← endSync begun
      if ok then
        act (fun _ state ↦ { state with offsets := state.offsets.synced covered }) fun _ _ ↦ ()
        unlockSyncMu
        return true
      else
        unlockSyncMu
        return false : Action Bool)
      (Syncing thread frame file target fun _ ↦ True)
      fun ok state ↦ frame state ∧ (ok = true → Durable state file target) := by
  have hcaller := hframe.pending_stable file target
  have hwritten : Verified thread (load fun state ↦ state.offsets.writtenBytes)
      (Syncing thread frame file target fun _ ↦ True)
      fun covered ↦ Syncing thread frame file target (Covers file target covered) :=
    load_ok ((stable_syncMu fun _ _ _ _ _ _ ↦ trivial).and hcaller) fun state _ hholds ↦
      ⟨⟨hholds.1.1, le_rfl, hholds.2.2.written⟩, hholds.2⟩
  refine hwritten.bind fun covered ↦ ?_
  have hbegin : Verified thread beginSync
      (Syncing thread frame file target (Covers file target covered))
      fun begun ↦ Syncing thread frame file target fun state ↦
        Covers file target covered state ∧ Begun covered begun state := by
    refine load_ok ((stable_syncMu fun _ _ _ _ hgrown hcovers ↦ hcovers.grown hgrown).and hcaller) ?_
    rintro state hstate ⟨⟨hsyncMu, hcovers⟩, hframed⟩
    refine ⟨⟨hsyncMu, hcovers, fun synced size hbegun ↦ ?_⟩, hframed⟩
    split_ifs at hbegun with hopen
    obtain ⟨rfl, rfl⟩ := Prod.mk.inj (Option.some.inj hbegun)
    have hhandle := hstate.handle hopen
    exact ⟨hhandle, hcovers.1.trans (hhandle ▸ hstate.written_le), le_rfl⟩
  refine hbegin.bind fun begun ↦ (endSync_ok hframe file target covered begun).bind fun ok ↦ ?_
  split_ifs with hok
  · refine ((storeSynced_ok hframe file target covered).pre ?_).bind fun _ ↦
      (returnSynced_ok hframe file target true).pre ?_
    · rintro state - ⟨⟨hsyncMu, hcovers, hcovered⟩, hframed⟩
      exact ⟨⟨hsyncMu, hcovers, hcovered hok⟩, hframed⟩
    · rintro state - ⟨hsyncMu, hframed, hdurable⟩
      exact ⟨hsyncMu, hframed, fun _ ↦ hdurable⟩
  · refine (returnSynced_ok hframe file target false).pre ?_
    rintro state - ⟨⟨hsyncMu, -⟩, hframed, -⟩
    exact ⟨⟨hsyncMu, trivial⟩, hframed, by simp⟩

theorem syncThrough_ok : Verified thread (syncThrough thread target)
      (fun state ↦ frame state ∧ Pending state file target)
      fun ok state ↦ frame state ∧ (ok = true → Durable state file target) := by
  have hcaller := hframe.pending_stable file target
  refine (lockSyncMu_ok hcaller fun before after hunmoved hmu hholds ↦
    ⟨hframe.same before after (hunmoved.sameUnderMu hmu) hholds.1, hunmoved.advances.pending hholds.2⟩).bind
    fun _ ↦ ?_
  have hload : Verified thread (load fun state ↦ state.offsets.syncedBytes)
      (Syncing thread frame file target fun _ ↦ True)
      fun synced ↦ Syncing thread frame file target fun state ↦
        state.offsets.syncedBytes = synced :=
    load_ok ((stable_syncMu fun _ _ _ _ _ _ ↦ trivial).and hcaller) fun state _ hholds ↦
      ⟨⟨hholds.1.1, rfl⟩, hholds.2⟩
  refine (hload.pre fun state _ hholds ↦ ⟨⟨hholds.1, trivial⟩, hholds.2⟩).bind fun synced ↦ ?_
  split_ifs with hcovered
  · refine (returnSynced_ok hframe file target true).pre ?_
    rintro state hstate ⟨⟨hsyncMu, hsynced⟩, hframed, hpending⟩
    exact ⟨⟨hsyncMu, trivial⟩, hframed, fun _ ↦
      hpending.durable_of_synced hstate fun _ ↦ hsynced ▸ hcovered⟩
  · exact (syncWritten_ok hframe file target).pre fun _ _ hholds ↦ ⟨⟨hholds.1.1, trivial⟩, hholds.2⟩

end Sync

end OpenTrace.Engine.GroupCommit
