import Mathlib.Data.List.Flatten
import OpenTrace.Engine.Store.Sealing
import OpenTrace.Engine.Store.Views

/-!
# Writing to the active WAL

`Append` under `mu`, the fsync after it, and the acknowledgement. The entries of a batch get the IDs
of the next free positions of the hour, so no entry before them has one of those IDs. Between the
write and the acknowledgement a thread knows that its rows are in the hour's directory, and that they
are safe if the writer has left the hour (`Pending`): a rotation flushes the file before it closes it.
-/

namespace OpenTrace.Engine.Store

open Library Encoding Chunk Wal List Option Function

/-! ### Fresh IDs -/

theorem positioned_stamp {hour start : ℕ} {received : Int64} {entries : List Entry}
    (hroom : start + entries.length ≤ maxEntriesPerSegment) :
    Positioned hour start (stamp (Int64.ofNat hour) start received entries) where
  id := fun index entry hentry ↦ by
    rw [stamp, getElem?_mapIdx] at hentry
    obtain ⟨original, -, rfl⟩ := map_eq_some_iff.mp hentry
    rfl
  length_le := by rwa [length_stamp]

section Ids

variable {config : Config} (hzstd : config.zstd.Faithful)

include hzstd

theorem Ledger.placed_of_mem {clock : ℕ} {dirs : ℕ → Dir} {names : List ℕ} {acked : List Entry}
    {inflight : List (ℕ × List Entry)} (hdisk : Disk config clock dirs names)
    (hledger : Ledger config dirs acked inflight) {entry : Entry}
    (hentry : entry ∈ acked ++ inflight.flatMap Prod.snd) : Placed config dirs entry := by
  rcases mem_append.mp hentry with hacked | hflight
  · obtain ⟨hour, hrow⟩ := hledger.safe entry hacked
    exact ⟨hour, ((hdisk.dir hour).safeRows_initial hzstd).subset hrow⟩
  · obtain ⟨batch, hbatch, hmem⟩ := mem_flatMap.mp hflight
    exact hledger.placed batch hbatch entry hmem

/-- Positions behind the rows of an hour have IDs that nobody has. -/
theorem Ledger.fresh {clock hour : ℕ} {dirs : ℕ → Dir} {names : List ℕ} {acked : List Entry}
    {inflight : List (ℕ × List Entry)} (hdisk : Disk config clock dirs names)
    (hledger : Ledger config dirs acked inflight) (hnamed : nameable hour = true)
    {batch : List Entry} (hbatch : Positioned hour ((dirs hour).rows config.zstd).length batch) :
    ∀ entry ∈ acked ++ inflight.flatMap Prod.snd, ∀ fresh ∈ batch, entry.id ≠ fresh.id := by
  intro entry hentry fresh hfresh hsame
  obtain ⟨other, hrow⟩ := hledger.placed_of_mem hzstd hdisk hentry
  obtain ⟨hother, index, -, hindex, hmax, hid⟩ := ((hdisk.dir other).blockOf hzstd).position hrow
  obtain ⟨offset, hoffset⟩ := mem_iff_getElem?.mp hfresh
  have hlength := (List.getElem?_eq_some_iff.mp hoffset).choose
  have hbound := hbatch.length_le
  have hpositions : idForPosition (Int64.ofNat other) index =
      idForPosition (Int64.ofNat hour) (((dirs hour).rows config.zstd).length + offset) := by
    rw [← hid, ← hbatch.id offset fresh hoffset]
    exact hsame
  obtain ⟨rfl, hbehind⟩ :=
    idForPosition_inj hother (lt_of_nameable hnamed) hmax (by omega) hpositions
  omega

end Ids

/-! ### The writer's directory -/

/-- The directory with this active file. -/
def Dir.withActive (file : WalFile) (dir : Dir) : Dir := { dir with active := some file }

/-- Only the bytes of the active file differ, or chunks and metadata. -/
structure Dir.SameButActive (before after : Dir) : Prop where
  active : after.active.isSome = before.active.isSome
  sealing : after.sealing = before.sealing
  complete : after.complete = before.complete

theorem Dir.SameButActive.sameFiles {before after : Dir} (hsame : before.SameButActive after) :
    before.SameFiles after :=
  ⟨hsame.active, by rw [hsame.sealing], hsame.complete⟩

section Rewrite

variable {config : Config} {hour : ℕ} {dirs : ℕ → Dir} {dir : Dir}

theorem Disk.rewrite {clock : ℕ} {names : List ℕ} (hdisk : Disk config clock dirs names)
    (hdir : DirOk config hour dir) (hsame : (dirs hour).SameButActive dir) :
    Disk config clock (update dirs hour dir) names := by
  obtain ⟨frontier, hlayout⟩ := hdisk.layout
  refine hdisk.setDir hdir (fun hempty ↦ ?_) (fun hvacant ↦ ?_)
    ⟨frontier, hlayout.mono le_rfl fun other ↦ ?_⟩
  · refine hdisk.filled hour ⟨hsame.complete ▸ hempty.complete, ?_⟩
    rw [← hsame.sealing]
    exact hempty.file
  · exact hdisk.named hour fun hbefore ↦ hvacant (hsame.sameFiles.vacant hbefore)
  · exact (forall_update_iff dirs fun other after ↦ (dirs other).SameFiles after).mpr
      ⟨hsame.sameFiles, fun _ _ ↦ Dir.SameFiles.refl _⟩ other

theorem Index.rewrite {segmentHour : ℕ} {pendingSeals : List ℕ} {segments : List LoadedSegment}
    (hindex : Index config dirs segmentHour pendingSeals segments)
    (hcomplete : dir.complete = false) :
    Index config (update dirs segmentHour dir) segmentHour pendingSeals segments := by
  refine { hindex with complete := ?_, active := ?_, registered := ?_, covered := ?_ }
  · rwa [update_self]
  · intro other hother
    rw [update_of_ne hother]
    exact hindex.active other hother
  · intro loaded hloaded
    have hregistered := hindex.registered loaded hloaded
    have hother : loaded.hour ≠ segmentHour := by
      intro hhere
      rw [hhere, hindex.complete] at hregistered
      exact absurd hregistered.1 (by simp)
    rw [update_of_ne hother]
    exact hregistered
  · intro other hrows
    by_cases hother : other = segmentHour
    · exact .inl hother
    · rw [update_of_ne hother] at hrows ⊢
      exact hindex.covered other hrows

theorem Settled.rewrite {pendingSeals : List ℕ} (hsettled : Settled dirs pendingSeals)
    (hsame : (dirs hour).SameButActive dir) :
    Settled (update dirs hour dir) pendingSeals where
  pending := hsettled.pending
  sealing := (forall_update_iff dirs fun _ after ↦ after.sealing.isSome → after.complete = true).mpr
    ⟨hsame.sealing ▸ hsame.complete ▸ hsettled.sealing hour, fun other _ ↦ hsettled.sealing other⟩

variable {state : State} {entryCount : ℕ} {inflight : List (ℕ × List Entry)}

theorem Sound.rewrite (hstate : Sound config state) (hrunning : state.phase = .running)
    (hdir : DirOk config state.segmentHour dir)
    (hsame : (state.dirs state.segmentHour).SameButActive dir)
    (hledger : Ledger config (update state.dirs state.segmentHour dir) state.acked inflight)
    (hflushed : Flushed config (update state.dirs state.segmentHour dir) state.segmentHour
      state.handle)
    (hlive : state.mu = none → Live config (update state.dirs state.segmentHour dir)
      state.segmentHour entryCount state.handle) :
    Sound config
      { state.setDir state.segmentHour dir with entryCount := entryCount, inflight := inflight } where
  disk := hstate.disk.rewrite hdir hsame
  ledger := hledger
  idle := (absurd hrunning)
  atRest := (absurd hrunning)
  index := fun _ ↦ (hstate.index hrunning).rewrite
    (hsame.complete.trans (hstate.index hrunning).complete)
  flushed := fun _ ↦ hflushed
  live := fun _ ↦ hlive
  settled := fun _ hfree ↦ (hstate.settled hrunning hfree).rewrite hsame
  log := hstate.log

theorem rely_rewrite {other : ℕ} (hrunning : state.phase = .running)
    (hgrows : DirGrows config (state.dirs state.segmentHour) dir)
    (hsame : (state.dirs state.segmentHour).SameButActive dir)
    (hinflight : ∀ batch, (other, batch) ∈ state.inflight → (other, batch) ∈ inflight)
    (hmu : state.mu = some other → entryCount = state.entryCount ∧
      SameContent (state.dirs state.segmentHour).active dir.active) :
    Rely config other state
      { state.setDir state.segmentHour dir with entryCount := entryCount, inflight := inflight } where
  clock := le_rfl
  dirs := dirGrows_setDir hgrows
  moved := fun _ ↦ absurd rfl
  inflight := hinflight
  running := id
  opening := fun hopening ↦ by
    rw [hrunning] at hopening
    cases hopening
  mu := fun hheld ↦ by
    obtain ⟨hcount, hcontent⟩ := hmu hheld
    have hhere : (state.setDir state.segmentHour dir).dirs state.segmentHour = dir := dirs_setDir_self
    refine ⟨rfl, rfl, hcount, rfl, ?_, ?_, ?_, fun later hlater ↦ dirs_setDir_of_ne hlater.ne'⟩
    · rwa [← hhere] at hcontent
    · exact (congrArg Dir.sealing hhere).trans hsame.sealing
    · exact (congrArg Dir.complete hhere).trans hsame.complete
  sealMu := fun _ ↦ by
    refine ⟨rfl, rfl, rfl, rfl, rfl, fun later ↦ dirs_setDir_of_ne, ?_⟩
    rw [dirs_setDir_self]
    exact hsame.sameFiles

end Rewrite

/-! ### Writing under mu -/

/-- The thread is inside `mu`, and the writer is as it was when the thread came in. -/
def HoldsMu (config : Config) (thread : ℕ) (state : State) : Prop :=
  (state.phase = .running ∧ state.mu = some thread) ∧
    Live config state.dirs state.segmentHour state.entryCount state.handle

section Append

variable {config : Config} {thread : ℕ}

theorem Live.kept {before after : State} (hafter : Sound config after) (hkept : UnderMu before after)
    (hlive : Live config before.dirs before.segmentHour before.entryCount before.handle) :
    Live config after.dirs after.segmentHour after.entryCount after.handle := by
  rw [hkept.segmentHour, hkept.entryCount, hkept.handle]
  refine ⟨hlive.handle, ?_, hkept.sealing.trans hlive.sealing, fun hour hhour ↦ ?_⟩
  · obtain ⟨file, entries, hactive, hfile, hcount⟩ := hlive.file
    have hcontent := hkept.active
    rw [SameContent, hactive, map_some, map_eq_some_iff] at hcontent
    obtain ⟨file', hactive', hcontent⟩ := hcontent
    obtain ⟨_, hwal⟩ := (hafter.disk.dir before.segmentHour).active file' hactive'
    exact ⟨file', entries, hactive', ⟨hcontent.trans hfile.content, hfile.storable,
      hfile.positioned, hwal.durable_le⟩, hcount⟩
  · rw [hkept.above hour hhour]
    exact hlive.above hour hhour

theorem stable_holdsMu : Steady config thread (HoldsMu config thread) := by
  rintro before after - hafter hrely ⟨⟨hrunning, hmu⟩, hlive⟩
  have hkept := hrely.mu hmu
  exact ⟨⟨hrely.running hrunning, hkept.mu.trans hmu⟩, hlive.kept hafter hkept⟩

theorem stable_running : Steady config thread fun state ↦ state.phase = .running :=
  fun _ _ _ _ hrely ↦ hrely.running

/-- Locks and the log are not what the directories depend on. -/
theorem lockMu_guarantee {state : State} (hstate : Sound config state)
    (hrunning : state.phase = .running) (hfree : state.mu = none) :
    Guarantee (Sound config) (Rely config) thread state { state with mu := some thread } := by
  refine ⟨{ hstate with idle := (absurd hrunning), live := fun _ hmu ↦ ?_ },
    fun other _ ↦ Rely.memory hrunning rfl (fun _ ↦ id) (fun hheld ↦ ?_) fun _ ↦ ⟨rfl, rfl, rfl⟩⟩
  · cases hmu
  · cases hfree.symm.trans hheld

theorem lockMu_ok {assertion : State → Prop} (hstable : Steady config thread assertion)
    (hlocked : ∀ state, assertion state → assertion { state with mu := some thread }) :
    Verified config thread (lockMu thread)
      (fun state ↦ state.phase = .running ∧ assertion state)
      fun _ state ↦ HoldsMu config thread state ∧ assertion state := by
  refine Prog.Ok.atomically (stable_running.and hstable) ?_
  intro _ state hstate ⟨hrunning, hassertion⟩ hfree _
  have hmu : state.mu = none := of_decide_eq_true hfree
  exact ⟨lockMu_guarantee hstate hrunning hmu, ⟨⟨hrunning, rfl⟩, hstate.live hrunning hmu⟩,
    hlocked state hassertion⟩

theorem unlockMu_guarantee {state : State} (hstate : Sound config state)
    (hholds : HoldsMu config thread state) :
    Guarantee (Sound config) (Rely config) thread state { state with mu := none } := by
  obtain ⟨⟨hrunning, hmu⟩, hlive⟩ := hholds
  refine ⟨{ hstate with idle := (absurd hrunning), live := fun _ _ ↦ hlive },
    fun other hother ↦ Rely.memory hrunning rfl (fun _ ↦ id) (fun hheld ↦ ?_) fun _ ↦ ⟨rfl, rfl, rfl⟩⟩
  exact absurd (some.inj (hmu.symm.trans hheld)).symm hother

/-- The rows of the writer's directory are those of its file. -/
theorem Live.rows {dirs : ℕ → Dir} {segmentHour entryCount : ℕ} {handle : Handle} {file : WalFile}
    (hlive : Live config dirs segmentHour entryCount handle)
    (hcomplete : (dirs segmentHour).complete = false)
    (hactive : (dirs segmentHour).active = some file) :
    (dirs segmentHour).rows config.zstd = file.rows config.zstd ∧
      (dirs segmentHour).safeRows config.zstd = file.safeRows config.zstd :=
  Dir.rows_of_active _ hcomplete hlive.sealing hactive

variable (hzstd : config.zstd.Faithful)

include hzstd

/-- The directory of the writer after the records of a batch were appended. -/
theorem appended_dir {hour : ℕ} {dir : Dir} {file : WalFile} {entries batch : List Entry}
    (hdir : DirOk config hour dir) (hcomplete : dir.complete = false) (hsealing : dir.sealing = none)
    (hactive : dir.active = some file) (hfile : Clean config.codec hour file entries)
    (hstorable : ∀ entry ∈ batch, Storable entry) (hbatch : Positioned hour entries.length batch) :
    let after := dir.withActive ⟨file.content ++ config.codec.marshalBatch batch, file.durable⟩
    DirOk config hour after ∧ DirGrows config dir after ∧ dir.SameButActive after ∧
      after.rows config.zstd = (entries ++ batch).map config.codec.persisted := by
  intro after
  have hafter := hfile.append hstorable hbatch
  obtain ⟨hrows, hsafe⟩ := Dir.rows_of_active config.zstd hcomplete hsealing hactive
  obtain ⟨hrows', hsafe'⟩ : after.rows config.zstd = _ ∧ after.safeRows config.zstd = _ :=
    Dir.rows_of_active config.zstd hcomplete hsealing rfl
  have hsame : dir.SameButActive after := ⟨by simp [after, Dir.withActive, hactive], rfl, rfl⟩
  rw [hafter.rows_eq hzstd] at hrows'
  refine ⟨⟨?_, hdir.sealing, fun hmarked ↦ ?_, ?_⟩, ⟨?_, ?_, fun hmarked ↦ ?_⟩, hsame, hrows'⟩
  · intro other hother
    cases some.inj hother
    exact ⟨_, hafter.walOf⟩
  · exact absurd (hmarked.symm.trans hcomplete) (by simp)
  · exact hdir.named.imp hsame.sameFiles.vacant id
  · rw [hrows, hrows', hfile.rows_eq hzstd, map_append]
    exact prefix_append _ _
  · rw [hsafe, hsafe', safeRows_append _ hfile.durable_le]
  · exact absurd (hmarked.symm.trans hcomplete) (by simp)

theorem Ledger.write {clock hour : ℕ} {dirs : ℕ → Dir} {dir : Dir} {names : List ℕ}
    {acked batch : List Entry} {inflight : List (ℕ × List Entry)}
    (hdisk : Disk config clock dirs names) (hledger : Ledger config dirs acked inflight)
    (hnamed : nameable hour = true)
    (hbatch : Positioned hour ((dirs hour).rows config.zstd).length batch)
    (hgrows : DirGrows config (dirs hour) dir)
    (hplaced : ∀ entry ∈ batch, config.codec.persisted entry ∈ dir.rows config.zstd) :
    Ledger config (update dirs hour dir) acked ((thread, batch) :: inflight) := by
  have hgrown : ∀ other, DirGrows config (dirs other) (update dirs hour dir other) :=
    (forall_update_iff dirs fun other after ↦ DirGrows config (dirs other) after).mpr
      ⟨hgrows, fun _ _ ↦ DirGrows.refl config _⟩
  refine { hledger.grow hgrown with placed := ?_, ids := ?_ }
  · intro written hwritten entry hentry
    rcases mem_cons.mp hwritten with rfl | hbefore
    · exact ⟨hour, by rw [update_self]; exact hplaced entry hentry⟩
    · exact (hledger.grow hgrown).placed written hbefore entry hentry
  · have hfresh := hledger.fresh hzstd hdisk hnamed hbatch
    have hfront : (acked ++ ((thread, batch) :: inflight).flatMap Prod.snd).Perm
        (batch ++ (acked ++ inflight.flatMap Prod.snd)) := by
      exact perm_append_comm_assoc acked batch _
    rw [(hfront.map Entry.id).nodup_iff, map_append]
    refine nodup_append.mpr
      ⟨nodup_ids (lt_of_nameable hnamed) hbatch, hledger.ids, fun id hid id' hid' ↦ ?_⟩
    obtain ⟨new, hnew, rfl⟩ := mem_map.mp hid
    obtain ⟨old, hold, rfl⟩ := mem_map.mp hid'
    exact (hfresh old hold new hnew).symm

/-- What a thread knows from its write to its acknowledgement. -/
structure Pending (config : Config) (thread hour : ℕ) (stamped : List Entry) (state : State) :
    Prop where
  running : state.phase = .running
  inflight : (thread, stamped) ∈ state.inflight
  placed : ∀ entry ∈ stamped,
    config.codec.persisted entry ∈ (state.dirs hour).rows config.codec.zstd
  safe : state.segmentHour ≠ hour → ∀ entry ∈ stamped,
    config.codec.persisted entry ∈ (state.dirs hour).safeRows config.codec.zstd

omit hzstd in
theorem stable_pending {hour : ℕ} {stamped : List Entry} :
    Steady config thread (Pending config thread hour stamped) := by
  intro before after hbefore hafter hrely hpending
  refine ⟨hrely.running hpending.running, hrely.inflight _ hpending.inflight, fun entry hentry ↦
    (hrely.dirs hour).rows.subset (hpending.placed entry hentry), fun hleft entry hentry ↦ ?_⟩
  by_cases hhere : before.segmentHour = hour
  · subst hhere
    rw [hrely.moved hpending.running hleft]
    exact (hrely.dirs _).rows.subset (hpending.placed entry hentry)
  · exact (hrely.dirs hour).safeRows.subset (hpending.safe hhere entry hentry)

theorem write_ok {state : State} {entries : List Entry} (hstate : Sound config state)
    (hholds : HoldsMu config thread state)
    (hroom : state.entryCount + entries.length ≤ maxEntriesPerSegment)
    (hstorable : ∀ entry ∈ entries, Storable entry) :
    Guarantee (Sound config) (Rely config) thread state (state.write config thread entries) ∧
      HoldsMu config thread (state.write config thread entries) ∧
      Pending config thread state.segmentHour (state.stamped entries)
        (state.write config thread entries) := by
  obtain ⟨⟨hrunning, hmu⟩, hlive⟩ := hholds
  obtain ⟨file, present, hactive, hfile, hcount⟩ := hlive.file
  have hcomplete := (hstate.index hrunning).complete
  have hstamped : Positioned state.segmentHour present.length (state.stamped entries) := by
    rw [← hcount]
    exact positioned_stamp hroom
  let file' : WalFile :=
    ⟨file.content ++ config.codec.marshalBatch (state.stamped entries), file.durable⟩
  let dir := (state.dirs state.segmentHour).withActive file'
  obtain ⟨hdir, hgrows, hsame, hrows⟩ :
      DirOk config state.segmentHour dir ∧ DirGrows config (state.dirs state.segmentHour) dir ∧
        (state.dirs state.segmentHour).SameButActive dir ∧ dir.rows config.zstd =
          (present ++ state.stamped entries).map config.codec.persisted :=
    appended_dir hzstd (hstate.disk.dir state.segmentHour) hcomplete hlive.sealing hactive hfile
      (storable_of_mem_stamp hstorable) hstamped
  have hplaced : ∀ entry ∈ state.stamped entries,
      config.codec.persisted entry ∈ dir.rows config.zstd := by
    intro entry hentry
    rw [hrows, map_append]
    exact mem_append_right _ (mem_map_of_mem hentry)
  have hnamed : nameable state.segmentHour = true := by
    refine (hstate.disk.dir state.segmentHour).named.resolve_left fun hvacant ↦ ?_
    cases hvacant.active.symm.trans hactive
  have hlength : ((state.dirs state.segmentHour).rows config.zstd).length = present.length := by
    rw [(hlive.rows hcomplete hactive).1, hfile.rows_eq hzstd, length_map]
  have hledger := @Ledger.write config thread hzstd _ _ _ _ _ _ _ _ hstate.disk hstate.ledger hnamed
    (hlength.symm ▸ hstamped) hgrows hplaced
  have hlive' : Live config (update state.dirs state.segmentHour dir)
      state.segmentHour (state.entryCount + entries.length) state.handle := by
    refine ⟨hlive.handle, ⟨file', present ++ state.stamped entries, by rw [update_self]; rfl,
      hfile.append (storable_of_mem_stamp hstorable) hstamped, ?_⟩, ?_, fun hour hhour ↦ ?_⟩
    · rw [length_append, State.stamped, length_stamp, hcount]
    · rw [update_self]
      exact hlive.sealing
    · rw [update_of_ne hhour.ne']
      exact hlive.above hour hhour
  have hwrite : state.write config thread entries = { state.setDir state.segmentHour dir with
        entryCount := state.entryCount + entries.length
        inflight := (thread, state.stamped entries) :: state.inflight } := by
    simp only [State.write, State.writeBytes, hlive.handle, hactive]
    rfl
  rw [hwrite]
  refine ⟨⟨hstate.rewrite hrunning hdir hsame hledger (.inl ⟨hlive.handle, hlive'.sealing⟩)
      fun _ ↦ hlive', fun other hother ↦ rely_rewrite hrunning hgrows hsame
        (fun batch ↦ mem_cons_of_mem _) fun hheld ↦ ?_⟩,
    ⟨⟨hrunning, hmu⟩, hlive'⟩,
    ⟨hrunning, mem_cons_self, ?_, (absurd rfl)⟩⟩
  · exact absurd (some.inj (hmu.symm.trans hheld)).symm hother
  · intro entry hentry
    rw [dirs_setDir_self]
    exact hplaced entry hentry

end Append

/-! ### The fsync -/

/-- The directory after an fsync of its active file. -/
def Dir.synced (dir : Dir) : Dir :=
  { dir with active := dir.active.map fun file ↦ ⟨file.content, file.content.length⟩ }

section Sync

variable {config : Config} {thread : ℕ}

theorem synced_dir (hzstd : config.zstd.Faithful) {hour : ℕ} {dir : Dir}
    (hdir : DirOk config hour dir) (hcomplete : dir.complete = false) (hsealing : dir.sealing = none) :
    DirOk config hour dir.synced ∧ DirGrows config dir dir.synced ∧ dir.SameButActive dir.synced ∧
      SameContent dir.active dir.synced.active ∧
      dir.synced.safeRows config.zstd = dir.synced.rows config.zstd := by
  have hsame : dir.SameButActive dir.synced := ⟨by simp [Dir.synced], rfl, rfl⟩
  have hmarked : ∀ {claim : Prop}, dir.complete = true → claim := fun hcomplete' ↦
    absurd (hcomplete'.symm.trans hcomplete) (by simp)
  have hrows : dir.synced.rows config.zstd = dir.rows config.zstd := by
    cases hactive : dir.active with
    | none => simp [Dir.rows, Dir.synced, hcomplete, hactive]
    | some file => simp [Dir.rows, Dir.synced, hcomplete, hsealing, hactive, WalFile.rows]
  have hsafe : dir.synced.safeRows config.zstd = dir.synced.rows config.zstd := by
    cases hactive : dir.active with
    | none => simp [Dir.rows, Dir.safeRows, Dir.synced, hsealing, hactive]
    | some file =>
      simp only [Dir.synced, hcomplete, hsealing, hactive]
      exact safeRows_eq_rows _ le_rfl
  refine ⟨⟨?_, hdir.sealing, hmarked, hdir.named.imp hsame.sameFiles.vacant id⟩,
    ⟨hrows ▸ prefix_rfl, ?_, hmarked⟩, hsame, ?_, hsafe⟩
  · intro file hfile
    obtain ⟨before, hbefore, rfl⟩ := map_eq_some_iff.mp hfile
    obtain ⟨entries, hwal⟩ := hdir.active before hbefore
    exact ⟨entries, hwal.content, hwal.storable, hwal.positioned, le_rfl⟩
  · rw [hsafe, hrows]
    exact hdir.safeRows_initial hzstd
  · simp [SameContent, Dir.synced, comp_def]

theorem sync_active {state : State} (hhandle : state.handle = .active) :
    state.sync = state.setDir state.segmentHour (state.dirs state.segmentHour).synced := by
  simp only [State.sync, hhandle]
  rfl

theorem sync_eq (state : State) : state.sync = { state with dirs := state.sync.dirs } := by
  unfold State.sync
  split <;> rfl

theorem Live.synced {dirs : ℕ → Dir} {segmentHour entryCount : ℕ} {handle : Handle}
    (hlive : Live config dirs segmentHour entryCount handle) :
    Live config (update dirs segmentHour (dirs segmentHour).synced) segmentHour entryCount
      handle := by
  obtain ⟨file, entries, hactive, hfile, hcount⟩ := hlive.file
  refine ⟨hlive.handle, ⟨⟨file.content, file.content.length⟩, entries, ?_,
    ⟨hfile.content, hfile.storable, hfile.positioned, le_rfl⟩, hcount⟩, ?_, fun hour hhour ↦ ?_⟩
  · rw [update_self, Dir.synced, hactive, map_some]
  · rw [update_self]
    exact hlive.sealing
  · rw [update_of_ne hhour.ne']
    exact hlive.above hour hhour

/-- An fsync by any thread of a running store: the rows of the hour are safe after it. -/
theorem sync_ok (hzstd : config.zstd.Faithful) {state : State} (hstate : Sound config state)
    (hrunning : state.phase = .running) :
    Guarantee (Sound config) (Rely config) thread state state.sync ∧
      DirGrows config (state.dirs state.segmentHour) (state.sync.dirs state.segmentHour) ∧
      (state.sync.dirs state.segmentHour).safeRows config.zstd =
        (state.sync.dirs state.segmentHour).rows config.zstd := by
  rcases hstate.flushed hrunning with ⟨hhandle, hsealing⟩ | ⟨hhandle, hflushed⟩
  · obtain ⟨hdir, hgrows, hsame, hcontent, hsafe⟩ := synced_dir hzstd
      (hstate.disk.dir state.segmentHour) (hstate.index hrunning).complete hsealing
    have hledger := hstate.ledger.grow
      (dirGrows_setDir hgrows)
    rw [sync_active hhandle, dirs_setDir_self]
    refine ⟨⟨hstate.rewrite hrunning hdir hsame hledger (.inl ⟨hhandle, ?_⟩)
      fun hmu ↦ (hstate.live hrunning hmu).synced,
      fun other _ ↦ rely_rewrite hrunning hgrows hsame (fun _ hbatch ↦ hbatch)
        fun _ ↦ ⟨rfl, hcontent⟩⟩, hgrows, hsafe⟩
    rw [update_self]
    exact hsealing
  · have hsync : state.sync = state := by simp only [State.sync, hhandle]
    rw [hsync]
    exact ⟨⟨hstate, fun other _ ↦ Rely.refl config other state⟩, DirGrows.refl config _, hflushed⟩

end Sync

/-! ### Append and the acknowledgement -/

/-- What a thread knows when `Append` has returned its batch. -/
structure Durable (config : Config) (thread : ℕ) (stamped : List Entry) (state : State) : Prop where
  running : state.phase = .running
  inflight : (thread, stamped) ∈ state.inflight
  safe : ∀ entry ∈ stamped, Safe config state.dirs entry

section Ingest

variable {config : Config} {thread : ℕ}

theorem stable_durable {stamped : List Entry} :
    Steady config thread (Durable config thread stamped) := by
  intro before after _ _ hrely hdurable
  refine ⟨hrely.running hdurable.running, hrely.inflight _ hdurable.inflight, fun entry hentry ↦ ?_⟩
  obtain ⟨hour, hrow⟩ := hdurable.safe entry hentry
  exact ⟨hour, (hrely.dirs hour).safeRows.subset hrow⟩

theorem unlockMu_ok {assertion : State → Prop} (hstable : Steady config thread assertion)
    (hunlocked : ∀ state, assertion state → assertion { state with mu := none }) :
    Verified config thread unlockMu
      (fun state ↦ HoldsMu config thread state ∧ assertion state)
      fun _ state ↦ state.phase = .running ∧ assertion state := by
  refine Prog.Ok.atomically (stable_holdsMu.and hstable) ?_
  exact fun _ state hstate ⟨hholds, hassertion⟩ _ _ ↦
    ⟨unlockMu_guarantee hstate hholds, hholds.1.1, hunlocked state hassertion⟩

/-- What is known about the batch that was written, if one was. -/
def Written (config : Config) (thread : ℕ) (written : Option (ℕ × List Entry)) (state : State) : Prop :=
  ∀ hour stamped, written = some (hour, stamped) → Pending config thread hour stamped state

theorem stable_written {written : Option (ℕ × List Entry)} :
    Steady config thread (Written config thread written) :=
  fun before after hbefore hafter hrely hwritten hour stamped hsome ↦
    stable_pending before after hbefore hafter hrely (hwritten hour stamped hsome)

section

variable (hzstd : config.zstd.Faithful)

include hzstd

theorem writeStep_ok {entries : List Entry} (hstorable : ∀ entry ∈ entries, Storable entry) :
    Verified config thread (act (fun _ state ↦
        if segmentHasRoom state.entryCount entries.length then state.write config thread entries
        else state)
      fun state ↦
        if segmentHasRoom state.entryCount entries.length then
          some (state.segmentHour, state.stamped entries)
        else none) (HoldsMu config thread)
      fun written state ↦ HoldsMu config thread state ∧ Written config thread written state := by
  refine Prog.Ok.atomically stable_holdsMu ?_
  intro _ state hstate hholds _ _
  have hroom := segmentHasRoom_natCast state.entryCount entries.length
  dsimp only
  generalize segmentHasRoom state.entryCount entries.length = room at hroom ⊢
  cases room with
  | false =>
    exact ⟨⟨hstate, fun other _ ↦ Rely.refl config other state⟩, hholds, fun _ _ hsome ↦ by
      cases hsome⟩
  | true =>
    obtain ⟨hguarantee, hheld, hpending⟩ := write_ok hzstd hstate hholds (hroom.mp rfl) hstorable
    refine ⟨hguarantee, hheld, fun hour stamped hsome ↦ ?_⟩
    cases hsome
    exact hpending

theorem syncStep_ok {hour : ℕ} {stamped : List Entry} :
    Verified config thread (change fun state ↦ if state.segmentHour = hour then state.sync else state) (Pending config thread hour stamped)
      fun _ ↦ Durable config thread stamped := by
  refine Prog.Ok.atomically stable_pending ?_
  intro _ state hstate hpending _ _
  dsimp only
  by_cases hhere : state.segmentHour = hour
  · rw [if_pos hhere]
    subst hhere
    obtain ⟨hguarantee, hgrows, hsafe⟩ := sync_ok hzstd hstate hpending.running
    refine ⟨hguarantee, ?_, ?_, fun entry hentry ↦ ⟨state.segmentHour, ?_⟩⟩
    · rw [sync_eq]
      exact hpending.running
    · rw [sync_eq]
      exact hpending.inflight
    · rw [hsafe]
      exact hgrows.rows.subset (hpending.placed entry hentry)
  · rw [if_neg hhere]
    exact ⟨⟨hstate, fun other _ ↦ Rely.refl config other state⟩, hpending.running,
      hpending.inflight, fun entry hentry ↦ ⟨hour, hpending.safe hhere entry hentry⟩⟩

theorem append_ok {entries : List Entry} (hstorable : ∀ entry ∈ entries, Storable entry) :
    Verified config thread (append config thread entries) (fun state ↦ state.phase = .running)
      fun result state ↦ state.phase = .running ∧
        ∀ stamped, result = some stamped → Durable config thread stamped state := by
  have hlock := @lockMu_ok config thread (fun _ ↦ True) Stable.true fun _ _ ↦ trivial
  refine (hlock.pre fun _ _ hrunning ↦ ⟨hrunning, trivial⟩).bind fun _ ↦ ?_
  refine ((writeStep_ok hzstd hstorable).pre fun _ _ hholds ↦ hholds.1).bind fun written ↦ ?_
  refine (unlockMu_ok stable_written fun state hwritten hour stamped hsome ↦ ?_).bind fun _ ↦ ?_
  · obtain ⟨hrunning, hinflight, hplaced, hsafe⟩ := hwritten hour stamped hsome
    exact ⟨hrunning, hinflight, hplaced, hsafe⟩
  cases written with
  | none => exact Prog.Ok.ret fun _ _ ⟨hrunning, _⟩ ↦ ⟨hrunning, fun _ hsome ↦ by cases hsome⟩
  | some written =>
    obtain ⟨hour, stamped⟩ := written
    have hsync := @syncStep_ok config thread hzstd hour stamped
    refine (hsync.pre fun state _ ⟨_, hwritten⟩ ↦ hwritten hour stamped rfl).bind fun _ ↦ ?_
    refine Prog.Ok.ret fun _ _ hdurable ↦ ⟨hdurable.running, fun _ hsome ↦ ?_⟩
    cases hsome
    exact hdurable

end

/-- The ledger after a batch was acknowledged. -/
theorem Ledger.acknowledge {dirs : ℕ → Dir} {acked stamped : List Entry}
    {inflight : List (ℕ × List Entry)} (hledger : Ledger config dirs acked inflight)
    (hbatch : (thread, stamped) ∈ inflight) (hsafe : ∀ entry ∈ stamped, Safe config dirs entry) :
    Ledger config dirs (acked ++ stamped) (inflight.filter fun batch ↦ batch.1 ≠ thread) where
  safe := fun entry hentry ↦ (mem_append.mp hentry).elim (hledger.safe entry) (hsafe entry)
  placed := fun batch hmem ↦ hledger.placed batch (mem_of_mem_filter hmem)
  ids := by
    obtain ⟨before, after, rfl⟩ := mem_iff_append.mp hbatch
    have hfront : (acked ++ (before ++ (thread, stamped) :: after).flatMap Prod.snd).Perm
        (acked ++ stamped ++ (before ++ after).flatMap Prod.snd) := by
      rw [append_assoc, flatMap_append, flatMap_append]
      exact (perm_append_comm_assoc _ stamped _).append_left acked
    have hids := hledger.ids
    rw [(hfront.map Entry.id).nodup_iff] at hids
    refine hids.sublist ((Sublist.append_left ?_ _).map _)
    have hfilter : (before ++ (thread, stamped) :: after).filter (fun batch ↦ batch.1 ≠ thread) =
        (before ++ after).filter fun batch ↦ batch.1 ≠ thread := by
      simp
    rw [hfilter]
    exact filter_sublist.flatMap _

theorem acknowledge_ok {stamped : List Entry} :
    Verified config thread (change (State.acknowledge thread stamped))
      (Durable config thread stamped) fun _ state ↦ state.phase = .running := by
  refine Prog.Ok.atomically stable_durable ?_
  intro _ state hstate hdurable _ _
  have hledger := hstate.ledger.acknowledge hdurable.inflight hdurable.safe
  refine ⟨⟨{ hstate with ledger := hledger, idle := fun hphase ↦ absurd hdurable.running hphase },
    fun other hother ↦ Rely.memory hdurable.running rfl (fun batch hbatch ↦ ?_) (fun _ ↦ rfl)
      fun _ ↦ ⟨rfl, rfl, rfl⟩⟩, hdurable.running⟩
  exact mem_filter.mpr ⟨hbatch, by simpa using hother⟩

end Ingest

end OpenTrace.Engine.Store
