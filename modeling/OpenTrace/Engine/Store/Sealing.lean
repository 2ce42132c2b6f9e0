import OpenTrace.Engine.Store.Invariant

/-!
# Sealing a rotated WAL

`Seal` as a sequence of file-system steps, each of which keeps the rows of the hour: they are in the
WAL until the marker is written, and in the chunks from then on. The thread that seals is the one
inside `sealMu`, or the one that opens the store. `sealDir_ok` says what a finished `Seal` leaves
behind.
-/

namespace OpenTrace.Engine.Store

open Library Encoding Chunk Wal List Function

/-! ### Ownership -/

/-- The thread may change the directories of hours other than the writer's. -/
def Owns (thread : ℕ) (state : State) : Prop :=
  state.phase = .opening thread ∨ state.phase = .running ∧ state.sealMu = some thread

abbrev Owned (thread : ℕ) (assertion : State → Prop) (state : State) : Prop :=
  Owns thread state ∧ assertion state

/-- What others leave to the owner. -/
structure Kept (before after : State) : Prop where
  clock : before.clock ≤ after.clock
  phase : after.phase = before.phase
  sealMu : after.sealMu = before.sealMu
  segmentHour : after.segmentHour = before.segmentHour
  pendingSeals : after.pendingSeals = before.pendingSeals
  segments : after.segments = before.segments
  names : after.names = before.names
  others : ∀ hour, hour ≠ before.segmentHour → after.dirs hour = before.dirs hour
  here : (before.dirs before.segmentHour).SameFiles (after.dirs before.segmentHour)

variable {thread : ℕ} {before after : State}

theorem Owns.kept {config : Config} (howns : Owns thread before)
    (hrely : Rely config thread before after) : Kept before after := by
  rcases howns with hopening | ⟨hrunning, hsealMu⟩
  · have hsame := hrely.opening hopening
    rw [hsame]
    exact ⟨hrely.clock, rfl, rfl, rfl, rfl, rfl, rfl, fun _ _ ↦ rfl, Dir.SameFiles.refl _⟩
  · have hkept := hrely.sealMu hsealMu
    exact ⟨hrely.clock, (hrely.running hrunning).trans hrunning.symm, hkept.sealMu,
      hkept.segmentHour, hkept.pendingSeals, hkept.segments, hkept.names, hkept.others, hkept.here⟩

theorem Kept.owns (hkept : Kept before after) (howns : Owns thread before) : Owns thread after := by
  rw [Owns, hkept.phase, hkept.sealMu]
  exact howns

theorem stable_owned {config : Config} {assertion : State → Prop}
    (hassertion : ∀ before after, Kept before after → assertion before → assertion after) :
    Steady config thread (Owned thread assertion) := by
  rintro before after - - hrely ⟨howns, hholds⟩
  have hkept := howns.kept hrely
  exact ⟨hkept.owns howns, hassertion before after hkept hholds⟩

/-! ### One step -/

/-- The directory of a rotated WAL, which the owner is about to change. -/
structure Rotated (hour : ℕ) (state : State) : Prop where
  segmentHour : hour ≠ state.segmentHour
  running : state.phase = .running → hour < state.segmentHour ∧ hour ∈ state.pendingSeals
  active : (state.dirs hour).active = none
  sealing : (state.dirs hour).sealing.isSome

theorem Rotated.kept {hour : ℕ} (hkept : Kept before after) (hrotated : Rotated hour before) :
    Rotated hour after where
  segmentHour := hkept.segmentHour ▸ hrotated.segmentHour
  running := by
    rw [hkept.phase, hkept.segmentHour, hkept.pendingSeals]
    exact hrotated.running
  active := hkept.others hour hrotated.segmentHour ▸ hrotated.active
  sealing := hkept.others hour hrotated.segmentHour ▸ hrotated.sealing

section Step

variable {config : Config} {thread hour : ℕ} {state : State} {dir : Dir}

variable {other : ℕ} {dirs : ℕ → Dir}

theorem dirs_setDir_of_ne (hother : other ≠ hour) :
    (state.setDir hour dir).dirs other = state.dirs other :=
  update_of_ne hother ..

@[simp] theorem dirs_setDir_self : (state.setDir hour dir).dirs hour = dir := update_self ..

theorem dirGrows_setDir (hgrows : DirGrows config (state.dirs hour) dir) (other : ℕ) :
    DirGrows config (state.dirs other) ((state.setDir hour dir).dirs other) :=
  (forall_update_iff state.dirs fun other after ↦ DirGrows config (state.dirs other) after).mpr
    ⟨hgrows, fun _ _ ↦ DirGrows.refl config _⟩ other

theorem Ledger.grow {dirs dirs' : ℕ → Dir} {acked : List Entry} {inflight : List (ℕ × List Entry)}
    (hdirs : ∀ hour, DirGrows config (dirs hour) (dirs' hour))
    (hledger : Ledger config dirs acked inflight) : Ledger config dirs' acked inflight where
  safe := fun entry hentry ↦ by
    obtain ⟨hour, hrow⟩ := hledger.safe entry hentry
    exact ⟨hour, (hdirs hour).safeRows.subset hrow⟩
  placed := fun batch hbatch entry hentry ↦ by
    obtain ⟨hour, hrow⟩ := hledger.placed batch hbatch entry hentry
    exact ⟨hour, (hdirs hour).rows.subset hrow⟩
  ids := hledger.ids

theorem Disk.setDir {clock : ℕ} {names : List ℕ} (hdisk : Disk config clock dirs names)
    (hdir : DirOk config hour dir) (hfilled : dir.Unsealed config [] → hour < clock / 3600000)
    (hnamed : ¬ dir.Vacant → hour ∈ names)
    (hlayout : ∃ frontier, Layout clock (update dirs hour dir) frontier) :
    Disk config clock (update dirs hour dir) names where
  dir := (forall_update_iff dirs (DirOk config)).mpr ⟨hdir, fun other _ ↦ hdisk.dir other⟩
  filled := (forall_update_iff dirs fun other dir ↦ dir.Unsealed config [] → other < clock / 3600000).mpr
    ⟨hfilled, fun other _ ↦ hdisk.filled other⟩
  named := (forall_update_iff dirs fun other dir ↦ ¬ dir.Vacant → other ∈ names).mpr
    ⟨hnamed, fun other _ ↦ hdisk.named other⟩
  nodup := hdisk.nodup
  layout := hlayout

/-- The index stays when the rows of a pending hour stay. -/
theorem Index.setPending {segmentHour : ℕ} {pendingSeals : List ℕ} {segments : List LoadedSegment}
    (hindex : Index config dirs segmentHour pendingSeals segments) (hpending : hour ∈ pendingSeals)
    (hactive : dir.active = none) :
    Index config (update dirs hour dir) segmentHour pendingSeals segments := by
  have hhour := (hindex.pending hour hpending).1
  refine { hindex with complete := ?_, active := ?_, registered := ?_, covered := ?_ }
  · rw [update_of_ne hhour.symm]
    exact hindex.complete
  · intro other hother
    by_cases hsame : other = hour
    · rw [hsame, update_self]
      exact hactive
    · rw [update_of_ne hsame]
      exact hindex.active other hother
  · intro loaded hloaded
    rw [update_of_ne ((hindex.pending hour hpending).2 loaded hloaded)]
    exact hindex.registered loaded hloaded
  · intro other hrows
    by_cases hsame : other = hour
    · exact .inr (.inr (.inl (hsame ▸ hpending)))
    · rw [update_of_ne hsame] at hrows ⊢
      exact hindex.covered other hrows

theorem Live.setDir {segmentHour entryCount : ℕ} {handle : Handle}
    (hlive : Live config dirs segmentHour entryCount handle) (hbelow : hour < segmentHour) :
    Live config (update dirs hour dir) segmentHour entryCount handle where
  handle := hlive.handle
  file := by
    rw [update_of_ne hbelow.ne']
    exact hlive.file
  sealing := by
    rw [update_of_ne hbelow.ne']
    exact hlive.sealing
  above := fun other hother ↦ by
    rw [update_of_ne (hbelow.trans hother).ne']
    exact hlive.above other hother

theorem Flushed.setDir {segmentHour : ℕ} {handle : Handle}
    (hflushed : Flushed config dirs segmentHour handle) (hhour : hour ≠ segmentHour) :
    Flushed config (update dirs hour dir) segmentHour handle := by
  rw [Flushed, update_of_ne hhour.symm]
  exact hflushed

theorem Owns.not_opening (howns : Owns thread state) (hother : other ≠ thread) :
    state.phase ≠ .opening other := by
  rcases howns with hopening | ⟨hrunning, -⟩
  · rw [hopening]
    exact fun hsame ↦ hother (Phase.opening.inj hsame).symm
  · simp [hrunning]

variable (hstate : Sound config state)

include hstate

theorem Owns.not_sealMu (howns : Owns thread state)
    (hother : other ≠ thread) : state.sealMu ≠ some other := by
  rcases howns with hopening | ⟨-, hsealMu⟩
  · rw [(hstate.idle (by simp [hopening])).2.1]
    simp
  · rw [hsealMu]
    exact fun hsame ↦ hother (Option.some.inj hsame).symm

theorem Sound.running_of_mu (hmu : state.mu = some other) : state.phase = .running := by
  by_contra hphase
  rw [(hstate.idle hphase).1] at hmu
  cases hmu

theorem Rotated.filled (hrotated : Rotated hour state)
    (hgrows : DirGrows config (state.dirs hour) dir) (hempty : dir.Unsealed config []) :
    hour < state.hour := by
  obtain ⟨file, hsealing⟩ := Option.isSome_iff_exists.mp hrotated.sealing
  have hcomplete : (state.dirs hour).complete = false := by
    by_contra hmarked
    have hafter := (hgrows.complete (Bool.not_eq_false _ ▸ hmarked)).1
    exact absurd (hafter.symm.trans hempty.complete) (by simp)
  obtain ⟨file', hsealing', hfile'⟩ := hempty.file
  have hrows := hgrows.rows
  rw [(Dir.rows_of_sealing _ hcomplete hsealing).1,
    (Dir.rows_of_sealing _ hempty.complete hsealing').1, hfile'] at hrows
  exact hstate.disk.filled hour ⟨hcomplete, file, hsealing, prefix_nil.mp hrows⟩

/-- A step of the owner on the directory of a rotated WAL. -/
theorem Rotated.guarantee (howns : Owns thread state)
    (hrotated : Rotated hour state) (hactive : dir.active = none) (hdir : DirOk config hour dir)
    (hgrows : DirGrows config (state.dirs hour) dir)
    (hkept : dir.complete = true ∨ dir.sealing.isSome ∨ hour < state.hour) :
    Guarantee (Sound config) (Rely config) thread state (state.setDir hour dir) := by
  have hdirs := dirGrows_setDir hgrows
  have hwal : (state.setDir hour dir).dirs state.segmentHour = state.dirs state.segmentHour :=
    dirs_setDir_of_ne hrotated.segmentHour.symm
  obtain ⟨frontier, hlayout⟩ := hstate.disk.layout
  refine ⟨{ disk := ?_, ledger := hstate.ledger.grow hdirs, idle := hstate.idle, index := ?_,
            atRest := ?_, flushed := ?_, live := ?_, settled := ?_, log := hstate.log }, fun other hother ↦
          { clock := le_rfl, dirs := hdirs, moved := fun _ ↦ absurd rfl
            inflight := fun _ hbatch ↦ hbatch, running := id, opening := ?_, mu := ?_, sealMu := ?_ }⟩
  · refine hstate.disk.setDir hdir (hrotated.filled hstate hgrows) (fun _ ↦ hstate.disk.named hour fun hvacant ↦ ?_)
      ⟨frontier, hlayout.setBelow (hlayout.below_of_sealing hrotated.sealing) hactive hkept⟩
    have hsealing := hrotated.sealing
    simp [hvacant.sealing] at hsealing
  · intro hphase other
    by_cases hsame : other = hour
    · subst hsame
      rw [dirs_setDir_self]
      exact hdir.safeRows_eq hactive
    · rw [dirs_setDir_of_ne hsame]
      exact hstate.atRest hphase other
  · exact fun hrunning ↦ (hstate.index hrunning).setPending (hrotated.running hrunning).2 hactive
  · exact fun hrunning ↦ (hstate.flushed hrunning).setDir hrotated.segmentHour
  · exact fun hrunning hmu ↦ (hstate.live hrunning hmu).setDir (hrotated.running hrunning).1
  · intro hrunning hfree
    rcases howns with hopening | ⟨-, hsealMu⟩
    · cases hopening.symm.trans hrunning
    · cases hsealMu.symm.trans hfree
  · exact fun hopening ↦ absurd hopening (howns.not_opening hother)
  · intro hmu
    have hbelow := (hrotated.running (hstate.running_of_mu hmu)).1
    refine ⟨rfl, rfl, rfl, rfl, ?_, ?_, ?_, fun later hlater ↦ ?_⟩
    · rw [SameContent, hwal]
    · rw [hwal]
    · rw [hwal]
    · exact dirs_setDir_of_ne (hbelow.trans hlater).ne'
  · exact fun hsealMu ↦ absurd hsealMu (howns.not_sealMu hstate hother)

end Step

/-! ### The steps of Seal -/

section Dirs

variable {config : Config} {hour : ℕ} {dir : Dir} {rows : List Entry}

/-- Chunks and metadata do not count before the marker is there. -/
theorem Dir.Unsealed.scratch (hdir : DirOk config hour dir) (hunsealed : dir.Unsealed config rows)
    (chunks : List (List Entry)) (segment : Option SegmentMeta) :
    let after := { dir with chunks := chunks, segmentMeta := segment }
    DirOk config hour after ∧ DirGrows config dir after ∧ after.Unsealed config rows := by
  have hcomplete := hunsealed.complete
  refine ⟨⟨hdir.active, hdir.sealing, fun hmarked ↦ ?_, ?_⟩, ⟨?_, ?_, fun hmarked ↦ ?_⟩,
    ⟨hcomplete, hunsealed.file⟩⟩
  · exact absurd (hmarked.symm.trans hcomplete) (by simp)
  · exact hdir.named.imp (fun hvacant ↦ ⟨hvacant.active, hvacant.sealing, hvacant.complete⟩) id
  · simp [Dir.rows, hcomplete]
  · simp [Dir.safeRows, hcomplete]
  · exact absurd (hmarked.symm.trans hcomplete) (by simp)

/-- The marker makes the chunks count. -/
theorem Dir.Unsealed.mark (hzstd : config.zstd.Faithful) (hdir : DirOk config hour dir)
    (hunsealed : dir.Unsealed config rows) (hrows : rows ≠ []) (hstores : dir.Stores config rows) :
    let after := { dir with complete := true }
    DirOk config hour after ∧ DirGrows config dir after := by
  obtain ⟨file, hsealing, hfile⟩ := hunsealed.file
  obtain ⟨hbefore, hsafe⟩ := Dir.rows_of_sealing config.zstd hunsealed.complete hsealing
  have hafter : Dir.rows config.zstd { dir with complete := true } = rows ∧
      Dir.safeRows config.zstd { dir with complete := true } = rows := by
    have hstored : Dir.chunkRows { dir with complete := true } = rows := hstores.chunkRows
    simp [Dir.rows, Dir.safeRows, hstored]
  refine ⟨⟨hdir.active, hdir.sealing, fun _ ↦
    ⟨rows, hrows, ?_, ⟨hstores.segmentMeta, hstores.chunks⟩, ?_⟩, ?_⟩, ?_, ?_, fun hmarked ↦ ?_⟩
  · rw [← hfile, ← hbefore]
    exact hdir.positioned hzstd
  · intro other hother
    rw [← hfile, Option.some.inj (hsealing.symm.trans hother)]
  · refine .inr (hdir.named.resolve_left fun hvacant ↦ ?_)
    cases hvacant.sealing.symm.trans hsealing
  · rw [hafter.1, hbefore, hfile]
  · rw [hafter.2, ← hfile, ← hbefore]
    exact hdir.safeRows_initial hzstd
  · exact absurd (hmarked.symm.trans hunsealed.complete) (by simp)

/-- The WAL of a sealed hour, or one without rows, can go. -/
theorem dirOk_removeSealing (hzstd : config.zstd.Faithful) (hdir : DirOk config hour dir)
    (hspare : dir.complete = true ∨ dir.Unsealed config []) :
    let after := { dir with sealing := none }
    DirOk config hour after ∧ DirGrows config dir after := by
  refine ⟨⟨hdir.active, by simp, fun hmarked ↦ ?_, ?_⟩, ?_⟩
  · obtain ⟨rows, hrows, hpositioned, hstores, -⟩ := hdir.complete hmarked
    exact ⟨rows, hrows, hpositioned, ⟨hstores.segmentMeta, hstores.chunks⟩, by simp⟩
  · exact hdir.named.imp (fun hvacant ↦ ⟨hvacant.active, rfl, hvacant.complete⟩) id
  · rcases hspare with hcomplete | hempty
    · refine ⟨?_, ?_, fun _ ↦ ⟨hcomplete, rfl, rfl⟩⟩
      · rw [(Dir.rows_of_complete _ hcomplete).1]
        simp [Dir.rows, hcomplete, Dir.chunkRows]
      · rw [(Dir.rows_of_complete _ hcomplete).2]
        simp [Dir.safeRows, hcomplete, Dir.chunkRows]
    · obtain ⟨file, hsealing, hfile⟩ := hempty.file
      have hrows : dir.rows config.zstd = [] :=
        (Dir.rows_of_sealing _ hempty.complete hsealing).1.trans hfile
      have hsafe : dir.safeRows config.zstd = [] :=
        prefix_nil.mp (hrows ▸ hdir.safeRows_initial hzstd)
      refine ⟨hrows ▸ nil_prefix, hsafe ▸ nil_prefix, fun hmarked ↦ ?_⟩
      exact absurd (hmarked.symm.trans hempty.complete) (by simp)

end Dirs

/-! ### Seal -/

theorem prefix_writeChunk {written chunks : List (List Entry)} {rows : List Entry}
    (hwritten : written <+: chunks) :
    written ++ [rows] <+: chunks.take written.length ++ rows :: chunks.drop (written.length + 1) := by
  rw [← prefix_iff_eq_take.mp hwritten]
  exact ⟨chunks.drop (written.length + 1), by simp⟩

/-- What the caller of `Seal` keeps through the call: it does not depend on the directory of the hour,
and others leave it alone. -/
structure Framed (config : Config) (thread hour : ℕ) (frame : State → Prop) : Prop where
  kept : ∀ before after, Rely config thread before after → Owns thread before → frame before →
    frame after
  setDir : ∀ (state : State) (dir : Dir), dir.active = none → frame state → frame (state.setDir hour dir)

/-- The owner is sealing an hour, and its directory is in a known condition. -/
def SealingDir (thread hour : ℕ) (condition : Dir → Prop) (frame : State → Prop) (state : State) :
    Prop :=
  Owns thread state ∧ ((Rotated hour state ∧ condition (state.dirs hour)) ∧ frame state)

section Seal

variable {config : Config} {thread hour : ℕ} {frame : State → Prop}
  (hframe : Framed config thread hour frame) {condition condition' : Dir → Prop}

include hframe

theorem stable_sealingDir : Steady config thread (SealingDir thread hour condition frame) := by
  rintro before after - - hrely ⟨howns, ⟨hrotated, hcondition⟩, hframed⟩
  have hkept := howns.kept hrely
  refine ⟨hkept.owns howns, ⟨hrotated.kept hkept, ?_⟩, hframe.kept before after hrely howns hframed⟩
  rw [hkept.others hour hrotated.segmentHour]
  exact hcondition

theorem changeDir_ok {update : Dir → Dir}
    (hupdate : ∀ dir, DirOk config hour dir → dir.active = none → dir.sealing.isSome →
      condition dir → (DirOk config hour (update dir) ∧ DirGrows config dir (update dir)) ∧
        ((update dir).active = none ∧ (update dir).sealing.isSome) ∧ condition' (update dir)) :
    Verified config thread (changeDir hour update) (SealingDir thread hour condition frame)
      fun _ ↦ SealingDir thread hour condition' frame := by
  refine Prog.Ok.atomically (stable_sealingDir hframe) ?_
  rintro _ state hstate ⟨howns, ⟨hrotated, hcondition⟩, hframed⟩ - -
  obtain ⟨⟨hdir, hgrows⟩, ⟨hactive, hsealing⟩, hafter⟩ :=
    hupdate _ (hstate.disk.dir hour) hrotated.active hrotated.sealing hcondition
  refine ⟨hrotated.guarantee hstate howns hactive hdir hgrows (.inr (.inl hsealing)), howns,
    ⟨⟨hrotated.segmentHour, hrotated.running, ?_, ?_⟩, ?_⟩, hframe.setDir _ _ hactive hframed⟩
  · rw [dirs_setDir_self, hactive]
  · rw [dirs_setDir_self, hsealing]
  · rwa [dirs_setDir_self]

theorem writeChunks_ok {rows : List Entry} {written remaining : List (List Entry)} :
    Verified config thread (writeChunks hour written.length remaining)
      (SealingDir thread hour (fun dir ↦ dir.Unsealed config rows ∧ written <+: dir.chunks) frame)
      fun _ ↦ SealingDir thread hour
        (fun dir ↦ dir.Unsealed config rows ∧ written ++ remaining <+: dir.chunks) frame := by
  induction remaining generalizing written with
  | nil =>
    rw [append_nil]
    exact Prog.Ok.ret fun _ _ hholds ↦ hholds
  | cons group remaining ih =>
    have hwrite : Verified config thread (changeDir hour (Dir.writeChunk written.length group))
        (SealingDir thread hour (fun dir ↦ dir.Unsealed config rows ∧ written <+: dir.chunks) frame)
        fun _ ↦ SealingDir thread hour
          (fun dir ↦ dir.Unsealed config rows ∧ written ++ [group] <+: dir.chunks) frame := by
      refine changeDir_ok hframe fun dir hdir hactive hsealing hcondition ↦ ?_
      obtain ⟨hok, hgrows, hunsealed⟩ := hcondition.1.scratch hdir
        (dir.chunks.take written.length ++ group :: dir.chunks.drop (written.length + 1))
        dir.segmentMeta
      exact ⟨⟨hok, hgrows⟩, ⟨hactive, hsealing⟩, hunsealed, prefix_writeChunk hcondition.2⟩
    refine hwrite.bind fun _ ↦ ?_
    have hrest := @ih (written ++ [group])
    rw [length_append, append_assoc] at hrest
    exact hrest

/-- The directory after `Seal`. -/
structure Dir.Sealed (config : Config) (rows : List Entry) (result : SealResult) (dir : Dir) :
    Prop where
  active : dir.active = none
  sealing : dir.sealing = none
  empty : rows = [] → result = .empty ∧ dir.complete = false
  segment : rows ≠ [] → result = .segment (sealMeta config.physical rows) ∧ dir.complete = true ∧
    dir.segmentMeta = some (sealMeta config.physical rows)

variable (hzstd : config.zstd.Faithful)

include hzstd

/-- The last step of `Seal`. -/
theorem removeSealing_ok {rows : List Entry} {result : SealResult}
    (hspare : ∀ dir, condition dir → dir.complete = true ∨ dir.Unsealed config [])
    (hpast : ∀ state dir, frame state → condition dir → dir.complete = true ∨ hour < state.hour)
    (hsealed : ∀ dir, dir.active = none → condition dir →
      Dir.Sealed config rows result { dir with sealing := none }) :
    Verified config thread (change (State.removeSealing hour))
      (SealingDir thread hour condition frame)
      fun _ state ↦ Owns thread state ∧ ((hour ≠ state.segmentHour ∧
        Dir.Sealed config rows result (state.dirs hour)) ∧ frame state) := by
  refine Prog.Ok.atomically (stable_sealingDir hframe) ?_
  rintro _ state hstate ⟨howns, ⟨hrotated, hcondition⟩, hframed⟩ - -
  have hremove : state.removeSealing hour =
      state.setDir hour { state.dirs hour with sealing := none } := by
    rw [State.removeSealing, if_neg fun hhere ↦ hrotated.segmentHour hhere.1.symm]
    rfl
  obtain ⟨hdir, hgrows⟩ := dirOk_removeSealing hzstd (hstate.disk.dir hour) (hspare _ hcondition)
  rw [hremove]
  refine ⟨hrotated.guarantee hstate howns hrotated.active hdir hgrows
    ((hpast state _ hframed hcondition).imp id .inr), howns, ⟨hrotated.segmentHour, ?_⟩,
    hframe.setDir _ _ hrotated.active hframed⟩
  rw [dirs_setDir_self]
  exact hsealed _ hrotated.active hcondition

/-- The end of `Seal`, once the chunks are written: the metadata, the marker, and the WAL goes. -/
theorem sealRows_ok {rows : List Entry} (hrows : rows ≠ []) : Verified config thread (do
      changeDir hour fun dir ↦ { dir with segmentMeta := some (sealMeta config.physical rows) }
      changeDir hour fun dir ↦ { dir with complete := true }
      change (State.removeSealing hour)
      return SealResult.segment (sealMeta config.physical rows))
      (SealingDir thread hour
        (fun dir ↦ dir.Unsealed config rows ∧ rowGroups config.physical rows <+: dir.chunks) frame)
      fun result state ↦ Owns thread state ∧ ((hour ≠ state.segmentHour ∧
        Dir.Sealed config rows result (state.dirs hour)) ∧ frame state) := by
  have hmeta : Verified config thread (changeDir hour fun dir ↦
      { dir with segmentMeta := some (sealMeta config.physical rows) })
      (SealingDir thread hour
        (fun dir ↦ dir.Unsealed config rows ∧ rowGroups config.physical rows <+: dir.chunks) frame)
      fun _ ↦ SealingDir thread hour
        (fun dir ↦ dir.Unsealed config rows ∧ dir.Stores config rows) frame := by
    refine changeDir_ok hframe fun dir hdir hactive hsealing hcondition ↦ ?_
    obtain ⟨hok, hgrows, hunsealed⟩ := hcondition.1.scratch hdir dir.chunks
      (some (sealMeta config.physical rows))
    exact ⟨⟨hok, hgrows⟩, ⟨hactive, hsealing⟩, hunsealed, rfl, hcondition.2⟩
  have hmark : Verified config thread (changeDir hour fun dir ↦ { dir with complete := true })
      (SealingDir thread hour (fun dir ↦ dir.Unsealed config rows ∧ dir.Stores config rows) frame)
      fun _ ↦ SealingDir thread hour
        (fun dir ↦ dir.complete = true ∧ dir.Stores config rows) frame := by
    refine changeDir_ok hframe fun dir hdir hactive hsealing hcondition ↦ ?_
    exact ⟨hcondition.1.mark hzstd hdir hrows hcondition.2, ⟨hactive, hsealing⟩, rfl,
      hcondition.2.segmentMeta, hcondition.2.chunks⟩
  refine hmeta.bind fun _ ↦ hmark.bind fun _ ↦ ?_
  refine (removeSealing_ok hframe hzstd (fun dir hdir ↦ .inl hdir.1)
    (fun state dir _ hdir ↦ .inl hdir.1) ?_).bind fun _ ↦ Prog.Ok.ret fun _ _ hholds ↦ hholds
  exact fun dir hactive hdir ↦ ⟨hactive, rfl, fun hempty ↦ absurd hempty hrows, fun _ ↦
    ⟨rfl, hdir.1, hdir.2.segmentMeta⟩⟩

/-- A `Seal` of a rotated WAL succeeds: it moves the rows to chunks, or drops a WAL without rows.
Assumes: an hour without rows is past. -/
theorem sealDir_ok {rows : List Entry}
    (hpast : ∀ state, frame state → rows = [] → hour < state.hour) :
    Verified config thread (sealDir config hour)
      (SealingDir thread hour (fun dir ↦ dir.Unsealed config rows) frame)
      fun result state ↦ Owns thread state ∧ ((hour ≠ state.segmentHour ∧
        Dir.Sealed config rows result (state.dirs hour)) ∧ frame state) := by
  have hstart : Verified config thread (load fun state ↦ state.dirs hour)
      (SealingDir thread hour (fun dir ↦ dir.Unsealed config rows) frame) _ :=
    load_ok (stable_sealingDir hframe)
  refine hstart.bind fun dir ↦ ?_
  refine Prog.Ok.assume (fun state _ ⟨hholds, hdir⟩ ↦ hdir ▸ hholds.2.1.2)
    fun hunsealed : dir.Unsealed config rows ↦ ?_
  obtain ⟨file, hsealing, hfile⟩ := hunsealed.file
  simp only [hunsealed.complete, hsealing, hfile]
  have hwrite := @writeChunks_ok config thread hour frame hframe rows []
  refine (hwrite.pre fun state _ ⟨⟨howns, ⟨hrotated, hdir⟩, hframed⟩, _⟩ ↦
    ⟨howns, ⟨hrotated, hdir, nil_prefix⟩, hframed⟩).bind fun _ ↦ ?_
  refine Prog.Ok.ite (fun hrows ↦ ?_) fun hrows ↦ ?_
  · subst hrows
    refine (removeSealing_ok hframe hzstd (fun dir hdir ↦ .inr hdir.1)
      (fun state dir hframed _ ↦ .inr (hpast state hframed rfl)) ?_).bind
      fun _ ↦ Prog.Ok.ret fun _ _ hholds ↦ hholds
    exact fun dir hactive hdir ↦ ⟨hactive, rfl, fun _ ↦ ⟨rfl, hdir.1.complete⟩, fun hrows ↦
      absurd rfl hrows⟩
  · exact sealRows_ok hframe hzstd hrows

end Seal

end OpenTrace.Engine.Store
