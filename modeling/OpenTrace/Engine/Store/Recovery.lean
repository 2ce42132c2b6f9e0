import OpenTrace.Engine.Store.Opening

/-!
# Recovery of interrupted seals

`RecoverDir` and the loop of `scan` around it. The scan knows that outside the writer's directory an
active WAL is left over from an hour before the one it works at, so every directory that it passes ends
up sealed or without rows. `newStore_ok` puts the opening of the store together.
-/

namespace OpenTrace.Engine.Store

open Library Encoding Chunk Wal List Prog

/-! ### What the scan works on -/

/-- The writer is at `hour`; the scan treats every hour before `currentHour` as past. -/
structure Scanning (config : Config) (hour currentHour : ℕ) (state : State) : Prop where
  segmentHour : state.segmentHour = hour
  live : Live config state.dirs hour state.entryCount state.handle
  complete : (state.dirs hour).complete = false
  orphans : ∀ other, other ≠ hour → (state.dirs other).active.isSome →
    other < currentHour ∧ (state.dirs other).complete = false ∧ (state.dirs other).sealing = none
  reached : currentHour ≤ state.hour
  current : currentHour ≤ hour

/-- A directory without anything to recover. -/
structure Recovered (config : Config) (dir : Dir) : Prop where
  active : dir.active = none
  sealing : dir.sealing.isSome → dir.complete = true
  rows : dir.complete = false → dir.rows config.codec.zstd = []

/-- The scan is under way, with what else is known about the state. -/
def ScanFrame (config : Config) (thread hour currentHour : ℕ) (frame : State → Prop) (state : State) :
    Prop :=
  state.phase = .opening thread ∧ Scanning config hour currentHour state ∧ frame state

/-- Something that the clock does not affect. -/
def Timeless (frame : State → Prop) : Prop :=
  ∀ (state : State) (clock : ℕ), state.clock ≤ clock → frame state → frame { state with clock := clock }

/-- What else is known, and that an hour without rows is past. -/
abbrev PastFrame (frame : State → Prop) (other : ℕ) (rows : List Entry) (state : State) : Prop :=
  frame state ∧ (rows = [] → other < state.hour)

theorem Timeless.past {frame : State → Prop} (hframe : Timeless frame) (other : ℕ)
    (rows : List Entry) : Timeless (PastFrame frame other rows) :=
  fun state clock hclock ⟨hframed, hpast⟩ ↦ ⟨hframe state clock hclock hframed, fun hempty ↦
    (hpast hempty).trans_le (Nat.div_le_div_right hclock)⟩

section Scan

variable {config : Config} {thread hour currentHour other : ℕ} {frame : State → Prop}

theorem stable_scanFrame (hframe : Timeless frame) :
    Steady config thread (ScanFrame config thread hour currentHour frame) :=
  stable_opening fun state clock hclock ⟨hscan, hframed⟩ ↦
    ⟨{ hscan with reached := hscan.reached.trans (Nat.div_le_div_right hclock) },
      hframe state clock hclock hframed⟩

variable {dir : Dir}

theorem Scanning.setDir {state : State} (hscan : Scanning config hour currentHour state)
    (hbelow : other < hour) (hactive : dir.active = none) :
    Scanning config hour currentHour (state.setDir other dir) where
  segmentHour := hscan.segmentHour
  live := hscan.live.setDir hbelow
  complete := by
    rw [dirs_setDir_of_ne hbelow.ne']
    exact hscan.complete
  orphans := fun later hlater ↦ by
    by_cases hsame : later = other
    · subst hsame
      rw [dirs_setDir_self, hactive]
      exact fun hsome ↦ by cases hsome
    · rw [dirs_setDir_of_ne hsame]
      exact hscan.orphans later hlater
  reached := hscan.reached
  current := hscan.current

theorem framed_scanFrame (hbelow : other < hour) (hframe : Timeless frame)
    (hsetDir : ∀ (state : State) (dir : Dir), frame state → frame (state.setDir other dir)) :
    Framed config thread other (ScanFrame config thread hour currentHour frame) where
  kept := fun before after hrely _ hframed ↦ by
    have hopening := hframed.1
    rw [hrely.opening hopening]
    exact ⟨hopening, { hframed.2.1 with
      reached := hframed.2.1.reached.trans (Nat.div_le_div_right hrely.clock) },
      hframe before after.clock hrely.clock hframed.2.2⟩
  setDir := fun state dir hactive ⟨hopening, hscan, hframed⟩ ↦
    ⟨hopening, hscan.setDir hbelow hactive, hsetDir state dir hframed⟩

theorem recovered_vacant (hvacant : dir.Vacant) : Recovered config dir :=
  ⟨hvacant.active, by simp [hvacant.sealing], fun _ ↦ hvacant.rows _⟩

theorem Dir.Sealed.recovered {rows : List Entry} {result : SealResult}
    (hsealed : Dir.Sealed config rows result dir) : Recovered config dir :=
  ⟨hsealed.active, by simp [hsealed.sealing], fun hcomplete ↦ by
    simp [Dir.rows, hcomplete, hsealed.sealing, hsealed.active]⟩

/-- The WAL of an interrupted or late seal is sealed again. -/
theorem sealLate_ok (hzstd : config.zstd.Faithful) {rows : List Entry} (hbelow : other < hour)
    (hframe : Timeless frame)
    (hsetDir : ∀ (state : State) (dir : Dir), frame state → frame (state.setDir other dir)) :
    Verified config thread (do let _ ← sealDir config other; return () : Action Unit)
      (SealingDir thread other (fun dir ↦ dir.Unsealed config rows)
        (ScanFrame config thread hour currentHour (PastFrame frame other rows)))
      fun _ state ↦ ScanFrame config thread hour currentHour frame state ∧
        (other ≠ hour → Recovered config (state.dirs other)) := by
  have hscanFrame := @framed_scanFrame config thread hour currentHour other _ hbelow
    (hframe.past other rows) fun state dir ⟨hframed, hpast⟩ ↦ ⟨hsetDir state dir hframed, hpast⟩
  have hseal := sealDir_ok hscanFrame hzstd
    fun state hframed ↦ hframed.2.2.2
  refine hseal.bind fun _ ↦ Ok.ret fun state _ ⟨_, ⟨_, hsealed⟩, hopening, hscan, hframed⟩ ↦ ?_
  exact ⟨⟨hopening, hscan, hframed.1⟩, fun _ ↦ hsealed.recovered⟩

/-- The interrupted seal of an earlier process is cleaned up and done again. -/
theorem resealDir_ok (hzstd : config.zstd.Faithful) (hframe : Timeless frame)
    (hsetDir : other < hour → ∀ (state : State) (dir : Dir), frame state → frame (state.setDir other dir))
    (hcomplete : dir.complete = false) (hsealing : dir.sealing.isSome) :
    Verified config thread (do cleanIncompleteSeal other; let _ ← sealDir config other; return () : Action Unit)
      (fun state ↦ ScanFrame config thread hour currentHour frame state ∧ dir = state.dirs other)
      fun _ state ↦ ScanFrame config thread hour currentHour frame state ∧
        (other ≠ hour → Recovered config (state.dirs other)) := by
  obtain ⟨file, hfile⟩ := Option.isSome_iff_exists.mp hsealing
  have hposition : ∀ state, Sound config state →
      ScanFrame config thread hour currentHour frame state ∧ dir = state.dirs other →
      other < hour := by
    rintro state hstate ⟨⟨-, hscan, -⟩, rfl⟩
    by_contra hnot
    rcases Nat.eq_or_lt_of_le (not_lt.mp hnot) with rfl | habove
    · cases hscan.live.sealing.symm.trans hfile
    · cases (hscan.live.above other habove).sealing.symm.trans hfile
  refine Ok.assume hposition fun hbelow ↦ ?_
  let unsealed := SealingDir thread other
    (fun dir ↦ dir.Unsealed config (file.rows config.zstd))
    (ScanFrame config thread hour currentHour (PastFrame frame other (file.rows config.zstd)))
  have hclean : Verified config thread (cleanIncompleteSeal other) unsealed fun _ ↦ unsealed := by
    refine changeDir_ok (framed_scanFrame hbelow (hframe.past _ _) fun state dir ⟨hframed, hpast⟩ ↦
      ⟨hsetDir hbelow state dir hframed, hpast⟩) fun dir hdir hactive hsealing hunsealed ↦ ?_
    obtain ⟨hok, hgrows, hafter⟩ := hunsealed.scratch hdir [] none
    have hsame : ({ dir with chunks := [], segmentMeta := none, complete := false } : Dir) =
        { dir with chunks := [], segmentMeta := none } := by
      rw [hunsealed.complete]
    rw [hsame]
    exact ⟨⟨hok, hgrows⟩, ⟨hactive, hsealing⟩, hafter⟩
  refine (hclean.pre ?_).bind fun _ ↦ sealLate_ok hzstd hbelow hframe (hsetDir hbelow)
  rintro state hstate ⟨⟨hopening, hscan, hframed⟩, rfl⟩
  have hunsealed : (state.dirs other).Unsealed config (file.rows config.zstd) :=
    ⟨hcomplete, file, hfile, rfl⟩
  have hactive : (state.dirs other).active = none := by
    by_contra hsome
    have horphan := hscan.orphans other hbelow.ne (Option.isSome_iff_ne_none.mpr hsome)
    cases horphan.2.2.symm.trans hfile
  refine ⟨.inl hopening, ⟨⟨hscan.segmentHour ▸ hbelow.ne, fun hrunning ↦ ?_, hactive, hsealing⟩,
    hunsealed⟩, hopening, hscan, hframed, fun hempty ↦ ?_⟩
  · cases hopening.symm.trans hrunning
  · exact hstate.disk.filled other (hempty ▸ hunsealed)

/-- A WAL that an earlier process left active is renamed. -/
theorem renameOrphan_ok {file : WalFile} (hframe : Timeless frame)
    (hsetDir : other < hour → ∀ (state : State) (dir : Dir), frame state → frame (state.setDir other dir))
    (hcomplete : dir.complete = false) (hsealing : dir.sealing = none)
    (hactive : dir.active = some file) (hpast : other < currentHour) (hbelow : other < hour) :
    Verified config thread (change (State.renameActive other))
      (fun state ↦ ScanFrame config thread hour currentHour frame state ∧ dir = state.dirs other)
      fun _ ↦ SealingDir thread other (fun dir ↦ dir.Unsealed config (file.rows config.zstd))
        (ScanFrame config thread hour currentHour
          (PastFrame frame other (file.rows config.zstd))) := by
  refine Ok.atomically ?_ ?_
  · rintro before after hbefore hafter hrely ⟨hframed, hdir⟩
    refine ⟨stable_scanFrame hframe before after hbefore hafter hrely hframed, ?_⟩
    rw [hrely.opening hframed.1]
    exact hdir
  rintro _ state hstate ⟨⟨hopening, hscan, hframed⟩, rfl⟩ - -
  have hstopped : state.phase ≠ .running := by simp [hopening]
  obtain ⟨hdir, hgrows⟩ := renamed_dir (hstate.disk.dir other) hcomplete hsealing hactive
    (hstate.atRest hstopped other)
  obtain ⟨frontier, hlayout⟩ := hstate.disk.layout
  obtain ⟨current, entries, hcurrent, -, -⟩ := hscan.live.file
  have hfrontier := hlayout.at hscan.live.above (by simp [hcurrent]) hscan.live.sealing hscan.complete
  have hhour : other < state.hour := hpast.trans_le hscan.reached
  have hdisk := hstate.disk.setDir hdir (fun _ ↦ hhour)
    (fun _ ↦ hstate.disk.named other fun hvacant ↦ by cases hvacant.active.symm.trans hactive)
    ⟨hour, hfrontier.setBelow hbelow rfl (.inr (.inl rfl))⟩
  have hrename := @renameActive_eq state other file hactive fun hhere ↦
    absurd (hscan.segmentHour.symm.trans hhere) hbelow.ne'
  rw [hrename]
  refine ⟨opening_guarantee hstate hopening hgrows (hdir.safeRows_eq rfl) hdisk, .inl hopening,
    ⟨⟨hscan.segmentHour ▸ hbelow.ne, fun hrunning ↦ absurd hrunning hstopped, ?_, ?_⟩, ?_⟩, hopening,
    hscan.setDir hbelow rfl, hsetDir hbelow state _ hframed, fun _ ↦ hhour⟩ <;>
    rw [dirs_setDir_self]
  · rfl
  · exact ⟨hcomplete, file, rfl, rfl⟩

theorem recoverDir_ok (hzstd : config.zstd.Faithful) (hframe : Timeless frame)
    (hsetDir : other < hour → ∀ (state : State) (dir : Dir), frame state →
      frame (state.setDir other dir)) :
    Verified config thread (recoverDir config currentHour other)
      (ScanFrame config thread hour currentHour frame)
      fun _ state ↦ ScanFrame config thread hour currentHour frame state ∧
        (other ≠ hour → Recovered config (state.dirs other)) := by
  refine (load_ok (stable_scanFrame hframe)).bind fun dir ↦ Ok.ite (fun hcomplete ↦ ?_)
    fun hnot ↦ ?_
  · refine Ok.ret ?_
    rintro state - ⟨hframed, rfl⟩
    refine ⟨hframed, fun hother ↦ ⟨?_, fun _ ↦ hcomplete, fun hunmarked ↦ ?_⟩⟩
    · by_contra hsome
      have horphan := hframed.2.1.orphans other hother (Option.isSome_iff_ne_none.mpr hsome)
      simp [hcomplete] at horphan
    · simp [hcomplete] at hunmarked
  have hcomplete : dir.complete = false := by simpa using hnot
  refine Ok.ite (fun hunnamed ↦ ?_) fun _ ↦ Ok.ite (fun hsealing ↦ ?_) fun hnone ↦ ?_
  · refine Ok.ret ?_
    rintro state hstate ⟨hframed, rfl⟩
    refine ⟨hframed, fun _ ↦ recovered_vacant ((hstate.disk.dir other).named.resolve_right ?_)⟩
    intro hnamed
    rw [parseSegmentHour, if_pos hnamed] at hunnamed
    simp [nameable] at hnamed
    omega
  · exact resealDir_ok hzstd hframe hsetDir hcomplete hsealing
  have hsealing : dir.sealing = none := Option.not_isSome_iff_eq_none.mp hnone
  have hrecovered : dir.active = none → Recovered config dir := fun hactive ↦
    recovered_vacant ⟨hactive, hsealing, hcomplete⟩
  refine Ok.ite (fun hcurrent ↦ ?_) fun hpast ↦ Ok.ite (fun hinactive ↦ ?_) fun hsome ↦ ?_
  · refine Ok.ret ?_
    rintro state - ⟨hframed, rfl⟩
    refine ⟨hframed, fun hother ↦ hrecovered ?_⟩
    by_contra hactive
    have horphan := hframed.2.1.orphans other hother (Option.isSome_iff_ne_none.mpr hactive)
    omega
  · refine Ok.ret ?_
    rintro state - ⟨hframed, rfl⟩
    exact ⟨hframed, fun _ ↦ hrecovered (Option.isNone_iff_eq_none.mp hinactive)⟩
  · obtain ⟨file, hactive⟩ := Option.ne_none_iff_exists'.mp
      (fun hnone ↦ hsome (Option.isNone_iff_eq_none.mpr hnone))
    refine Ok.assume (fun state _ hholds ↦ hholds.1.2.1.current) fun hcurrent ↦ ?_
    have hbelow : other < hour := (not_le.mp hpast).trans_le hcurrent
    exact (renameOrphan_ok hframe hsetDir hcomplete hsealing hactive (not_le.mp hpast) hbelow).bind
      fun _ ↦ sealLate_ok hzstd hbelow hframe (hsetDir hbelow)

/-- The segment that the scan loads from a directory. -/
def loadSegment (dirs : ℕ → Dir) (hour : ℕ) : Option LoadedSegment :=
  match (dirs hour).complete, (dirs hour).segmentMeta with
  | true, some segment => some ⟨parseSegmentHour hour, segment⟩
  | _, _ => none

theorem scanDirs_ok (hzstd : config.zstd.Faithful) {hours : List ℕ} (hnodup : hours.Nodup)
    (hframe : Timeless frame)
    (hsetDir : ∀ other ∈ hours, other < hour → ∀ (state : State) (dir : Dir), frame state →
      frame (state.setDir other dir)) :
    Verified config thread (scanDirs config currentHour hours)
      (ScanFrame config thread hour currentHour frame)
      fun segments state ↦ ScanFrame config thread hour currentHour frame state ∧
        (∀ other ∈ hours, other ≠ hour → Recovered config (state.dirs other)) ∧
        segments = hours.filterMap (loadSegment state.dirs) := by
  induction hours generalizing frame with
  | nil => exact Ok.ret fun state _ hframed ↦ ⟨hframed, by simp, rfl⟩
  | cons first rest ih =>
    obtain ⟨hfirst, hrest⟩ := nodup_cons.mp hnodup
    let recovered : State → Prop := fun state ↦
      frame state ∧ (first ≠ hour → Recovered config (state.dirs first))
    have hrecover : Verified config thread (recoverDir config currentHour first)
        (ScanFrame config thread hour currentHour frame)
        fun _ ↦ ScanFrame config thread hour currentHour recovered :=
      (recoverDir_ok hzstd hframe (hsetDir first mem_cons_self)).post
        fun _ state _ ⟨⟨hopening, hscan, hframed⟩, hdone⟩ ↦ ⟨hopening, hscan, hframed, hdone⟩
    have hread : Verified config thread (load fun state ↦ state.dirs first)
        (ScanFrame config thread hour currentHour recovered) _ :=
      load_ok (stable_scanFrame fun state clock hclock ⟨hframed, hdone⟩ ↦
        ⟨hframe state clock hclock hframed, hdone⟩)
    refine hrecover.bind fun _ ↦ hread.bind fun dir ↦ ?_
    -- The other directories are recovered with this one known to stay as it is.
    have htail := @ih (fun state ↦ recovered state ∧ dir = state.dirs first) hrest
      (fun state clock hclock ⟨⟨hframed, hdone⟩, hdir⟩ ↦
        ⟨⟨hframe state clock hclock hframed, hdone⟩, hdir⟩)
      fun other hother hbelow state dir' ⟨⟨hframed, hdone⟩, hdir⟩ ↦ by
        have hdifferent : first ≠ other := fun hsame ↦ hfirst (hsame ▸ hother)
        refine ⟨⟨hsetDir other (mem_cons_of_mem _ hother) hbelow state dir' hframed, ?_⟩, ?_⟩ <;>
          rw [dirs_setDir_of_ne hdifferent]
        · exact hdone
        · exact hdir
    refine (htail.pre fun state _ ⟨⟨hopening, hscan, hframed⟩, hdir⟩ ↦
      ⟨hopening, hscan, hframed, hdir⟩).bind fun segments ↦ ?_
    have hresult : ∀ state, ScanFrame config thread hour currentHour
          (fun state ↦ recovered state ∧ dir = state.dirs first) state ∧
        (∀ other ∈ rest, other ≠ hour → Recovered config (state.dirs other)) ∧
        segments = rest.filterMap (loadSegment state.dirs) →
        ScanFrame config thread hour currentHour frame state ∧
        (∀ other ∈ first :: rest, other ≠ hour → Recovered config (state.dirs other)) ∧
        dir = state.dirs first ∧ segments = rest.filterMap (loadSegment state.dirs) := by
      rintro state ⟨⟨hopening, hscan, ⟨hframed, hdone⟩, hdir⟩, hothers, hsegments⟩
      exact ⟨⟨hopening, hscan, hframed⟩, forall_mem_cons.mpr ⟨hdone, hothers⟩, hdir, hsegments⟩
    split
    · next segment hcomplete hmeta =>
      refine Ok.ret fun state _ hholds ↦ ?_
      obtain ⟨hframed, hall, rfl, rfl⟩ := hresult state hholds
      refine ⟨hframed, hall, ?_⟩
      rw [filterMap_cons, loadSegment, hcomplete, hmeta]
    · next hnone =>
      refine Ok.ret fun state _ hholds ↦ ?_
      obtain ⟨hframed, hall, rfl, rfl⟩ := hresult state hholds
      refine ⟨hframed, hall, ?_⟩
      have hload : loadSegment state.dirs first = none := by
        rw [loadSegment]
        split
        · next segment hcomplete hmeta => exact absurd hmeta (hnone segment hcomplete)
        · rfl
      rw [filterMap_cons, hload]

end Scan

/-! ### The loaded segments -/

section Loaded

variable {config : Config} {dirs : ℕ → Dir} {hour : ℕ}

theorem loadSegment_eq_some (hdir : DirOk config hour (dirs hour)) {loaded : LoadedSegment} :
    loadSegment dirs hour = some loaded ↔ (dirs hour).complete = true ∧ loaded.hour = hour ∧
      (dirs hour).segmentMeta = some loaded.segment := by
  rw [loadSegment]
  split
  · next segment hcomplete hmeta =>
    have hnamed : nameable hour = true := hdir.named.resolve_left fun hvacant ↦ by
      cases hvacant.complete.symm.trans hcomplete
    rw [parseSegmentHour, if_pos hnamed, Option.some.injEq]
    constructor
    · rintro rfl
      exact ⟨hcomplete, rfl, hmeta⟩
    · rintro ⟨-, rfl, hsame⟩
      rw [Option.some.inj (hmeta.symm.trans hsame)]
  · next hnone =>
    constructor
    · rintro ⟨⟩
    · rintro ⟨hcomplete, -, hmeta⟩
      exact absurd hmeta (hnone _ hcomplete)

/-- The segments after the scan has sorted them. -/
def loadedSegments (dirs : ℕ → Dir) (names : List ℕ) : List LoadedSegment :=
  (names.filterMap (loadSegment dirs)).mergeSort fun first second ↦ first.hour ≤ second.hour

variable {clock : ℕ} {names : List ℕ} (hdisk : Disk config clock dirs names)

include hdisk

theorem mem_loadedSegments {loaded : LoadedSegment} :
    loaded ∈ loadedSegments dirs names ↔ (dirs loaded.hour).complete = true ∧
      (dirs loaded.hour).segmentMeta = some loaded.segment := by
  rw [loadedSegments, mem_mergeSort, mem_filterMap]
  constructor
  · rintro ⟨hour, -, hload⟩
    obtain ⟨hcomplete, rfl, hmeta⟩ := (loadSegment_eq_some (hdisk.dir hour)).mp hload
    exact ⟨hcomplete, hmeta⟩
  · rintro ⟨hcomplete, hmeta⟩
    refine ⟨loaded.hour, hdisk.named _ fun hvacant ↦ ?_,
      (loadSegment_eq_some (hdisk.dir _)).mpr ⟨hcomplete, rfl, hmeta⟩⟩
    cases hvacant.complete.symm.trans hcomplete

theorem sortedByHour_loadedSegments : SortedByHour (loadedSegments dirs names) := by
  have hdifferent : (names.filterMap (loadSegment dirs)).Pairwise
      fun first second ↦ first.hour ≠ second.hour := by
    refine Pairwise.filterMap _ (fun hour hour' hne first hfirst second hsecond ↦ ?_)
      hdisk.nodup
    obtain ⟨-, rfl, -⟩ := (loadSegment_eq_some (hdisk.dir hour)).mp hfirst
    obtain ⟨-, rfl, -⟩ := (loadSegment_eq_some (hdisk.dir hour')).mp hsecond
    exact hne
  have hsorted := @pairwise_mergeSort _
    (fun first second : LoadedSegment ↦ decide (first.hour ≤ second.hour))
    (fun _ _ _ hfirst hsecond ↦ by
      simp only [decide_eq_true_eq] at hfirst hsecond ⊢
      exact hfirst.trans hsecond)
    (fun first second ↦ by simpa using le_total first.hour second.hour)
    (names.filterMap (loadSegment dirs))
  refine Pairwise.imp₂ (fun first second hle hne ↦ ?_) hsorted
    (((mergeSort_perm _ _).pairwise_iff fun hne ↦ hne.symm).mpr hdifferent)
  simp only [decide_eq_true_eq] at hle
  exact lt_of_le_of_ne hle hne

theorem index_loadedSegments {segmentHour : ℕ} (hcomplete : (dirs segmentHour).complete = false)
    (hrecovered : ∀ hour, hour ≠ segmentHour → Recovered config (dirs hour)) :
    Index config dirs segmentHour [] (loadedSegments dirs names) where
  complete := hcomplete
  active := fun hour hhour ↦ (hrecovered hour hhour).active
  sorted := sortedByHour_loadedSegments hdisk
  registered := fun loaded hloaded ↦ (mem_loadedSegments hdisk).mp hloaded
  pending_nodup := nodup_nil
  pending := by simp
  covered := fun hour hrows ↦ by
    by_cases hhere : hour = segmentHour
    · exact .inl hhere
    · refine .inr (.inl ?_)
      have hmarked : (dirs hour).complete = true := by
        by_contra hunmarked
        exact hrows ((hrecovered hour hhere).rows (by simpa using hunmarked))
      obtain ⟨rows, -, -, hstores, -⟩ := (hdisk.dir hour).complete hmarked
      exact ⟨⟨hour, sealMeta config.physical rows⟩,
        (mem_loadedSegments hdisk).mpr ⟨hmarked, hstores.segmentMeta⟩, rfl⟩

end Loaded

/-! ### NewStore returns -/

section NewStore

variable {config : Config} {thread hour : ℕ}

theorem Dir.segmentRows_eq {dir : Dir} {segment : SegmentMeta} (zstd : Zstd)
    (hcomplete : dir.complete = true) (hmeta : dir.segmentMeta = some segment) :
    Engine.segmentRows dir.chunks segment = dir.rows zstd := by
  rw [(Dir.rows_of_complete zstd hcomplete).1, Dir.chunkRows, hmeta]

/-- What the scan has found, when it is through. -/
structure Scanned (config : Config) (hour : ℕ) (segments : List LoadedSegment) (state : State) :
    Prop where
  segmentHour : state.segmentHour = hour
  live : Live config state.dirs hour state.entryCount state.handle
  complete : (state.dirs hour).complete = false
  recovered : ∀ other, other ≠ hour → Recovered config (state.dirs other)
  segments : segments = state.names.filterMap (loadSegment state.dirs)

variable {state : State} {segments : List LoadedSegment}

theorem held_eq (hindex : Index config state.dirs state.segmentHour [] segments)
    (hlive : Live config state.dirs state.segmentHour state.entryCount state.handle) :
    State.held config { state with pendingSeals := [], segments := segments } =
      ((segments.map LoadedSegment.hour ++ [state.segmentHour]).map fun hour ↦
        (hour, (state.dirs hour).rows config.zstd)).flatMap Prod.snd := by
  obtain ⟨file, entries, hactive, -, -⟩ := hlive.file
  have hstored : segments.flatMap (State.segmentRows
      { state with pendingSeals := [], segments := segments }) =
      segments.flatMap fun loaded ↦ (state.dirs loaded.hour).rows config.zstd := by
    refine flatMap_congr fun loaded hloaded ↦ ?_
    obtain ⟨hcomplete, hmeta⟩ := hindex.registered loaded hloaded
    exact Dir.segmentRows_eq _ hcomplete hmeta
  rw [State.held, hstored, hactive]
  simp [flatMap_map, (hlive.rows hindex.complete hactive).1]

theorem Index.nodup_hours {dirs : ℕ → Dir} {segmentHour : ℕ} {pendingSeals : List ℕ}
    (hindex : Index config dirs segmentHour pendingSeals segments) :
    (segments.map LoadedSegment.hour).Nodup ∧ segmentHour ∉ segments.map LoadedSegment.hour := by
  constructor
  · exact pairwise_map.mpr (hindex.sorted.imp fun hlt ↦ hlt.ne)
  · intro hmem
    obtain ⟨loaded, hloaded, rfl⟩ := mem_map.mp hmem
    cases hindex.complete.symm.trans (hindex.registered loaded hloaded).1

theorem opened_observation (hzstd : config.zstd.Faithful) (hstate : Sound config state)
    (hindex : Index config state.dirs state.segmentHour [] segments)
    (hsettled : Settled state.dirs [])
    (hlive : Live config state.dirs state.segmentHour state.entryCount state.handle) :
    Observation.Ok config.codec (.opened state.acked
      (State.held config { state with pendingSeals := [], segments := segments })) := by
  intro entry hentry
  obtain ⟨hour, hrow⟩ := hstate.ledger.safe entry hentry
  have hplaced := ((hstate.disk.dir hour).safeRows_initial hzstd).subset hrow
  rw [held_eq hindex hlive]
  obtain ⟨hnodup, hother⟩ := hindex.nodup_hours
  refine @heldOnce_blocks _ _ ?_ ?_ entry (hour, (state.dirs hour).rows config.zstd) ?_ hplaced
  · rw [map_map, Function.comp_def, map_id']
    refine nodup_append.mpr ⟨hnodup, by simp, fun first hfirst second hsecond ↦ ?_⟩
    rw [mem_singleton.mp hsecond]
    exact fun hsame ↦ hother (hsame ▸ hfirst)
  · intro block hblock
    obtain ⟨other, -, rfl⟩ := mem_map.mp hblock
    exact (hstate.disk.dir other).blockOf hzstd
  · refine mem_map.mpr ⟨hour, mem_append.mpr ?_, rfl⟩
    rcases hindex.covered hour (ne_nil_of_mem hplaced) with rfl | hloaded | hnone | hunsealed
    · exact .inr (mem_singleton_self _)
    · obtain ⟨loaded, hmem, rfl⟩ := hloaded
      exact .inl (mem_map_of_mem hmem)
    · cases hnone
    · have hcomplete := hsettled.sealing hour hunsealed.1
      cases hunsealed.2.symm.trans hcomplete

theorem opened_ok (hzstd : config.zstd.Faithful) {segments : List LoadedSegment} :
    Verified config thread (change (State.opened config segments))
      (Opening thread (Scanned config hour segments)) fun _ _ ↦ True := by
  refine Ok.atomically (stable_opening fun _ _ _ hscanned ↦ { hscanned with }) ?_
  rintro _ state hstate ⟨hopening, hscanned⟩ - -
  have hhere := hscanned.segmentHour
  subst hhere
  have hstopped : state.phase ≠ .running := by simp [hopening]
  have hcontrols : Controls thread state := .inl hopening
  have hlive := hscanned.live
  have hindex := index_loadedSegments hstate.disk hscanned.complete hscanned.recovered
  have hsettled : Settled state.dirs [] := by
    refine ⟨rfl, fun other hsealing ↦ ?_⟩
    by_cases hother : other = state.segmentHour
    · rw [hother, hlive.sealing] at hsealing
      cases hsealing
    · exact (hscanned.recovered other hother).sealing hsealing
  have hobservation := opened_observation hzstd hstate hindex hsettled hlive
  rw [hscanned.segments]
  exact ⟨⟨{ disk := hstate.disk, ledger := hstate.ledger
            idle := (absurd rfl), atRest := (absurd rfl)
            index := fun _ ↦ hindex, flushed := fun _ ↦ .inl ⟨hlive.handle, hlive.sealing⟩
            live := fun _ _ ↦ hlive, settled := fun _ _ ↦ hsettled
            log := forall_mem_cons.mpr ⟨hobservation, hstate.log⟩ },
    fun other hother ↦ hcontrols.rely hstate hother rfl (fun _ ↦ DirGrows.refl config _)
      (fun _ ↦ absurd rfl) rfl fun hrunning ↦ absurd hrunning hstopped⟩, trivial⟩

theorem Opened.advance {clock : ℕ} (hclock : state.clock ≤ clock)
    (hopened : Opened config hour state) : Opened config hour { state with clock := clock } :=
  ⟨hopened.segmentHour, hopened.live, hopened.layout.advance hclock⟩

/-- The writer is at its hour, and the scan has listed the directories. -/
def Listed (config : Config) (thread hour : ℕ) (names : List ℕ) (state : State) : Prop :=
  state.phase = .opening thread ∧ Opened config hour state ∧ names = state.names

theorem readNames_ok : Verified config thread (load fun state ↦ state.names)
      (Opening thread (Opened config hour))
      fun names state ↦ Listed config thread hour names state ∧ names.Nodup := by
  refine Ok.post ?_ (load_ok (stable_opening fun _ _ hclock hopened ↦ hopened.advance hclock))
  rintro _ state hstate ⟨⟨hopening, hopened⟩, rfl⟩
  exact ⟨⟨hopening, hopened, rfl⟩, hstate.disk.nodup⟩

/-- The second reading of the clock. An active WAL of another hour is before it. -/
theorem readClock_ok {names : List ℕ} :
    Verified config thread (loadUnless (fun state ↦ decide (state.segmentHour < state.hour)) fun state ↦ state.hour) (Listed config thread hour names)
      fun currentHour ↦ ScanFrame config thread hour currentHour fun state ↦ names = state.names := by
  refine Ok.post ?_ (loadUnless_ok (stable_opening fun _ _ hclock hopened ↦
    ⟨hopened.1.advance hclock, hopened.2⟩))
  rintro _ state hstate ⟨⟨hopening, hopened, hnames⟩, rfl, hcurrent⟩
  have hhere := hopened.segmentHour
  subst hhere
  refine ⟨hopening, ⟨rfl, hopened.live, hopened.layout.complete, fun other hother hactive ↦ ?_,
    le_rfl, by simpa using hcurrent⟩, hnames⟩
  rcases lt_or_gt_of_ne hother with hbelow | habove
  · exact hopened.layout.orphan other hbelow hactive
  · simp [(hopened.live.above other habove).active] at hactive

theorem scanSegments_ok (hzstd : config.zstd.Faithful) :
    Verified config thread (scanSegments config)
      (Opening thread (Opened config hour)) fun _ _ ↦ True := by
  refine readNames_ok.bind fun names ↦ Ok.given fun hnodup ↦ ?_
  refine readClock_ok.bind fun currentHour ↦ ?_
  refine (scanDirs_ok hzstd hnodup (fun _ _ _ hnames ↦ hnames) fun _ _ _ _ _ hnames ↦ hnames).bind
    fun segments ↦ (@opened_ok config thread hour hzstd segments).pre ?_
  rintro state hstate ⟨⟨hopening, hscan, hnames⟩, hrecovered, hsegments⟩
  refine ⟨hopening, hscan.segmentHour, hscan.live, hscan.complete, fun other hother ↦ ?_,
    hnames ▸ hsegments⟩
  by_cases hvacant : (state.dirs other).Vacant
  · exact recovered_vacant hvacant
  · exact hrecovered other (hnames ▸ hstate.disk.named other hvacant) hother

theorem newStore_ok (hzstd : config.zstd.Faithful) :
    Verified config thread (newStore config thread) (fun _ ↦ True) fun _ _ ↦ True := by
  have hpick : Verified config thread pickHour
      (Opening thread fun _ ↦ True)
      fun picked ↦ Opening thread fun state ↦ ∀ hour, picked = some hour →
        Layout state.clock state.dirs hour := by
    refine Ok.post ?_ (loadUnless_ok (stable_opening fun _ _ _ _ ↦ trivial))
    rintro _ state hstate ⟨⟨hopening, -⟩, rfl, hcovered⟩
    refine ⟨hopening, fun hour hpicked ↦ ?_⟩
    rw [hpicked, Option.any_some, Option.isSome_eq_false_iff, Option.isNone_iff_eq_none] at hcovered
    obtain ⟨frontier, hlayout⟩ := hstate.disk.layout
    exact hlayout.picked hpicked hcovered
  refine enter_ok.bind fun _ ↦ hpick.bind fun picked ↦ ?_
  cases picked with
  | none => exact leave_ok.pre fun _ _ hholds ↦ ⟨hholds.1, trivial⟩
  | some hour =>
    refine ((ensureFrontier_ok hzstd).pre fun _ _ hholds ↦ ?_).bind fun _ ↦ scanSegments_ok hzstd
    exact ⟨hholds.1, hholds.2 hour rfl⟩

end NewStore

end OpenTrace.Engine.Store
