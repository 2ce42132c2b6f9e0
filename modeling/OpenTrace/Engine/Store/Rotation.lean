import OpenTrace.Engine.Store.Writing

/-!
# Rotation and SealCurrentHour

`Rotate` holds `sealMu` and `mu`: it flushes the active WAL, closes and renames it, and opens the WAL
of a new hour, or it moves an empty writer on to the current hour. The new hour is above everything
that is on disk. `SealCurrentHour` then publishes the rotated WAL, seals it and registers the segment,
and leaves no rotated WAL behind that is not sealed.
-/

namespace OpenTrace.Engine.Store

open Library Encoding Chunk Wal List Option Function Prog

/-! ### Control of the writer -/

/-- Only this thread moves the writer: it opens the store, or it is inside `sealMu` and `mu`. -/
def Controls (thread : ℕ) (state : State) : Prop :=
  state.phase = .opening thread ∨
    state.phase = .running ∧ state.sealMu = some thread ∧ state.mu = some thread

abbrev Controlled (thread : ℕ) (assertion : State → Prop) (state : State) : Prop :=
  Controls thread state ∧ assertion state

/-- What others leave to the thread that controls the writer. -/
structure Pinned (before after : State) : Prop where
  kept : Kept before after
  under : UnderMu before after

section Control

variable {config : Config} {thread : ℕ} {before after : State}

section

variable (hcontrols : Controls thread before)

include hcontrols

theorem Controls.owns : Owns thread before :=
  hcontrols.imp id fun ⟨hrunning, hsealMu, _⟩ ↦ ⟨hrunning, hsealMu⟩

/-- In a running store, the thread in control holds both locks. -/
theorem Controls.not_free (hrunning : before.phase = .running) :
    before.mu ≠ none ∧ before.sealMu ≠ none := by
  rcases hcontrols with hopening | ⟨-, hsealMu, hmu⟩
  · cases hopening.symm.trans hrunning
  · simp [hsealMu, hmu]

theorem Controls.pinned (hrely : Rely config thread before after) : Pinned before after := by
  refine ⟨hcontrols.owns.kept hrely, ?_⟩
  rcases hcontrols with hopening | ⟨-, -, hmu⟩
  · rw [hrely.opening hopening]
    exact ⟨rfl, rfl, rfl, rfl, rfl, rfl, rfl, fun _ _ ↦ rfl⟩
  · exact hrely.mu hmu

end

theorem Pinned.controls (hpinned : Pinned before after) (hcontrols : Controls thread before) :
    Controls thread after := by
  rw [Controls, hpinned.kept.phase, hpinned.kept.sealMu, hpinned.under.mu]
  exact hcontrols

theorem Pinned.here (hpinned : Pinned before after) :
    (before.dirs before.segmentHour).SameButActive (after.dirs before.segmentHour) :=
  ⟨hpinned.kept.here.active, hpinned.under.sealing, hpinned.under.complete⟩

theorem stable_controlled {assertion : State → Prop}
    (hassertion : ∀ before after, Sound config before → Sound config after → Pinned before after →
      (∀ hour, DirGrows config (before.dirs hour) (after.dirs hour)) → assertion before →
      assertion after) :
    Steady config thread (Controlled thread assertion) := by
  rintro before after hbefore hafter hrely ⟨hcontrols, hholds⟩
  have hpinned := hcontrols.pinned hrely
  exact ⟨hpinned.controls hcontrols,
    hassertion before after hbefore hafter hpinned hrely.dirs hholds⟩

/-- What a step of the thread in control owes to the others. -/
theorem Controls.rely {other : ℕ} (hbefore : Sound config before)
    (hcontrols : Controls thread before) (hother : other ≠ thread)
    (hclock : before.clock = after.clock)
    (hdirs : ∀ hour, DirGrows config (before.dirs hour) (after.dirs hour))
    (hmoved : before.phase = .running → after.segmentHour ≠ before.segmentHour →
      (after.dirs before.segmentHour).safeRows config.zstd =
        (after.dirs before.segmentHour).rows config.zstd)
    (hinflight : after.inflight = before.inflight)
    (hphase : before.phase = .running → after.phase = .running) :
    Rely config other before after where
  clock := hclock.le
  dirs := hdirs
  moved := hmoved
  inflight := fun _ hbatch ↦ hinflight ▸ hbatch
  running := hphase
  opening := fun hopening ↦ absurd hopening (hcontrols.owns.not_opening hother)
  mu := fun hmu ↦ by
    rcases hcontrols with hopening | ⟨-, -, hheld⟩
    · cases ((hbefore.idle (by simp [hopening])).1).symm.trans hmu
    · exact absurd (some.inj (hheld.symm.trans hmu)).symm hother
  sealMu := fun hsealMu ↦ absurd hsealMu (hcontrols.owns.not_sealMu hbefore hother)

end Control

/-! ### Layouts of a writer that moves -/

section Layouts

variable {clock frontier old new : ℕ} {dirs : ℕ → Dir} {dir : Dir}

variable (hlayout : Layout clock dirs frontier)

include hlayout

/-- The directory at the frontier changes, and is neither renamed nor sealed. -/
theorem Layout.setFrontier (hsealing : dir.sealing = none) (hcomplete : dir.complete = false) :
    Layout clock (update dirs frontier dir) frontier where
  above := fun hour hhour ↦ by
    rw [update_of_ne hhour.ne']
    exact hlayout.above hour hhour
  sealing := by rwa [update_self]
  complete := by rwa [update_self]
  between := fun hour hlow hhigh ↦ by
    rw [update_of_ne hhigh.ne]
    exact hlayout.between hour hlow hhigh
  orphan := fun hour hhigh hactive ↦ by
    rw [update_of_ne hhigh.ne] at hactive ⊢
    exact hlayout.orphan hour hhigh hactive

/-- The WAL at the frontier is renamed. -/
theorem Layout.rename (hactive : dir.active = none) (hsealing : dir.sealing.isSome) :
    Layout clock (update dirs frontier dir) (frontier + 1) where
  above := fun hour hhour ↦ by
    rw [update_of_ne (by omega)]
    exact hlayout.above hour (by omega)
  sealing := by
    rw [update_of_ne (by omega)]
    exact (hlayout.above _ (Nat.lt_succ_self _)).sealing
  complete := by
    rw [update_of_ne (by omega)]
    exact (hlayout.above _ (Nat.lt_succ_self _)).complete
  between := fun hour hlow hhigh ↦ by
    by_cases hhere : hour = frontier
    · rw [hhere, update_self]
      exact .inr hsealing
    · rw [update_of_ne hhere]
      exact hlayout.between hour hlow (by omega)
  orphan := fun hour hhigh hother ↦ by
    by_cases hhere : hour = frontier
    · rw [hhere, update_self, hactive] at hother
      cases hother
    · rw [update_of_ne hhere] at hother ⊢
      exact hlayout.orphan hour (by omega) hother

/-- A WAL is opened above everything on disk, at the current hour at the latest unless it is the next
hour after a rotated one. -/
theorem Layout.openAbove
    (hactive : ∀ hour, (dirs hour).active = none) (habove : ∀ hour, old < hour → (dirs hour).Vacant)
    (hnew : old < new)
    (hreached : new ≤ clock / 3600000 ∨ new = old + 1 ∧ (dirs old).sealing.isSome)
    (hsealing : dir.sealing = none) (hcomplete : dir.complete = false) :
    Layout clock (update dirs new dir) new where
  above := fun hour hhour ↦ by
    rw [update_of_ne hhour.ne']
    exact habove hour (hnew.trans hhour)
  sealing := by rwa [update_self]
  complete := by rwa [update_self]
  between := fun hour hlow hhigh ↦ by
    rw [update_of_ne hhigh.ne]
    rcases hreached with hpast | ⟨rfl, hrotated⟩
    · omega
    · have hbelow := hlayout.below_of_sealing hrotated
      exact hlayout.between hour hlow (by omega)
  orphan := fun hour hhigh hother ↦ by
    rw [update_of_ne hhigh.ne, hactive] at hother
    cases hother

end Layouts

/-! ### A closed writer -/

/-- The thread in control has read the writer, which it is about to move. -/
structure Ready (config : Config) (old count next : ℕ) (state : State) : Prop where
  running : state.phase = .running
  segmentHour : state.segmentHour = old
  entryCount : state.entryCount = count
  live : Live config state.dirs state.segmentHour state.entryCount state.handle
  settled : Settled state.dirs state.pendingSeals
  hour : next ≤ state.hour

/-- The writer has closed its file, and its directory is in a known condition. Every rotated WAL of
another hour has been sealed, and nothing is above. The new hour is the current one at the latest, or,
after a rotation, the next one. -/
structure Stopped (old new : ℕ) (rotated : Prop) (condition : Dir → Prop) (state : State) : Prop where
  running : state.phase = .running
  segmentHour : state.segmentHour = old
  handle : state.handle = .detached
  dir : condition (state.dirs old)
  above : ∀ hour, old < hour → (state.dirs hour).Vacant
  pending : state.pendingSeals = []
  others : ∀ hour, hour ≠ old → (state.dirs hour).sealing.isSome → (state.dirs hour).complete = true
  next : old < new
  reached : new ≤ state.hour ∨ new = old + 1 ∧ rotated

/-- A condition that an fsync of the active file does not affect. -/
def Settles (condition : Dir → Prop) : Prop :=
  ∀ before after : Dir, before.SameButActive after → SameContent before.active after.active →
    condition before → condition after

section Closed

variable {config : Config} {thread old new count next : ℕ} {rotated : Prop}
  {condition : Dir → Prop}

variable {before after : State}

theorem hour_mono (hclock : before.clock ≤ after.clock) : before.hour ≤ after.hour :=
  Nat.div_le_div_right hclock

theorem Settled.kept (hkept : Kept before after)
    (hsettled : Settled before.dirs before.pendingSeals) :
    Settled after.dirs after.pendingSeals where
  pending := hkept.pendingSeals.trans hsettled.pending
  sealing := fun hour hsealing ↦ by
    by_cases hhere : hour = before.segmentHour
    · subst hhere
      rw [hkept.here.sealing] at hsealing
      exact hkept.here.complete.trans (hsettled.sealing _ hsealing)
    · rw [hkept.others hour hhere] at hsealing ⊢
      exact hsettled.sealing hour hsealing

theorem Ready.pinned (hafter : Sound config after) (hpinned : Pinned before after)
    (hready : Ready config old count next before) :
    Ready config old count next after where
  running := hpinned.kept.phase.trans hready.running
  segmentHour := hpinned.kept.segmentHour.trans hready.segmentHour
  entryCount := hpinned.under.entryCount.trans hready.entryCount
  live := hready.live.kept hafter hpinned.under
  settled := hready.settled.kept hpinned.kept
  hour := hready.hour.trans (hour_mono hpinned.kept.clock)

theorem stable_ready : Steady config thread (Controlled thread (Ready config old count next)) :=
  stable_controlled fun _ _ _ hafter hpinned _ hready ↦ hready.pinned hafter hpinned

theorem stable_stopped (hcondition : Settles condition) :
    Steady config thread (Controlled thread (Stopped old new rotated condition)) := by
  refine stable_controlled fun before after _ _ hpinned _ hstopped ↦ ?_
  have hhere := hstopped.segmentHour
  subst hhere
  refine ⟨hpinned.kept.phase.trans hstopped.running, hpinned.kept.segmentHour,
    hpinned.under.handle.trans hstopped.handle,
    hcondition _ _ hpinned.here hpinned.under.active hstopped.dir, fun hour hhour ↦ ?_,
    hpinned.kept.pendingSeals.trans hstopped.pending, fun hour hother ↦ ?_, hstopped.next,
    hstopped.reached.imp (fun hreached ↦ hreached.trans (hour_mono hpinned.kept.clock)) id⟩
  · rw [hpinned.under.above hour hhour]
    exact hstopped.above hour hhour
  · rw [hpinned.kept.others hour hother]
    exact hstopped.others hour hother

/-- `close`, once the rows of the file are safe. -/
theorem closeFile_ok {assertion : State → Prop}
    (hstable : Steady config thread (Controlled thread assertion))
    (hready : ∀ state, Sound config state → assertion state → Ready config old count next state ∧
      (state.dirs old).safeRows config.zstd = (state.dirs old).rows config.zstd ∧
      condition (state.dirs old) ∧ old < new ∧ (new ≤ state.hour ∨ new = old + 1 ∧ rotated)) :
    Verified config thread closeFile (Controlled thread assertion)
      fun _ ↦ Controlled thread (Stopped old new rotated condition) := by
  refine Ok.atomically hstable ?_
  rintro _ state hstate ⟨hcontrols, hassertion⟩ - -
  obtain ⟨hready, hsafe, hcondition, hnext, hreached⟩ := hready state hstate hassertion
  have hhere := hready.segmentHour
  subst hhere
  have hrunning := hready.running
  refine ⟨⟨{ hstate with flushed := fun _ ↦ .inr ⟨rfl, hsafe⟩, live := fun _ hmu ↦ ?_ },
    fun other hother ↦ hcontrols.rely hstate hother rfl (fun hour ↦ DirGrows.refl config _)
      (fun _ ↦ absurd rfl) rfl id⟩, hcontrols,
    ⟨hrunning, rfl, rfl, hcondition, hready.live.above, hready.settled.pending,
      fun hour _ ↦ hready.settled.sealing hour, hnext, hreached⟩⟩
  exact absurd hmu (hcontrols.not_free hrunning).1

/-- A step of the thread in control on the directory that the writer leaves. -/
theorem Stopped.guarantee {state : State} {dir : Dir} {names : List ℕ} (hstate : Sound config state)
    (hcontrols : Controls thread state) (hstopped : Stopped old new rotated condition state)
    (hactive : dir.active = none) (hcomplete : dir.complete = false)
    (hgrows : DirGrows config (state.dirs old) dir)
    (hdisk : Disk config state.clock (update state.dirs old dir) names) :
    Guarantee (Sound config) (Rely config) thread state
      { state.setDir old dir with names := names } := by
  have hrunning := hstopped.running
  have hhere := hstopped.segmentHour
  subst hhere
  have hdirs := dirGrows_setDir hgrows
  have hnotFree := hcontrols.not_free hrunning
  refine ⟨{ disk := hdisk, ledger := hstate.ledger.grow hdirs
            idle := (absurd hrunning)
            atRest := (absurd hrunning)
            index := fun _ ↦ (hstate.index hrunning).rewrite hcomplete
            flushed := fun _ ↦ .inr ⟨hstopped.handle, ?_⟩
            live := fun _ hmu ↦ absurd hmu hnotFree.1
            settled := fun _ hsealMu ↦ absurd hsealMu hnotFree.2, log := hstate.log },
    fun other hother ↦ hcontrols.rely hstate hother rfl hdirs (fun _ ↦ absurd rfl) rfl
      id⟩
  have hdir := hdisk.dir state.segmentHour
  rw [update_self] at hdir
  change ((state.setDir state.segmentHour dir).dirs state.segmentHour).safeRows _ =
    ((state.setDir state.segmentHour dir).dirs state.segmentHour).rows _
  rw [dirs_setDir_self]
  exact hdir.safeRows_eq hactive

theorem Stopped.setDir {state : State} {dir : Dir} {names : List ℕ} {condition' : Dir → Prop}
    (hstopped : Stopped old new rotated condition state) (hcondition : condition' dir) :
    Stopped old new rotated condition' { state.setDir old dir with names := names } where
  running := hstopped.running
  segmentHour := hstopped.segmentHour
  handle := hstopped.handle
  dir := by
    rwa [dirs_setDir_self]
  above := fun hour hhour ↦ by
    rw [dirs_setDir_of_ne hhour.ne']
    exact hstopped.above hour hhour
  pending := hstopped.pending
  others := fun hour hother ↦ by
    rw [dirs_setDir_of_ne hother]
    exact hstopped.others hour hother
  next := hstopped.next
  reached := hstopped.reached

end Closed

/-! ### An empty writer moves on -/

/-- The active file has no bytes. -/
def Emptied (dir : Dir) : Prop :=
  dir.sealing = none ∧ ∃ file, dir.active = some file ∧ file.content = []

section Advance

variable {config : Config} {thread old new : ℕ} {rotated : Prop}

theorem SameContent.some {before after : Option WalFile} {file : WalFile}
    (hsame : SameContent before after) (hbefore : before = some file) :
    ∃ file', after = some file' ∧ file'.content = file.content := by
  rw [SameContent, hbefore, map_some, map_eq_some_iff] at hsame
  exact hsame

theorem settles_emptied : Settles Emptied := by
  rintro before after hsame hcontent ⟨hsealing, file, hactive, hempty⟩
  obtain ⟨file', hactive', hsame'⟩ := hcontent.some hactive
  exact ⟨hsame.sealing.trans hsealing, file', hactive', hsame'.trans hempty⟩

theorem settles_vacant : Settles Dir.Vacant := fun _ _ hsame _ ↦ hsame.sameFiles.vacant

theorem rows_of_content_nil {config : Config} (hzstd : config.zstd.Faithful) {file : WalFile}
    (hempty : file.content = []) :
    file.rows config.zstd = [] ∧ file.safeRows config.zstd = [] := by
  have hrows := (clean_empty config.codec 0).rows_eq hzstd
  rw [WalFile.rows, WalFile.safeRows, hempty, take_nil]
  exact ⟨hrows, hrows⟩

theorem removeEmpty_eq {state : State} (hempty : Emptied (state.dirs old)) :
    ∃ names, (names = state.names ∨ names = state.names.erase old) ∧ state.removeEmpty old =
      { state.setDir old { state.dirs old with active := none } with names := names } := by
  obtain ⟨-, file, hactive, hcontent⟩ := hempty
  have hany : (state.dirs old).active.any (fun file ↦ file.content = []) = true := by
    simp [hactive, hcontent]
  refine ⟨(state.removeEmpty old).names, ?_, ?_⟩ <;>
    simp only [State.removeEmpty, hany, if_true]
  split_ifs
  · exact .inr rfl
  · exact .inl rfl

theorem removeEmpty_ok (hzstd : config.zstd.Faithful) :
    Verified config thread (change (State.removeEmpty old))
      (Controlled thread (Stopped old new rotated Emptied))
      fun _ ↦ Controlled thread (Stopped old new rotated Dir.Vacant) := by
  refine Ok.atomically (stable_stopped settles_emptied) ?_
  rintro _ state hstate ⟨hcontrols, hstopped⟩ - -
  have hcomplete : (state.dirs old).complete = false :=
    hstopped.segmentHour ▸ (hstate.index hstopped.running).complete
  obtain ⟨hsealing, file, hactive, hcontent⟩ := hstopped.dir
  obtain ⟨names, hnames, hremove⟩ := removeEmpty_eq hstopped.dir
  have hvacant : Dir.Vacant { state.dirs old with active := none } := ⟨rfl, hsealing, hcomplete⟩
  obtain ⟨hrows, hsafe⟩ := Dir.rows_of_active config.zstd hcomplete hsealing hactive
  rw [(rows_of_content_nil hzstd hcontent).1] at hrows
  rw [(rows_of_content_nil hzstd hcontent).2] at hsafe
  have hgrows : DirGrows config (state.dirs old) { state.dirs old with active := none } :=
    ⟨hrows ▸ nil_prefix, hsafe ▸ nil_prefix, fun hmarked ↦
      absurd (hmarked.symm.trans hcomplete) (by simp)⟩
  have hdir : DirOk config old { state.dirs old with active := none } :=
    ⟨by simp, by simp [hsealing], by simp [hcomplete], .inl hvacant⟩
  obtain ⟨frontier, hlayout⟩ := hstate.disk.layout
  have hbase := hstate.disk.setDir hdir (fun hempty ↦ by
      obtain ⟨_, hsome, _⟩ := hempty.file
      cases hsealing.symm.trans hsome) ((absurd hvacant))
    ⟨old, (hlayout.at hstopped.above (by simp [hactive]) hsealing hcomplete).setFrontier hsealing
      hcomplete⟩
  have hdisk : Disk config state.clock
      (update state.dirs old { state.dirs old with active := none }) names := by
    rcases hnames with rfl | rfl
    · exact hbase
    · refine { hbase with named := fun hour hhour ↦ ?_, nodup := hstate.disk.nodup.erase _ }
      have hother : hour ≠ old := by
        rintro rfl
        rw [update_self] at hhour
        exact hhour hvacant
      exact (mem_erase_of_ne hother).mpr (hbase.named hour hhour)
  rw [hremove]
  exact ⟨hstopped.guarantee hstate hcontrols rfl hcomplete hgrows hdisk, hcontrols,
    hstopped.setDir hvacant⟩

end Advance

/-! ### A full writer is rotated -/

/-- The active file holds rows. -/
def Filled (config : Config) (dir : Dir) : Prop :=
  dir.sealing = none ∧ ∃ file, dir.active = some file ∧ file.rows config.codec.zstd ≠ []

/-- The WAL was renamed, and it holds rows. -/
def Renamed (config : Config) (dir : Dir) : Prop :=
  dir.active = none ∧ ∃ rows, rows ≠ [] ∧ dir.Unsealed config rows

section Rename

variable {config : Config} {thread old new : ℕ} {rotated : Prop}

theorem settles_filled : Settles (Filled config) := by
  rintro before after hsame hcontent ⟨hsealing, file, hactive, hrows⟩
  obtain ⟨file', hactive', hsame'⟩ := hcontent.some hactive
  refine ⟨hsame.sealing.trans hsealing, file', hactive', ?_⟩
  rwa [WalFile.rows, hsame']

theorem settles_renamed : Settles (Renamed config) := by
  rintro before after hsame - ⟨hactive, rows, hrows, hcomplete, hfile⟩
  refine ⟨?_, rows, hrows, hsame.complete.trans hcomplete, hsame.sealing ▸ hfile⟩
  rw [← not_isSome_iff_eq_none, hsame.active, hactive]
  simp

theorem renameActive_eq {state : State} {hour : ℕ} {file : WalFile}
    (hactive : (state.dirs hour).active = some file)
    (hhandle : state.segmentHour = hour → state.handle ≠ .active) :
    state.renameActive hour =
      state.setDir hour { state.dirs hour with active := none, sealing := some file } := by
  have hmoved : ¬ (state.segmentHour = hour ∧ state.handle = .active) :=
    fun hboth ↦ hhandle hboth.1 hboth.2
  simp only [State.renameActive, hactive, if_neg hmoved]
  rfl

/-- A rename keeps the rows. -/
theorem renamed_dir {hour : ℕ} {dir : Dir} {file : WalFile} (hdir : DirOk config hour dir)
    (hcomplete : dir.complete = false) (hsealing : dir.sealing = none)
    (hactive : dir.active = some file) (hsafe : dir.safeRows config.zstd = dir.rows config.zstd) :
    let after := { dir with active := none, sealing := some file }
    DirOk config hour after ∧ DirGrows config dir after := by
  intro after
  obtain ⟨hrows, hsafeRows⟩ := Dir.rows_of_active config.zstd hcomplete hsealing hactive
  obtain ⟨hrows', hsafe'⟩ : after.rows config.zstd = _ ∧ after.safeRows config.zstd = _ :=
    Dir.rows_of_sealing config.zstd hcomplete rfl
  refine ⟨⟨by simp [after], fun other hother ↦ ?_, by simp [after, hcomplete], ?_⟩, ?_, ?_,
    by simp [hcomplete]⟩
  · cases some.inj hother
    exact ⟨hdir.active file hactive, hsafeRows.symm.trans (hsafe.trans hrows)⟩
  · refine .inr (hdir.named.resolve_left fun hvacant ↦ ?_)
    cases hvacant.active.symm.trans hactive
  · rw [hrows, hrows']
  · rw [hsafeRows, hsafe']

theorem rename_ok : Verified config thread (change (State.renameActive old))
      (Controlled thread (Stopped old new rotated (Filled config)))
      fun _ ↦ Controlled thread (Stopped old new rotated (Renamed config)) := by
  refine Ok.atomically (stable_stopped settles_filled) ?_
  rintro _ state hstate ⟨hcontrols, hstopped⟩ - -
  have hcomplete : (state.dirs old).complete = false :=
    hstopped.segmentHour ▸ (hstate.index hstopped.running).complete
  obtain ⟨hsealing, file, hactive, hrows⟩ := hstopped.dir
  have hsafe : (state.dirs old).safeRows config.zstd = (state.dirs old).rows config.zstd := by
    rcases hstate.flushed hstopped.running with ⟨hhandle, -⟩ | ⟨-, hflushed⟩
    · cases hstopped.handle.symm.trans hhandle
    · exact hstopped.segmentHour ▸ hflushed
  obtain ⟨hdir, hgrows⟩ := renamed_dir (hstate.disk.dir old) hcomplete hsealing hactive hsafe
  obtain ⟨frontier, hlayout⟩ := hstate.disk.layout
  have hdisk := hstate.disk.setDir hdir (fun hempty ↦ by
      obtain ⟨_, hsome, hnil⟩ := hempty.file
      cases some.inj hsome
      exact absurd hnil hrows)
    (fun _ ↦ hstate.disk.named old fun hvacant ↦ by cases hvacant.active.symm.trans hactive)
    ⟨old + 1, (hlayout.at hstopped.above (by simp [hactive]) hsealing hcomplete).rename rfl rfl⟩
  rw [renameActive_eq hactive (fun _ ↦ by simp [hstopped.handle])]
  exact ⟨hstopped.guarantee hstate hcontrols rfl hcomplete hgrows hdisk, hcontrols,
    hstopped.setDir ⟨rfl, _, hrows, hcomplete, file, rfl, rfl⟩⟩

end Rename

/-! ### The next WAL -/

section Next

variable {config : Config} {thread old new : ℕ} {rotated : Prop} {condition : Dir → Prop}

theorem Index.openAbove {dirs : ℕ → Dir} {dir : Dir} {segments : List LoadedSegment}
    (hindex : Index config dirs old [] segments) (hother : new ≠ old)
    (hactive : (dirs old).active = none)
    (hrows : (dirs old).rows config.zstd = [] ∨
      (dirs old).sealing.isSome ∧ (dirs old).complete = false)
    (hfree : (dirs new).complete = false) (hcomplete : dir.complete = false) :
    Index config (update dirs new dir) new [] segments := by
  refine { hindex with complete := ?_, active := ?_, registered := ?_, pending := ?_, covered := ?_ }
  · rwa [update_self]
  · intro hour hhour
    rw [update_of_ne hhour]
    by_cases hold : hour = old
    · exact hold ▸ hactive
    · exact hindex.active hour hold
  · intro loaded hloaded
    have hregistered := hindex.registered loaded hloaded
    have hloadedHour : loaded.hour ≠ new := by
      intro hnew
      rw [hnew, hfree] at hregistered
      exact absurd hregistered.1 (by simp)
    rw [update_of_ne hloadedHour]
    exact hregistered
  · simp
  · intro hour hhour
    by_cases hnew : hour = new
    · exact .inl hnew
    · rw [update_of_ne hnew] at hhour ⊢
      rcases hindex.covered hour hhour with rfl | hcovered
      · rcases hrows with hnil | hrotated
        · exact absurd hnil hhour
        · exact .inr (.inr (.inr hrotated))
      · exact .inr hcovered

/-- What the thread in control knows once the writer is at its new hour. -/
structure Moved (config : Config) (old : ℕ) (condition : Dir → Prop) (state : State) : Prop where
  running : state.phase = .running
  live : Live config state.dirs state.segmentHour state.entryCount state.handle
  below : old < state.segmentHour
  dir : condition (state.dirs old)
  pending : state.pendingSeals = []
  others : ∀ hour, hour ≠ old → (state.dirs hour).sealing.isSome → (state.dirs hour).complete = true

theorem mkdirAll_ok {assertion : State → Prop}
    (hstable : Steady config thread (Controlled thread assertion))
    (hnames : ∀ state names, assertion state → assertion { state with names := names }) :
    Verified config thread (mkdirAll new) (Controlled thread assertion)
      fun _ state ↦ Controls thread state ∧ assertion state ∧ new ∈ state.names ∧
        nameable new = true := by
  refine Ok.atomically hstable ?_
  rintro _ state hstate ⟨hcontrols, hassertion⟩ - hnamed
  have hnameable : nameable new = true := by simpa using hnamed
  refine ⟨⟨{ hstate with disk := { hstate.disk with named := ?_, nodup := ?_ } }, fun other hother ↦
    hcontrols.rely hstate hother rfl (fun hour ↦ DirGrows.refl config _)
      (fun _ ↦ absurd rfl) rfl id⟩, hcontrols, hnames _ _ hassertion, ?_, hnameable⟩
  · intro hour hhour
    have hmem := hstate.disk.named hour hhour
    split_ifs
    · exact hmem
    · exact mem_cons_of_mem _ hmem
  · dsimp only
    split_ifs with hmem
    · exact hstate.disk.nodup
    · exact nodup_cons.mpr ⟨hmem, hstate.disk.nodup⟩
  · dsimp only
    split_ifs with hmem
    · exact hmem
    · exact mem_cons_self

theorem openActive_eq {state : State} {count : ℕ} (hactive : (state.dirs new).active = none) :
    state.openActive new count = { state.setDir new ((state.dirs new).withActive ⟨[], 0⟩) with
        segmentHour := new, entryCount := count, handle := .active } := by
  rw [State.openActive, hactive]
  rfl

/-- The directory of a WAL that was just created. -/
theorem opened_dir {hour : ℕ} {dir : Dir} (hvacant : dir.Vacant) (hnamed : nameable hour = true) :
    DirOk config hour (dir.withActive ⟨[], 0⟩) ∧ DirGrows config dir (dir.withActive ⟨[], 0⟩) := by
  have hsafe : dir.safeRows config.zstd = [] := by
    simp [Dir.safeRows, hvacant.complete, hvacant.sealing, hvacant.active]
  refine ⟨⟨fun file hfile ↦ ?_, ?_, ?_, .inr hnamed⟩, ?_, ?_, ?_⟩
  · cases some.inj hfile
    exact ⟨[], (clean_empty config.codec hour).walOf⟩
  · simp [Dir.withActive, hvacant.sealing]
  · simp [Dir.withActive, hvacant.complete]
  · exact hvacant.rows config.zstd ▸ nil_prefix
  · exact hsafe ▸ nil_prefix
  · simp [hvacant.complete]

/-- The directory of the next hour stays while the writer is closed. -/
theorem stable_named (hcondition : Settles condition) :
    Steady config thread fun state ↦ Controls thread state ∧
      Stopped old new rotated condition state ∧ new ∈ state.names ∧ nameable new = true := by
  rintro before after hbefore hafter hrely ⟨hcontrols, hstopped, hmem, hnamed⟩
  obtain ⟨hcontrols', hstopped'⟩ := stable_stopped hcondition before after hbefore hafter hrely
    ⟨hcontrols, hstopped⟩
  exact ⟨hcontrols', hstopped', (hcontrols.pinned hrely).kept.names ▸ hmem, hnamed⟩

theorem openNext_ok (hcondition : Settles condition)
    (hleft : ∀ dir, condition dir → dir.active = none ∧ (rotated → dir.sealing.isSome) ∧
      (dir.rows config.zstd = [] ∨ dir.sealing.isSome ∧ dir.complete = false)) :
    Verified config thread (change (State.openActive new 0))
      (fun state ↦ Controls thread state ∧ Stopped old new rotated condition state ∧
        new ∈ state.names ∧ nameable new = true)
      fun _ ↦ Controlled thread (Moved config old condition) := by
  refine Ok.atomically (stable_named hcondition) ?_
  rintro _ state hstate ⟨hcontrols, hstopped, hmem, hnamed⟩ - -
  have hrunning := hstopped.running
  have hindex := hstate.index hrunning
  rw [hstopped.segmentHour, hstopped.pending] at hindex
  obtain ⟨hactive, hrotated, hrows⟩ := hleft _ hstopped.dir
  have hvacant := hstopped.above new hstopped.next
  obtain ⟨hdir, hgrows⟩ := opened_dir hvacant hnamed
  have hnotFree := hcontrols.not_free hrunning
  obtain ⟨frontier, hlayout⟩ := hstate.disk.layout
  have hnone : ∀ hour, (state.dirs hour).active = none := fun hour ↦ by
    by_cases hold : hour = old
    · exact hold ▸ hactive
    · exact hindex.active hour hold
  have hdisk := hstate.disk.setDir hdir (fun hempty ↦ by
      obtain ⟨_, hsome, _⟩ := hempty.file
      cases hvacant.sealing.symm.trans hsome) (fun _ ↦ hmem)
    ⟨new, hlayout.openAbove hnone hstopped.above hstopped.next
      (hstopped.reached.imp id fun ⟨hnext, hmoved⟩ ↦ ⟨hnext, hrotated hmoved⟩) hvacant.sealing
      hvacant.complete⟩
  have hdirs := dirGrows_setDir hgrows
  have hold : (state.setDir new ((state.dirs new).withActive ⟨[], 0⟩)).dirs old = state.dirs old :=
    dirs_setDir_of_ne hstopped.next.ne
  have hlive : Live config (state.setDir new ((state.dirs new).withActive ⟨[], 0⟩)).dirs new 0
      .active := by
    refine ⟨rfl, ⟨⟨[], 0⟩, [], by rw [dirs_setDir_self]; rfl, clean_empty _ _, rfl⟩, ?_,
      fun hour hhour ↦ ?_⟩
    · rw [dirs_setDir_self]
      exact hvacant.sealing
    · rw [dirs_setDir_of_ne hhour.ne']
      exact hstopped.above hour (hstopped.next.trans hhour)
  have hindex' : Index config (state.setDir new ((state.dirs new).withActive ⟨[], 0⟩)).dirs new
      state.pendingSeals state.segments := by
    rw [hstopped.pending]
    exact hindex.openAbove hstopped.next.ne' hactive hrows hvacant.complete hvacant.complete
  rw [openActive_eq hvacant.active]
  refine ⟨⟨{ disk := hdisk, ledger := hstate.ledger.grow hdirs
             idle := (absurd hrunning)
             atRest := (absurd hrunning)
             index := fun _ ↦ hindex', flushed := fun _ ↦ .inl ⟨rfl, hlive.sealing⟩
             live := fun _ hmu ↦ absurd hmu hnotFree.1
             settled := fun _ hsealMu ↦ absurd hsealMu hnotFree.2, log := hstate.log },
    fun other hother ↦ hcontrols.rely hstate hother rfl hdirs (fun _ _ ↦ ?_) rfl id⟩, hcontrols,
    ⟨hrunning, hlive, hstopped.next, ?_, hstopped.pending, fun hour hhour ↦ ?_⟩⟩
  · rw [hstopped.segmentHour]
    rw [hold]
    exact (hstate.disk.dir old).safeRows_eq hactive
  · change condition ((state.setDir new _).dirs old)
    rw [hold]
    exact hstopped.dir
  · change ((state.setDir new _).dirs hour).sealing.isSome →
      ((state.setDir new _).dirs hour).complete = true
    by_cases hnew : hour = new
    · subst hnew
      intro hsealing
      simp [Dir.withActive, hvacant.sealing] at hsealing
    · rw [dirs_setDir_of_ne hnew]
      exact hstopped.others hour hhour

/-- `ensureWAL` at an hour above everything on disk. -/
theorem ensureNext_ok (hcondition : Settles condition)
    (hleft : ∀ dir, condition dir → dir.active = none ∧ (rotated → dir.sealing.isSome) ∧
      (dir.rows config.zstd = [] ∨ dir.sealing.isSome ∧ dir.complete = false)) :
    Verified config thread (ensureWAL config new)
      (Controlled thread (Stopped old new rotated condition))
      fun _ ↦ Controlled thread (Moved config old condition) := by
  have hmkdir := @mkdirAll_ok config thread new _ (@stable_stopped config thread old new rotated _
    hcondition) fun state names hstopped ↦ { hstopped with }
  refine hmkdir.bind fun _ ↦ (load_ok (stable_named hcondition)).bind fun replay ↦ ?_
  refine @Prog.Ok.assume _ _ _ _ _ _ _ _ _ (replay = none) (fun state _ hholds ↦ ?_)
    fun hnone ↦ ?_
  · obtain ⟨⟨-, hstopped, -⟩, hreplay⟩ := hholds
    rw [hreplay, (hstopped.above new hstopped.next).active, map_none]
  · rw [hnone]
    exact (openNext_ok hcondition hleft).pre fun _ _ hholds ↦ hholds.1

end Next

section Rotate

variable {config : Config} {thread old new count next : ℕ}

section

variable (hzstd : config.zstd.Faithful)

include hzstd

theorem advanceEmpty_ok (hnext : old < next) : Verified config thread (advanceEmpty config old next)
      (Controlled thread (Ready config old 0 next))
      fun _ ↦ Controlled thread (Moved config old Dir.Vacant) := by
  have hclose : Verified config thread closeFile (Controlled thread (Ready config old 0 next))
      fun _ ↦ Controlled thread (Stopped old next False Emptied) := by
    refine @closeFile_ok config thread old next 0 next False Emptied _ stable_ready
      fun state hstate hready ↦ ?_
    have hhere := hready.segmentHour
    subst hhere
    obtain ⟨file, entries, hactive, hfile, hcount⟩ := hready.live.file
    have hentries : entries = [] := length_eq_zero_iff.mp (hcount.symm.trans hready.entryCount)
    have hcontent : file.content = [] := by
      rw [hfile.content, hentries]
      rfl
    obtain ⟨hrows, hsafe⟩ := hready.live.rows (hstate.index hready.running).complete hactive
    refine ⟨hready, ?_, ⟨hready.live.sealing, file, hactive, hcontent⟩, hnext, .inl hready.hour⟩
    rw [hrows, hsafe, (rows_of_content_nil hzstd hcontent).1, (rows_of_content_nil hzstd hcontent).2]
  refine hclose.bind fun _ ↦ (removeEmpty_ok hzstd).bind fun _ ↦ ensureNext_ok settles_vacant ?_
  exact fun dir hvacant ↦ ⟨hvacant.active, False.elim, .inl (hvacant.rows _)⟩

/-- The flush that comes before the rename. -/
theorem syncReady_ok : Verified config thread (change State.sync)
      (Controlled thread (Ready config old count next))
      fun _ state ↦ Controls thread state ∧ Ready config old count next state ∧
        (state.dirs old).safeRows config.zstd = (state.dirs old).rows config.zstd := by
  refine Ok.atomically stable_ready ?_
  rintro _ state hstate ⟨hcontrols, hready⟩ - -
  have hhere := hready.segmentHour
  subst hhere
  obtain ⟨hguarantee, -, hsafe⟩ := sync_ok hzstd hstate hready.running
  have hsync := sync_active hready.live.handle
  have hsame : (state.dirs state.segmentHour).SameButActive
      (state.dirs state.segmentHour).synced := ⟨by simp [Dir.synced], rfl, rfl⟩
  refine ⟨hguarantee, ?_, ?_, hsafe⟩ <;> rw [hsync]
  · exact hcontrols
  · exact ⟨hready.running, rfl, hready.entryCount, hready.live.synced, hready.settled.rewrite hsame,
      hready.hour⟩

theorem stable_synced : Steady config thread fun state ↦ Controls thread state ∧
      Ready config old count next state ∧
        (state.dirs old).safeRows config.zstd = (state.dirs old).rows config.zstd := by
  refine stable_controlled fun before after hbefore hafter hpinned hgrows ⟨hready, hsafe⟩ ↦ ?_
  have hready' := hready.pinned hafter hpinned
  refine ⟨hready', ((hafter.disk.dir old).safeRows_initial hzstd).eq_of_length_le ?_⟩
  -- The bytes are the same, so there are no more rows than before, and those were safe.
  have hrows : (after.dirs old).rows config.zstd = (before.dirs old).rows config.zstd := by
    have hhere := hready.segmentHour
    subst hhere
    obtain ⟨file, entries, hactive, -, -⟩ := hready.live.file
    obtain ⟨file', hactive', hcontent⟩ := hpinned.under.active.some hactive
    have hcomplete := (hbefore.index hready.running).complete
    rw [(hready.live.rows hcomplete hactive).1,
      (Dir.rows_of_active _ (hpinned.under.complete.trans hcomplete)
        (hpinned.under.sealing.trans hready.live.sealing) hactive').1, WalFile.rows, WalFile.rows,
      hcontent]
  rw [hrows, ← hsafe]
  exact (hgrows old).safeRows.length_le

theorem rotateFile_ok (hcount : count ≠ 0) :
    Verified config thread (rotateFile config old (max next (old + 1)))
      (Controlled thread (Ready config old count next))
      fun _ ↦ Controlled thread (Moved config old (Renamed config)) := by
  have hclose : Verified config thread closeFile
      (fun state ↦ Controls thread state ∧ Ready config old count next state ∧
        (state.dirs old).safeRows config.zstd = (state.dirs old).rows config.zstd)
      fun _ state ↦ Controls thread state ∧
        Stopped old (max next (old + 1)) True (Filled config) state := by
    refine @closeFile_ok config thread old (max next (old + 1)) count next True _ _
      (stable_synced hzstd) fun state hstate ⟨hready, hsafe⟩ ↦ ?_
    have hhere := hready.segmentHour
    subst hhere
    obtain ⟨file, entries, hactive, hfile, hlength⟩ := hready.live.file
    refine ⟨hready, hsafe, ⟨hready.live.sealing, file, hactive, fun hrows ↦ hcount ?_⟩,
      lt_max_of_lt_right (Nat.lt_succ_self _), ?_⟩
    · rw [hfile.rows_eq hzstd, map_eq_nil_iff] at hrows
      rw [← hready.entryCount, hlength, hrows, length_nil]
    · rcases le_total next (state.segmentHour + 1) with hle | hge
      · exact .inr ⟨max_eq_right hle, trivial⟩
      · exact .inl ((max_eq_left hge).trans_le hready.hour)
  refine (syncReady_ok hzstd).bind fun _ ↦ hclose.bind fun _ ↦ rename_ok.bind fun _ ↦ ?_
  refine ensureNext_ok settles_renamed ?_
  rintro dir ⟨hactive, rows, -, hcomplete, file, hsealing, -⟩
  exact ⟨hactive, fun _ ↦ by simp [hsealing], .inr ⟨by simp [hsealing], hcomplete⟩⟩

end

/-- Only the rotated WAL of this hour may be unsealed. -/
structure Sealing (hour : ℕ) (pending : List ℕ) (state : State) : Prop where
  running : state.phase = .running
  below : hour < state.segmentHour
  pending : state.pendingSeals = pending
  others : ∀ other, other ≠ hour → (state.dirs other).sealing.isSome →
    (state.dirs other).complete = true

/-- The rotated WAL of this hour awaits its seal. -/
structure Awaiting (config : Config) (hour : ℕ) (pending : List ℕ) (state : State) : Prop extends
    Sealing hour pending state where
  dir : Renamed config (state.dirs hour)

variable {before after : State}

theorem Sealing.kept {hour : ℕ} {pending : List ℕ} (hkept : Kept before after)
    (hsealing : Sealing hour pending before) : Sealing hour pending after where
  running := hkept.phase.trans hsealing.running
  below := hkept.segmentHour ▸ hsealing.below
  pending := hkept.pendingSeals.trans hsealing.pending
  others := fun other hother hfile ↦ by
    by_cases hhere : other = before.segmentHour
    · subst hhere
      rw [hkept.here.sealing] at hfile
      exact hkept.here.complete.trans (hsealing.others _ hother hfile)
    · rw [hkept.others other hhere] at hfile ⊢
      exact hsealing.others other hother hfile

theorem Awaiting.kept {hour : ℕ} {pending : List ℕ} (hkept : Kept before after)
    (hawaiting : Awaiting config hour pending before) : Awaiting config hour pending after := by
  refine ⟨hawaiting.toSealing.kept hkept, ?_⟩
  rw [hkept.others hour hawaiting.below.ne]
  exact hawaiting.dir

/-- What `Rotate` leaves: nothing to seal, or the WAL of the hour that it returns. -/
def RotateResult (config : Config) : Option ℕ → State → Prop
  | none, state => state.phase = .running ∧ Settled state.dirs state.pendingSeals
  | some hour, state => Awaiting config hour [] state

theorem RotateResult.kept {result : Option ℕ} (hkept : Kept before after)
    (hresult : RotateResult config result before) : RotateResult config result after := by
  cases result with
  | none => exact ⟨hkept.phase.trans hresult.1, hresult.2.kept hkept⟩
  | some hour => exact Awaiting.kept hkept hresult

theorem Moved.settled {state : State} (hmoved : Moved config old Dir.Vacant state) :
    Settled state.dirs state.pendingSeals where
  pending := hmoved.pending
  sealing := fun hour hsealing ↦ by
    by_cases hhour : hour = old
    · rw [hhour, hmoved.dir.sealing] at hsealing
      cases hsealing
    · exact hmoved.others hour hhour hsealing

theorem unlockRotate_ok (result : Option ℕ) :
    Verified config thread (do unlockMu; return result : Action (Option ℕ))
      (fun state ↦ Controls thread state ∧
        Live config state.dirs state.segmentHour state.entryCount state.handle ∧
        RotateResult config result state)
      fun result ↦ Owned thread (RotateResult config result) := by
  have hunlock := @unlockMu_ok config thread
    (Owned thread (RotateResult config result))
    (stable_owned fun _ _ ↦ RotateResult.kept)
    fun state hresult ↦ ⟨hresult.1, by
      cases result with
      | none => exact hresult.2
      | some hour => exact { (show Awaiting config hour [] state from hresult.2) with }⟩
  refine (hunlock.pre fun state _ ⟨hcontrols, hlive, hresult⟩ ↦ ?_).bind fun _ ↦
    Ok.ret fun _ _ hholds ↦ hholds.2
  have hrunning : state.phase = .running := by
    cases result with
    | none => exact hresult.1
    | some hour => exact Sealing.running (Awaiting.toSealing hresult)
  rcases hcontrols with hopening | ⟨-, hsealMu, hmu⟩
  · cases hopening.symm.trans hrunning
  · exact ⟨⟨⟨hrunning, hmu⟩, hlive⟩, .inr ⟨hrunning, hsealMu⟩, hresult⟩

theorem freeSegmentHour_eq {state : State} {start : ℕ}
    (hfree : (state.dirs start).complete = false) : state.freeSegmentHour start = some start := by
  change freeHour state.dirs (8759 + 1) start = some start
  rw [freeHour, hfree]
  rfl

/-- What `Rotate` reads under `mu`. -/
theorem readWriter_ok :
    Verified config thread (load fun state ↦ (state.segmentHour, state.entryCount, state.hour))
      (fun state ↦ HoldsMu config thread state ∧ Owns thread state ∧
        Settled state.dirs state.pendingSeals)
      fun value ↦ Controlled thread (Ready config value.1 value.2.1 value.2.2) := by
  have hstable : Steady config thread fun state ↦ Controls thread state ∧
      ∃ old count, Ready config old count 0 state := by
    refine stable_controlled fun _ _ _ hafter hpinned _ ⟨old, count, hready⟩ ↦ ?_
    exact ⟨old, count, hready.pinned hafter hpinned⟩
  refine Ok.pre ?_ (Ok.post ?_ (load_ok hstable))
  · rintro state - ⟨⟨⟨hrunning, hmu⟩, hlive⟩, howns, hsettled⟩
    rcases howns with hopening | ⟨-, hsealMu⟩
    · cases hopening.symm.trans hrunning
    · exact ⟨.inr ⟨hrunning, hsealMu, hmu⟩, _, _, hrunning, rfl, rfl, hlive, hsettled,
        Nat.zero_le _⟩
  · rintro _ state - ⟨⟨hcontrols, old, count, hready⟩, rfl⟩
    exact ⟨hcontrols, hready.running, rfl, rfl, hready.live, hready.settled, le_rfl⟩

theorem rotate_ok (hzstd : config.zstd.Faithful) : Verified config thread (rotate config thread)
      (fun state ↦ Owns thread state ∧
        (state.phase = .running ∧ Settled state.dirs state.pendingSeals))
      fun result ↦ Owned thread (RotateResult config result) := by
  have hlock := @lockMu_ok config thread
    (fun state ↦ Owns thread state ∧ Settled state.dirs state.pendingSeals)
    (stable_owned fun _ _ hkept hsettled ↦ hsettled.kept hkept)
    fun state hsettled ↦ ⟨hsettled.1, hsettled.2⟩
  refine (hlock.pre fun state _ ⟨howns, hrunning, hsettled⟩ ↦ ⟨hrunning, howns, hsettled⟩).bind
    fun _ ↦ readWriter_ok.bind fun (old, count, next) ↦ Ok.ite (fun hcount ↦ ?_) fun hcount ↦ ?_
  · subst hcount
    refine Ok.ite (fun hnext ↦ ?_) fun _ ↦ ?_
    · refine (advanceEmpty_ok hzstd hnext).bind fun _ ↦ (unlockRotate_ok none).pre ?_
      exact fun state _ ⟨hcontrols, hmoved⟩ ↦ ⟨hcontrols, hmoved.live, hmoved.running, hmoved.settled⟩
    · refine (unlockRotate_ok none).pre ?_
      exact fun state _ ⟨hcontrols, hready⟩ ↦ ⟨hcontrols, hready.live, hready.running, hready.settled⟩
  · refine (load_ok stable_ready).bind fun free ↦ ?_
    refine @Prog.Ok.assume _ _ _ _ _ _ _ _ _ (free = some (max next (old + 1)))
      (fun state _ hholds ↦ ?_) fun hfree ↦ ?_
    · obtain ⟨⟨-, hready⟩, hfree⟩ := hholds
      have habove : old < max next (old + 1) := lt_max_of_lt_right (Nat.lt_succ_self _)
      exact hfree.trans
        (freeSegmentHour_eq (hready.live.above _ (hready.segmentHour ▸ habove)).complete)
    · rw [hfree]
      refine ((rotateFile_ok hzstd hcount).pre fun _ _ hholds ↦ hholds.1).bind fun _ ↦
        (unlockRotate_ok (some old)).pre ?_
      exact fun state _ ⟨hcontrols, hmoved⟩ ↦ ⟨hcontrols, hmoved.live, ⟨hmoved.running,
        hmoved.below, hmoved.pending, hmoved.others⟩, hmoved.dir⟩

end Rotate

/-! ### SealCurrentHour -/

section SealCurrentHour

variable {config : Config} {thread hour : ℕ}

theorem Owns.sealMu {state : State} (howns : Owns thread state) (hrunning : state.phase = .running) :
    state.sealMu = some thread := by
  rcases howns with hopening | ⟨-, hsealMu⟩
  · cases hopening.symm.trans hrunning
  · exact hsealMu

/-- What a step of the owner in memory owes to the others. -/
theorem Owns.rely {other : ℕ} {before after : State} (hbefore : Sound config before)
    (howns : Owns thread before) (hother : other ≠ thread) (hrunning : before.phase = .running)
    (hafter : after = { before with
      sealMu := after.sealMu, pendingSeals := after.pendingSeals, segments := after.segments }) :
    Rely config other before after := by
  rw [hafter]
  exact Rely.memory hrunning rfl (fun _ ↦ id) (fun _ ↦ rfl)
    fun hsealMu ↦ absurd hsealMu (howns.not_sealMu hbefore hother)

/-- Every rotated WAL is sealed. -/
def Idle (state : State) : Prop := state.phase = .running ∧ Settled state.dirs state.pendingSeals

theorem Idle.kept {before after : State} (hkept : Kept before after) (hidle : Idle before) :
    Idle after :=
  ⟨hkept.phase.trans hidle.1, hidle.2.kept hkept⟩

theorem lockSealMu_ok : Verified config thread (lockSealMu thread)
    (fun state ↦ state.phase = .running) fun _ ↦ Owned thread Idle := by
  refine Ok.atomically stable_running ?_
  intro _ state hstate hrunning hfree _
  have hsealMu : state.sealMu = none := of_decide_eq_true hfree
  refine ⟨⟨{ hstate with idle := (absurd hrunning), settled := ?_ },
    fun _ _ ↦ Rely.memory hrunning rfl (fun _ ↦ id) (fun _ ↦ rfl) fun hheld ↦ ?_⟩,
    .inr ⟨hrunning, rfl⟩, hrunning, hstate.settled hrunning hsealMu⟩
  · exact fun _ hheld ↦ by cases hheld
  · cases hsealMu.symm.trans hheld

theorem unlockSealMu_ok : Verified config thread unlockSealMu
    (Owned thread Idle) fun _ state ↦ state.phase = .running := by
  refine Ok.atomically (stable_owned fun _ _ ↦ Idle.kept) ?_
  rintro _ state hstate ⟨howns, hrunning, hsettled⟩ - -
  exact ⟨⟨{ hstate with idle := (absurd hrunning), settled := fun _ _ ↦ hsettled },
    fun other hother ↦ howns.rely hstate hother hrunning rfl⟩, hrunning⟩

/-- With nothing pending there is nothing to retry. -/
theorem retryPendingSeals_ok : Verified config thread (retryPendingSeals config)
    (Owned thread Idle) fun _ ↦ Owned thread Idle := by
  refine (load_ok (stable_owned fun _ _ ↦ Idle.kept)).bind fun pending ↦ ?_
  refine @Prog.Ok.assume _ _ _ _ _ _ _ _ _ (pending = []) (fun state _ hholds ↦ ?_) fun hnone ↦ ?_
  · exact hholds.2.trans hholds.1.2.2.pending
  · rw [hnone]
    exact Ok.ret fun _ _ hholds ↦ hholds.1

theorem publish_ok : Verified config thread (change (State.publish hour))
    (Owned thread (Awaiting config hour []))
    fun _ ↦ Owned thread (Awaiting config hour [hour]) := by
  refine Ok.atomically (stable_owned fun _ _ ↦ Awaiting.kept) ?_
  rintro _ state hstate ⟨howns, hawaiting⟩ - -
  have hrunning := hawaiting.running
  have hindex := hstate.index hrunning
  obtain ⟨-, rows, -, hcomplete, -⟩ := hawaiting.dir
  have hpublish : state.publish hour = { state with pendingSeals := [hour] } := by
    rw [State.publish, hawaiting.pending]
    rfl
  rw [hpublish]
  refine ⟨⟨{ hstate with
    index := fun _ ↦ { hindex with
      pending_nodup := (by simp), pending := ?_, covered := ?_ }
    settled := fun _ hfree ↦ ?_ },
    fun other hother ↦ howns.rely hstate hother hrunning rfl⟩, howns,
    { hawaiting with pending := rfl }⟩
  · intro other hother
    rw [mem_singleton.mp hother]
    refine ⟨hawaiting.below.ne, fun loaded hloaded hsame ↦ ?_⟩
    have hregistered := (hindex.registered loaded hloaded).1
    rw [hsame, hcomplete] at hregistered
    cases hregistered
  · intro other hrows
    have hcovered := hindex.covered other hrows
    rw [hawaiting.pending] at hcovered
    exact hcovered.imp id (Or.imp id (Or.imp (fun hnone ↦ by cases hnone) id))
  · cases (howns.sealMu hrunning).symm.trans hfree

theorem framed_sealing {pending : List ℕ} : Framed config thread hour (Sealing hour pending) where
  kept := fun _ _ hrely howns hsealing ↦ hsealing.kept (howns.kept hrely)
  setDir := fun state dir _ hsealing ↦ by
    refine ⟨hsealing.running, hsealing.below, hsealing.pending, fun other hother ↦ ?_⟩
    rw [dirs_setDir_of_ne hother]
    exact hsealing.others other hother

/-- The index after a sealed hour was swapped from the pending ones to the segments. -/
theorem Index.registerSealed {dirs : ℕ → Dir} {segmentHour : ℕ} {segments : List LoadedSegment}
    {segment : SegmentMeta} (hindex : Index config dirs segmentHour [hour] segments)
    (hcomplete : (dirs hour).complete = true) (hmeta : (dirs hour).segmentMeta = some segment) :
    Index config dirs segmentHour [] (register ⟨hour, segment⟩ segments) where
  complete := hindex.complete
  active := hindex.active
  sorted := sortedByHour_register hindex.sorted
  registered := fun loaded hloaded ↦ by
    rcases (mem_register hindex.sorted).mp hloaded with rfl | ⟨hbefore, -⟩
    · exact ⟨hcomplete, hmeta⟩
    · exact hindex.registered loaded hbefore
  pending_nodup := nodup_nil
  pending := by simp
  covered := fun other hrows ↦ by
    by_cases hother : other = hour
    · subst hother
      exact .inr (.inl ⟨_, (mem_register hindex.sorted).mpr (.inl rfl), rfl⟩)
    · refine (hindex.covered other hrows).imp id (Or.imp ?_ (Or.imp ?_ id))
      · rintro ⟨loaded, hloaded, rfl⟩
        exact ⟨loaded, (mem_register hindex.sorted).mpr (.inr ⟨hloaded, hother⟩), rfl⟩
      · exact fun hmem ↦ absurd (mem_singleton.mp hmem) hother

/-- What `Seal` leaves, before the segment is registered. -/
def SealedHour (config : Config) (hour : ℕ) (rows : List Entry) (result : SealResult) (state : State) :
    Prop :=
  (hour ≠ state.segmentHour ∧ Dir.Sealed config rows result (state.dirs hour)) ∧
    Sealing hour [hour] state

theorem registerSealed_ok {rows : List Entry} (hrows : rows ≠ []) :
    Verified config thread (change (State.registerSealed hour (sealMeta config.physical rows)))
      (Owned thread (SealedHour config hour rows (.segment (sealMeta config.physical rows))))
      fun _ ↦ Owned thread Idle := by
  refine Ok.atomically (stable_owned ?_) ?_
  · rintro before after hkept ⟨⟨hother, hsealed⟩, hsealing⟩
    refine ⟨⟨hkept.segmentHour ▸ hother, ?_⟩, hsealing.kept hkept⟩
    rw [hkept.others hour hother]
    exact hsealed
  · rintro _ state hstate ⟨howns, ⟨hother, hsealed⟩, hsealing⟩ - -
    have hrunning := hsealing.running
    obtain ⟨-, hcomplete, hmeta⟩ := hsealed.segment hrows
    have hindex := hstate.index hrunning
    rw [hsealing.pending] at hindex
    have hregister : state.registerSealed hour (sealMeta config.physical rows) = { state with
          pendingSeals := []
          segments := register ⟨hour, sealMeta config.physical rows⟩ state.segments } := by
      simp [State.registerSealed, State.unpublish, hsealing.pending]
    rw [hregister]
    refine ⟨⟨{ hstate with
      index := fun _ ↦ hindex.registerSealed hcomplete hmeta
      settled := fun _ hfree ↦ ?_ },
      fun other hother ↦ howns.rely hstate hother hrunning rfl⟩, howns, hrunning, rfl,
      fun other hfile ↦ ?_⟩
    · cases (howns.sealMu hrunning).symm.trans hfree
    · by_cases hhour : other = hour
      · exact hhour ▸ hcomplete
      · exact hsealing.others other hhour hfile

variable (hzstd : config.zstd.Faithful)

include hzstd

theorem sealPending_ok : Verified config thread (sealPending config hour)
      (Owned thread (Awaiting config hour [hour])) fun _ ↦ Owned thread Idle := by
  suffices hrows : ∀ rows : { rows : List Entry // rows ≠ [] },
      Verified config thread (sealPending config hour)
        (SealingDir thread hour (fun dir ↦ dir.Unsealed config rows.val) (Sealing hour [hour]))
        fun _ state ↦ Owns thread state ∧ Idle state by
    refine Ok.pre ?_ (Ok.exists hrows)
    rintro state - ⟨howns, hawaiting⟩
    obtain ⟨hactive, rows, hrows, hunsealed⟩ := hawaiting.dir
    obtain ⟨file, hsealing, -⟩ := hunsealed.file
    exact ⟨⟨rows, hrows⟩, howns, ⟨⟨hawaiting.below.ne, fun _ ↦ ⟨hawaiting.below, by
      rw [hawaiting.pending]; exact mem_singleton_self _⟩, hactive, by simp [hsealing]⟩,
      hunsealed⟩, hawaiting.toSealing⟩
  rintro ⟨rows, hrows⟩
  have hseal := @sealDir_ok config thread hour (Sealing hour [hour]) framed_sealing hzstd rows
    fun _ _ hempty ↦ absurd hempty hrows
  refine hseal.bind fun result ↦ ?_
  refine Ok.assume
    (fun state _ hholds ↦ (hholds.2.1.2.segment hrows).1) fun hresult ↦ ?_
  subst hresult
  exact registerSealed_ok hrows

theorem sealCurrentHour_ok : Verified config thread (sealCurrentHour config thread)
      (fun state ↦ state.phase = .running) fun _ state ↦ state.phase = .running := by
  refine lockSealMu_ok.bind fun _ ↦ retryPendingSeals_ok.bind fun _ ↦ (rotate_ok hzstd).bind
    fun rotated ↦ ?_
  cases rotated with
  | none => exact unlockSealMu_ok
  | some hour =>
    exact publish_ok.bind fun _ ↦ (sealPending_ok hzstd).bind fun _ ↦ unlockSealMu_ok

theorem ingest_ok (batch : Batch) : Verified config thread (ingest config thread batch)
      (fun state ↦ state.phase = .running) fun _ state ↦ state.phase = .running := by
  have happend := @append_ok config thread hzstd batch.entries batch.storable
  refine happend.bind fun written ↦ ?_
  cases written with
  | some stamped => exact acknowledge_ok.pre fun _ _ hholds ↦ hholds.2 stamped rfl
  | none =>
    refine ((sealCurrentHour_ok hzstd).pre fun _ _ hholds ↦ hholds.1).bind fun _ ↦ ?_
    refine happend.bind fun written ↦ ?_
    cases written with
    | some stamped => exact acknowledge_ok.pre fun _ _ hholds ↦ hholds.2 stamped rfl
    | none => exact Ok.ret fun _ _ hholds ↦ hholds.1

end SealCurrentHour

end OpenTrace.Engine.Store
