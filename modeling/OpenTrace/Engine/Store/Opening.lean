import OpenTrace.Engine.Store.Rotation

/-!
# NewStore

The writer is opened before the segments are recovered. The hour that `freeSegmentHour` finds is a
frontier of the layout, unless its directory holds the WAL of an interrupted seal. Recovery then seals
what earlier processes left behind, directory by directory, and leaves the writer's one alone; the
segments that it loads and the active WAL hold every row.
-/

namespace OpenTrace.Engine.Store

open Library Encoding Chunk Wal Option

/-! ### The free hour -/

theorem freeHour_spec {dirs : ℕ → Dir} {fuel start hour : ℕ}
    (hfree : freeHour dirs fuel start = some hour) :
    start ≤ hour ∧ (dirs hour).complete = false ∧
      ∀ earlier, start ≤ earlier → earlier < hour → (dirs earlier).complete = true := by
  induction fuel generalizing start with
  | zero => cases hfree
  | succ fuel ih =>
    rw [freeHour] at hfree
    cases hcomplete : (dirs start).complete with
    | false =>
      rw [hcomplete] at hfree
      cases some.inj hfree
      exact ⟨le_rfl, hcomplete, fun earlier hlow hhigh ↦ by omega⟩
    | true =>
      rw [hcomplete] at hfree
      obtain ⟨hlow, hhour, hbetween⟩ := ih hfree
      refine ⟨by omega, hhour, fun earlier hstart hhigh ↦ ?_⟩
      rcases Nat.eq_or_lt_of_le hstart with rfl | hlater
      · exact hcomplete
      · exact hbetween earlier hlater hhigh

/-- The hour that `NewStore` picks is a frontier. Assumes: it holds no interrupted seal. -/
theorem Layout.picked {clock frontier fuel hour : ℕ} {dirs : ℕ → Dir}
    (hlayout : Layout clock dirs frontier)
    (hfree : freeHour dirs fuel (clock / 3600000) = some hour)
    (hsealing : (dirs hour).sealing = none) : Layout clock dirs hour := by
  obtain ⟨hcurrent, hcomplete, hsealed⟩ := freeHour_spec hfree
  have hfrontier : frontier ≤ hour := by
    by_contra hbelow
    rcases hlayout.between hour hcurrent (not_le.mp hbelow) with hmarked | hfile
    · simp [hcomplete] at hmarked
    · simp [hsealing] at hfile
  refine ⟨fun later hlater ↦ hlayout.above later (hfrontier.trans_lt hlater), hsealing, hcomplete,
    fun earlier hlow hhigh ↦ .inl (hsealed earlier hlow hhigh), fun earlier hhigh hactive ↦ ?_⟩
  rcases lt_trichotomy earlier frontier with hbelow | rfl | habove
  · exact hlayout.orphan earlier hbelow hactive
  · refine ⟨?_, hlayout.complete, hlayout.sealing⟩
    by_contra hlow
    have hmarked := hsealed earlier (not_lt.mp hlow) hhigh
    simp [hlayout.complete] at hmarked
  · simp [(hlayout.above earlier habove).active] at hactive

/-! ### Steps of an opening store -/

section Open

variable {config : Config} {thread hour : ℕ}

/-- The thread opens the store, and the assertion holds. -/
abbrev Opening (thread : ℕ) (assertion : State → Prop) (state : State) : Prop :=
  state.phase = .opening thread ∧ assertion state

theorem stable_opening {assertion : State → Prop}
    (hassertion : ∀ (state : State) (clock : ℕ), state.clock ≤ clock → assertion state →
      assertion { state with clock := clock }) :
    Steady config thread (Opening thread assertion) := by
  rintro before after - - hrely ⟨hopening, hholds⟩
  rw [hrely.opening hopening]
  exact ⟨hopening, hassertion before after.clock hrely.clock hholds⟩

theorem enter_ok :
    Verified config thread (Prog.atomically (fun _ state ↦ state.phase = .closed) (fun _ _ ↦ false)
      (fun _ state ↦ { state with phase := .opening thread }) fun _ _ ↦ () : Action Unit) (fun _ ↦ True)
      fun _ ↦ Opening thread fun _ ↦ True := by
  refine Prog.Ok.atomically Stable.true ?_
  intro _ state hstate _ hclosed _
  have hphase : state.phase = .closed := of_decide_eq_true hclosed
  have hstopped : state.phase ≠ .running := by simp [hphase]
  obtain ⟨hmu, hsealMu, hinflight⟩ := hstate.idle hstopped
  refine ⟨⟨{ hstate with
    idle := fun _ ↦ ⟨hmu, hsealMu, hinflight⟩, atRest := fun _ ↦ hstate.atRest hstopped
    index := ?_, flushed := ?_, live := ?_, settled := ?_ }, fun other _ ↦
    { Rely.refl config other state with
      running := ?_, opening := ?_, mu := ?_, sealMu := ?_ }⟩, rfl, trivial⟩
  iterate 4 exact fun hrunning ↦ by cases hrunning
  · exact fun hrunning ↦ absurd hrunning hstopped
  · rw [hphase]
    exact fun hopening ↦ by cases hopening
  · rw [hmu]
    exact fun hheld ↦ by cases hheld
  · rw [hsealMu]
    exact fun hheld ↦ by cases hheld

theorem leave_ok : Verified config thread (change fun state ↦ { state with phase := .closed })
      (Opening thread fun _ ↦ True) fun _ _ ↦ True := by
  refine Prog.Ok.atomically (stable_opening fun _ _ _ _ ↦ trivial) ?_
  rintro _ state hstate ⟨hopening, -⟩ - -
  have hstopped : state.phase ≠ .running := by simp [hopening]
  have hcontrols : Controls thread state := .inl hopening
  refine ⟨⟨{ hstate with
    idle := fun _ ↦ hstate.idle hstopped, atRest := fun _ ↦ hstate.atRest hstopped
    index := ?_, flushed := ?_, live := ?_, settled := ?_ }, fun other hother ↦
    hcontrols.rely hstate hother rfl (fun _ ↦ DirGrows.refl config _)
      (fun _ ↦ absurd rfl) rfl fun hrunning ↦ absurd hrunning hstopped⟩, trivial⟩
  iterate 4 exact fun hrunning ↦ by cases hrunning

variable {state : State} {file : WalFile}

/-- A step of an opening store on a directory, and on the writer. -/
theorem opening_guarantee {dir : Dir} {segmentHour entryCount : ℕ} {handle : Handle}
    (hstate : Sound config state) (hopening : state.phase = .opening thread)
    (hgrows : DirGrows config (state.dirs hour) dir)
    (hsafe : dir.safeRows config.zstd = dir.rows config.zstd)
    (hdisk : Disk config state.clock (Function.update state.dirs hour dir) state.names) :
    Guarantee (Sound config) (Rely config) thread state
      { state.setDir hour dir with
        segmentHour := segmentHour, entryCount := entryCount, handle := handle } := by
  have hstopped : state.phase ≠ .running := by simp [hopening]
  have hcontrols : Controls thread state := .inl hopening
  have hdirs := dirGrows_setDir hgrows
  refine ⟨{ disk := hdisk, ledger := hstate.ledger.grow hdirs, idle := hstate.idle
            atRest := fun _ other ↦ ?_, index := fun hrunning ↦ absurd hrunning hstopped
            flushed := fun hrunning ↦ absurd hrunning hstopped
            live := fun hrunning ↦ absurd hrunning hstopped
            settled := fun hrunning ↦ absurd hrunning hstopped, log := hstate.log },
    fun other hother ↦ hcontrols.rely hstate hother rfl hdirs
      (fun hrunning ↦ absurd hrunning hstopped) rfl fun hrunning ↦ absurd hrunning hstopped⟩
  by_cases hother : other = hour
  · subst hother
    rwa [dirs_setDir_self]
  · rw [dirs_setDir_of_ne hother]
    exact hstate.atRest hstopped other

theorem Layout.advance {clock clock' : ℕ} {dirs : ℕ → Dir} (hclock : clock ≤ clock')
    (hlayout : Layout clock dirs hour) : Layout clock' dirs hour :=
  hlayout.mono hclock fun _ ↦ Dir.SameFiles.refl _

/-- The directory of the picked hour is there, and the hour is a frontier. -/
structure Prepared (hour : ℕ) (state : State) : Prop where
  layout : Layout state.clock state.dirs hour
  mem : hour ∈ state.names
  named : nameable hour = true

/-- The writer is at the picked hour. -/
structure Opened (config : Config) (hour : ℕ) (state : State) : Prop where
  segmentHour : state.segmentHour = hour
  live : Live config state.dirs state.segmentHour state.entryCount state.handle
  layout : Layout state.clock state.dirs hour

/-- A step that replaces the active WAL of the picked hour by whole records of the same rows. -/
theorem replaceActive_guarantee (hzstd : config.zstd.Faithful) {entries : List Entry}
    {segmentHour entryCount : ℕ} {handle : Handle} (hstate : Sound config state)
    (hopening : state.phase = .opening thread) (hprepared : Prepared hour state)
    (hfile : Clean config.codec hour file entries)
    (hrows : (state.dirs hour).rows config.zstd = file.rows config.zstd)
    (hsafe : (state.dirs hour).safeRows config.zstd <+: file.safeRows config.zstd) :
    Guarantee (Sound config) (Rely config) thread state
        { state.setDir hour ((state.dirs hour).withActive file) with
          segmentHour := segmentHour, entryCount := entryCount, handle := handle } ∧
      Layout state.clock
        (Function.update state.dirs hour ((state.dirs hour).withActive file)) hour := by
  have hsealing := hprepared.layout.sealing
  have hcomplete := hprepared.layout.complete
  obtain ⟨hrows', hsafe'⟩ : ((state.dirs hour).withActive file).rows config.zstd = _ ∧
      ((state.dirs hour).withActive file).safeRows config.zstd = _ :=
    Dir.rows_of_active config.zstd hcomplete hsealing rfl
  have hdir : DirOk config hour ((state.dirs hour).withActive file) := by
    refine ⟨fun other hother ↦ ?_, ?_, ?_, .inr hprepared.named⟩
    · cases some.inj hother
      exact ⟨entries, hfile.walOf⟩
    · simp [Dir.withActive, hsealing]
    · simp [Dir.withActive, hcomplete]
  have hlayout := @Layout.setFrontier _ _ _ ((state.dirs hour).withActive file) hprepared.layout
    hsealing hcomplete
  refine ⟨opening_guarantee hstate hopening ⟨?_, ?_, ?_⟩ ?_ ?_, hlayout⟩
  · rw [hrows, hrows']
  · rwa [hsafe']
  · simp [hcomplete]
  · -- The rows were safe before, so they are in what is safe now.
    refine (hdir.safeRows_initial hzstd).eq_of_length_le ?_
    rw [hrows', ← hrows, ← hstate.atRest (by simp [hopening]) hour, hsafe']
    exact hsafe.length_le
  · refine hstate.disk.setDir hdir (fun hempty ↦ ?_) (fun _ ↦ hprepared.mem) ⟨hour, hlayout⟩
    obtain ⟨_, hsome, _⟩ := hempty.file
    cases hsealing.symm.trans hsome

/-- The active WAL of the picked hour, or the one that will be created, holds whole records. -/
def Replayed (config : Config) (hour count : ℕ) (state : State) : Prop :=
  Prepared hour state ∧ ∃ entries,
    Clean config.codec hour ((state.dirs hour).active.getD ⟨[], 0⟩) entries ∧ count = entries.length

theorem Prepared.advance {clock : ℕ} (hclock : state.clock ≤ clock)
    (hprepared : Prepared hour state) : Prepared hour { state with clock := clock } :=
  ⟨hprepared.layout.advance hclock, hprepared.mem, hprepared.named⟩

section

variable (hzstd : config.zstd.Faithful)

include hzstd

theorem openActive_ok {count : ℕ} : Verified config thread (change (State.openActive hour count))
      (Opening thread (Replayed config hour count))
      fun _ ↦ Opening thread (Opened config hour) := by
  refine Prog.Ok.atomically (stable_opening ?_) ?_
  · exact fun state clock hclock ⟨hprepared, hentries⟩ ↦ ⟨hprepared.advance hclock, hentries⟩
  rintro _ state hstate ⟨hopening, hprepared, entries, hfile, hcount⟩ - -
  generalize hactive : (state.dirs hour).active.getD ⟨[], 0⟩ = file at hfile
  have hkept : (state.dirs hour).rows config.zstd = file.rows config.zstd ∧
      (state.dirs hour).safeRows config.zstd <+: file.safeRows config.zstd := by
    have hsealing := hprepared.layout.sealing
    have hcomplete := hprepared.layout.complete
    cases hbefore : (state.dirs hour).active with
    | none =>
      have hvacant : (state.dirs hour).Vacant := ⟨hbefore, hsealing, hcomplete⟩
      rw [hbefore, getD_none] at hactive
      have hnil : file.content = [] := by rw [← hactive]
      rw [hvacant.rows, (rows_of_content_nil hzstd hnil).1,
        Dir.safeRows, hcomplete, hsealing, hbefore]
      exact ⟨rfl, List.nil_prefix⟩
    | some before =>
      rw [hbefore, getD_some] at hactive
      obtain ⟨hrows, hsafe⟩ := Dir.rows_of_active config.zstd hcomplete hsealing hbefore
      rw [hrows, hsafe, hactive]
      exact ⟨rfl, List.prefix_rfl⟩
  have hopen : state.openActive hour count =
      { state.setDir hour ((state.dirs hour).withActive file) with
        segmentHour := hour, entryCount := count, handle := .active } := by
    rw [State.openActive, hactive]
    rfl
  obtain ⟨hguarantee, hlayout⟩ :=
    replaceActive_guarantee hzstd hstate hopening hprepared hfile hkept.1 hkept.2
  rw [hopen]
  refine ⟨hguarantee, hopening, rfl, ⟨rfl, ⟨file, entries, ?_, hfile, hcount⟩, hlayout.sealing,
    hlayout.above⟩, hlayout⟩
  rw [dirs_setDir_self]
  rfl

/-- Replay cuts a torn tail. -/
theorem truncateActive_ok :
    Verified config thread (changeDir hour (Dir.truncateActive (scanWAL config.zstd file.content).consumed))
      (Opening thread fun state ↦ Prepared hour state ∧ (state.dirs hour).active = some file)
      fun _ ↦ Opening thread
        (Replayed config hour (scanWAL config.zstd file.content).entries.length) := by
  refine Prog.Ok.atomically (stable_opening ?_) ?_
  · exact fun state clock hclock ⟨hprepared, hactive⟩ ↦ ⟨hprepared.advance hclock, hactive⟩
  rintro _ state hstate ⟨hopening, hprepared, hactive⟩ - -
  obtain ⟨entries, hwal⟩ := (hstate.disk.dir hour).active file hactive
  obtain ⟨whole, hclean, hlength, hrows, hsafe, -⟩ := hwal.replay hzstd
  have hfile := Dir.rows_of_active config.zstd hprepared.layout.complete
    hprepared.layout.sealing hactive
  obtain ⟨hguarantee, hlayout⟩ := replaceActive_guarantee hzstd hstate hopening hprepared hclean
    (hfile.1.trans hrows.symm) (hfile.2.symm ▸ hsafe)
  have htruncate : (state.dirs hour).truncateActive
      (scanWAL config.zstd file.content).consumed = (state.dirs hour).withActive
        ⟨truncateFile (scanWAL config.zstd file.content).consumed file.content,
          min file.durable (scanWAL config.zstd file.content).consumed⟩ := by
    rw [Dir.truncateActive, hactive]
    rfl
  dsimp only
  rw [htruncate]
  refine ⟨hguarantee, hopening, ⟨hlayout, hprepared.mem, hprepared.named⟩, whole, ?_, hlength⟩
  rw [dirs_setDir_self]
  exact hclean

theorem replayed_of_whole (hstate : Sound config state)
    (hprepared : Prepared hour state) (hactive : (state.dirs hour).active = some file)
    (hwhole : (scanWAL config.zstd file.content).error = none) :
    Replayed config hour (scanWAL config.zstd file.content).entries.length state := by
  obtain ⟨entries, hwal⟩ := (hstate.disk.dir hour).active file hactive
  obtain ⟨whole, hclean, hlength, -, -, hsame⟩ := hwal.replay hzstd
  refine ⟨hprepared, whole, ?_, hlength⟩
  rw [hactive]
  exact hsame hwhole ▸ hclean

end

theorem stable_picked : Steady config thread
    (Opening thread fun state ↦ Layout state.clock state.dirs hour) :=
  stable_opening fun _ _ ↦ Layout.advance

theorem ensureFrontier_ok (hzstd : config.zstd.Faithful) :
    Verified config thread (ensureWAL config hour)
      (Opening thread fun state ↦ Layout state.clock state.dirs hour)
      fun _ ↦ Opening thread (Opened config hour) := by
  have hmkdir : Verified config thread (mkdirAll hour)
      (Opening thread fun state ↦ Layout state.clock state.dirs hour)
      fun _ ↦ Opening thread (Prepared hour) := by
    refine Prog.Ok.pre ?_ (Prog.Ok.post ?_ (@mkdirAll_ok config thread hour
      (Opening thread fun state ↦ Layout state.clock state.dirs hour) ?_ ?_))
    · exact fun _ _ hholds ↦ ⟨.inl hholds.1, hholds⟩
    · exact fun _ _ _ ⟨_, ⟨hopening, hlayout⟩, hmem, hnamed⟩ ↦ ⟨hopening, hlayout, hmem, hnamed⟩
    · intro before after hbefore hafter hrely ⟨_, hholds⟩
      have hkept := stable_picked before after hbefore hafter hrely hholds
      exact ⟨.inl hkept.1, hkept⟩
    · exact fun _ _ hholds ↦ hholds
  have hread : Verified config thread (load fun state ↦ (state.dirs hour).active.map fun file ↦
      scanWAL config.zstd file.content)
      (Opening thread (Prepared hour)) _ :=
    load_ok (stable_opening fun _ _ hclock hprepared ↦ hprepared.advance hclock)
  refine hmkdir.bind fun _ ↦ hread.bind fun replay ↦ ?_
  cases replay with
  | none =>
    refine (openActive_ok hzstd).pre fun state _ ⟨⟨hopening, hprepared⟩, hreplay⟩ ↦
      ⟨hopening, hprepared, [], ?_, rfl⟩
    rw [map_eq_none_iff.mp hreplay.symm]
    exact clean_empty _ _
  | some replay =>
    have hfile : ∀ file : { file : WalFile // scanWAL config.zstd file.content = replay },
        Verified config thread (do
          if replay.error.isSome then changeDir hour (Dir.truncateActive replay.consumed)
          change (State.openActive hour replay.entries.length) : Action Unit)
          (Opening thread fun state ↦ Prepared hour state ∧
            (state.dirs hour).active = some file.val)
          fun _ ↦ Opening thread (Opened config hour) := by
      rintro ⟨file, rfl⟩
      refine Prog.Ok.ite (fun _ ↦ (truncateActive_ok hzstd).bind fun _ ↦ openActive_ok hzstd)
        fun herror ↦ (openActive_ok hzstd).pre ?_
      exact fun state hstate ⟨hopening, hprepared, hactive⟩ ↦ ⟨hopening,
        replayed_of_whole hzstd hstate hprepared hactive (not_isSome_iff_eq_none.mp herror)⟩
    refine (Prog.Ok.exists hfile).pre fun state _ ⟨⟨hopening, hprepared⟩, hreplay⟩ ↦ ?_
    obtain ⟨file, hactive, hscan⟩ := map_eq_some_iff.mp hreplay.symm
    exact ⟨⟨file, hscan⟩, hopening, hprepared, hactive⟩

end Open

end OpenTrace.Engine.Store
