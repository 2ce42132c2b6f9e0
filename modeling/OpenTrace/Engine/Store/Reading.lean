import OpenTrace.Engine.Store.Recovery

/-!
# Queries

A query takes its view in one step and reads the files of the view one after another, while other
threads write, rotate and seal. Whatever file it reads an hour from, it gets the rows that the hour has
at that moment, and rows only grow. The hours of a view differ from each other, and they include the
hour of every entry that was acknowledged before, but for the segments that the time range leaves out.
-/

namespace OpenTrace.Engine.Store

open Library Encoding Chunk Wal List Prog

/-! ### Reading the rows of an hour -/

/-- What a query knows: the entries it is asked for are in the directories of their hours. -/
structure Known (config : Config) (acked : List Entry) (state : State) : Prop where
  running : state.phase = .running
  placed : ∀ entry ∈ acked,
    config.codec.persisted entry ∈ (state.dirs (home entry)).rows config.codec.zstd

/-- Rows that were read of one hour. -/
structure BlockFor (config : Config) (acked : List Entry) (hour : ℕ) (rows : List Entry) : Prop where
  block : BlockOf hour rows
  holds : ∀ entry ∈ acked, home entry = hour → config.codec.persisted entry ∈ rows

section Read

variable {config : Config} {thread : ℕ} {acked : List Entry}

theorem Known.rely {before after : State} (hrely : Rely config thread before after)
    (hknown : Known config acked before) : Known config acked after :=
  ⟨hrely.running hknown.running, fun entry hentry ↦
    (hrely.dirs _).rows.subset (hknown.placed entry hentry)⟩

variable {state : State} {hour : ℕ} {rows : List Entry}

theorem Known.blockFor (hzstd : config.zstd.Faithful) (hstate : Sound config state)
    (hknown : Known config acked state) (hrows : rows = (state.dirs hour).rows config.zstd) :
    BlockFor config acked hour rows := by
  subst hrows
  refine ⟨(hstate.disk.dir hour).blockOf hzstd, fun entry hentry hhome ↦ ?_⟩
  exact hhome ▸ hknown.placed entry hentry

/-- The entries that are acknowledged now are known. -/
theorem Sound.known (hzstd : config.zstd.Faithful) (hstate : Sound config state)
    (hrunning : state.phase = .running) : Known config state.acked state := by
  refine ⟨hrunning, fun entry hentry ↦ ?_⟩
  obtain ⟨hour, hrow⟩ := hstate.ledger.safe entry hentry
  have hplaced := ((hstate.disk.dir hour).safeRows_initial hzstd).subset hrow
  have hhome : home (config.codec.persisted entry) = hour :=
    ((hstate.disk.dir hour).blockOf hzstd).home_eq hplaced
  rwa [← hhome] at hplaced

/-- An active WAL holds the rows of its hour. -/
theorem Sound.rows_of_active {file : WalFile} (hstate : Sound config state)
    (hactive : (state.dirs hour).active = some file) :
    file.rows config.zstd = (state.dirs hour).rows config.zstd := by
  obtain ⟨frontier, hlayout⟩ := hstate.disk.layout
  obtain ⟨hcomplete, hsealing⟩ :
      (state.dirs hour).complete = false ∧ (state.dirs hour).sealing = none := by
    rcases lt_trichotomy hour frontier with hbelow | rfl | habove
    · exact (hlayout.orphan hour hbelow (by simp [hactive])).2
    · exact ⟨hlayout.complete, hlayout.sealing⟩
    · cases (hlayout.above hour habove).active.symm.trans hactive
  exact (Dir.rows_of_active _ hcomplete hsealing hactive).1.symm

/-- A rotated WAL holds the rows of its hour, and still does when the hour is sealed. -/
theorem Sound.rows_of_sealing {file : WalFile} (hstate : Sound config state)
    (hsealing : (state.dirs hour).sealing = some file) :
    file.rows config.zstd = (state.dirs hour).rows config.zstd := by
  cases hcomplete : (state.dirs hour).complete with
  | false => exact (Dir.rows_of_sealing _ hcomplete hsealing).1.symm
  | true =>
    obtain ⟨rows, -, -, hstores, hfile⟩ := (hstate.disk.dir hour).complete hcomplete
    rw [(Dir.rows_of_complete _ hcomplete).1, hstores.chunkRows]
    exact hfile file hsealing

section

variable (hzstd : config.zstd.Faithful) {assertion : State → Prop}

include hzstd

theorem readWAL_ok {file : State → Option WalFile} (hstable : Steady config thread assertion)
    (hknown : ∀ state, assertion state → Known config acked state)
    (hfile : ∀ state found, Sound config state → file state = some found → found.rows config.zstd = (state.dirs hour).rows config.zstd) :
    Verified config thread (readWAL config file) assertion
      fun rows state ↦ assertion state ∧ BlockFor config acked hour rows := by
  refine Ok.post ?_ (loadUnless_ok hstable)
  rintro rows state hstate ⟨hassertion, rfl, hthere⟩
  refine ⟨hassertion, (hknown state hassertion).blockFor hzstd hstate ?_⟩
  cases hfound : file state with
  | none => simp [hfound] at hthere
  | some found =>
    exact hfile state found hstate hfound

theorem readSegment_ok {loaded : LoadedSegment} (hstable : Steady config thread assertion)
    (hknown : ∀ state, assertion state → Known config acked state)
    (hstored : ∀ state, assertion state → (state.dirs loaded.hour).complete = true ∧
      (state.dirs loaded.hour).segmentMeta = some loaded.segment) :
    Verified config thread (load fun state ↦ state.segmentRows loaded) assertion
      fun rows state ↦ assertion state ∧ BlockFor config acked loaded.hour rows := by
  refine Ok.post ?_ (load_ok hstable)
  rintro rows state hstate ⟨hassertion, rfl⟩
  obtain ⟨hcomplete, hmeta⟩ := hstored state hassertion
  exact ⟨hassertion, (hknown state hassertion).blockFor hzstd hstate
    (Dir.segmentRows_eq _ hcomplete hmeta)⟩

end

/-! ### Reading several hours -/

/-- Rows that were read of several hours, one after another. -/
def Blocks (config : Config) (acked : List Entry) (hours : List ℕ) (rows : List Entry) : Prop :=
  ∃ blocks : List (ℕ × List Entry), blocks.map Prod.fst = hours ∧ rows = blocks.flatMap Prod.snd ∧
    ∀ block ∈ blocks, BlockFor config acked block.1 block.2

theorem blocks_nil : Blocks config acked [] [] := ⟨[], rfl, rfl, by simp⟩

theorem BlockFor.blocks (hblock : BlockFor config acked hour rows) :
    Blocks config acked [hour] rows :=
  ⟨[(hour, rows)], rfl, by simp, by simpa using hblock⟩

theorem Blocks.append {hours hours' : List ℕ} {rows rows' : List Entry}
    (hblocks : Blocks config acked hours rows) (hblocks' : Blocks config acked hours' rows') :
    Blocks config acked (hours ++ hours') (rows ++ rows') := by
  obtain ⟨blocks, rfl, rfl, hall⟩ := hblocks
  obtain ⟨blocks', rfl, rfl, hall'⟩ := hblocks'
  refine ⟨blocks ++ blocks', map_append, flatMap_append.symm, fun block hblock ↦ ?_⟩
  exact (mem_append.mp hblock).elim (hall block) (hall' block)

theorem Blocks.heldOnce {hours : List ℕ} (hblocks : Blocks config acked hours rows)
    (hnodup : hours.Nodup) {entry : Entry} (hentry : entry ∈ acked) (hhome : home entry ∈ hours) :
    HeldOnce config.codec rows entry := by
  obtain ⟨blocks, rfl, rfl, hall⟩ := hblocks
  obtain ⟨block, hblock, hhour⟩ := mem_map.mp hhome
  exact heldOnce_blocks hnodup (fun other hother ↦ (hall other hother).block) hblock
    ((hall block hblock).holds entry hentry hhour.symm)

theorem readAll_ok {α : Type} {assertion : State → Prop} {read : α → Action (List Entry)}
    {hourOf : α → ℕ} {items : List α}
    (hread : ∀ item ∈ items, Verified config thread (read item) assertion
      fun rows state ↦ assertion state ∧ BlockFor config acked (hourOf item) rows) :
    Verified config thread (readAll read items) assertion
      fun rows state ↦ assertion state ∧ Blocks config acked (items.map hourOf) rows := by
  induction items with
  | nil => exact Ok.ret fun _ _ hholds ↦ ⟨hholds, blocks_nil⟩
  | cons first rest ih =>
    refine (hread first mem_cons_self).bind fun rows ↦ Ok.given fun hblock ↦ ?_
    have hrest := ih fun item hitem ↦ hread item (mem_cons_of_mem _ hitem)
    refine hrest.bind fun others ↦ ?_
    exact Ok.ret fun state _ ⟨hholds, hblocks⟩ ↦ ⟨hholds, hblock.blocks.append hblocks⟩

end Read

/-! ### Search -/

section Search

variable {config : Config} {thread : ℕ} {acked : List Entry}

variable {hour : ℕ}

/-- While no rotated WAL is unpublished, every row is in the active hour, in a registered segment or in
a pending hour. -/
theorem Sound.hour_mem {state : State} (hstate : Sound config state)
    (hrunning : state.phase = .running) (hpublished : state.unpublished = false)
    (hrows : (state.dirs hour).rows config.zstd ≠ []) :
    hour = state.segmentHour ∨ (∃ loaded ∈ state.segments, loaded.hour = hour) ∨
      hour ∈ state.pendingSeals := by
  refine ((hstate.index hrunning).covered hour hrows).imp id (Or.imp id ?_)
  rintro (hpending | ⟨hsealing, hcomplete⟩)
  · exact hpending
  · by_contra hnot
    have hmem : hour ∈ state.names := hstate.disk.named hour fun hvacant ↦ hrows (hvacant.rows _)
    have hunpublished := any_eq_false.mp hpublished hour hmem
    simp [hsealing, hcomplete, hnot] at hunpublished

/-- What a query knows once it has its view. -/
structure Viewed (config : Config) (acked : List Entry) (view : View) (state : State) : Prop extends
    Known config acked state where
  stored : ∀ loaded ∈ view.segments, (state.dirs loaded.hour).complete = true ∧
    (state.dirs loaded.hour).segmentMeta = some loaded.segment

/-- The hours that a query reads. -/
def View.hours (view : View) : List ℕ :=
  view.segments.map LoadedSegment.hour ++ ([view.active] ++ view.pending)

theorem stable_known : Steady config thread (Known config acked) :=
  fun _ _ _ _ hrely hknown ↦ hknown.rely hrely

theorem stable_viewed {view : View} : Steady config thread (Viewed config acked view) := by
  intro before after _ _ hrely hviewed
  refine ⟨hviewed.toKnown.rely hrely, fun loaded hloaded ↦ ?_⟩
  obtain ⟨hcomplete, hmeta⟩ := hviewed.stored loaded hloaded
  obtain ⟨hcomplete', -, hmeta'⟩ := (hrely.dirs loaded.hour).complete hcomplete
  exact ⟨hcomplete', hmeta'.trans hmeta⟩

theorem Index.nodup_view {dirs : ℕ → Dir} {segmentHour : ℕ} {pendingSeals : List ℕ}
    {segments chosen : List LoadedSegment}
    (hindex : Index config dirs segmentHour pendingSeals segments) (hchosen : chosen.Sublist segments) :
    (chosen.map LoadedSegment.hour ++ ([segmentHour] ++ pendingSeals)).Nodup := by
  obtain ⟨hnodup, hother⟩ := hindex.nodup_hours
  have hsublist := hchosen.map LoadedSegment.hour
  refine nodup_append.mpr ⟨hnodup.sublist hsublist, ?_, fun hour hhour later hlater ↦ ?_⟩
  · exact nodup_cons.mpr ⟨fun hpending ↦ (hindex.pending _ hpending).1 rfl, hindex.pending_nodup⟩
  · rintro rfl
    rcases mem_cons.mp hlater with rfl | hpending
    · exact hother (hsublist.subset hhour)
    · obtain ⟨loaded, hloaded, rfl⟩ := mem_map.mp hhour
      exact (hindex.pending _ hpending).2 loaded (hchosen.subset hloaded) rfl

theorem queryView_ok {start finish : ℤ} :
    Verified config thread (queryView start finish) (Known config acked)
      fun view state ↦ Viewed config acked view state ∧ view.hours.Nodup ∧
        ∀ entry ∈ acked, home entry ∉ view.skipped → home entry ∈ view.hours := by
  refine Ok.atomically stable_known ?_
  intro _ state hstate hknown _ hcovered
  have hindex := hstate.index hknown.running
  have hchosen : (segmentsInRange state.segments start finish).Sublist state.segments :=
    filter_sublist
  refine ⟨⟨hstate, fun other _ ↦ Rely.refl config other state⟩,
    ⟨hknown, fun loaded hloaded ↦ hindex.registered loaded (hchosen.subset hloaded)⟩,
    hindex.nodup_view hchosen, fun entry hentry hselected ↦ ?_⟩
  have hrows := ne_nil_of_mem (hknown.placed entry hentry)
  rw [View.hours, mem_append, mem_append, mem_singleton]
  rcases hstate.hour_mem hknown.running (Bool.eq_false_iff.mpr hcovered) hrows with
    hactive | ⟨loaded, hloaded, hhour⟩ | hpending
  · exact .inr (.inl hactive)
  · refine .inl (mem_map.mpr ⟨loaded, mem_filter.mpr ⟨hloaded, ?_⟩, hhour⟩)
    by_contra hout
    refine hselected (mem_map.mpr ⟨loaded, mem_filter.mpr ⟨hloaded, ?_⟩, hhour⟩)
    simpa using hout
  · exact .inr (.inr hpending)

/-- An observation is recorded. -/
theorem log_ok {observation : Observation} (hok : observation.Ok config.codec) :
    Verified config thread (change fun state ↦ { state with log := observation :: state.log }) (fun state ↦ state.phase = .running) fun _ _ ↦ True := by
  refine Ok.atomically stable_running ?_
  intro _ state hstate hrunning _ _
  exact ⟨⟨{ hstate with log := forall_mem_cons.mpr ⟨hok, hstate.log⟩ }, fun _ _ ↦
    Rely.memory hrunning rfl (fun _ ↦ id) (fun _ ↦ rfl) fun _ ↦ ⟨rfl, rfl, rfl⟩⟩, trivial⟩

variable (hzstd : config.zstd.Faithful)

include hzstd

/-- The entries that are acknowledged when a query begins. -/
theorem readAcked_ok : Verified config thread (load fun state ↦ state.acked)
      (fun state ↦ state.phase = .running) fun acked ↦ Known config acked := by
  refine Ok.post ?_ (load_ok stable_running)
  rintro _ state hstate ⟨hrunning, rfl⟩
  exact hstate.known hzstd hrunning

section

variable {assertion : State → Prop} (hstable : Steady config thread assertion)
  (hknown : ∀ state, assertion state → Known config acked state)

include hstable hknown

theorem readActive_ok : Verified config thread (readActive config hour) assertion
      fun rows state ↦ assertion state ∧ BlockFor config acked hour rows :=
  readWAL_ok hzstd hstable hknown fun _ _ hstate ↦ hstate.rows_of_active

theorem readSealing_ok : Verified config thread (readSealing config hour) assertion
      fun rows state ↦ assertion state ∧ BlockFor config acked hour rows :=
  readWAL_ok hzstd hstable hknown fun _ _ hstate ↦ hstate.rows_of_sealing

end

theorem search_ok {start finish : ℤ} : Verified config thread (search config start finish)
      (fun state ↦ state.phase = .running) fun _ _ ↦ True := by
  refine (readAcked_ok hzstd).bind fun acked ↦ queryView_ok.bind fun view ↦ ?_
  refine Ok.given fun ⟨hnodup, hcovers⟩ ↦ ?_
  have hknown : ∀ state, Viewed config acked view state → Known config acked state :=
    fun _ hviewed ↦ hviewed.toKnown
  have hstored : Verified config thread (readAll (fun loaded ↦ load fun state ↦ state.segmentRows loaded)
      view.segments) (Viewed config acked view) _ :=
    readAll_ok fun loaded hloaded ↦ readSegment_ok hzstd stable_viewed hknown
      fun state hviewed ↦ hviewed.stored loaded hloaded
  refine hstored.bind fun stored ↦ Ok.given fun hstoredRows ↦ ?_
  refine (readActive_ok hzstd stable_viewed hknown).bind fun live ↦ Ok.given fun hliveRows ↦ ?_
  have hpending : Verified config thread (readAll (readSealing config) view.pending)
      (Viewed config acked view) _ :=
    @readAll_ok config thread acked ℕ _ _ id _
      fun hour _ ↦ readSealing_ok hzstd stable_viewed hknown
  refine hpending.bind fun pending ↦ Ok.given fun hpendingRows ↦ ?_
  rw [map_id] at hpendingRows
  have hblocks : Blocks config acked view.hours (stored ++ (live ++ pending)) :=
    hstoredRows.append (hliveRows.blocks.append hpendingRows)
  have hok : Observation.Ok config.codec
      (.searched acked view.skipped (stored ++ (live ++ pending))) :=
    fun entry hentry hselected ↦ hblocks.heldOnce hnodup hentry (hcovers entry hentry hselected)
  exact (log_ok hok).pre fun _ _ hviewed ↦ hviewed.running

end Search

/-! ### GetByID -/

section GetByID

variable {config : Config} {thread : ℕ} {acked : List Entry} {id : Int64}

variable {state : State} {entry : Entry} {loaded : LoadedSegment}

section

variable (hzstd : config.zstd.Faithful) (hstate : Sound config state)
  (hknown : Known config acked state) (hentry : entry ∈ acked)

include hzstd hstate hknown hentry

/-- A known entry is at a position of its hour, and its ID is that of the position. -/
theorem Known.position : home entry < 2 ^ 32 ∧ ∃ index, index < maxEntriesPerSegment ∧
      ((state.dirs (home entry)).rows config.zstd)[index]? = some (config.codec.persisted entry) ∧
      entry.id = idForPosition (Int64.ofNat (home entry)) index := by
  obtain ⟨hhour, index, hrow, -, hindex, hid⟩ :=
    ((hstate.disk.dir _).blockOf hzstd).position (hknown.placed entry hentry)
  exact ⟨hhour, index, hindex, hrow, hid⟩

/-- The ID of an entry leads to its row in a completed segment. -/
theorem Known.rowByID (hhour : loaded.hour = home entry)
    (hcomplete : (state.dirs loaded.hour).complete = true)
    (hmeta : (state.dirs loaded.hour).segmentMeta = some loaded.segment) :
    state.rowByID loaded entry.id = some (config.codec.persisted entry) := by
  obtain ⟨hbound, position, -, hrow, hid⟩ := hknown.position hzstd hstate hentry
  rw [← hhour] at hbound hrow hid
  obtain ⟨rows, -, hpositioned, hstores, -⟩ := (hstate.disk.dir loaded.hour).complete hcomplete
  have hsegment : loaded.segment = sealMeta config.physical rows :=
    Option.some.inj (hmeta.symm.trans hstores.segmentMeta)
  rw [(Dir.rows_of_complete _ hcomplete).1, hstores.chunkRows] at hrow
  obtain ⟨index, row, group, hlocate, hgroup, hfound⟩ := locate_rowGroups (physical_pos config) hbound
    hpositioned (List.getElem?_eq_some_iff.mp hrow).choose
  obtain ⟨more, hchunks⟩ := hstores.chunks
  have hchunk : (state.dirs loaded.hour).chunks[index]? = some group := by
    rw [← hchunks, List.getElem?_append_left (List.getElem?_eq_some_iff.mp hgroup).choose, hgroup]
  rw [State.rowByID, hsegment, hid, hlocate, Option.bind_some]
  dsimp only
  rw [hchunk, Option.bind_some, hfound, hrow]

end

/-- What the lookup of a segment tells about the entry with the ID. -/
structure Located (config : Config) (acked : List Entry) (id : Int64) (loaded : LoadedSegment)
    (state : State) : Prop extends Known config acked state where
  stored : ∀ entry ∈ acked, entry.id = id → loaded.hour = home entry ∧
    (state.dirs loaded.hour).complete = true ∧
    (state.dirs loaded.hour).segmentMeta = some loaded.segment

theorem stable_located : Steady config thread (Located config acked id loaded) := by
  intro before after _ _ hrely hlocated
  refine ⟨hlocated.toKnown.rely hrely, fun entry hentry hid ↦ ?_⟩
  obtain ⟨hhour, hcomplete, hmeta⟩ := hlocated.stored entry hentry hid
  obtain ⟨hcomplete', -, hmeta'⟩ := (hrely.dirs loaded.hour).complete hcomplete
  exact ⟨hhour, hcomplete', hmeta'.trans hmeta⟩

variable (hzstd : config.zstd.Faithful)

include hzstd

/-- Looking up the ID of a known entry finds the segment of its hour, if it is registered. -/
theorem Known.findSegmentByID (hstate : Sound config state)
    (hknown : Known config acked state) (hentry : entry ∈ acked) :
    findSegmentByID state.segments entry.id = some loaded ↔
      loaded ∈ state.segments ∧ loaded.hour = home entry := by
  obtain ⟨hbound, index, hindex, -, hid⟩ := hknown.position hzstd hstate hentry
  have hsegments := hstate.index hknown.running
  rw [hid]
  refine findSegmentByID_eq_some hsegments.sorted (fun other hother ↦ ?_) hbound hindex
  refine lt_of_nameable ((hstate.disk.dir other.hour).named.resolve_left fun hvacant ↦ ?_)
  cases hvacant.complete.symm.trans (hsegments.registered other hother).1

theorem findSegment_ok : Verified config thread (load fun state ↦ findSegmentByID state.segments id)
      (Known config acked)
      fun found state ↦ Known config acked state ∧
        ∀ loaded, found = some loaded → Located config acked id loaded state := by
  refine Ok.post ?_ (load_ok stable_known)
  rintro _ state hstate ⟨hknown, rfl⟩
  refine ⟨hknown, fun loaded hfound ↦ ⟨hknown, ?_⟩⟩
  rintro entry hentry rfl
  obtain ⟨hloaded, hhour⟩ := (hknown.findSegmentByID hzstd hstate hentry).mp hfound
  exact ⟨hhour, (hstate.index hknown.running).registered loaded hloaded⟩

theorem readRow_ok : Verified config thread (load fun state ↦ state.rowByID loaded id)
      (Located config acked id loaded)
      fun result state ↦ state.phase = .running ∧
        Observation.Ok config.codec (.fetched acked id result) := by
  refine Ok.post ?_ (load_ok stable_located)
  rintro _ state hstate ⟨hlocated, rfl⟩
  refine ⟨hlocated.running, ?_⟩
  rintro entry hentry rfl
  obtain ⟨hhour, hcomplete, hmeta⟩ := hlocated.stored entry hentry rfl
  exact hlocated.toKnown.rowByID hzstd hstate hentry hhour hcomplete hmeta

theorem walPaths_ok : Verified config thread (walPaths id) (Known config acked)
      fun paths state ↦ Known config acked state ∧ (paths.1 :: paths.2).Nodup ∧
        ∀ entry ∈ acked, entry.id = id → home entry ∈ paths.1 :: paths.2 := by
  refine Ok.atomically stable_known ?_
  intro _ state hstate hknown _ hcovered
  have hindex := hstate.index hknown.running
  simp only [Bool.or_eq_true, not_or, Bool.not_eq_true] at hcovered
  refine ⟨⟨hstate, fun other _ ↦ Rely.refl config other state⟩, hknown, ?_, ?_⟩
  · exact hindex.nodup_view (nil_sublist state.segments)
  · rintro entry hentry rfl
    have hrows := ne_nil_of_mem (hknown.placed entry hentry)
    rcases hstate.hour_mem hknown.running hcovered.1 hrows with
      hactive | ⟨loaded, hloaded, hhour⟩ | hpending
    · exact mem_cons.mpr (.inl hactive)
    · have hfound := (hknown.findSegmentByID hzstd hstate hentry).mpr ⟨hloaded, hhour⟩
      simp [hfound] at hcovered
    · exact mem_cons.mpr (.inr hpending)

theorem findInWALs_ok : Verified config thread (findInWALs config id) (Known config acked)
      fun result state ↦ state.phase = .running ∧
        Observation.Ok config.codec (.fetched acked id result) := by
  refine (walPaths_ok hzstd).bind fun (active, pending) ↦ Ok.given fun ⟨hnodup, hcovers⟩ ↦ ?_
  refine (readActive_ok hzstd stable_known fun _ hknown ↦ hknown).bind fun live ↦ Ok.given fun hliveRows ↦ ?_
  have hpending : Verified config thread (readAll (readSealing config) pending)
      (Known config acked) _ :=
    @readAll_ok config thread acked ℕ _ _ (fun hour ↦ hour) _
      fun hour _ ↦ readSealing_ok hzstd stable_known fun _ hknown ↦ hknown
  refine hpending.bind fun sealing ↦
    Ok.ret fun state _ ⟨hknown, hsealingRows⟩ ↦ ⟨hknown.running, ?_⟩
  rw [map_id'] at hsealingRows
  rintro entry hentry rfl
  have hheld := (hliveRows.blocks.append hsealingRows).heldOnce hnodup hentry
    (hcovers entry hentry rfl)
  rw [← head?_filter, hheld]
  rfl

theorem getByID_ok : Verified config thread (getByID config id) (fun state ↦ state.phase = .running)
      fun _ _ ↦ True := by
  refine (readAcked_ok hzstd).bind fun acked ↦ (findSegment_ok hzstd).bind fun found ↦ ?_
  have hresult : ∀ result, Verified config thread (change fun state ↦
      { state with log := .fetched acked id result :: state.log }) (fun state ↦ state.phase = .running ∧
        Observation.Ok config.codec (.fetched acked id result)) fun _ _ ↦ True :=
    fun result ↦ Ok.given fun hok ↦ log_ok hok
  cases found with
  | some loaded =>
    exact ((readRow_ok hzstd).pre fun _ _ hholds ↦ hholds.2 loaded rfl).bind hresult
  | none => exact ((findInWALs_ok hzstd).pre fun _ _ hholds ↦ hholds.1).bind hresult

end GetByID

end OpenTrace.Engine.Store
