import OpenTrace.Engine.Session
import OpenTrace.Engine.Store.Reading

/-!
# What the store guarantees over whole runs

A crash keeps the invariant, so it holds in every state of every run in which no step lapsed
(`system_verified`). From it: acknowledged entries have different IDs and the live hour is never
sealed (`acked_ids_nodup`), a restart neither loses nor duplicates an acknowledged entry
(`opened_holds_acked`), a query reads every one once (`searched_reads_acked`), and `GetByID` finds it
(`fetched_finds_acked`).
-/

namespace OpenTrace.Engine.Store

open Library Encoding Chunk Wal List

/-! ### Crashes -/

section Crash

variable {config : Config} (hzstd : config.zstd.Faithful)

theorem sameFiles_crash (dir : Dir) (kept : ℕ × ℕ) (scrap : List (List Entry) × Option SegmentMeta) :
    dir.SameFiles (dir.crash kept scrap) :=
  ⟨by simp [Dir.crash], by simp [Dir.crash], rfl⟩

include hzstd

/-- The rotated WAL was fsynced, so a crash keeps all its rows. -/
theorem rows_cut_sealing {hour : ℕ} {dir : Dir} {file : WalFile} (hdir : DirOk config hour dir)
    (hsealing : dir.sealing = some file) (kept : ℕ) :
    (file.cut kept).rows config.zstd = file.rows config.zstd := by
  obtain ⟨⟨entries, hwal⟩, hsafe⟩ := hdir.sealing file hsealing
  obtain ⟨-, -, hlow, hhigh⟩ := hwal.cut hzstd kept
  exact hhigh.eq_of_length_le (hsafe ▸ hlow.length_le)

theorem DirOk.crash {hour : ℕ} {dir : Dir} (hdir : DirOk config hour dir) (kept : ℕ × ℕ)
    (scrap : List (List Entry) × Option SegmentMeta) :
    DirOk config hour (dir.crash kept scrap) where
  active := fun file hfile ↦ by
    obtain ⟨before, hbefore, rfl⟩ := Option.map_eq_some_iff.mp hfile
    obtain ⟨entries, hwal⟩ := hdir.active before hbefore
    exact ⟨entries, (hwal.cut hzstd _).1⟩
  sealing := fun file hfile ↦ by
    obtain ⟨before, hbefore, rfl⟩ := Option.map_eq_some_iff.mp hfile
    obtain ⟨⟨entries, hwal⟩, -⟩ := hdir.sealing before hbefore
    exact ⟨⟨entries, (hwal.cut hzstd _).1⟩, (hwal.cut hzstd _).2.1⟩
  complete := fun hcomplete ↦ by
    have hmarked : dir.complete = true := hcomplete
    obtain ⟨rows, hrows, hpositioned, hstores, hfile⟩ := hdir.complete hmarked
    refine ⟨rows, hrows, hpositioned, ⟨?_, ?_⟩, fun file hsealing ↦ ?_⟩
    · exact (if_pos hmarked).trans hstores.segmentMeta
    · have hchunks : (dir.crash kept scrap).chunks = dir.chunks := if_pos hmarked
      rw [hchunks]
      exact hstores.chunks
    · obtain ⟨before, hbefore, rfl⟩ := Option.map_eq_some_iff.mp hsealing
      rw [rows_cut_sealing hzstd hdir hbefore]
      exact hfile before hbefore
  named := hdir.named.imp (sameFiles_crash dir kept scrap).vacant id

/-- After a crash every row is safe, and no safe row is lost. -/
theorem DirOk.safeRows_crash {hour : ℕ} {dir : Dir} (hdir : DirOk config hour dir) (kept : ℕ × ℕ)
    (scrap : List (List Entry) × Option SegmentMeta) :
    (dir.crash kept scrap).safeRows config.zstd = (dir.crash kept scrap).rows config.zstd ∧
      dir.safeRows config.zstd <+: (dir.crash kept scrap).safeRows config.zstd := by
  cases hcomplete : dir.complete with
  | true =>
    have hafter : (dir.crash kept scrap).complete = true := hcomplete
    have hrows : (dir.crash kept scrap).chunkRows = dir.chunkRows := by
      simp [Dir.crash, Dir.chunkRows, hcomplete]
    rw [(Dir.rows_of_complete _ hafter).1, (Dir.rows_of_complete _ hafter).2,
      (Dir.rows_of_complete _ hcomplete).2, hrows]
    exact ⟨rfl, prefix_rfl⟩
  | false =>
    have hafter : (dir.crash kept scrap).complete = false := hcomplete
    cases hsealing : dir.sealing with
    | some file =>
      have hsealing' : (dir.crash kept scrap).sealing = some (file.cut kept.2) := by
        simp [Dir.crash, hsealing]
      obtain ⟨⟨entries, hwal⟩, -⟩ := hdir.sealing file hsealing
      obtain ⟨-, hsafe, hlow, -⟩ := hwal.cut hzstd kept.2
      rw [(Dir.rows_of_sealing _ hafter hsealing').1, (Dir.rows_of_sealing _ hafter hsealing').2,
        (Dir.rows_of_sealing _ hcomplete hsealing).2, hsafe]
      exact ⟨rfl, hlow⟩
    | none =>
      have hsealing' : (dir.crash kept scrap).sealing = none := by simp [Dir.crash, hsealing]
      cases hactive : dir.active with
      | some file =>
        have hactive' : (dir.crash kept scrap).active = some (file.cut kept.1) := by
          simp [Dir.crash, hactive]
        obtain ⟨entries, hwal⟩ := hdir.active file hactive
        obtain ⟨-, hsafe, hlow, -⟩ := hwal.cut hzstd kept.1
        rw [(Dir.rows_of_active _ hafter hsealing' hactive').1,
          (Dir.rows_of_active _ hafter hsealing' hactive').2,
          (Dir.rows_of_active _ hcomplete hsealing hactive).2, hsafe]
        exact ⟨rfl, hlow⟩
      | none =>
        simp [Dir.rows, Dir.safeRows, Dir.crash, hcomplete, hsealing, hactive]

theorem Sound.crash {state : State} (hstate : Sound config state) (input : Input) :
    Sound config (state.crash input) := by
  have hrows := fun hour ↦
    (hstate.disk.dir hour).safeRows_crash hzstd (input.kept hour) (input.scrap hour)
  have hsame := fun hour ↦ sameFiles_crash (state.dirs hour) (input.kept hour) (input.scrap hour)
  obtain ⟨frontier, hlayout⟩ := hstate.disk.layout
  have hclosed : (state.crash input).phase ≠ .running := by simp [State.crash]
  refine ⟨⟨fun hour ↦ (hstate.disk.dir hour).crash hzstd _ _, fun hour hempty ↦ ?_,
      fun hour hvacant ↦ hstate.disk.named hour fun hbefore ↦ hvacant ((hsame hour).vacant hbefore),
      hstate.disk.nodup, frontier, hlayout.mono le_rfl hsame⟩,
    ⟨fun entry hentry ↦ ?_, by simp [State.crash], ?_⟩, fun _ ↦ ⟨rfl, rfl, rfl⟩,
    fun _ hour ↦ (hrows hour).1, fun hrunning ↦ absurd hrunning hclosed,
    fun hrunning ↦ absurd hrunning hclosed, fun hrunning ↦ absurd hrunning hclosed,
    fun hrunning ↦ absurd hrunning hclosed, hstate.log⟩
  · obtain ⟨file, hfile, hnil⟩ := hempty.file
    obtain ⟨before, hbefore, rfl⟩ := Option.map_eq_some_iff.mp hfile
    rw [rows_cut_sealing hzstd (hstate.disk.dir hour) hbefore] at hnil
    exact hstate.disk.filled hour ⟨hempty.complete, before, hbefore, hnil⟩
  · obtain ⟨hour, hrow⟩ := hstate.ledger.safe entry hentry
    exact ⟨hour, (hrows hour).2.subset hrow⟩
  · have hids := hstate.ledger.ids
    rw [map_append] at hids
    simpa [State.crash] using (nodup_append.mp hids).1

end Crash

/-! ### The whole system -/

theorem sound_fresh (config : Config) (clock : ℕ) : Sound config (fresh clock) := by
  have hblank : Dir.blank.Vacant := ⟨rfl, rfl, rfl⟩
  refine ⟨⟨fun hour ↦ ⟨by simp [fresh, Dir.blank], by simp [fresh, Dir.blank],
      by simp [fresh, Dir.blank], .inl hblank⟩, fun hour hempty ↦ ?_,
      fun hour ↦ absurd hblank, nodup_nil, 0,
      ⟨fun _ _ ↦ hblank, rfl, rfl, fun hour _ hbelow ↦ absurd hbelow (Nat.not_lt_zero _),
        fun hour hbelow ↦ absurd hbelow (Nat.not_lt_zero _)⟩⟩,
    ⟨by simp [fresh], by simp [fresh], by simp [fresh]⟩, fun _ ↦ ⟨rfl, rfl, rfl⟩,
    fun _ hour ↦ by simp [fresh, Dir.blank, Dir.rows, Dir.safeRows], ?_, ?_, ?_, ?_, by simp [fresh]⟩
  · obtain ⟨file, hfile, -⟩ := hempty.file
    cases hfile
  all_goals exact fun hrunning ↦ by cases hrunning

theorem advanceClock_ok {config : Config} {thread : ℕ} :
    Verified config thread (act (fun input state ↦ { state with clock := state.clock + input.millis }) fun _ ↦ () :
      Action Unit) (fun _ ↦ True) fun _ _ ↦ True := by
  refine Prog.Ok.atomically Stable.true ?_
  intro input state hstate _ _ _
  have hclock : state.clock ≤ state.clock + input.millis := Nat.le_add_right _ _
  obtain ⟨frontier, hlayout⟩ := hstate.disk.layout
  refine ⟨⟨{ hstate with disk := { hstate.disk with filled := ?_, layout := ?_ } }, fun other _ ↦
    { Rely.refl config other state with
      clock := hclock, opening := ?_, mu := ?_, sealMu := ?_ }⟩, trivial⟩
  · exact fun hour hempty ↦ (hstate.disk.filled hour hempty).trans_le (Nat.div_le_div_right hclock)
  · exact ⟨frontier, hlayout.advance hclock⟩
  · exact fun _ ↦ rfl
  · exact fun _ ↦ ⟨rfl, rfl, rfl, rfl, rfl, rfl, rfl, fun _ _ ↦ rfl⟩
  · exact fun _ ↦ ⟨rfl, rfl, rfl, rfl, rfl, fun _ _ ↦ rfl, Dir.SameFiles.refl _⟩

theorem system_verified {config : Config} (hzstd : config.zstd.Faithful) :
    (system config).Verified (Sound config) (Rely config) where
  call := fun call thread ↦ by
    cases call with
    | newStore => exact (newStore_ok hzstd).pre fun _ _ _ ↦ trivial
    | ingest batch =>
      exact ((ingest_ok hzstd batch).post fun _ _ _ _ ↦ trivial).pre fun _ _ ↦ of_decide_eq_true
    | sealCurrentHour =>
      exact ((sealCurrentHour_ok hzstd).post fun _ _ _ _ ↦ trivial).pre fun _ _ ↦ of_decide_eq_true
    | advanceClock => exact advanceClock_ok.pre fun _ _ _ ↦ trivial
    | search start finish => exact (search_ok hzstd).pre fun _ _ ↦ of_decide_eq_true
    | getByID id => exact (getByID_ok hzstd).pre fun _ _ ↦ of_decide_eq_true
  crash := fun input before after hbefore hafter ↦ by
    cases Option.some.inj hafter
    exact hbefore.crash hzstd input

/-- The state and the threads after a schedule, from an empty data directory. -/
def reached (config : Config) (clock : ℕ) (events : List (Event Call Input)) : Threads Input State :=
  (system config).run (System.start (fresh clock)) events

/-- The invariant holds after every schedule in which no step lapsed. -/
theorem sound_reached {config : Config} (hzstd : config.zstd.Faithful) {clock : ℕ}
    {events : List (Event Call Input)} (hcovered : (reached config clock events).lapsed = false) :
    Sound config (reached config clock events).state :=
  (system_verified hzstd).run (sound_fresh config clock) events hcovered

instance (codec : Codec) (rows : List Entry) (entry : Entry) : Decidable (HeldOnce codec rows entry) :=
  inferInstanceAs (Decidable (_ = _))

/-- What every `NewStore` that returned had acknowledged before it and held afterwards. -/
def State.openings (state : State) : List (List Entry × List Entry) :=
  state.log.filterMap fun
    | .opened acked held => some (acked, held)
    | _ => none

/-- What every query had acknowledged before it, the hours it did not select, and what it read. -/
def State.searches (state : State) : List (List Entry × List ℕ × List Entry) :=
  state.log.filterMap fun
    | .searched acked skipped rows => some (acked, skipped, rows)
    | _ => none

/-- What every `GetByID` had acknowledged before it, the ID it was given, and what it returned. -/
def State.fetches (state : State) : List (List Entry × Int64 × Option Entry) :=
  state.log.filterMap fun
    | .fetched acked id result => some (acked, id, result)
    | _ => none

/-! ### Sample schedules -/

def sampleConfig : Config := ⟨rawCodec, 50000⟩

/-- The beginning of hour 490000. -/
def sampleClock : ℕ := 490000 * 3600000

/-- The clock stands still, and a crash keeps only what was fsynced. -/
def quiet : Input := ⟨0, fun _ ↦ (0, 0), fun _ ↦ ([], none)⟩

/-- So many steps of a thread. -/
def steps (thread count : ℕ) : List (Event Call Input) := replicate count (.run thread quiet)

def sampleBatch (message : String) : Batch where
  entries := [sampleEntry message]
  nonempty := by simp
  storable := by simp [Storable, sampleEntry, Entry.zero, Entry.setStr]

/-- A store is opened and one entry is ingested. -/
def ingested : List (Event Call Input) :=
  [.call .newStore] ++ steps 0 10 ++ [.call (.ingest (sampleBatch "a"))] ++ steps 1 5

/-- A seal runs to its end, and the store is opened again and another entry ingested. -/
def reopened : List (Event Call Input) :=
  ingested ++ [.call .sealCurrentHour] ++ steps 2 20 ++ [.crash quiet, .call .newStore] ++
    steps 0 18 ++ [.call (.ingest (sampleBatch "b"))] ++ steps 1 5

/-- The process dies when `Rotate` has renamed the WAL and not opened the next one. The next `NewStore`
picks the same hour, opens a new WAL in it, and only then seals the hour from the old one. -/
def reopenedInSealedHour : List (Event Call Input) :=
  ingested ++ [.call .sealCurrentHour] ++ steps 2 8 ++ [.crash quiet, .call .newStore] ++
    steps 0 16 ++ [.call (.ingest (sampleBatch "b"))] ++ steps 1 5

/-! ### Unique IDs -/

/-- No two acknowledged entries share an ID, and the hour the live writer appends to is not sealed, in
every state of a run in which no step lapsed. -/
theorem acked_ids_nodup {config : Config} (hzstd : config.codec.zstd.Faithful) (clock : ℕ)
    (events : List (Event Call Input)) (hcovered : (reached config clock events).lapsed = false) :
    ((reached config clock events).state.acked.map Entry.id).Nodup ∧
      ((reached config clock events).state.phase = .running →
        ((reached config clock events).state.dirs
          (reached config clock events).state.segmentHour).complete = false) := by
  have hstate := sound_reached hzstd hcovered
  refine ⟨?_, fun hrunning ↦ (hstate.index hrunning).complete⟩
  have hids := hstate.ledger.ids
  rw [map_append] at hids
  exact (nodup_append.mp hids).1

theorem acked_ids_nodup_witness :
    (reached sampleConfig sampleClock reopened).state.acked.length = 2 ∧
      ((reached sampleConfig sampleClock reopened).state.acked.map Entry.id).Nodup ∧
      ((reached sampleConfig sampleClock reopened).state.phase = .running →
        ((reached sampleConfig sampleClock reopened).state.dirs
          (reached sampleConfig sampleClock reopened).state.segmentHour).complete = false) :=
  ⟨by decide +kernel, acked_ids_nodup Zstd.stored_faithful sampleClock reopened (by decide +kernel)⟩

/-- After a crash inside a rotation two acknowledged entries have the ID of the same position, and the
writer appends to a directory that is marked as sealed. -/
theorem interrupted_rotation_reuses_id :
    ¬ ((reached sampleConfig sampleClock reopenedInSealedHour).state.acked.map Entry.id).Nodup ∧
      (reached sampleConfig sampleClock reopenedInSealedHour).state.phase = .running ∧
      ((reached sampleConfig sampleClock reopenedInSealedHour).state.dirs
        (reached sampleConfig sampleClock reopenedInSealedHour).state.segmentHour).complete =
          true := by
  decide +kernel

/-! ### Between the calls -/

/-- While no seal is in progress, every acknowledged entry is durable in the hour of the writer or in
that of a registered segment, in every run in which no step lapsed. -/
theorem acked_indexed {config : Config} (hzstd : config.codec.zstd.Faithful) (clock : ℕ)
    (events : List (Event Call Input)) (hcovered : (reached config clock events).lapsed = false) :
    let state := (reached config clock events).state
    state.phase = .running → state.sealMu = none → ∀ entry ∈ state.acked, ∃ hour,
      config.codec.persisted entry ∈ (state.dirs hour).safeRows config.codec.zstd ∧
        (hour = state.segmentHour ∨ ∃ loaded ∈ state.segments, loaded.hour = hour) := by
  intro state hrunning hidle entry hentry
  have hstate : Sound config state := sound_reached hzstd hcovered
  obtain ⟨hour, hsafe⟩ := hstate.ledger.safe entry hentry
  have hrow := ((hstate.disk.dir hour).safeRows_initial hzstd).subset hsafe
  obtain ⟨hpending, hsealed⟩ := hstate.settled hrunning hidle
  refine ⟨hour, hsafe, ?_⟩
  rcases (hstate.index hrunning).covered hour (ne_nil_of_mem hrow) with
    hlive | hregistered | hwaiting | ⟨hrotated, hunsealed⟩
  · exact .inl hlive
  · exact .inr hregistered
  · simp [hpending] at hwaiting
  · simp [hsealed hour hrotated] at hunsealed

theorem acked_indexed_witness : let state := (reached sampleConfig sampleClock reopened).state
    state.acked.length = 2 ∧ ∀ entry ∈ state.acked, ∃ hour,
      sampleConfig.codec.persisted entry ∈ (state.dirs hour).safeRows sampleConfig.codec.zstd ∧
        (hour = state.segmentHour ∨ ∃ loaded ∈ state.segments, loaded.hour = hour) :=
  ⟨by decide +kernel, acked_indexed Zstd.stored_faithful sampleClock reopened (by decide +kernel)
    (by decide +kernel) (by decide +kernel)⟩

/-! ### Restarts -/

/-- When `NewStore` returns, every entry acknowledged before is held once, in every run in which no
step lapsed. -/
theorem opened_holds_acked {config : Config} (hzstd : config.codec.zstd.Faithful) (clock : ℕ)
    (events : List (Event Call Input)) (hcovered : (reached config clock events).lapsed = false) :
    ∀ opening ∈ (reached config clock events).state.openings,
      ∀ entry ∈ opening.1, HeldOnce config.codec opening.2 entry := by
  intro opening hopening
  obtain ⟨observation, hlogged, hopened⟩ := mem_filterMap.mp hopening
  cases observation with
  | opened acked held =>
    cases hopened
    exact (sound_reached hzstd hcovered).log _ hlogged
  | searched acked skipped rows => cases hopened
  | fetched acked id result => cases hopened

theorem opened_holds_acked_witness :
    (reached sampleConfig sampleClock reopened).state.openings.map (fun opening ↦
        (opening.1.length, opening.2.length)) = [(1, 1), (0, 0)] ∧
      ∀ opening ∈ (reached sampleConfig sampleClock reopened).state.openings,
        ∀ entry ∈ opening.1, HeldOnce sampleConfig.codec opening.2 entry :=
  ⟨by decide +kernel,
    opened_holds_acked Zstd.stored_faithful sampleClock reopened (by decide +kernel)⟩

/-- The hour ends between the two clock reads of `NewStore`: the WAL that was just opened is taken for
an orphan of the hour before and removed, while the writer keeps appending to it. -/
def reopenedAcrossHours : List (Event Call Input) :=
  [.call .newStore] ++ steps 0 6 ++ [.call .advanceClock, .run 1 { quiet with millis := 3600000 }] ++
    steps 0 7 ++ [.call (.ingest (sampleBatch "a"))] ++ steps 2 5 ++
    [.crash quiet, .call .newStore] ++ steps 0 12

/-- The restart does not find the entry that was acknowledged. -/
theorem orphaned_wal_loses_entry :
    ∃ opening ∈ (reached sampleConfig sampleClock reopenedAcrossHours).state.openings,
      ∃ entry ∈ opening.1, sampleConfig.codec.persisted entry ∉ opening.2 := by
  decide +kernel

/-! ### Queries during a seal -/

/-- `GetByID` returns every entry that was acknowledged before it began, in every run in which no step
lapsed. -/
theorem fetched_finds_acked {config : Config} (hzstd : config.codec.zstd.Faithful) (clock : ℕ)
    (events : List (Event Call Input)) (hcovered : (reached config clock events).lapsed = false) :
    ∀ fetch ∈ (reached config clock events).state.fetches, ∀ entry ∈ fetch.1, entry.id = fetch.2.1 →
        fetch.2.2 = some (config.codec.persisted entry) := by
  intro fetch hfetch
  obtain ⟨observation, hlogged, hfetched⟩ := mem_filterMap.mp hfetch
  cases observation with
  | opened acked held => cases hfetched
  | searched acked skipped rows => cases hfetched
  | fetched acked id result =>
    cases hfetched
    exact (sound_reached hzstd hcovered).log _ hlogged

/-- The entry is fetched from the WAL before a seal and from the chunk after it. -/
theorem fetched_finds_acked_witness : let id := idForPosition 490000 0
    let events := ingested ++ [.call (.getByID id)] ++ steps 2 5 ++ [.call .sealCurrentHour] ++
      steps 3 20 ++ [.call (.getByID id)] ++ steps 4 4
    (reached sampleConfig sampleClock events).state.fetches.map (fun fetch ↦
        (fetch.1.map Entry.id, fetch.2.1)) = [([id], id), ([id], id)] ∧
      ∀ fetch ∈ (reached sampleConfig sampleClock events).state.fetches,
        ∀ entry ∈ fetch.1, entry.id = fetch.2.1 →
          fetch.2.2 = some (sampleConfig.codec.persisted entry) :=
  ⟨by decide +kernel, fetched_finds_acked Zstd.stored_faithful sampleClock _ (by decide +kernel)⟩

/-- A seal that completes between the two lookups of `GetByID` hides the entry from both. -/
theorem sealed_between_lookups_missing : let id := idForPosition 490000 0
    let events := ingested ++ [.call .sealCurrentHour, .call (.getByID id)] ++ steps 3 2 ++
      steps 2 20 ++ steps 3 3
    ∃ fetch ∈ (reached sampleConfig sampleClock events).state.fetches,
      fetch.2.2 = none ∧ ∃ entry ∈ fetch.1, entry.id = fetch.2.1 := by
  decide +kernel

end OpenTrace.Engine.Store
