import OpenTrace.Engine.Store.Files

/-!
# The invariant of the store

Rows of an hour are in position order wherever they are kept, acknowledged entries are in rows that a
crash cannot take, and no two acknowledged or pending entries share an ID. `Layout` says how the
directories lie around the frontier, the hour that the writer is at or will open next: everything
above it is vacant, it is not sealed itself, and between the clock and it there are only sealed
directories and interrupted seals. A running store knows where the rows of every hour are (`Index`).

`Rely` is what a thread may count on while others run: rows only grow, completed segments stay as they
are, and what `mu`, `sealMu` or an opening store protects is left alone.
-/

namespace OpenTrace.Engine.Store

open Library Encoding Chunk Wal Function

/-! ### Directories -/

/-- No WAL and no completed segment. -/
structure Dir.Vacant (dir : Dir) : Prop where
  active : dir.active = none
  sealing : dir.sealing = none
  complete : dir.complete = false

/-- The chunk files and the metadata hold these rows. -/
structure Dir.Stores (config : Config) (dir : Dir) (rows : List Entry) : Prop where
  segmentMeta : dir.segmentMeta = some (sealMeta config.physical rows)
  chunks : rowGroups config.physical rows <+: dir.chunks

/-- A directory whose rotated WAL holds these rows. -/
structure Dir.Unsealed (config : Config) (dir : Dir) (rows : List Entry) : Prop where
  complete : dir.complete = false
  file : ∃ file, dir.sealing = some file ∧ file.rows config.codec.zstd = rows

/-- The directory of an hour. A WAL is fsynced before it is renamed. -/
structure DirOk (config : Config) (hour : ℕ) (dir : Dir) : Prop where
  active : ∀ file, dir.active = some file → ∃ entries, WalOf config.codec hour file entries
  sealing : ∀ file, dir.sealing = some file → (∃ entries, WalOf config.codec hour file entries) ∧
    file.safeRows config.codec.zstd = file.rows config.codec.zstd
  complete : dir.complete = true → ∃ rows, rows ≠ [] ∧ Positioned hour 0 rows ∧
    dir.Stores config rows ∧ ∀ file, dir.sealing = some file → file.rows config.codec.zstd = rows
  named : dir.Vacant ∨ nameable hour

/-- The rows of a directory only grow, and a completed segment does not change. -/
structure DirGrows (config : Config) (before after : Dir) : Prop where
  rows : before.rows config.codec.zstd <+: after.rows config.codec.zstd
  safeRows : before.safeRows config.codec.zstd <+: after.safeRows config.codec.zstd
  complete : before.complete = true → after.complete = true ∧ after.chunks = before.chunks ∧
    after.segmentMeta = before.segmentMeta

variable (config : Config) {dir : Dir} (zstd : Zstd) {clock frontier hour : ℕ} {dirs : ℕ → Dir}

theorem DirGrows.refl (dir : Dir) : DirGrows config dir dir :=
  ⟨List.prefix_rfl, List.prefix_rfl, fun hcomplete ↦ ⟨hcomplete, rfl, rfl⟩⟩

theorem physical_pos : 0 < config.physical := by
  unfold Config.physical effectiveSealChunkEntries
  split_ifs with hrange
  · decide
  · omega

theorem Dir.Stores.chunkRows {config : Config} {rows : List Entry}
    (hstores : dir.Stores config rows) : dir.chunkRows = rows := by
  rw [Dir.chunkRows, hstores.segmentMeta]
  exact segmentRows_eq (physical_pos config) hstores.chunks

theorem Dir.Vacant.rows {dir : Dir} (hvacant : dir.Vacant) (zstd : Zstd) : dir.rows zstd = [] := by
  simp [Dir.rows, hvacant.complete, hvacant.sealing, hvacant.active]

theorem Dir.rows_of_sealing {file : WalFile} (hcomplete : dir.complete = false)
    (hsealing : dir.sealing = some file) :
    dir.rows zstd = file.rows zstd ∧ dir.safeRows zstd = file.safeRows zstd := by
  simp [Dir.rows, Dir.safeRows, hcomplete, hsealing]

theorem Dir.rows_of_active {file : WalFile} (hcomplete : dir.complete = false)
    (hsealing : dir.sealing = none) (hactive : dir.active = some file) :
    dir.rows zstd = file.rows zstd ∧ dir.safeRows zstd = file.safeRows zstd := by
  simp [Dir.rows, Dir.safeRows, hcomplete, hsealing, hactive]

theorem Dir.rows_of_complete (hcomplete : dir.complete = true) :
    dir.rows zstd = dir.chunkRows ∧ dir.safeRows zstd = dir.chunkRows := by
  simp [Dir.rows, Dir.safeRows, hcomplete]

namespace DirOk

variable {config : Config} (hzstd : config.zstd.Faithful) {hour : ℕ} {dir : Dir}

include hzstd

omit hzstd in
/-- The WAL that holds the rows of an unsealed directory, if there is one. -/
theorem source (hdir : DirOk config hour dir) (hcomplete : dir.complete = false) :
    (dir.rows config.zstd = [] ∧ dir.safeRows config.zstd = []) ∨
      ∃ file entries, WalOf config.codec hour file entries ∧
        dir.rows config.zstd = file.rows config.zstd ∧
        dir.safeRows config.zstd = file.safeRows config.zstd := by
  cases hsealing : dir.sealing with
  | some file =>
    obtain ⟨⟨entries, hfile⟩, -⟩ := hdir.sealing file hsealing
    exact .inr ⟨file, entries, hfile, Dir.rows_of_sealing _ hcomplete hsealing⟩
  | none =>
    cases hactive : dir.active with
    | some file =>
      obtain ⟨entries, hfile⟩ := hdir.active file hactive
      exact .inr ⟨file, entries, hfile, Dir.rows_of_active _ hcomplete hsealing hactive⟩
    | none => exact .inl (by simp [Dir.rows, Dir.safeRows, hcomplete, hsealing, hactive])

theorem positioned (hdir : DirOk config hour dir) : Positioned hour 0 (dir.rows config.zstd) := by
  cases hcomplete : dir.complete with
  | true =>
    obtain ⟨rows, -, hrows, hstores, -⟩ := hdir.complete hcomplete
    rw [(Dir.rows_of_complete _ hcomplete).1, hstores.chunkRows]
    exact hrows
  | false =>
    rcases hdir.source hcomplete with ⟨hrows, -⟩ | ⟨file, entries, hfile, hrows, -⟩
    · rw [hrows]
      exact ⟨by simp, Nat.zero_le _⟩
    · rw [hrows]
      exact hfile.rows_positioned hzstd

theorem safeRows_initial (hdir : DirOk config hour dir) :
    dir.safeRows config.zstd <+: dir.rows config.zstd := by
  cases hcomplete : dir.complete with
  | true =>
    rw [(Dir.rows_of_complete _ hcomplete).1, (Dir.rows_of_complete _ hcomplete).2]
  | false =>
    rcases hdir.source hcomplete with ⟨hrows, hsafe⟩ | ⟨file, entries, hfile, hrows, hsafe⟩
    · rw [hrows, hsafe]
    · rw [hrows, hsafe]
      exact hfile.safeRows_initial hzstd

omit hzstd in
/-- Only an active WAL can hold rows that were not fsynced. -/
theorem safeRows_eq (hdir : DirOk config hour dir) (hactive : dir.active = none) :
    dir.safeRows config.zstd = dir.rows config.zstd := by
  cases hcomplete : dir.complete with
  | true => rw [(Dir.rows_of_complete _ hcomplete).1, (Dir.rows_of_complete _ hcomplete).2]
  | false =>
    cases hsealing : dir.sealing with
    | some file =>
      obtain ⟨hrows, hsafe⟩ := Dir.rows_of_sealing config.zstd hcomplete hsealing
      rw [hrows, hsafe, (hdir.sealing file hsealing).2]
    | none => simp [Dir.rows, Dir.safeRows, hsealing, hactive]

omit hzstd in
theorem nameable_of_mem (hdir : DirOk config hour dir) {entry : Entry}
    (hentry : entry ∈ dir.rows config.zstd) : nameable hour = true := by
  rcases hdir.named with hvacant | hnamed
  · rw [hvacant.rows] at hentry
    cases hentry
  · exact hnamed

end DirOk

/-! ### Layout -/

/-- How the directories lie around the frontier. -/
structure Layout (clock : ℕ) (dirs : ℕ → Dir) (frontier : ℕ) : Prop where
  above : ∀ hour, frontier < hour → (dirs hour).Vacant
  sealing : (dirs frontier).sealing = none
  complete : (dirs frontier).complete = false
  between : ∀ hour, clock / 3600000 ≤ hour → hour < frontier →
    (dirs hour).complete = true ∨ (dirs hour).sealing.isSome
  orphan : ∀ hour, hour < frontier → (dirs hour).active.isSome →
    hour < clock / 3600000 ∧ (dirs hour).complete = false ∧ (dirs hour).sealing = none

/-- The same files are there. -/
structure Dir.SameFiles (before after : Dir) : Prop where
  active : after.active.isSome = before.active.isSome
  sealing : after.sealing.isSome = before.sealing.isSome
  complete : after.complete = before.complete

theorem Dir.SameFiles.refl (dir : Dir) : dir.SameFiles dir := ⟨rfl, rfl, rfl⟩

theorem Dir.SameFiles.sealing_none {before after : Dir} (hsame : before.SameFiles after)
    (hnone : before.sealing = none) : after.sealing = none := by
  rw [← Option.not_isSome_iff_eq_none, hsame.sealing, hnone]
  simp

theorem Dir.SameFiles.vacant {before after : Dir} (hsame : before.SameFiles after)
    (hvacant : before.Vacant) : after.Vacant where
  active := by
    rw [← Option.not_isSome_iff_eq_none, hsame.active, hvacant.active]
    simp
  sealing := hsame.sealing_none hvacant.sealing
  complete := hsame.complete.trans hvacant.complete

/-- The layout stays when the clock advances and files are neither made nor removed. -/
theorem Layout.mono {clock clock' frontier : ℕ} {dirs dirs' : ℕ → Dir} (hclock : clock ≤ clock')
    (hdirs : ∀ hour, (dirs hour).SameFiles (dirs' hour)) (hlayout : Layout clock dirs frontier) :
    Layout clock' dirs' frontier where
  above := fun hour hhour ↦ (hdirs hour).vacant (hlayout.above hour hhour)
  sealing := (hdirs frontier).sealing_none hlayout.sealing
  complete := (hdirs frontier).complete.trans hlayout.complete
  between := fun hour hlow hhigh ↦ by
    rw [(hdirs hour).complete, (hdirs hour).sealing]
    exact hlayout.between hour ((Nat.div_le_div_right hclock).trans hlow) hhigh
  orphan := fun hour hhigh hactive ↦ by
    rw [(hdirs hour).active] at hactive
    obtain ⟨hlow, hcomplete, hsealing⟩ := hlayout.orphan hour hhigh hactive
    exact ⟨hlow.trans_le (Nat.div_le_div_right hclock), (hdirs hour).complete.trans hcomplete,
      (hdirs hour).sealing_none hsealing⟩

section

variable (hlayout : Layout clock dirs frontier)

include hlayout

/-- Where the frontier is, when the files above and at an hour are known. -/
theorem Layout.at
    (habove : ∀ later, hour < later → (dirs later).Vacant) (hactive : (dirs hour).active.isSome)
    (hsealing : (dirs hour).sealing = none) (hcomplete : (dirs hour).complete = false) :
    Layout clock dirs hour := by
  have hle : hour ≤ frontier := by
    by_contra hlater
    have hvacant := hlayout.above hour (not_le.mp hlater)
    simp [hvacant.active] at hactive
  exact ⟨habove, hsealing, hcomplete,
    fun other hlow hhigh ↦ hlayout.between other hlow (hhigh.trans_le hle),
    fun other hhigh ↦ hlayout.orphan other (hhigh.trans_le hle)⟩

theorem Layout.below_of_sealing (hsealing : (dirs hour).sealing.isSome) :
    hour < frontier := by
  rcases lt_trichotomy hour frontier with hlt | rfl | hgt
  · exact hlt
  · simp [hlayout.sealing] at hsealing
  · simp [(hlayout.above hour hgt).sealing] at hsealing

/-- The layout stays when a directory below the frontier changes, unless that loses an hour that is
not past. -/
theorem Layout.setBelow (hbelow : hour < frontier) (hactive : dir.active = none)
    (hkept : dir.complete = true ∨ dir.sealing.isSome ∨ hour < clock / 3600000) :
    Layout clock (update dirs hour dir) frontier := by
  refine ⟨fun other hother ↦ ?_, ?_, ?_, fun other hlow hhigh ↦ ?_, fun other hhigh hother ↦ ?_⟩
  · rw [update_of_ne (hbelow.trans hother).ne']
    exact hlayout.above other hother
  · rw [update_of_ne hbelow.ne']
    exact hlayout.sealing
  · rw [update_of_ne hbelow.ne']
    exact hlayout.complete
  · by_cases hsame : other = hour
    · subst hsame
      rw [update_self]
      rcases hkept with hcomplete | hsome | hpast
      · exact .inl hcomplete
      · exact .inr hsome
      · omega
    · rw [update_of_ne hsame]
      exact hlayout.between other hlow hhigh
  · by_cases hsame : other = hour
    · subst hsame
      simp [hactive] at hother
    · rw [update_of_ne hsame] at hother ⊢
      exact hlayout.orphan other hhigh hother

end

/-! ### The invariant -/

/-- The data directory. A WAL without rows is sealed only when its hour is past. -/
structure Disk (config : Config) (clock : ℕ) (dirs : ℕ → Dir) (names : List ℕ) : Prop where
  dir : ∀ hour, DirOk config hour (dirs hour)
  filled : ∀ hour, (dirs hour).Unsealed config [] → hour < clock / 3600000
  named : ∀ hour, ¬ (dirs hour).Vacant → hour ∈ names
  nodup : names.Nodup
  layout : ∃ frontier, Layout clock dirs frontier

section

variable (config : Config) (dirs : ℕ → Dir) (entry : Entry)

/-- The entry is in a row that a crash cannot take. -/
def Safe : Prop := ∃ hour, config.codec.persisted entry ∈ (dirs hour).safeRows config.codec.zstd

def Placed : Prop := ∃ hour, config.codec.persisted entry ∈ (dirs hour).rows config.codec.zstd

end

structure Ledger (config : Config) (dirs : ℕ → Dir) (acked : List Entry)
    (inflight : List (ℕ × List Entry)) : Prop where
  safe : ∀ entry ∈ acked, Safe config dirs entry
  placed : ∀ batch ∈ inflight, ∀ entry ∈ batch.2, Placed config dirs entry
  ids : ((acked ++ inflight.flatMap Prod.snd).map Entry.id).Nodup

/-- What a running store knows about the directories. -/
structure Index (config : Config) (dirs : ℕ → Dir) (segmentHour : ℕ) (pendingSeals : List ℕ)
    (segments : List LoadedSegment) : Prop where
  complete : (dirs segmentHour).complete = false
  active : ∀ hour, hour ≠ segmentHour → (dirs hour).active = none
  sorted : SortedByHour segments
  registered : ∀ loaded ∈ segments, (dirs loaded.hour).complete = true ∧
    (dirs loaded.hour).segmentMeta = some loaded.segment
  pending_nodup : pendingSeals.Nodup
  pending : ∀ hour ∈ pendingSeals, hour ≠ segmentHour ∧ ∀ loaded ∈ segments, loaded.hour ≠ hour
  covered : ∀ hour, (dirs hour).rows config.codec.zstd ≠ [] → hour = segmentHour ∨
    (∃ loaded ∈ segments, loaded.hour = hour) ∨ hour ∈ pendingSeals ∨
      (dirs hour).sealing.isSome ∧ (dirs hour).complete = false

/-- The writer has its file open, or the file was flushed before it was closed. -/
def Flushed (config : Config) (dirs : ℕ → Dir) (segmentHour : ℕ) (handle : Handle) : Prop :=
  handle = .active ∧ (dirs segmentHour).sealing = none ∨ handle = .detached ∧
    (dirs segmentHour).safeRows config.codec.zstd = (dirs segmentHour).rows config.codec.zstd

/-- How the writer is when no thread is inside `mu`. -/
structure Live (config : Config) (dirs : ℕ → Dir) (segmentHour entryCount : ℕ) (handle : Handle) :
    Prop where
  handle : handle = .active
  file : ∃ file entries, (dirs segmentHour).active = some file ∧
    Clean config.codec segmentHour file entries ∧ entryCount = entries.length
  sealing : (dirs segmentHour).sealing = none
  above : ∀ hour, segmentHour < hour → (dirs hour).Vacant

/-- How the store is when no thread is inside `sealMu`: every rotated WAL has been sealed. -/
structure Settled (dirs : ℕ → Dir) (pendingSeals : List ℕ) : Prop where
  pending : pendingSeals = []
  sealing : ∀ hour, (dirs hour).sealing.isSome → (dirs hour).complete = true

/-- An entry is among the rows, once, and no other has its ID. -/
def HeldOnce (codec : Codec) (rows : List Entry) (entry : Entry) : Prop :=
  rows.filter (fun row ↦ row.id = entry.id) = [codec.persisted entry]

/-- What was acknowledged before a call began is in what it returned. -/
def Observation.Ok (codec : Codec) : Observation → Prop
  | .opened acked held => ∀ entry ∈ acked, HeldOnce codec held entry
  | .searched acked skipped rows => ∀ entry ∈ acked,
      (decodeID entry.id).1.toInt.toNat ∉ skipped → HeldOnce codec rows entry
  | .fetched acked id result => ∀ entry ∈ acked, entry.id = id →
      result = some (codec.persisted entry)

structure Sound (config : Config) (state : State) : Prop where
  disk : Disk config state.clock state.dirs state.names
  ledger : Ledger config state.dirs state.acked state.inflight
  idle : state.phase ≠ .running → state.mu = none ∧ state.sealMu = none ∧ state.inflight = []
  atRest : state.phase ≠ .running → ∀ hour,
    (state.dirs hour).safeRows config.codec.zstd = (state.dirs hour).rows config.codec.zstd
  index : state.phase = .running →
    Index config state.dirs state.segmentHour state.pendingSeals state.segments
  flushed : state.phase = .running → Flushed config state.dirs state.segmentHour state.handle
  live : state.phase = .running → state.mu = none →
    Live config state.dirs state.segmentHour state.entryCount state.handle
  settled : state.phase = .running → state.sealMu = none → Settled state.dirs state.pendingSeals
  log : ∀ observation ∈ state.log, observation.Ok config.codec

/-! ### What threads rely on -/

/-- The active file keeps its bytes; fsyncs may come. -/
def SameContent (before after : Option WalFile) : Prop :=
  after.map WalFile.content = before.map WalFile.content

/-- What others leave alone while a thread is inside `mu`. -/
structure UnderMu (before after : State) : Prop where
  mu : after.mu = before.mu
  segmentHour : after.segmentHour = before.segmentHour
  entryCount : after.entryCount = before.entryCount
  handle : after.handle = before.handle
  active : SameContent (before.dirs before.segmentHour).active (after.dirs before.segmentHour).active
  sealing : (after.dirs before.segmentHour).sealing = (before.dirs before.segmentHour).sealing
  complete : (after.dirs before.segmentHour).complete = (before.dirs before.segmentHour).complete
  above : ∀ hour, before.segmentHour < hour → after.dirs hour = before.dirs hour

/-- What others leave alone while a thread is inside `sealMu`. -/
structure UnderSealMu (before after : State) : Prop where
  sealMu : after.sealMu = before.sealMu
  segmentHour : after.segmentHour = before.segmentHour
  pendingSeals : after.pendingSeals = before.pendingSeals
  segments : after.segments = before.segments
  names : after.names = before.names
  others : ∀ hour, hour ≠ before.segmentHour → after.dirs hour = before.dirs hour
  here : (before.dirs before.segmentHour).SameFiles (after.dirs before.segmentHour)

structure Rely (config : Config) (thread : ℕ) (before after : State) : Prop where
  clock : before.clock ≤ after.clock
  dirs : ∀ hour, DirGrows config (before.dirs hour) (after.dirs hour)
  moved : before.phase = .running → after.segmentHour ≠ before.segmentHour →
    (after.dirs before.segmentHour).safeRows config.codec.zstd =
      (after.dirs before.segmentHour).rows config.codec.zstd
  inflight : ∀ batch, (thread, batch) ∈ before.inflight → (thread, batch) ∈ after.inflight
  running : before.phase = .running → after.phase = .running
  opening : before.phase = .opening thread → after = { before with clock := after.clock }
  mu : before.mu = some thread → UnderMu before after
  sealMu : before.sealMu = some thread → UnderSealMu before after

/-- The program keeps the store sound whatever the others do, and leads from one assertion to another. -/
abbrev Verified (config : Config) (thread : ℕ) {α : Type} (program : Action α)
    (precondition : State → Prop) (postcondition : α → State → Prop) : Prop :=
  program.Ok (Sound config) (Rely config) thread precondition postcondition

/-- The others keep the assertion. -/
abbrev Steady (config : Config) (thread : ℕ) (assertion : State → Prop) : Prop :=
  Stable (Sound config) (Rely config) thread assertion

theorem Rely.refl (thread : ℕ) (state : State) : Rely config thread state state where
  clock := le_rfl
  dirs := fun hour ↦ DirGrows.refl config (state.dirs hour)
  moved := fun _ ↦ absurd rfl
  inflight := fun _ hbatch ↦ hbatch
  running := id
  opening := fun _ ↦ rfl
  mu := fun _ ↦ ⟨rfl, rfl, rfl, rfl, rfl, rfl, rfl, fun _ _ ↦ rfl⟩
  sealMu := fun _ ↦ ⟨rfl, rfl, rfl, rfl, rfl, fun _ _ ↦ rfl, Dir.SameFiles.refl _⟩

/-- A step of a running store that changes locks, books and lists, but neither files nor the writer. -/
theorem Rely.memory {config : Config} {other : ℕ} {before after : State}
    (hrunning : before.phase = .running)
    (hafter : after = { before with
      mu := after.mu, sealMu := after.sealMu, pendingSeals := after.pendingSeals
      segments := after.segments, inflight := after.inflight, acked := after.acked, log := after.log })
    (hinflight : ∀ batch, (other, batch) ∈ before.inflight → (other, batch) ∈ after.inflight)
    (hmu : before.mu = some other → after.mu = before.mu)
    (hsealMu : before.sealMu = some other → after.sealMu = before.sealMu ∧
      after.pendingSeals = before.pendingSeals ∧ after.segments = before.segments) :
    Rely config other before after := by
  rw [hafter]
  refine { Rely.refl config other before with
    inflight := hinflight, opening := ?_, mu := fun hheld ↦ ?_, sealMu := fun hheld ↦ ?_ }
  · rw [hrunning]
    exact fun hopening ↦ by cases hopening
  · exact ⟨hmu hheld, rfl, rfl, rfl, rfl, rfl, rfl, fun _ _ ↦ rfl⟩
  · obtain ⟨hlock, hpending, hsegments⟩ := hsealMu hheld
    exact ⟨hlock, rfl, hpending, hsegments, rfl, fun _ _ ↦ rfl, Dir.SameFiles.refl _⟩

section

variable {α : Type} {config : Config} {thread : ℕ} {assertion : State → Prop}

/-- A step that only reads. -/
theorem loadUnless_ok {lapses : State → Bool} {result : State → α}
    (hstable : Steady config thread assertion) :
    Verified config thread (loadUnless lapses result) assertion
      fun value state ↦ assertion state ∧ value = result state ∧ lapses state = false :=
  Prog.Ok.atomically hstable
    fun _ state hstate hholds _ hcovered ↦
      ⟨⟨hstate, fun other _ ↦ Rely.refl config other state⟩, hholds, rfl,
        Bool.eq_false_iff.mpr hcovered⟩

theorem load_ok {result : State → α} (hstable : Steady config thread assertion) :
    Verified config thread (load result) assertion
      fun value state ↦ assertion state ∧ value = result state :=
  Prog.Ok.post (fun _ _ _ ⟨hholds, hvalue, _⟩ ↦ ⟨hholds, hvalue⟩)
    (@loadUnless_ok α config thread assertion (fun _ ↦ false) result hstable)

end

end OpenTrace.Engine.Store
