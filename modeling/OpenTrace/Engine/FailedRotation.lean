import OpenTrace.Engine.Rotation

/-!
# What a failed rotation leaves behind

`SealCurrentHour` (`engine/store.go`) around `Rotate`: the seals that failed before are tried again, the
writer is rotated, and the rotated file is published in `pendingSeals` and sealed. Queries read the
active WAL of the writer's hour, the published files and the registered segments.

`Rotate` closes the file before it renames it, and the new counters are in place before the new file is
open. So a rotation that fails harms nothing exactly if it fails before its first file-system step,
because no hour is free (`failed_rotation_harmless_iff`).
-/

namespace OpenTrace.Engine.Rotation

open Library Encoding Chunk Wal List HourlyWriter

/-! ### The store around the writer -/

structure SealingStore where
  state : HourlyWriter
  /-- The bytes of the `sealing_*.wal` of an hour, if it exists. -/
  sealing : Int64 → Option Bytes
  /-- The hours in `pendingSeals`; the path is that of the hour's `sealing_*.wal`. -/
  pendingSeals : List Int64
  /-- The registered segments with their rows. -/
  segments : List (Int64 × List Entry)

/-- The rows a WAL file parses to; a missing file has none. -/
def fileRows (zstd : Zstd) (file : Option Bytes) : List Entry :=
  (file.map fun content ↦ (readEntriesFrom zstd content).entries).getD []

namespace SealingStore

/-- The file at `walPath` of the writer's hour. -/
def activeFile (store : SealingStore) : Option Bytes :=
  if store.state.isOpen then some store.state.writer.file
  else (store.state.dirs store.state.writer.segmentHour).active

/-- The rows of the files that queries read beside the active WAL. -/
def published (zstd : Zstd) (store : SealingStore) : List Entry :=
  store.pendingSeals.flatMap (fun hour ↦ fileRows zstd (store.sealing hour)) ++
    store.segments.flatMap Prod.snd

/-- The rows of the files that queries read. -/
def visible (zstd : Zstd) (store : SealingStore) : List Entry :=
  fileRows zstd store.activeFile ++ store.published zstd

end SealingStore

/-- The file that `Rotate` renames for the sealer, if it gets so far. -/
def HourlyWriter.renamed (state : HourlyWriter) (now : Int64) (faults : RotateFaults) : Option Bytes :=
  let sealHour := state.writer.segmentHour
  if state.writer.entryCount = 0 then none
  else
    match freeSegmentHour state.dirs (rotationStart sealHour (segmentHourFromTime now)) with
    | none => none
    | some _ =>
      if faults.oldStatOk && faults.renameOk then (state.close.dirs sealHour).active else none

inductive SealError
  | rotate (cause : RotateError)
  | alreadySealed
  | openWAL
  deriving DecidableEq, Repr

def DataDir.setComplete (dirs : DataDir) (hour : Int64) : DataDir :=
  fun other ↦ if other = hour then { dirs hour with sealComplete := true } else dirs other

namespace SealingStore

section

variable (zstd : Zstd)

section

variable (store : SealingStore)

/-- `Rotate`, with the file it renames. -/
def rotate (now : Int64) (faults : RotateFaults) : SealingStore × Option RotateError :=
  let result := store.state.rotate zstd now faults
  ({ store with
      state := result.1
      sealing :=
        match store.state.renamed now faults with
        | none => store.sealing
        | some content => Function.update store.sealing store.state.writer.segmentHour (some content) },
    result.2)

/-- `sealPending`, with a `Seal` that meets no I/O error: the rows become a registered segment, and a
WAL without rows is removed or put aside. -/
def sealPending (hour : Int64) : SealingStore × Option SealError :=
  if (store.state.dirs hour).sealComplete then (store, some .alreadySealed)
  else
    match store.sealing hour with
    | none => (store, some .openWAL)
    | some content =>
      let rows := (readEntriesFrom zstd content).entries
      let emptied : SealingStore :=
        { store with
          sealing := Function.update store.sealing hour none
          pendingSeals := store.pendingSeals.filter (· ≠ hour) }
      if rows = [] then (emptied, none)
      else
        ({ emptied with
            state := { store.state with dirs := store.state.dirs.setComplete hour }
            segments := (hour, rows) :: store.segments }, none)

/-- `retryPendingSeals`; an error is only logged. -/
def retryPendingSeals : SealingStore :=
  store.pendingSeals.foldl (fun store hour ↦ (store.sealPending zstd hour).1) store

def publish (hour : Int64) : SealingStore :=
  { store with pendingSeals := hour :: store.pendingSeals.filter (· ≠ hour) }

def sealCurrentHour (now : Int64) (faults : RotateFaults) : SealingStore × Option SealError :=
  let retried := store.retryPendingSeals zstd
  match retried.rotate zstd now faults with
  | (rotated, some error) => (rotated, some (.rotate error))
  | (rotated, none) =>
    if retried.state.writer.entryCount = 0 then (rotated, none)
    else (rotated.publish retried.state.writer.segmentHour).sealPending zstd
      retried.state.writer.segmentHour

end

end

/-! ### Harmless failures -/

/-- The writer has an open file and has counted its records. -/
structure Counts (zstd : Zstd) (store : SealingStore) : Prop where
  isOpen : store.state.isOpen = true
  entryCount : store.state.writer.entryCount = (fileRows zstd store.activeFile).length

/-- A failed call has changed nothing that matters: the writer goes on, queries still read every entry,
and a later seal without faults, at any clock, makes the entries of the hour a segment. -/
structure Harmless (zstd : Zstd) (before after : SealingStore) : Prop where
  counts : after.Counts zstd
  visible : before.visible zstd ⊆ after.visible zstd
  sealable : ∀ now, (after.sealCurrentHour zstd now noFaults).2 = none →
    fileRows zstd before.activeFile ⊆
      ((after.sealCurrentHour zstd now noFaults).1.segments.flatMap Prod.snd)

/-- No hour that the rotation may move to is free. -/
def NoFreeHour (store : SealingStore) (now : Int64) : Prop :=
  store.state.writer.entryCount ≠ 0 ∧ freeSegmentHour store.state.dirs
      (rotationStart store.state.writer.segmentHour (segmentHourFromTime now)) = none

variable {zstd : Zstd} {store : SealingStore} {now : Int64} {faults : RotateFaults}

theorem rotate_of_noFreeHour (hnone : store.NoFreeHour now) :
    store.rotate zstd now faults = (store, some .noFreeHour) := by
  obtain ⟨hcount, hfree⟩ := hnone
  simp [rotate, HourlyWriter.rotate, HourlyWriter.renamed, hcount, hfree]

end SealingStore

/-- A rotation that fails after it has found an hour leaves the file closed, in the hour it was. -/
theorem closed_of_error {zstd : Zstd} {state : HourlyWriter} {now : Int64} {faults : RotateFaults}
    {error : RotateError}
    (hfree : state.writer.entryCount ≠ 0 → freeSegmentHour state.dirs
      (rotationStart state.writer.segmentHour (segmentHourFromTime now)) ≠ none)
    (herror : (state.rotate zstd now faults).2 = some error) :
    (state.rotate zstd now faults).1.writer.segmentHour = state.writer.segmentHour ∧
      (state.rotate zstd now faults).1.isOpen = false := by
  have hfailed : (state.rotate zstd now faults).2 ≠ none := by simp [herror]
  unfold HourlyWriter.rotate at hfailed ⊢
  by_cases hcount : state.writer.entryCount = 0
  · rw [if_pos hcount] at hfailed ⊢
    split_ifs at hfailed ⊢ with hlater
    · obtain ⟨hhour, hclosed⟩ :=
        (reopened_ensureWAL (by split_ifs <;> exact isOpen_close state) zstd faults.toOpenFaults).failed
          hfailed
      refine ⟨hhour.trans ?_, hclosed⟩
      split_ifs <;> exact segmentHour_close state
    · exact absurd rfl hfailed
  · obtain ⟨hour, hhour⟩ := Option.ne_none_iff_exists'.mp (hfree hcount)
    have hclosed := isOpen_close (state.flushBeforeHandoff faults.syncOk)
    have hkept : (state.flushBeforeHandoff faults.syncOk).close.writer.segmentHour =
        state.writer.segmentHour := segmentHour_close _
    simp only [hhour] at hfailed ⊢
    unfold rotateTo at hfailed ⊢
    dsimp only at hfailed ⊢
    split_ifs at hfailed ⊢
    · obtain ⟨hsame, hstill⟩ := (reopened_ensureWAL (by exact hclosed) zstd faults.toOpenFaults).failed
        hfailed
      exact ⟨hsame.trans hkept, hstill⟩
    · exact ⟨hkept, hclosed⟩
    · obtain ⟨hsame, hstill⟩ := (reopened_ensureWAL hclosed zstd faults.toOpenFaults).failed hfailed
      exact ⟨hsame.trans hkept, hstill⟩

section

variable (zstd : Zstd) (state : HourlyWriter) (hour : Int64)

theorem dirs_ensureWAL (faults : OpenFaults) :
    (state.ensureWAL zstd hour faults).1.dirs = state.dirs := by
  have hopen : ∀ opened : WALWriter, (state.openFile opened faults.openOk).1.dirs = state.dirs := by
    intro opened
    unfold openFile
    split_ifs <;> rfl
  unfold ensureWAL
  cases (state.dirs hour).active with
  | none =>
    dsimp only
    split_ifs
    · rfl
    · exact hopen _
  | some content =>
    dsimp only
    split_ifs
    · rfl
    · exact hopen _
    · rfl
    · exact hopen _
    · exact hopen _

theorem ensureWAL_noFaults : (state.ensureWAL zstd hour noFaults.toOpenFaults).2 = none := by
  unfold ensureWAL
  cases (state.dirs hour).active <;> simp [noFaults, openFile]

end

namespace SealingStore

section Seals

/-- A seal leaves the writer and its file alone. -/
theorem sealPending_writer (zstd : Zstd) (store : SealingStore) (hour : Int64) :
    (store.sealPending zstd hour).1.state.writer = store.state.writer ∧
      (store.sealPending zstd hour).1.state.isOpen = store.state.isOpen := by
  unfold sealPending
  split_ifs
  · exact ⟨rfl, rfl⟩
  · split
    · exact ⟨rfl, rfl⟩
    · dsimp only
      split_ifs <;> exact ⟨rfl, rfl⟩

theorem retryPendingSeals_writer (zstd : Zstd) (store : SealingStore) :
    (store.retryPendingSeals zstd).state.writer = store.state.writer ∧
      (store.retryPendingSeals zstd).state.isOpen = store.state.isOpen := by
  unfold retryPendingSeals
  generalize store.pendingSeals = hours
  induction hours generalizing store with
  | nil => exact ⟨rfl, rfl⟩
  | cons hour hours ih =>
    obtain ⟨hwriter, hopen⟩ := ih (store.sealPending zstd hour).1
    obtain ⟨hsame, hstill⟩ := store.sealPending_writer zstd hour
    exact ⟨hwriter.trans hsame, hopen.trans hstill⟩

variable {zstd : Zstd}

/-- A seal that succeeds makes the rows of its WAL a segment. -/
theorem rows_subset_sealPending {store : SealingStore} {hour : Int64}
    (hok : (store.sealPending zstd hour).2 = none) :
    fileRows zstd (store.sealing hour) ⊆ (store.sealPending zstd hour).1.segments.flatMap Prod.snd := by
  unfold sealPending at hok ⊢
  split_ifs at hok ⊢
  cases hfile : store.sealing hour with
  | none => simp [hfile] at hok
  | some content =>
    intro entry hentry
    have hrow : entry ∈ (readEntriesFrom zstd content).entries := hentry
    have hrows : (readEntriesFrom zstd content).entries ≠ [] := ne_nil_of_mem hrow
    simp only [hrows, if_false, flatMap_cons, mem_append]
    exact .inl hrow

/-- A rotation without faults from an open file with entries renames this file. -/
theorem renamed_noFaults {state : HourlyWriter} {now : Int64} (hopen : state.isOpen = true)
    (hcount : state.writer.entryCount ≠ 0) (hok : (state.rotate zstd now noFaults).2 = none) :
    state.renamed now noFaults = some state.writer.file := by
  unfold HourlyWriter.rotate at hok
  unfold renamed
  simp only [hcount] at hok ⊢
  cases hfree : freeSegmentHour state.dirs
    (rotationStart state.writer.segmentHour (segmentHourFromTime now)) with
  | none => simp [hfree] at hok
  | some hour => simp [noFaults, close, hopen, DataDir.setActive]

/-- A `SealCurrentHour` that meets no fault seals the entries of an open writer. -/
theorem rows_subset_sealCurrentHour {store : SealingStore} {now : Int64}
    (hopen : store.state.isOpen = true) (hcount : store.state.writer.entryCount ≠ 0)
    (hok : (store.sealCurrentHour zstd now noFaults).2 = none) :
    fileRows zstd store.activeFile ⊆
      (store.sealCurrentHour zstd now noFaults).1.segments.flatMap Prod.snd := by
  obtain ⟨hwriter, hstill⟩ := store.retryPendingSeals_writer zstd
  have hactive : store.activeFile = some (store.retryPendingSeals zstd).state.writer.file := by
    rw [activeFile, if_pos hopen, hwriter]
  rw [← hwriter] at hcount
  rw [← hstill] at hopen
  rw [hactive]
  unfold sealCurrentHour at hok ⊢
  generalize store.retryPendingSeals zstd = retried at hopen hcount hok ⊢
  rcases hrotate : retried.rotate zstd now noFaults with ⟨rotated, _ | error⟩
  · simp only [hrotate, hcount] at hok ⊢
    have hclean : (retried.state.rotate zstd now noFaults).2 = none := congrArg Prod.snd hrotate
    have hsealing : rotated.sealing retried.state.writer.segmentHour =
        some retried.state.writer.file := by
      have hrotated : (retried.rotate zstd now noFaults).1 = rotated := congrArg Prod.fst hrotate
      rw [← hrotated]
      simp [rotate, renamed_noFaults hopen hcount hclean]
    rw [← hsealing]
    exact rows_subset_sealPending hok
  · simp [hrotate] at hok

end Seals

/-- A rotation that fails is harmless exactly if the writer had an open file with counted records and no
hour is free, in which case it fails before it touches a file. -/
theorem failed_rotation_harmless_iff {zstd : Zstd} {store : SealingStore} {now : Int64}
    {faults : RotateFaults} {error : RotateError}
    (herror : (store.rotate zstd now faults).2 = some error) :
    Harmless zstd store (store.rotate zstd now faults).1 ↔
      store.Counts zstd ∧ store.NoFreeHour now := by
  constructor
  · intro hharmless
    have hnone : store.NoFreeHour now := by
      by_contra hfree
      have hopen : (store.state.rotate zstd now faults).1.isOpen = true := hharmless.counts.isOpen
      rw [(closed_of_error (fun hcount hnone ↦ hfree ⟨hcount, hnone⟩) herror).2] at hopen
      cases hopen
    rw [rotate_of_noFreeHour hnone] at hharmless
    exact ⟨hharmless.counts, hnone⟩
  · rintro ⟨hstore, hnone⟩
    rw [rotate_of_noFreeHour hnone]
    exact ⟨hstore, Subset.refl _, fun now hok ↦
      rows_subset_sealCurrentHour hstore.isOpen hnone.1 hok⟩

/-! ### After the rename -/

variable {now : Int64} {faults : RotateFaults} {content : Bytes}

/-- What a rotation that has renamed its file had found. -/
theorem renamed_eq_some {state : HourlyWriter}
    (hrenamed : state.renamed now faults = some content) :
    state.writer.entryCount ≠ 0 ∧ (∃ hour, freeSegmentHour state.dirs
        (rotationStart state.writer.segmentHour (segmentHourFromTime now)) = some hour) ∧
      faults.oldStatOk = true ∧ faults.renameOk = true ∧
      (state.close.dirs state.writer.segmentHour).active = some content := by
  unfold renamed at hrenamed
  by_cases hcount : state.writer.entryCount = 0
  · rw [if_pos hcount] at hrenamed
    cases hrenamed
  cases hfree : freeSegmentHour state.dirs
    (rotationStart state.writer.segmentHour (segmentHourFromTime now)) with
  | none => simp [hfree] at hrenamed
  | some hour =>
    simp only [hfree] at hrenamed
    split_ifs at hrenamed with hok
    rw [Bool.and_eq_true] at hok
    exact ⟨hcount, ⟨hour, rfl⟩, hok.1, hok.2, hrenamed⟩

theorem dirs_rotate_of_renamed {zstd : Zstd} {state : HourlyWriter}
    (hrenamed : state.renamed now faults = some content) :
    (state.rotate zstd now faults).1.dirs =
      state.close.dirs.setActive state.writer.segmentHour none := by
  obtain ⟨hcount, ⟨hour, hfree⟩, hstat, hrename, hactive⟩ := renamed_eq_some hrenamed
  have hclose : (state.flushBeforeHandoff faults.syncOk).close.dirs = state.close.dirs := by
    unfold close flushBeforeHandoff
    split_ifs <;> rfl
  unfold HourlyWriter.rotate
  simp only [hcount, hfree]
  unfold rotateTo
  simp only [hclose, hstat, hactive, hrename]
  exact dirs_ensureWAL _ _ _ _

/-- A rotation that fails after the rename leaves the entries of the hour in a file no query reads: what
is visible afterwards is what was visible beside the active WAL. Assumes: the writer's hour was not
published before. -/
theorem visible_of_failed_after_rename {zstd : Zstd} {store : SealingStore} {error : RotateError}
    (hfresh : store.state.writer.segmentHour ∉ store.pendingSeals)
    (hrenamed : store.state.renamed now faults = some content)
    (herror : (store.rotate zstd now faults).2 = some error) :
    (store.rotate zstd now faults).1.visible zstd = store.published zstd := by
  obtain ⟨-, ⟨hour, hfree⟩, -⟩ := renamed_eq_some hrenamed
  have hfound : store.state.writer.entryCount ≠ 0 → freeSegmentHour store.state.dirs
      (rotationStart store.state.writer.segmentHour (segmentHourFromTime now)) ≠ none := by simp [hfree]
  obtain ⟨hhour, hclosed⟩ := closed_of_error hfound herror
  have hactive : (store.rotate zstd now faults).1.activeFile = none := by
    simp only [activeFile, rotate, hclosed, hhour, dirs_rotate_of_renamed hrenamed, DataDir.setActive]
    simp
  have hpending : store.pendingSeals.flatMap (fun hour ↦ fileRows zstd
      (Function.update store.sealing store.state.writer.segmentHour (some content) hour)) =
        store.pendingSeals.flatMap fun hour ↦ fileRows zstd (store.sealing hour) := by
    refine flatMap_congr fun other hother ↦ ?_
    have hne : other ≠ store.state.writer.segmentHour := fun hsame ↦ hfresh (hsame ▸ hother)
    rw [Function.update_of_ne hne]
  have hpublished : (store.rotate zstd now faults).1.published zstd = store.published zstd := by
    simp only [published, rotate, hrenamed, hpending]
  rw [visible, hactive, hpublished]
  rfl

/-! ### After a file that could not be opened -/

/-- The calls that follow; the seals meet no fault. -/
inductive LaterCall
  | append (entries : List Entry) (receivedAt : Int64) (faults : Faults)
  | sealCurrentHour (now : Int64)

def later (codec : Codec) (store : SealingStore) : LaterCall → SealingStore
  | .append entries receivedAt faults =>
    { store with state := (store.state.append codec entries receivedAt faults).1 }
  | .sealCurrentHour now => (store.sealCurrentHour codec.zstd now noFaults).1

/-- The WAL of the hour is neither published nor sealed, and the writer will not come back to it. -/
structure PassedOver (hour : Int64) (store : SealingStore) : Prop where
  pending : hour ∉ store.pendingSeals
  segments : hour ∉ store.segments.map Prod.fst
  hourOk : HourOk store.state.writer.segmentHour
  writer : hour < store.state.writer.segmentHour ∨
    store.state.writer.segmentHour = hour ∧ store.state.isOpen = false ∧ store.state.writer.entryCount = 0

section PassedOver

variable {hour : Int64} {store : SealingStore}

variable (codec : Codec) (zstd : Zstd)

/-- A write to a closed handle changes nothing. -/
theorem append_closed {state : HourlyWriter} (hclosed : state.isOpen = false) (entries : List Entry)
    (receivedAt : Int64) (faults : Faults) :
    (state.append codec entries receivedAt faults).1 = state := by
  have hwriter : (state.writer.append codec entries receivedAt ⟨some 0, false, faults.syncOk⟩).1 =
      state.writer := by
    unfold WALWriter.append
    split_ifs
    · rfl
    · rfl
    · simp [WALWriter.tore, WALWriter.rollback]
  obtain ⟨writer, isOpen, dirs⟩ := state
  subst hclosed
  simp only [append, Bool.false_eq_true, if_false, hwriter]

section

variable (hpassed : store.PassedOver hour)

include hpassed

theorem PassedOver.sealPending (zstd : Zstd) {other : Int64}
    (hother : hour ≠ other) : (store.sealPending zstd other).1.PassedOver hour := by
  obtain ⟨hwriter, hopen⟩ := store.sealPending_writer zstd other
  suffices hour ∉ (store.sealPending zstd other).1.pendingSeals ∧
      hour ∉ (store.sealPending zstd other).1.segments.map Prod.fst by
    refine ⟨this.1, this.2, ?_, ?_⟩
    · rw [hwriter]
      exact hpassed.hourOk
    · rw [hwriter, hopen]
      exact hpassed.writer
  have hpending : hour ∉ store.pendingSeals.filter (· ≠ other) :=
    fun hmem ↦ hpassed.pending (mem_filter.mp hmem).1
  unfold SealingStore.sealPending
  split_ifs
  · exact ⟨hpassed.pending, hpassed.segments⟩
  · split
    · exact ⟨hpassed.pending, hpassed.segments⟩
    · dsimp only
      split_ifs
      · exact ⟨hpending, hpassed.segments⟩
      · refine ⟨hpending, ?_⟩
        rw [map_cons, mem_cons, not_or]
        exact ⟨hother, hpassed.segments⟩

theorem PassedOver.retryPendingSeals (zstd : Zstd) :
    (store.retryPendingSeals zstd).PassedOver hour := by
  have hfold : ∀ (hours : List Int64) (store : SealingStore), hour ∉ hours → store.PassedOver hour →
      (hours.foldl (fun store hour ↦ (store.sealPending zstd hour).1) store).PassedOver hour := by
    intro hours
    induction hours with
    | nil => exact fun _ _ hstore ↦ hstore
    | cons other hours ih =>
      intro store hhours hstore
      rw [mem_cons, not_or] at hhours
      exact ih _ hhours.2 (hstore.sealPending zstd hhours.1)
  exact hfold store.pendingSeals store hpassed.pending hpassed

/-- A rotation without faults moves the writer to a later hour, or changes nothing. -/
theorem PassedOver.rotate (zstd : Zstd) (now : Int64) :
    (store.rotate zstd now noFaults).1.PassedOver hour := by
  have hmoves := moves_rotate zstd hpassed.hourOk now noFaults
  refine ⟨hpassed.pending, hpassed.segments, hmoves.hourOk, ?_⟩
  rcases hpassed.writer with hlater | ⟨hhour, hclosed, hcount⟩
  · refine .inl (Int64.lt_of_lt_of_le hlater ?_)
    rcases hmoves.moved with hmoved | ⟨hsame, -⟩
    · exact Int64.le_of_lt hmoved
    · exact hsame ▸ Int64.le_refl _
  · -- the hour counts as empty, so nothing is renamed
    unfold SealingStore.rotate HourlyWriter.rotate
    dsimp only
    split_ifs with hnext
    · rw [hhour] at hnext
      refine .inl ?_
      have hmoved : (store.state.advanceEmpty zstd (segmentHourFromTime now) noFaults).1.writer.segmentHour =
          segmentHourFromTime now := by
        refine ((reopened_ensureWAL ?_ zstd _).ok (ensureWAL_noFaults zstd _ _)).1
        split_ifs <;> exact isOpen_close store.state
      rw [hmoved]
      exact hnext
    · exact .inr ⟨hhour, hclosed, hcount⟩

theorem PassedOver.sealCurrentHour (zstd : Zstd) (now : Int64) :
    (store.sealCurrentHour zstd now noFaults).1.PassedOver hour := by
  have hretried := hpassed.retryPendingSeals zstd
  unfold SealingStore.sealCurrentHour
  generalize store.retryPendingSeals zstd = retried at hretried ⊢
  have hrotated := hretried.rotate zstd now
  dsimp only
  rcases hrotate : retried.rotate zstd now noFaults with ⟨rotated, _ | error⟩
  · rw [hrotate] at hrotated
    split_ifs with hcount
    · exact hrotated
    · -- the writer had entries, so it was past the hour
      have hother : hour ≠ retried.state.writer.segmentHour := by
        rcases hretried.writer with hlater | ⟨-, -, hempty⟩
        · exact fun hsame ↦ Int64.lt_irrefl (hsame ▸ hlater)
        · exact absurd hempty hcount
      have hpublished : (rotated.publish retried.state.writer.segmentHour).PassedOver hour := by
        refine ⟨?_, hrotated.segments, hrotated.hourOk, hrotated.writer⟩
        rw [publish, mem_cons, not_or]
        exact ⟨hother, fun hmem ↦ hrotated.pending (mem_filter.mp hmem).1⟩
      exact hpublished.sealPending zstd hother
  · rw [hrotate] at hrotated
    exact hrotated

theorem PassedOver.append (codec : Codec) (entries : List Entry)
    (receivedAt : Int64) (faults : Faults) :
    (store.later codec (.append entries receivedAt faults)).PassedOver hour := by
  rcases hpassed.writer with hlater | ⟨-, hclosed, -⟩
  · have hmoves := moves_append codec hpassed.hourOk entries receivedAt faults
    refine ⟨hpassed.pending, hpassed.segments, hmoves.hourOk, .inl (Int64.lt_of_lt_of_le hlater ?_)⟩
    rcases hmoves.moved with hmoved | ⟨hsame, -⟩
    · exact Int64.le_of_lt hmoved
    · exact hsame ▸ Int64.le_refl _
  · simp only [later, append_closed codec hclosed]
    exact hpassed

theorem PassedOver.run (codec : Codec) (calls : List LaterCall) :
    (calls.foldl (later codec) store).PassedOver hour := by
  induction calls generalizing store with
  | nil => exact hpassed
  | cons call calls ih =>
    cases call with
    | append entries receivedAt faults => exact ih (hpassed.append codec entries receivedAt faults)
    | sealCurrentHour now => exact ih (hpassed.sealCurrentHour codec.zstd now)

end

/-- A rotation renames the WAL of its hour and cannot open the new one, which holds no records. Then no
later call seals the hour or shows it to queries, however many appends and seals without faults follow.
Assumes: the hour is not published or sealed yet. -/
theorem passed_over_after_failed_open (hhour : HourOk store.state.writer.segmentHour)
    (hpending : store.state.writer.segmentHour ∉ store.pendingSeals)
    (hsegments : store.state.writer.segmentHour ∉ store.segments.map Prod.fst) {now : Int64}
    {faults : RotateFaults} {content : Bytes} {error : RotateError}
    (hrenamed : store.state.renamed now faults = some content)
    (herror : (store.rotate codec.zstd now faults).2 = some error)
    (hempty : (store.rotate codec.zstd now faults).1.state.writer.entryCount = 0)
    (calls : List LaterCall) :
    (calls.foldl (later codec) (store.rotate codec.zstd now faults).1).PassedOver
      store.state.writer.segmentHour := by
  obtain ⟨-, ⟨free, hfree⟩, -⟩ := renamed_eq_some hrenamed
  obtain ⟨hsame, hclosed⟩ := closed_of_error (fun _ ↦ by simp [hfree]) herror
  have hfailed : (store.rotate codec.zstd now faults).1.PassedOver store.state.writer.segmentHour :=
    ⟨hpending, hsegments, (moves_rotate codec.zstd hhour now faults).hourOk,
      .inr ⟨hsame, hclosed, hempty⟩⟩
  exact hfailed.run codec calls

end PassedOver

end SealingStore

/-! ### Fixed runs -/

/-- A writer in hour 3 with one entry in its open file, and nothing else. -/
def oneEntryStore (complete : Int64 → Bool) : SealingStore where
  state :=
    { writer :=
        { segmentHour := 3
          file := rawCodec.marshalBatch [sampleEntry "a"]
          entryCount := 1
          offsets := Offsets.opened (rawCodec.marshalBatch [sampleEntry "a"]).length
          ring := newRingBuffer }
      isOpen := true
      dirs := fun hour ↦ ⟨none, complete hour⟩ }
  sealing := fun _ ↦ none
  pendingSeals := []
  segments := []

/-- The new file cannot be opened: the entry is in no file that a query reads, the writer counts no
records and has no open file, and a seal that succeeds later does not seal the entry. -/
theorem failed_open_loses_entry : let faults : RotateFaults := { noFaults with openOk := false }
    let store := oneEntryStore fun _ ↦ false
    let failed := (store.rotate rawCodec.zstd 14400 faults).1
    let sealed := failed.sealCurrentHour rawCodec.zstd 18000 noFaults
    (store.rotate rawCodec.zstd 14400 faults).2 = some .openFile ∧
      store.visible rawCodec.zstd = [sampleEntry "a"] ∧ failed.visible rawCodec.zstd = [] ∧
      failed.state.writer.entryCount = 0 ∧ failed.state.isOpen = false ∧
      sealed.2 = none ∧ sealed.1.visible rawCodec.zstd = [] ∧ sealed.1.segments = [] := by
  decide +kernel

/-- All later hours are sealed: the rotation fails and is harmless. -/
theorem failed_rotation_harmless_iff_witness : let store := oneEntryStore fun hour ↦ 3 < hour
    (store.rotate rawCodec.zstd 14400 noFaults).2 = some .noFreeHour ∧
      SealingStore.Harmless rawCodec.zstd store (store.rotate rawCodec.zstd 14400 noFaults).1 := by
  have hnone : (oneEntryStore fun hour ↦ 3 < hour).NoFreeHour 14400 :=
    ⟨by decide, by decide +kernel⟩
  have herror : ((oneEntryStore fun hour ↦ 3 < hour).rotate rawCodec.zstd 14400 noFaults).2 =
      some .noFreeHour := by
    rw [SealingStore.rotate_of_noFreeHour hnone]
  exact ⟨herror, (SealingStore.failed_rotation_harmless_iff herror).mpr ⟨⟨rfl, by decide +kernel⟩, hnone⟩⟩

end OpenTrace.Engine.Rotation
