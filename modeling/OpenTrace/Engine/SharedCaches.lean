import OpenTrace.Engine.ChunkRow
import OpenTrace.Engine.Prune
import OpenTrace.Engine.Session
import OpenTrace.Engine.Store.Opening
import OpenTrace.Index.Correctness
import OpenTrace.Library.Lru

/-!
# The caches of decoded columns and indexes

`engine/colcache.go`, `memoColumn` (`engine/chunkcols.go`) and `index/cache.go`: decoded columns and parsed
indexes of sealed chunks are kept under the path of their file, because a sealed chunk never changes.
Nothing drops them when `Prune` removes the file.

A `CachedStore` takes one step at a time of `Append`, `Rotate`, a seal, `Prune` and the queries, in any
order. A seal writes one chunk with its index in a step, and any of its steps may fail. A query takes its
view, opens files of the segments in view, at any later time, and reads columns and indexes from what it
has opened; a read stands for all calls that wait for the same load. WAL files are the lists of their
records.

Within one process the hour of the writer only grows. A slot is filled a second time only if `Prune`
empties a slot that the writer has yet to reach, or yet to seal. In a run in which that does not happen,
whatever a query gets from the caches is decoded from the file at the path (`caches_serve_current`).
-/

namespace OpenTrace.Engine.SharedCaches

open Library Encoding Chunk Wal List Option Function

/-! ### Columns and indexes -/

/-- A decoded column. -/
inductive ColumnValue
  | ints (values : List Int64)
  | strings (values : List Bytes)
  | optInts (values : List (Option Int64))
  | bools (values : List (Option Bool))
  | blobs (values : List (Option Bytes))
  deriving DecidableEq, Repr

/-- `sizeOfStrings` samples the first values. -/
def sizeOfStrings (values : List Bytes) : ℕ :=
  let sampled := min values.length 512
  let total := ((values.take sampled).map length).sum
  values.length * 24 + total / sampled * values.length

/-- `sizeOfInt64s` and the others of this kind. -/
def ColumnValue.size : ColumnValue → ℕ
  | .ints values => values.length * 8 + 48
  | .strings values => sizeOfStrings values + 48
  | .optInts values => values.length * 8 + (values.countP isSome) * 8 + 48
  | .bools values => values.length * 8 + values.countP isSome + 48
  | .blobs values => values.length * 24 + (values.map fun value ↦ (value.getD []).length).sum + 48

/-- A column is read with the decoder of its type. -/
def readColumn (zstd : Zstd) (reader : Reader) : Column → Except ChunkError ColumnValue
  | .id => (reader.readDeltaInt64 zstd .id).map .ints
  | .ts => (reader.readZstdInt64 zstd .ts).map .ints
  | .receivedAt => (reader.readDeltaInt64 zstd .receivedAt).map .ints
  | .str field => (readStrColumn zstd reader field).map .strings
  | .int .status => (reader.readSparseStrings zstd (.int .status)).map .strings
  | .int field => (reader.readSparseInt64 zstd (.int field)).map .optInts
  | .nPlusOne => (reader.readSparseBool .nPlusOne).map .bools
  | .body => (reader.readSparseBytes zstd .body).map .blobs

/-- A column of a chunk file; nothing if the file or the column cannot be read. -/
def decodeColumn (zstd : Zstd) (file : Bytes) (column : Column) : Option ColumnValue :=
  match openReader file with
  | .error _ => none
  | .ok reader => (readColumn zstd reader column).toOption

/-- The parsed index of an index file. -/
def decodeIndex (file : Bytes) : Option Index.Reader := (Index.openReader file).toOption

/-- The size for which `Cache.Open` accounts. -/
def indexSize (file : Option Bytes) (index : Index.Reader) : ℕ :=
  (file.getD []).length + (index.terms.map fun term ↦ term.term.length + 24).sum

/-- `chunk_%03d` in the directory of an hour. -/
structure ChunkPath where
  hour : ℕ
  chunk : ℕ
  deriving DecidableEq, Repr

structure ColumnKey where
  path : ChunkPath
  column : Column
  deriving DecidableEq, Repr

def maxColumnShareOfBudget : ℕ := 4

/-- An index may take half of the budget. -/
def maxIndexShareOfBudget : ℕ := 2

/-! ### The store -/

/-- The directory of an hour. -/
structure Slot where
  active : Option (List Entry)
  sealing : Option (List Entry)
  column : ℕ → Option Bytes
  index : ℕ → Option Bytes
  complete : Bool

/-- Which files a failed `RemoveAll` has left. -/
structure Remains where
  active : Bool
  sealing : Bool
  column : ℕ → Bool
  index : ℕ → Bool
  complete : Bool

def Remains.nothing : Remains := ⟨false, false, fun _ ↦ false, fun _ ↦ false, false⟩

def keepIf {α : Type} (kept : Bool) (file : Option α) : Option α := if kept then file else none

def Slot.restrict (slot : Slot) (left : Remains) : Slot where
  active := keepIf left.active slot.active
  sealing := keepIf left.sealing slot.sealing
  column := fun chunk ↦ keepIf (left.column chunk) (slot.column chunk)
  index := fun chunk ↦ keepIf (left.index chunk) (slot.index chunk)
  complete := left.complete && slot.complete

/-- A seal that is under way: the chunks still to be written. -/
structure SealJob where
  hour : ℕ
  chunk : ℕ
  groups : List (List Entry)
  rows : List Entry

/-- A file that a query has opened, with the bytes it reads from it. -/
structure OpenFile where
  path : ChunkPath
  bytes : Bytes
  deriving DecidableEq

structure Config where
  zstd : Zstd
  unicode : Unicode
  sealChunkEntries : ℤ

structure CachedStore where
  slots : ℕ → Slot
  segmentHour : ℕ
  entryCount : ℕ
  /-- The file the writer has open is still the `active.wal` of its hour. -/
  linked : Bool
  pendingSeals : List ℕ
  job : Option SealJob
  segments : List LoadedSegment
  /-- The hours of the segments that queries have in view. -/
  views : List ℕ
  chunkFiles : List OpenFile
  indexFiles : List OpenFile
  columns : Lru ColumnKey ColumnValue
  indexes : Lru ChunkPath Index.Reader

inductive Event
  | append (entries : List Entry)
  /-- `Rotate`, in this hour of the clock. -/
  | rotate (nextHour : ℕ)
  | beginSeal (hour : ℕ)
  | writeChunk
  /-- A chunk is not written to its end, and the seal fails. -/
  | failChunk (column : Bytes) (index : Option Bytes)
  | finishSeal
  /-- The seal fails after its chunks, behind the marker or before it. -/
  | failSeal (marked : Bool)
  /-- One segment in the loop of `Prune`; nothing if `RemoveAll` succeeds, or what it left. -/
  | prune (hour : ℕ) (cutoffHour cutoff : ℤ) (failed : Option Remains)
  /-- A query takes its view. -/
  | view (start finish : ℤ)
  | openChunk (path : ChunkPath)
  | openIndex (path : ChunkPath)
  /-- A query looks for a column in the cache. -/
  | getColumn (key : ColumnKey)
  /-- A query that has found no column reads it from the chunk it has opened. -/
  | loadColumn (file : OpenFile) (column : Column)
  | getIndex (path : ChunkPath)
  | loadIndex (file : OpenFile)

namespace CachedStore

def setSlot (store : CachedStore) (hour : ℕ) (slot : Slot) : CachedStore :=
  { store with slots := update store.slots hour slot }

def columnFile (store : CachedStore) (path : ChunkPath) : Option Bytes :=
  (store.slots path.hour).column path.chunk

def indexFile (store : CachedStore) (path : ChunkPath) : Option Bytes :=
  (store.slots path.hour).index path.chunk

section Steps

variable (config : Config)

section

variable (store : CachedStore)

def append (entries : List Entry) : CachedStore :=
  let slot := store.slots store.segmentHour
  let grown := if store.linked then slot.active.map (· ++ entries) else slot.active
  { store.setSlot store.segmentHour { slot with active := grown } with
    entryCount := store.entryCount + entries.length }

def ensureWAL (hour : ℕ) : CachedStore :=
  let rows := (store.slots hour).active.getD []
  { store.setSlot hour { store.slots hour with active := some rows } with
    segmentHour := hour
    entryCount := rows.length
    linked := true }

def freeSegmentHour (start : ℕ) : Option ℕ :=
  Store.freeHour (fun hour ↦ { Store.Dir.blank with complete := (store.slots hour).complete })
    Store.maxSealedHourProbe start

/-- The file of the writer gets the name under which it is sealed. -/
def renameActive : CachedStore :=
  let slot := store.slots store.segmentHour
  match slot.active with
  | none => store
  | some rows => store.setSlot store.segmentHour { slot with active := none, sealing := some rows }

/-- `Rotate`, and the publication of the rotated file. -/
def rotate (nextHour : ℕ) : CachedStore :=
  let sealHour := store.segmentHour
  if store.entryCount = 0 then
    if sealHour < nextHour then
      let slot := store.slots sealHour
      let swept := if slot.active = some [] then { slot with active := none } else slot
      (store.setSlot sealHour swept).ensureWAL nextHour
    else store
  else
    match store.freeSegmentHour (max nextHour (sealHour + 1)) with
    | none => store
    | some hour =>
      { store.renameActive.ensureWAL hour with
        pendingSeals := sealHour :: store.pendingSeals.filter (· ≠ sealHour) }

def dropPending (hour : ℕ) : CachedStore :=
  { store with pendingSeals := store.pendingSeals.filter (· ≠ hour) }

/-- `Seal` is called for a pending hour; one seal runs at a time. A WAL without records is removed. -/
def beginSeal (hour : ℕ) : CachedStore :=
  let slot := store.slots hour
  if store.job.isSome || slot.complete || !store.pendingSeals.contains hour then store
  else
    match slot.sealing with
    | none => store
    | some [] => (store.setSlot hour { slot with sealing := none }).dropPending hour
    | some rows =>
      let groups := rowGroups (effectiveSealChunkEntries config.sealChunkEntries) rows
      { store with job := some ⟨hour, 0, groups, rows⟩ }

def putChunk (path : ChunkPath) (column index : Option Bytes) : CachedStore :=
  let slot := store.slots path.hour
  store.setSlot path.hour
    { slot with
      column := update slot.column path.chunk column
      index := update slot.index path.chunk index }

def writeChunk : CachedStore :=
  match store.job with
  | some ⟨hour, chunk, rows :: groups, all⟩ =>
    match Chunk.writeChunk config.zstd rows with
    | none => { store with job := none }
    | some bytes =>
      let index := Index.indexFile config.zstd config.unicode (rows.map (·.str .message))
      { store.putChunk ⟨hour, chunk⟩ (some bytes) (some index) with
        job := some ⟨hour, chunk + 1, groups, all⟩ }
  | _ => store

def failChunk (column : Bytes) (index : Option Bytes) : CachedStore :=
  match store.job with
  | some ⟨hour, chunk, _ :: _, _⟩ =>
    let before := store.indexFile ⟨hour, chunk⟩
    { store.putChunk ⟨hour, chunk⟩ (some column) (index.or before) with job := none }
  | _ => store

/-- `meta.json` and the marker are written, the WAL is removed, and the segment is registered. -/
def finishSeal : CachedStore :=
  match store.job with
  | some ⟨hour, _, [], rows⟩ =>
    let loaded := ⟨hour, sealMeta (effectiveSealChunkEntries config.sealChunkEntries) rows⟩
    { (store.setSlot hour { store.slots hour with complete := true, sealing := none }).dropPending hour with
      job := none
      segments := register loaded store.segments }
  | _ => store

def failSeal (marked : Bool) : CachedStore :=
  match store.job with
  | some ⟨hour, _, [], _⟩ =>
    { store.setSlot hour { store.slots hour with complete := marked } with job := none }
  | _ => store

/-- The segment of the hour is registered and expired. -/
def expires (hour : ℕ) (cutoffHour cutoff : ℤ) : Bool :=
  store.segments.any fun loaded ↦ loaded.hour = hour && loaded.expiredAt cutoffHour cutoff

def prune (hour : ℕ) (cutoffHour cutoff : ℤ) (failed : Option Remains) : CachedStore :=
  if !store.expires hour cutoffHour cutoff then store
  else
    let left := failed.getD Remains.nothing
    { store.setSlot hour ((store.slots hour).restrict left) with
      linked := store.linked && (store.segmentHour ≠ hour || left.active)
      segments := if failed.isSome then store.segments else store.segments.filter (·.hour ≠ hour) }

end

/-- What a query gets from the caches. -/
inductive Obtained
  | column (key : ColumnKey) (value : ColumnValue)
  | index (path : ChunkPath) (index : Index.Reader)
  deriving DecidableEq

section

variable (store : CachedStore)

/-- The load of a column: another load may have put it in since, or it is decoded and put in. -/
def loadColumn (file : OpenFile) (column : Column) : CachedStore × Option Obtained :=
  let key : ColumnKey := ⟨file.path, column⟩
  let found := store.columns.get key
  match found.1 with
  | some value => ({ store with columns := found.2 }, some (.column key value))
  | none =>
    match decodeColumn config.zstd file.bytes column with
    | none => (store, none)
    | some value =>
      ({ store with columns := store.columns.put maxColumnShareOfBudget key value value.size },
        some (.column key value))

def loadIndex (file : OpenFile) : CachedStore × Option Obtained :=
  let found := store.indexes.get file.path
  match found.1 with
  | some index => ({ store with indexes := found.2 }, some (.index file.path index))
  | none =>
    match decodeIndex file.bytes with
    | none => (store, none)
    | some index =>
      ({ store with
          indexes := store.indexes.put maxIndexShareOfBudget file.path index
            (indexSize (store.indexFile file.path) index) },
        some (.index file.path index))

def openChunk (path : ChunkPath) : CachedStore :=
  match store.columnFile path with
  | some bytes =>
    if path.hour ∈ store.views then { store with chunkFiles := ⟨path, bytes⟩ :: store.chunkFiles }
    else store
  | none => store

/-- `OpenReader` of an index, for a load that found none in the cache. -/
def openIndex (path : ChunkPath) : CachedStore :=
  match store.indexFile path with
  | some bytes =>
    if path.hour ∈ store.views then { store with indexFiles := ⟨path, bytes⟩ :: store.indexFiles }
    else store
  | none => store

/-- A step, and what a query gets in it. -/
def step : Event → CachedStore × Option Obtained
  | .append entries => (store.append entries, none)
  | .rotate nextHour => (store.rotate nextHour, none)
  | .beginSeal hour => (store.beginSeal config hour, none)
  | .writeChunk => (store.writeChunk config, none)
  | .failChunk column index => (store.failChunk column index, none)
  | .finishSeal => (store.finishSeal config, none)
  | .failSeal marked => (store.failSeal marked, none)
  | .prune hour cutoffHour cutoff failed => (store.prune hour cutoffHour cutoff failed, none)
  | .view start finish =>
    let hours := (segmentsInRange store.segments start finish).map LoadedSegment.hour
    ({ store with views := hours ++ store.views }, none)
  | .openChunk path => (store.openChunk path, none)
  | .openIndex path => (store.openIndex path, none)
  | .getColumn key =>
    let found := store.columns.get key
    ({ store with columns := found.2 }, found.1.map (.column key))
  | .loadColumn file column =>
    if file ∈ store.chunkFiles then store.loadColumn config file column else (store, none)
  | .getIndex path =>
    let found := store.indexes.get path
    ({ store with indexes := found.2 }, found.1.map (.index path))
  | .loadIndex file =>
    if file ∈ store.indexFiles then store.loadIndex file else (store, none)

def run (events : List Event) : CachedStore :=
  events.foldl (fun store event ↦ (store.step config event).1) store

/-- What was got is decoded from the file that is at the path, if there is one. -/
def Obtained.Current : Obtained → Prop
  | .column key value => ∀ bytes, store.columnFile key.path = some bytes →
      decodeColumn config.zstd bytes key.column = some value
  | .index path parsed => ∀ bytes, store.indexFile path = some bytes → decodeIndex bytes = some parsed

/-- The writer will not seal the hour: it has left it, and no seal is pending. -/
def Retired (hour : ℕ) : Prop := hour < store.segmentHour ∧ hour ∉ store.pendingSeals

/-- `Prune` empties only slots that the writer will not fill again. -/
def Calm : Event → Prop
  | .prune hour cutoffHour cutoff _ =>
    store.expires hour cutoffHour cutoff = true → store.Retired hour
  | _ => True

end

instance (store : CachedStore) (hour : ℕ) : Decidable (store.Retired hour) :=
  inferInstanceAs (Decidable (_ ∧ _))

instance (store : CachedStore) : (event : Event) → Decidable (store.Calm event)
  | .prune _ _ _ _ => inferInstanceAs (Decidable (_ → store.Retired _))
  | .append _ | .rotate _ | .beginSeal _ | .writeChunk | .failChunk _ _ | .finishSeal | .failSeal _
  | .view _ _ | .openChunk _ | .openIndex _ | .getColumn _ | .loadColumn _ _ | .getIndex _
  | .loadIndex _ => isTrue trivial

def CalmRun (store : CachedStore) : List Event → Prop
  | [] => True
  | event :: events => store.Calm event ∧ CalmRun (store.step config event).1 events

instance decidableCalmRun (store : CachedStore) : (events : List Event) →
    Decidable (store.CalmRun config events)
  | [] => isTrue trivial
  | event :: events =>
    have := decidableCalmRun (store.step config event).1 events
    inferInstanceAs (Decidable (store.Calm event ∧ _))

end Steps

/-! ### Frozen hours -/

/-- No seal will write to the directory of the hour: it is sealed, or the writer is done with it. -/
def Frozen (store : CachedStore) (hour : ℕ) : Prop :=
  (store.slots hour).complete = true ∨ store.Retired hour

/-- The queries and what they share are as they were. -/
structure SameQueries (before after : CachedStore) : Prop where
  views : after.views = before.views
  chunkFiles : after.chunkFiles = before.chunkFiles
  indexFiles : after.indexFiles = before.indexFiles
  columns : after.columns = before.columns
  indexes : after.indexes = before.indexes

/-- What the writer, the sealer and the pruner do to the files that queries know. -/
structure Keeps (before after : CachedStore) : Prop where
  frozen : ∀ hour, before.Frozen hour → after.Frozen hour
  columnFile : ∀ path bytes, before.Frozen path.hour → after.columnFile path = some bytes →
    before.columnFile path = some bytes
  indexFile : ∀ path bytes, before.Frozen path.hour → after.indexFile path = some bytes →
    before.indexFile path = some bytes
  queries : SameQueries before after

/-- A file that a query holds is the one at its path, if there still is one. -/
def HeldFile (store : CachedStore) (path : ChunkPath) (bytes : Bytes) (current : Option Bytes) : Prop :=
  store.Frozen path.hour ∧ ∀ other, current = some other → other = bytes

/-- What holds between two steps of a calm run. -/
structure Coherent (config : Config) (store : CachedStore) : Prop where
  registered : ∀ loaded ∈ store.segments, store.Frozen loaded.hour
  viewed : ∀ hour ∈ store.views, store.Frozen hour
  chunkFiles : ∀ file ∈ store.chunkFiles, store.HeldFile file.path file.bytes (store.columnFile file.path)
  indexFiles : ∀ file ∈ store.indexFiles, store.HeldFile file.path file.bytes (store.indexFile file.path)
  columns : store.columns.Holds fun key value ↦
    store.Frozen key.path.hour ∧ (Obtained.column key value).Current config store
  indexes : store.indexes.Holds fun path index ↦
    store.Frozen path.hour ∧ (Obtained.index path index).Current config store
  /-- A seal works on an hour that is not frozen. -/
  job : ∀ job, store.job = some job → job.hour ∈ store.pendingSeals ∧
    (store.slots job.hour).complete = false

variable {config : Config} {store after : CachedStore}

theorem HeldFile.keeps {path : ChunkPath} {bytes : Bytes} {current next : Option Bytes}
    (hheld : store.HeldFile path bytes current) (hkeeps : Keeps store after)
    (hnext : ∀ other, store.Frozen path.hour → next = some other → current = some other) :
    after.HeldFile path bytes next :=
  ⟨hkeeps.frozen _ hheld.1, fun other hother ↦ hheld.2 other (hnext other hheld.1 hother)⟩

theorem Coherent.keeps (hstore : store.Coherent config) (hkeeps : Keeps store after)
    (hregistered : ∀ loaded ∈ after.segments, after.Frozen loaded.hour)
    (hjob : ∀ job, after.job = some job → job.hour ∈ after.pendingSeals ∧
      (after.slots job.hour).complete = false) : after.Coherent config where
  registered := hregistered
  viewed := fun hour hhour ↦ hkeeps.frozen hour (hstore.viewed hour (hkeeps.queries.views ▸ hhour))
  chunkFiles := fun file hfile ↦
    (hstore.chunkFiles file (hkeeps.queries.chunkFiles ▸ hfile)).keeps hkeeps (hkeeps.columnFile _)
  indexFiles := fun file hfile ↦
    (hstore.indexFiles file (hkeeps.queries.indexFiles ▸ hfile)).keeps hkeeps (hkeeps.indexFile _)
  columns := by
    rw [hkeeps.queries.columns]
    refine hstore.columns.imp fun key value hvalue ↦ ⟨hkeeps.frozen _ hvalue.1, fun bytes hbytes ↦ ?_⟩
    exact hvalue.2 bytes (hkeeps.columnFile _ bytes hvalue.1 hbytes)
  indexes := by
    rw [hkeeps.queries.indexes]
    refine hstore.indexes.imp fun path index hindex ↦ ⟨hkeeps.frozen _ hindex.1, fun bytes hbytes ↦ ?_⟩
    exact hindex.2 bytes (hkeeps.indexFile _ bytes hindex.1 hbytes)
  job := hjob

/-! ### The writer -/

/-- The chunk files, the indexes and the markers of all slots are as they were. -/
structure SameChunks (before after : ℕ → Slot) : Prop where
  column : ∀ hour, (after hour).column = (before hour).column
  index : ∀ hour, (after hour).index = (before hour).index
  complete : ∀ hour, (after hour).complete = (before hour).complete

theorem SameChunks.refl (slots : ℕ → Slot) : SameChunks slots slots :=
  ⟨fun _ ↦ rfl, fun _ ↦ rfl, fun _ ↦ rfl⟩

theorem SameChunks.trans {before middle after : ℕ → Slot} (hfirst : SameChunks before middle)
    (hsecond : SameChunks middle after) : SameChunks before after :=
  ⟨fun hour ↦ (hsecond.column hour).trans (hfirst.column hour),
    fun hour ↦ (hsecond.index hour).trans (hfirst.index hour),
    fun hour ↦ (hsecond.complete hour).trans (hfirst.complete hour)⟩

theorem sameChunks_update (slots : ℕ → Slot) (hour : ℕ) (active sealing : Option (List Entry)) :
    SameChunks slots
      (update slots hour { slots hour with active := active, sealing := sealing }) := by
  constructor <;>
    · intro other
      rw [update_apply]
      split_ifs with hsame
      · rw [hsame]
      · rfl

/-- A step of the writer leaves the chunks alone and only goes on. -/
structure WriterStep (before after : CachedStore) : Prop where
  chunks : SameChunks before.slots after.slots
  retired : ∀ hour, before.Retired hour → after.Retired hour
  pending : ∀ hour ∈ before.pendingSeals, hour ∈ after.pendingSeals
  queries : SameQueries before after
  job : after.job = before.job
  segments : after.segments = before.segments

theorem WriterStep.refl (store : CachedStore) : WriterStep store store :=
  ⟨.refl _, fun _ hretired ↦ hretired, fun _ hpending ↦ hpending, ⟨rfl, rfl, rfl, rfl, rfl⟩, rfl, rfl⟩

/-- Any change of WALs keeps what queries know, if it gives up no hour that is retired. -/
theorem SameChunks.keeps (hchunks : SameChunks store.slots after.slots)
    (hretired : ∀ hour, store.Retired hour → after.Retired hour)
    (hqueries : SameQueries store after) : Keeps store after where
  frozen := fun hour hfrozen ↦ hfrozen.imp (hchunks.complete hour).trans (hretired hour)
  columnFile := by
    intro path bytes _ hbytes
    rwa [columnFile, hchunks.column] at hbytes
  indexFile := by
    intro path bytes _ hbytes
    rwa [indexFile, hchunks.index] at hbytes
  queries := hqueries

theorem Coherent.writerStep (hstore : store.Coherent config) (hstep : WriterStep store after) :
    after.Coherent config := by
  have hkeeps := hstep.chunks.keeps hstep.retired hstep.queries
  refine hstore.keeps hkeeps (fun loaded hloaded ↦ ?_) fun job hjob ↦ ?_
  · exact hkeeps.frozen _ (hstore.registered loaded (hstep.segments ▸ hloaded))
  · obtain ⟨hpending, hcomplete⟩ := hstore.job job (hstep.job ▸ hjob)
    exact ⟨hstep.pending _ hpending, (hstep.chunks.complete _).trans hcomplete⟩

theorem writerStep_append (store : CachedStore) (entries : List Entry) :
    WriterStep store (store.append entries) :=
  { WriterStep.refl store with
    chunks := sameChunks_update store.slots _ _ _
    queries := ⟨rfl, rfl, rfl, rfl, rfl⟩ }

theorem sameChunks_ensureWAL (store : CachedStore) (hour : ℕ) :
    SameChunks store.slots (store.ensureWAL hour).slots :=
  sameChunks_update store.slots hour _ _

variable {hour : ℕ} {segments : List LoadedSegment}

section

variable (store : CachedStore)

/-- An empty writer moves to a later hour. -/
theorem writerStep_ensureWAL (hlater : store.segmentHour < hour) :
    WriterStep store (store.ensureWAL hour) :=
  { WriterStep.refl store with
    chunks := store.sameChunks_ensureWAL hour
    queries := ⟨rfl, rfl, rfl, rfl, rfl⟩
    retired := fun _ hretired ↦ ⟨hretired.1.trans hlater, hretired.2⟩ }

theorem sameChunks_renameActive : SameChunks store.slots store.renameActive.slots := by
  unfold renameActive
  dsimp only
  split
  · exact .refl _
  · exact sameChunks_update store.slots _ _ _

theorem renameActive_rest :
    store.renameActive = { store with slots := store.renameActive.slots } := by
  unfold renameActive
  dsimp only
  split <;> rfl

/-- The writer moves to a later hour, and the hour it leaves becomes pending. -/
theorem writerStep_rotated (hlater : store.segmentHour < hour) : WriterStep store
      { store.renameActive.ensureWAL hour with
        pendingSeals := store.segmentHour :: store.pendingSeals.filter (· ≠ store.segmentHour) } := by
  have hchunks := store.sameChunks_renameActive.trans (sameChunks_ensureWAL _ hour)
  rw [store.renameActive_rest] at hchunks ⊢
  refine ⟨hchunks, ?_, ?_, ⟨rfl, rfl, rfl, rfl, rfl⟩, rfl, rfl⟩
  · rintro other ⟨hleft, hnotPending⟩
    refine ⟨hleft.trans hlater, ?_⟩
    rw [mem_cons, not_or]
    exact ⟨hleft.ne, fun hmem ↦ hnotPending (mem_filter.mp hmem).1⟩
  · intro other hpending
    by_cases hsame : other = store.segmentHour
    · exact hsame ▸ mem_cons_self
    · exact mem_cons_of_mem _ (mem_filter.mpr ⟨hpending, by simpa using hsame⟩)

end

theorem Coherent.rotate (hstore : store.Coherent config) (nextHour : ℕ) :
    (store.rotate nextHour).Coherent config := by
  unfold CachedStore.rotate
  dsimp only
  split_ifs with hempty hlater hswept
  · have hremoved : WriterStep store (store.setSlot store.segmentHour
        { store.slots store.segmentHour with active := none }) :=
      { WriterStep.refl store with
        chunks := sameChunks_update store.slots _ _ _
        queries := ⟨rfl, rfl, rfl, rfl, rfl⟩ }
    exact (hstore.writerStep hremoved).writerStep (writerStep_ensureWAL _ hlater)
  · have hsame : store.setSlot store.segmentHour (store.slots store.segmentHour) = store := by
      rw [setSlot, update_eq_self]
    rw [hsame]
    exact hstore.writerStep (writerStep_ensureWAL store hlater)
  · exact hstore
  · split
    · exact hstore
    · next hour hfree =>
      have hstart : max nextHour (store.segmentHour + 1) ≤ hour := (Store.freeHour_spec hfree).1
      exact hstore.writerStep (store.writerStep_rotated (by omega))

/-! ### The sealer -/

/-- An hour that is yet to be sealed is not one that queries know. -/
theorem not_frozen {hour : ℕ} (hpending : hour ∈ store.pendingSeals)
    (hcomplete : (store.slots hour).complete = false) : ¬ store.Frozen hour := by
  rintro (hsealed | hretired)
  · rw [hcomplete] at hsealed
    cases hsealed
  · exact hretired.2 hpending

theorem Coherent.not_frozen_job (hstore : store.Coherent config) {job : SealJob}
    (hjob : store.job = some job) : ¬ store.Frozen job.hour :=
  not_frozen (hstore.job job hjob).1 (hstore.job job hjob).2

/-- A step that changes one slot that is not frozen, and gives up no pending seal but that of the slot. -/
theorem keeps_setSlot {hour : ℕ} {slot : Slot} (hopen : ¬ store.Frozen hour)
    {pendingSeals : List ℕ} (hpending : pendingSeals ⊆ store.pendingSeals) {job : Option SealJob}
    {segments : List LoadedSegment} :
    Keeps store
      { store.setSlot hour slot with pendingSeals := pendingSeals, job := job, segments := segments } := by
  have hslot : ∀ other, store.Frozen other → (store.setSlot hour slot).slots other = store.slots other :=
    fun other hfrozen ↦ update_of_ne (fun hsame : other = hour ↦ hopen (hsame ▸ hfrozen)) _ _
  refine ⟨fun other hfrozen ↦ ?_, fun path bytes hfrozen hbytes ↦ ?_, fun path bytes hfrozen hbytes ↦ ?_,
    ⟨rfl, rfl, rfl, rfl, rfl⟩⟩
  · rcases hfrozen with hsealed | hretired
    · refine .inl ?_
      rw [← hsealed]
      exact congrArg Slot.complete (hslot other (.inl hsealed))
    · exact .inr ⟨hretired.1, fun hmem ↦ hretired.2 (hpending hmem)⟩
  · rw [← hbytes]
    exact (congrArg (fun slot ↦ slot.column path.chunk) (hslot path.hour hfrozen)).symm
  · rw [← hbytes]
    exact (congrArg (fun slot ↦ slot.index path.chunk) (hslot path.hour hfrozen)).symm

section

variable (hstore : store.Coherent config)

include hstore

/-- A step of the sealer, in a slot that queries do not know. -/
theorem Coherent.sealStep {slot : Slot} (hopen : ¬ store.Frozen hour) {pendingSeals : List ℕ}
    (hpending : pendingSeals ⊆ store.pendingSeals) {job : Option SealJob}
    (hjob : ∀ next, job = some next → next.hour = hour ∧ hour ∈ pendingSeals ∧ slot.complete = false)
    (hsegments : ∀ loaded ∈ segments, loaded ∈ store.segments ∨ loaded.hour = hour ∧ slot.complete = true) :
    Coherent config
      { store.setSlot hour slot with pendingSeals := pendingSeals, job := job, segments := segments } := by
  have hslot : (store.setSlot hour slot).slots hour = slot := update_self _ _ _
  have hkeeps := @keeps_setSlot store hour slot hopen pendingSeals hpending job segments
  refine hstore.keeps hkeeps (fun loaded hloaded ↦ ?_) fun next hnext ↦ ?_
  · rcases hsegments loaded hloaded with hold | ⟨hnew, hcomplete⟩
    · exact hkeeps.frozen _ (hstore.registered loaded hold)
    · refine .inl ?_
      rw [hnew, ← hcomplete]
      exact congrArg Slot.complete hslot
  · obtain ⟨hhour, hstill, hcomplete⟩ := hjob next hnext
    refine ⟨hhour ▸ hstill, ?_⟩
    rw [hhour, ← hcomplete]
    exact congrArg Slot.complete hslot

theorem Coherent.beginSeal (hour : ℕ) : (store.beginSeal config hour).Coherent config := by
  unfold CachedStore.beginSeal
  dsimp only
  split_ifs with hbusy
  · exact hstore
  simp only [Bool.or_eq_true, Bool.not_eq_true', not_or, Bool.not_eq_true, Bool.not_eq_false,
    contains_iff_mem] at hbusy
  obtain ⟨⟨hidle, hcomplete⟩, hpending⟩ := hbusy
  split
  · exact hstore
  · refine hstore.sealStep (not_frozen hpending hcomplete) (filter_subset_self _) (fun next hnext ↦ ?_) fun _ ↦ .inl
    rw [show store.job = some next from hnext] at hidle
    cases hidle
  · exact { hstore with
      job := by
        rintro job ⟨rfl⟩
        exact ⟨hpending, hcomplete⟩ }

theorem Coherent.writeChunk : (store.writeChunk config).Coherent config := by
  unfold CachedStore.writeChunk
  split
  · next hour chunk rows groups all hjob =>
    split
    · exact { hstore with job := fun _ hnone ↦ by cases hnone }
    · refine hstore.sealStep (hstore.not_frozen_job hjob) (Subset.refl _) ?_
        fun _ ↦ .inl
      rintro next ⟨rfl⟩
      exact ⟨rfl, hstore.job _ hjob⟩
  · exact hstore

theorem Coherent.failChunk (column : Bytes) (index : Option Bytes) :
    (store.failChunk column index).Coherent config := by
  unfold CachedStore.failChunk
  split
  · next hour chunk rows groups all hjob =>
    exact hstore.sealStep (hstore.not_frozen_job hjob) (Subset.refl _)
      (fun _ hnone ↦ by cases hnone) fun _ ↦ .inl
  · exact hstore

theorem Coherent.failSeal (marked : Bool) : (store.failSeal marked).Coherent config := by
  unfold CachedStore.failSeal
  split
  · next hour chunk rows hjob =>
    exact hstore.sealStep (hstore.not_frozen_job hjob) (Subset.refl _)
      (fun _ hnone ↦ by cases hnone) fun _ ↦ .inl
  · exact hstore

end

theorem eq_or_mem_of_mem_register {loaded other : LoadedSegment}
    (hother : other ∈ register loaded segments) : other = loaded ∨ other ∈ segments := by
  induction segments with
  | nil => exact .inl (mem_singleton.mp hother)
  | cons first rest ih =>
    rw [register] at hother
    split_ifs at hother
    · rcases mem_cons.mp hother with rfl | hrest
      · exact .inr mem_cons_self
      · exact (ih hrest).imp_right (mem_cons_of_mem _)
    · exact (mem_cons.mp hother).imp_right (mem_cons_of_mem _)
    · exact mem_cons.mp hother

/-- The sealed hour becomes known to queries, and it is frozen by its marker. -/
theorem Coherent.finishSeal (hstore : store.Coherent config) :
    (store.finishSeal config).Coherent config := by
  unfold CachedStore.finishSeal
  split
  · next hour chunk rows hjob =>
    refine hstore.sealStep (hstore.not_frozen_job hjob) (filter_subset_self _)
      (fun _ hnone ↦ by cases hnone) fun loaded hloaded ↦ ?_
    rcases eq_or_mem_of_mem_register hloaded with rfl | hold
    · exact .inr ⟨rfl, rfl⟩
    · exact .inl hold
  · exact hstore

/-! ### The pruner -/

theorem eq_of_keepIf {α : Type} {kept : Bool} {file : Option α} {value : α}
    (hvalue : keepIf kept file = some value) : file = some value := by
  unfold keepIf at hvalue
  split_ifs at hvalue
  exact hvalue

/-- Files go, and the hour stays frozen because the writer is done with it. -/
theorem keeps_prune {cutoffHour cutoff : ℤ} (failed : Option Remains)
    (hcalm : store.Calm (.prune hour cutoffHour cutoff failed)) :
    Keeps store (store.prune hour cutoffHour cutoff failed) := by
  unfold CachedStore.prune
  by_cases hexpires : store.expires hour cutoffHour cutoff = true
  · have hretired := hcalm hexpires
    simp only [hexpires, Bool.not_true, Bool.false_eq_true, if_false]
    refine ⟨fun other hfrozen ↦ ?_, fun path bytes _ hbytes ↦ ?_, fun path bytes _ hbytes ↦ ?_,
      ⟨rfl, rfl, rfl, rfl, rfl⟩⟩
    · by_cases hsame : other = hour
      · exact .inr (hsame ▸ hretired)
      · refine hfrozen.imp_left fun hsealed ↦ ?_
        rw [← hsealed]
        exact congrArg Slot.complete (update_of_ne hsame _ _)
    · by_cases hsame : path.hour = hour
      · simp only [columnFile, setSlot, hsame, update_self] at hbytes ⊢
        exact eq_of_keepIf hbytes
      · simpa only [columnFile, setSlot, update_of_ne hsame] using hbytes
    · by_cases hsame : path.hour = hour
      · simp only [indexFile, setSlot, hsame, update_self] at hbytes ⊢
        exact eq_of_keepIf hbytes
      · simpa only [indexFile, setSlot, update_of_ne hsame] using hbytes
  · simp only [hexpires]
    exact (WriterStep.refl store).chunks.keeps (fun _ hretired ↦ hretired) ⟨rfl, rfl, rfl, rfl, rfl⟩

theorem Coherent.prune (hstore : store.Coherent config) {cutoffHour cutoff : ℤ}
    {failed : Option Remains} (hcalm : store.Calm (.prune hour cutoffHour cutoff failed)) :
    (store.prune hour cutoffHour cutoff failed).Coherent config := by
  have hkeeps := keeps_prune failed hcalm
  refine hstore.keeps hkeeps (fun loaded hloaded ↦ hkeeps.frozen _ (hstore.registered loaded ?_))
    fun job hjob ↦ ?_
  · unfold CachedStore.prune at hloaded
    by_cases hexpires : (!store.expires hour cutoffHour cutoff) = true
    · rwa [if_pos hexpires] at hloaded
    · rw [if_neg hexpires] at hloaded
      split_ifs at hloaded
      · exact hloaded
      · exact (mem_filter.mp hloaded).1
  · unfold CachedStore.prune at hjob ⊢
    by_cases hexpires : (!store.expires hour cutoffHour cutoff) = true
    · rw [if_pos hexpires] at hjob ⊢
      exact hstore.job job hjob
    · rw [if_neg hexpires] at hjob ⊢
      obtain ⟨hpending, hcomplete⟩ := hstore.job job hjob
      refine ⟨hpending, ?_⟩
      simp only [setSlot, update_apply]
      split_ifs with hsame
      · simp [Slot.restrict, ← hsame, hcomplete]
      · exact hcomplete

/-! ### The queries -/

section

variable (hstore : store.Coherent config)

include hstore

theorem Coherent.heldFile {path : ChunkPath} {bytes : Bytes} {current : Option Bytes}
    (hviewed : path.hour ∈ store.views) (hbytes : current = some bytes) :
    store.HeldFile path bytes current :=
  ⟨hstore.viewed _ hviewed, fun _ hother ↦ some.inj (hother.symm.trans hbytes)⟩

theorem Coherent.openChunk (path : ChunkPath) : (store.openChunk path).Coherent config := by
  unfold CachedStore.openChunk
  split
  · next bytes hbytes =>
    split_ifs with hviewed
    · exact { hstore with
        chunkFiles := forall_mem_cons.mpr ⟨hstore.heldFile hviewed hbytes, hstore.chunkFiles⟩ }
    · exact hstore
  · exact hstore

theorem Coherent.openIndex (path : ChunkPath) : (store.openIndex path).Coherent config := by
  unfold CachedStore.openIndex
  split
  · next bytes hbytes =>
    split_ifs with hviewed
    · exact { hstore with
        indexFiles := forall_mem_cons.mpr ⟨hstore.heldFile hviewed hbytes, hstore.indexFiles⟩ }
    · exact hstore
  · exact hstore

/-- A column is found, or decoded from a chunk that is still the one at its path. -/
theorem Coherent.loadColumn {file : OpenFile} (hfile : file ∈ store.chunkFiles) (column : Column) :
    (store.loadColumn config file column).1.Coherent config ∧
      ∀ obtained, (store.loadColumn config file column).2 = some obtained →
        obtained.Current config store := by
  obtain ⟨hheld, hcached⟩ := hstore.columns.get ⟨file.path, column⟩
  unfold CachedStore.loadColumn
  dsimp only
  split
  · next value hvalue =>
    refine ⟨{ hstore with columns := hheld }, ?_⟩
    rintro obtained ⟨rfl⟩
    exact (hcached value hvalue).2
  · split
    · exact ⟨hstore, fun _ hnone ↦ by cases hnone⟩
    · next value hvalue =>
      obtain ⟨hfrozen, hsame⟩ := hstore.chunkFiles file hfile
      have hcurrent : (Obtained.column ⟨file.path, column⟩ value).Current config store := by
        intro bytes hbytes
        rw [hsame bytes hbytes]
        exact hvalue
      refine ⟨{ hstore with columns := hstore.columns.put _ _ ⟨hfrozen, hcurrent⟩ }, ?_⟩
      rintro obtained ⟨rfl⟩
      exact hcurrent

theorem Coherent.loadIndex {file : OpenFile} (hfile : file ∈ store.indexFiles) :
    (store.loadIndex file).1.Coherent config ∧
      ∀ obtained, (store.loadIndex file).2 = some obtained → obtained.Current config store := by
  obtain ⟨hheld, hcached⟩ := hstore.indexes.get file.path
  unfold CachedStore.loadIndex
  dsimp only
  split
  · next index hindex =>
    refine ⟨{ hstore with indexes := hheld }, ?_⟩
    rintro obtained ⟨rfl⟩
    exact (hcached index hindex).2
  · split
    · exact ⟨hstore, fun _ hnone ↦ by cases hnone⟩
    · next index hindex =>
      obtain ⟨hfrozen, hsame⟩ := hstore.indexFiles file hfile
      have hcurrent : (Obtained.index file.path index).Current config store := by
        intro bytes hbytes
        rw [hsame bytes hbytes]
        exact hindex
      refine ⟨{ hstore with indexes := hstore.indexes.put _ _ ⟨hfrozen, hcurrent⟩ }, ?_⟩
      rintro obtained ⟨rfl⟩
      exact hcurrent

/-- A calm step keeps the invariant, and what a query gets in it is current. -/
theorem Coherent.step {event : Event} (hcalm : store.Calm event) :
    (store.step config event).1.Coherent config ∧
      ∀ obtained, (store.step config event).2 = some obtained → obtained.Current config store := by
  have hnone : ∀ obtained, (none : Option Obtained) = some obtained → obtained.Current config store :=
    fun _ hsome ↦ by cases hsome
  cases event with
  | append entries => exact ⟨hstore.writerStep (writerStep_append store entries), hnone⟩
  | rotate nextHour => exact ⟨hstore.rotate nextHour, hnone⟩
  | beginSeal hour => exact ⟨hstore.beginSeal hour, hnone⟩
  | writeChunk => exact ⟨hstore.writeChunk, hnone⟩
  | failChunk column index => exact ⟨hstore.failChunk column index, hnone⟩
  | finishSeal => exact ⟨hstore.finishSeal, hnone⟩
  | failSeal marked => exact ⟨hstore.failSeal marked, hnone⟩
  | prune hour cutoffHour cutoff failed => exact ⟨hstore.prune hcalm, hnone⟩
  | view start finish =>
    refine ⟨{ hstore with viewed := fun hour hhour ↦ ?_ }, hnone⟩
    rcases mem_append.mp hhour with hnew | hold
    · obtain ⟨loaded, hloaded, rfl⟩ := mem_map.mp hnew
      exact hstore.registered loaded (mem_filter.mp hloaded).1
    · exact hstore.viewed hour hold
  | openChunk path => exact ⟨hstore.openChunk path, hnone⟩
  | openIndex path => exact ⟨hstore.openIndex path, hnone⟩
  | getColumn key =>
    obtain ⟨hheld, hcached⟩ := hstore.columns.get key
    refine ⟨{ hstore with columns := hheld }, fun obtained hobtained ↦ ?_⟩
    obtain ⟨value, hvalue, rfl⟩ := map_eq_some_iff.mp hobtained
    exact (hcached value hvalue).2
  | loadColumn file column =>
    simp only [CachedStore.step]
    by_cases hfile : file ∈ store.chunkFiles
    · rw [if_pos hfile]
      exact hstore.loadColumn hfile column
    · rw [if_neg hfile]
      exact ⟨hstore, hnone⟩
  | getIndex path =>
    obtain ⟨hheld, hcached⟩ := hstore.indexes.get path
    refine ⟨{ hstore with indexes := hheld }, fun obtained hobtained ↦ ?_⟩
    obtain ⟨index, hindex, rfl⟩ := map_eq_some_iff.mp hobtained
    exact (hcached index hindex).2
  | loadIndex file =>
    simp only [CachedStore.step]
    by_cases hfile : file ∈ store.indexFiles
    · rw [if_pos hfile]
      exact hstore.loadIndex hfile
    · rw [if_neg hfile]
      exact ⟨hstore, hnone⟩

theorem Coherent.run {events : List Event}
    (hcalm : store.CalmRun config events) : (store.run config events).Coherent config := by
  induction events generalizing store with
  | nil => exact hstore
  | cons event events ih => exact ih (hstore.step hcalm.1).1 hcalm.2

end

/-- A process that has just started: the directories, the hour of the writer, the segments it has found
and the budgets of the caches. -/
def start (slots : ℕ → Slot) (segmentHour : ℕ) (segments : List LoadedSegment)
    (columnBudget indexBudget : ℕ) : CachedStore where
  slots := slots
  segmentHour := segmentHour
  entryCount := ((slots segmentHour).active.getD []).length
  linked := true
  pendingSeals := []
  job := none
  segments := segments
  views := []
  chunkFiles := []
  indexFiles := []
  columns := Lru.empty columnBudget
  indexes := Lru.empty indexBudget

theorem coherent_start {slots : ℕ → Slot} {segmentHour : ℕ}
    (hloaded : ∀ loaded ∈ segments, (slots loaded.hour).complete = true)
    (columnBudget indexBudget : ℕ) :
    (start slots segmentHour segments columnBudget indexBudget).Coherent config where
  registered := fun loaded hmem ↦ .inl (hloaded loaded hmem)
  viewed := fun _ hhour ↦ by cases hhour
  chunkFiles := fun _ hfile ↦ by cases hfile
  indexFiles := fun _ hfile ↦ by cases hfile
  columns := Lru.holds_empty _
  indexes := Lru.holds_empty _
  job := fun _ hjob ↦ by cases hjob

/-- Every column and every index that a query gets from the caches, in any step of a calm run, is the one
decoded from the file at its path. Assumes: the segments found at the start are sealed, and no `Prune` of
the run empties a slot that the writer has yet to leave or to seal. -/
theorem caches_serve_current (config : Config) {slots : ℕ → Slot} {segmentHour : ℕ}
    {segments : List LoadedSegment}
    (hloaded : ∀ loaded ∈ segments, (slots loaded.hour).complete = true) (columnBudget indexBudget : ℕ)
    {events : List Event}
    (hcalm : (start slots segmentHour segments columnBudget indexBudget).CalmRun config events)
    {event : Event} {obtained : Obtained} :
    let store := (start slots segmentHour segments columnBudget indexBudget).run config events
    (store.step config event).2 = some obtained → obtained.Current config store := by
  intro store hobtained
  have hstore : store.Coherent config := (coherent_start hloaded columnBudget indexBudget).run hcalm
  have hlast : store.Calm event := by
    cases event with
    | prune => cases hobtained
    | _ => trivial
  exact (hstore.step hlast).2 obtained hobtained

end CachedStore

/-! ### Runs -/

def sampleConfig : Config := ⟨Zstd.stored, Unicode.ascii, 0⟩

def emptySlot : Slot := ⟨none, none, fun _ ↦ none, fun _ ↦ none, false⟩

/-- A slot with one sealed chunk. -/
def sealedSlot (rows : List Entry) : Slot where
  active := none
  sealing := none
  column := fun chunk ↦ if chunk = 0 then Chunk.writeChunk sampleConfig.zstd rows else none
  index := fun chunk ↦
    if chunk = 0 then
      some (Index.indexFile sampleConfig.zstd sampleConfig.unicode (rows.map (·.str .message)))
    else none
  complete := true

/-- The writer is in hour 4, and a segment of an earlier process is in another hour. -/
def parkedSlots (parked : ℕ) : ℕ → Slot := fun hour ↦
  if hour = 4 then { emptySlot with active := some [] }
  else if hour = parked then sealedSlot [sampleEntry "old"]
  else emptySlot

def parkedSegments (parked : ℕ) : List LoadedSegment := [⟨parked, sealMeta 1 [sampleEntry "old"]⟩]

def sampleFile (message : String) : Bytes :=
  (Chunk.writeChunk sampleConfig.zstd [sampleEntry message]).getD []

/-- A query takes its view and reads the messages of a chunk with one row. -/
def queryEvents (path : ChunkPath) (message : String) : List Event :=
  [.view 0 0, .openChunk path, .loadColumn ⟨path, sampleFile message⟩ (.str .message)]

def sealEvents (hour : ℕ) : List Event := [.beginSeal hour, .writeChunk, .finishSeal]

/-- While the writer is in hour 4, `Prune` fails to remove more of the segment of hour 3 than its index and
its marker, and queries read it. -/
theorem caches_serve_current_witness : let key : ColumnKey := ⟨⟨3, 0⟩, .str .message⟩
    let left : Remains := ⟨false, false, fun _ ↦ true, fun _ ↦ false, false⟩
    let events := .prune 3 0 1 (some left) :: queryEvents key.path "old"
    let store := (CachedStore.start (parkedSlots 3) 4 (parkedSegments 3) 1000 0).run sampleConfig events
    let obtained := CachedStore.Obtained.column key (.strings [ascii "old"])
    (store.step sampleConfig (.getColumn key)).2 = some obtained ∧ (store.columnFile key.path).isSome ∧
      obtained.Current sampleConfig store := by
  intro key left events store obtained
  have hobtained : (store.step sampleConfig (.getColumn key)).2 = some obtained ∧
      (store.columnFile key.path).isSome := by
    decide +kernel
  refine ⟨hobtained.1, hobtained.2, ?_⟩
  exact CachedStore.caches_serve_current sampleConfig (by decide +kernel) 1000 0 (by decide +kernel)
    hobtained.1

/-- A query reads the messages of hour 5. The segment is pruned, the writer seals hours 4 and 5, and the
next query of hour 5 gets the message of the segment that is gone. -/
theorem pruned_slot_served : let key : ColumnKey := ⟨⟨5, 0⟩, .str .message⟩
    let events := queryEvents key.path "old" ++
      [.prune 5 0 1 none, .append [sampleEntry "a"], .rotate 4] ++ sealEvents 4 ++
      [.append [sampleEntry "new"], .rotate 4] ++ sealEvents 5
    let store := (CachedStore.start (parkedSlots 5) 4 (parkedSegments 5) 1000 0).run sampleConfig events
    (store.step sampleConfig (.getColumn key)).2 = some (.column key (.strings [ascii "old"])) ∧
      (store.columnFile key.path).map (decodeColumn sampleConfig.zstd · key.column) =
        some (some (.strings [ascii "new"])) := by
  decide +kernel

end OpenTrace.Engine.SharedCaches
