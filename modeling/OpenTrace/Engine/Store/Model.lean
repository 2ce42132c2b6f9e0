import OpenTrace.Engine.Segment
import OpenTrace.Engine.Writer
import OpenTrace.Library.Interleaving

/-!
# The store on its data directory

`engine/store.go` with `engine/writer.go`, `engine/seal.go` and `engine/segment.go` beneath it:
`NewStore` with the recovery of interrupted seals, `Ingest`, `SealCurrentHour`, the view that a query
takes and the files it reads afterwards, and `GetByID`. Calls of one process are interleaved at every
lock and every file-system step, the clock advances at any time, and a crash may fall between any two
steps.

A segment directory holds an `active.wal`, a `sealing_*.wal`, chunk files, a `meta.json` and the
`.seal_complete` marker. A WAL file is its bytes and how many of them were fsynced; a chunk file is
the list of its rows. A crash keeps the fsynced bytes of a WAL and any number of those behind them,
and it may leave anything in the chunk files and the metadata of a seal that was not completed.
Other file-system steps take effect in order. The calls of this model meet no I/O error: failing
writes, truncates and fsyncs are the subject of `Engine.Session` and `Engine.GroupCommit`.

Five situations are marked as lapses. `NewStore` picks an hour whose directory holds a
`sealing_*.wal`, or the hour it reads while scanning is past the one it picked. A query takes its view
while a rotated WAL is not published yet, or it opens a WAL that is no longer under the name the view
gave. `GetByID` lists the WAL files after the hour was registered that it had not found before. The
segment hour leaves the years that a directory name can hold.
-/

namespace OpenTrace.Engine.Store

open Library Encoding Chunk Wal

/-! ### Files and directories -/

structure Config where
  codec : Codec
  sealChunkEntries : ℤ

abbrev Config.zstd (config : Config) : Zstd := config.codec.zstd

def Config.physical (config : Config) : ℕ := effectiveSealChunkEntries config.sealChunkEntries

/-- A WAL file: its bytes, and how many of them were fsynced. -/
structure WalFile where
  content : Bytes
  durable : ℕ
  deriving DecidableEq

structure Dir where
  active : Option WalFile
  sealing : Option WalFile
  chunks : List (List Entry)
  segmentMeta : Option SegmentMeta
  /-- The `.seal_complete` marker is there. -/
  complete : Bool

/-- A directory without files. -/
def Dir.blank : Dir := ⟨none, none, [], none, false⟩

/-- The rows a WAL file parses to. -/
def WalFile.rows (zstd : Zstd) (file : WalFile) : List Entry :=
  (readEntriesFrom zstd file.content).entries

/-- The rows whose records were fsynced. -/
def WalFile.safeRows (zstd : Zstd) (file : WalFile) : List Entry :=
  (readEntriesFrom zstd (file.content.take file.durable)).entries

/-- A crash keeps the fsynced bytes, and of the others as many as it likes. -/
def WalFile.cut (kept : ℕ) (file : WalFile) : WalFile :=
  let size := max file.durable (min kept file.content.length)
  ⟨file.content.take size, size⟩

/-- The rows of the chunk files that `meta.json` lists. -/
def Dir.chunkRows (dir : Dir) : List Entry :=
  match dir.segmentMeta with
  | some segment => segmentRows dir.chunks segment
  | none => []

/-- The rows of a directory, read from the file that holds them: the chunks of a completed seal, or
else the WAL that is being sealed, or else the active one. -/
def Dir.rows (zstd : Zstd) (dir : Dir) : List Entry :=
  if dir.complete then dir.chunkRows
  else ((dir.sealing.or dir.active).map (WalFile.rows zstd)).getD []

/-- The rows of a directory that a crash cannot take. -/
def Dir.safeRows (zstd : Zstd) (dir : Dir) : List Entry :=
  if dir.complete then dir.chunkRows
  else ((dir.sealing.or dir.active).map (WalFile.safeRows zstd)).getD []

/-! ### The process -/

inductive Phase
  | closed
  /-- `NewStore` runs in this thread. -/
  | opening (thread : ℕ)
  | running
  deriving DecidableEq

/-- Where the file is that the writer has open. A rename by someone else moves it; it is detached when
it has no name any more, or when the writer has closed it. -/
inductive Handle
  | active
  | sealing
  | detached
  deriving DecidableEq

/-- What a call returned, with the entries that were acknowledged before it began. -/
inductive Observation
  /-- The rows of the registered segments and of the WAL files in view when `NewStore` returned. -/
  | opened (acked held : List Entry)
  /-- The rows a query read, and the hours of the segments its range does not select. -/
  | searched (acked : List Entry) (skipped : List ℕ) (rows : List Entry)
  | fetched (acked : List Entry) (id : Int64) (result : Option Entry)

structure State where
  /-- Milliseconds since the epoch. -/
  clock : ℕ
  dirs : ℕ → Dir
  /-- The hours that have a directory. -/
  names : List ℕ
  phase : Phase
  mu : Option ℕ
  sealMu : Option ℕ
  segmentHour : ℕ
  entryCount : ℕ
  handle : Handle
  /-- The hours in `pendingSeals`; the path is that of the hour's `sealing_*.wal`. -/
  pendingSeals : List ℕ
  segments : List LoadedSegment
  /-- The batches that were written and not acknowledged yet, with their threads. -/
  inflight : List (ℕ × List Entry)
  /-- The entries for which `Ingest` returned success. -/
  acked : List Entry
  log : List Observation

/-- What the environment decides: by how much the clock advances, and what a crash keeps of the two
WAL files and of the unfinished chunks of each directory. -/
structure Input where
  millis : ℕ
  kept : ℕ → ℕ × ℕ
  scrap : ℕ → List (List Entry) × Option SegmentMeta

def State.hour (state : State) : ℕ := state.clock / 3600000

def State.setDir (state : State) (hour : ℕ) (dir : Dir) : State :=
  { state with dirs := Function.update state.dirs hour dir }

/-- The hours whose directory name `parseSegmentHour` reads back: up to the year 9999, and not the
first hour of the epoch, which it confuses with a failure. -/
def nameable (hour : ℕ) : Bool := 0 < hour && hour < 70389528

/-- `parseSegmentHour`, on the directory name of an hour. -/
def parseSegmentHour (hour : ℕ) : ℕ := if nameable hour then hour else 0

/-- The data that reads of `freeSegmentHour` look at, for so many hours. -/
def freeHour (dirs : ℕ → Dir) : ℕ → ℕ → Option ℕ
  | 0, _ => none
  | fuel + 1, hour => if (dirs hour).complete then freeHour dirs fuel (hour + 1) else some hour

def maxSealedHourProbe : ℕ := 24 * 365

def State.freeSegmentHour (state : State) (start : ℕ) : Option ℕ :=
  freeHour state.dirs maxSealedHourProbe start

abbrev Action (α : Type) := Prog Input State α

/-- A step that is always enabled and covered by the argument. -/
def act {α : Type} (update : Input → State → State) (result : State → α) : Action α :=
  Prog.atomically (fun _ _ ↦ true) (fun _ _ ↦ false) update fun _ state ↦ result state

/-- A step that only reads. -/
def load {α : Type} (result : State → α) : Action α := act (fun _ state ↦ state) result

/-- A step that only reads, and lapses in some states. -/
def loadUnless {α : Type} (lapses : State → Bool) (result : State → α) : Action α :=
  Prog.atomically (fun _ _ ↦ true) (fun _ state ↦ lapses state) (fun _ state ↦ state)
    fun _ state ↦ result state

/-- A step that only updates the state. -/
def change (update : State → State) : Action Unit := act (fun _ state ↦ update state) fun _ ↦ ()

def changeDir (hour : ℕ) (update : Dir → Dir) : Action Unit :=
  change fun state ↦ state.setDir hour (update (state.dirs hour))

/-! ### Seal and recovery -/

section Seal

variable (config : Config)

/-- A chunk file is written, or overwritten. -/
def Dir.writeChunk (index : ℕ) (rows : List Entry) (dir : Dir) : Dir :=
  { dir with chunks := dir.chunks.take index ++ rows :: dir.chunks.drop (index + 1) }

def writeChunks (hour : ℕ) : ℕ → List (List Entry) → Action Unit
  | _, [] => pure ()
  | index, rows :: groups => do
    changeDir hour (Dir.writeChunk index rows)
    writeChunks hour (index + 1) groups

/-- `os.Remove` of a `sealing_*.wal`, or its rename to a quarantine name. -/
def State.removeSealing (hour : ℕ) (state : State) : State :=
  { state.setDir hour { state.dirs hour with sealing := none } with
    handle := if state.segmentHour = hour ∧ state.handle = .sealing then .detached else state.handle }

/-- `os.Rename` of an `active.wal` to its `sealing_*.wal`, if it exists. -/
def State.renameActive (hour : ℕ) (state : State) : State :=
  if (state.dirs hour).active.isSome then
    { state.setDir hour
        { state.dirs hour with active := none, sealing := (state.dirs hour).active } with
      handle := if state.segmentHour = hour ∧ state.handle = .active then .sealing else state.handle }
  else state

/-- What `Seal` returns: an error, no metadata for a WAL without rows, or the metadata. -/
inductive SealResult
  | failed
  | empty
  | segment (segment : SegmentMeta)

def sealDir (hour : ℕ) : Action SealResult := do
  let dir ← load fun state ↦ state.dirs hour
  if dir.complete then return .failed
  else
    match dir.sealing with
    | none => return .failed
    | some file =>
      let rows := file.rows config.codec.zstd
      writeChunks hour 0 (rowGroups config.physical rows)
      if rows = [] then
        change (State.removeSealing hour)
        return .empty
      else
        changeDir hour fun dir ↦ { dir with segmentMeta := some (sealMeta config.physical rows) }
        changeDir hour fun dir ↦ { dir with complete := true }
        change (State.removeSealing hour)
        return .segment (sealMeta config.physical rows)

def cleanIncompleteSeal (hour : ℕ) : Action Unit :=
  changeDir hour fun dir ↦ { dir with chunks := [], segmentMeta := none, complete := false }

def recoverDir (currentHour hour : ℕ) : Action Unit := do
  let dir ← load fun state ↦ state.dirs hour
  if dir.complete then return ()
  else if parseSegmentHour hour ≤ 0 then return ()
  else if dir.sealing.isSome then
    cleanIncompleteSeal hour
    let _ ← sealDir config hour
    return ()
  else if currentHour ≤ hour then return ()
  else if dir.active.isNone then return ()
  else
    change (State.renameActive hour)
    let _ ← sealDir config hour
    return ()

/-- The loop of `scan`: each directory is recovered, and loaded if it is a sealed segment. -/
def scanDirs (currentHour : ℕ) : List ℕ → Action (List LoadedSegment)
  | [] => pure []
  | hour :: hours => do
    recoverDir config currentHour hour
    let dir ← load fun state ↦ state.dirs hour
    let segments ← scanDirs currentHour hours
    match dir.complete, dir.segmentMeta with
    | true, some segment => return ⟨parseSegmentHour hour, segment⟩ :: segments
    | _, _ => return segments

end Seal

/-! ### The writer -/

section Writer

variable (config : Config) (thread : ℕ)

def lockMu : Action Unit :=
  Prog.atomically (fun _ state ↦ state.mu = none) (fun _ _ ↦ false)
    (fun _ state ↦ { state with mu := some thread }) fun _ _ ↦ ()

def unlockMu : Action Unit := change fun state ↦ { state with mu := none }

def mkdirAll (hour : ℕ) : Action Unit :=
  Prog.atomically (fun _ _ ↦ true) (fun _ _ ↦ !nameable hour)
    (fun _ state ↦ { state with names := if hour ∈ state.names then state.names else hour :: state.names })
    fun _ _ ↦ ()

def Dir.truncateActive (size : ℕ) (dir : Dir) : Dir :=
  { dir with active := dir.active.map fun file ↦
      ⟨truncateFile size file.content, min file.durable size⟩ }

/-- The file is opened or created, and the writer moves to it. -/
def State.openActive (hour count : ℕ) (state : State) : State :=
  { state.setDir hour
      { state.dirs hour with active := some ((state.dirs hour).active.getD ⟨[], 0⟩) } with
    segmentHour := hour
    entryCount := count
    handle := .active }

def ensureWAL (hour : ℕ) : Action Unit := do
  mkdirAll hour
  let replay ← load fun state ↦
    (state.dirs hour).active.map fun file ↦ scanWAL config.codec.zstd file.content
  match replay with
  | none => change (State.openActive hour 0)
  | some replay =>
    if replay.error.isSome then changeDir hour (Dir.truncateActive replay.consumed)
    change (State.openActive hour replay.entries.length)

/-- An fsync of the file that the writer has open. -/
def State.sync (state : State) : State :=
  let synced := Option.map fun file : WalFile ↦ ⟨file.content, file.content.length⟩
  let dir := state.dirs state.segmentHour
  match state.handle with
  | .active => state.setDir state.segmentHour { dir with active := synced dir.active }
  | .sealing => state.setDir state.segmentHour { dir with sealing := synced dir.sealing }
  | .detached => state

/-- The bytes of a batch reach the file that the writer has open. -/
def State.writeBytes (bytes : Bytes) (state : State) : State :=
  let written := Option.map fun file : WalFile ↦ ⟨file.content ++ bytes, file.durable⟩
  let dir := state.dirs state.segmentHour
  match state.handle with
  | .active => state.setDir state.segmentHour { dir with active := written dir.active }
  | .sealing => state.setDir state.segmentHour { dir with sealing := written dir.sealing }
  | .detached => state

/-- The batch with the IDs and the receive time it gets now. -/
def State.stamped (entries : List Entry) (state : State) : List Entry :=
  stamp (Int64.ofNat state.segmentHour) state.entryCount (Int64.ofNat state.clock) entries

/-- The part of `Append` under `mu`, after the room check. -/
def State.write (entries : List Entry) (state : State) : State :=
  { state.writeBytes (config.codec.marshalBatch (state.stamped entries)) with
    entryCount := state.entryCount + entries.length
    inflight := (thread, state.stamped entries) :: state.inflight }

/-- `Append`: nothing if the segment is full, or the batch. The fsync is that of the group commit: if
a rotation came in between, it has flushed the file before. -/
def append (entries : List Entry) : Action (Option (List Entry)) := do
  lockMu thread
  let written ← act
    (fun _ state ↦
      if segmentHasRoom state.entryCount entries.length then state.write config thread entries
      else state)
    fun state ↦
      if segmentHasRoom state.entryCount entries.length then
        some (state.segmentHour, state.stamped entries)
      else none
  unlockMu
  match written with
  | none => return none
  | some (hour, stamped) =>
    change fun state ↦ if state.segmentHour = hour then state.sync else state
    return some stamped

/-- The empty WAL is removed, and its directory if nothing is left in it. -/
def State.removeEmpty (hour : ℕ) (state : State) : State :=
  let dir := state.dirs hour
  if dir.active.any fun file ↦ file.content = [] then
    { state.setDir hour { dir with active := none } with
      names :=
        if dir.sealing.isNone && dir.chunks = [] && dir.segmentMeta.isNone && !dir.complete then
          state.names.erase hour
        else state.names }
  else state

def closeFile : Action Unit := change fun state ↦ { state with handle := .detached }

def advanceEmpty (oldHour newHour : ℕ) : Action Unit := do
  closeFile
  change (State.removeEmpty oldHour)
  ensureWAL config newHour

/-- The unexported `rotate`: flush, close, rename, and open the WAL of the new hour. -/
def rotateFile (oldHour newHour : ℕ) : Action Unit := do
  change State.sync
  closeFile
  change (State.renameActive oldHour)
  ensureWAL config newHour

/-- `Rotate`: the hour whose WAL was rotated, if it held entries. -/
def rotate : Action (Option ℕ) := do
  lockMu thread
  let (sealHour, count, nextHour) ← load fun state ↦
    (state.segmentHour, state.entryCount, state.hour)
  if count = 0 then
    if sealHour < nextHour then advanceEmpty config sealHour nextHour
    unlockMu
    return none
  else
    let free ← load fun state ↦ state.freeSegmentHour (max nextHour (sealHour + 1))
    match free with
    | none =>
      unlockMu
      return none
    | some newHour =>
      rotateFile config sealHour newHour
      unlockMu
      return some sealHour

end Writer

/-! ### The store -/

/-- What the pipeline hands to `Append`: at least one entry, each of which a record can hold. -/
structure Batch where
  entries : List Entry
  nonempty : entries ≠ []
  storable : ∀ entry ∈ entries, Storable entry

section Store

variable (config : Config) (thread : ℕ)

def lockSealMu : Action Unit :=
  Prog.atomically (fun _ state ↦ state.sealMu = none) (fun _ _ ↦ false)
    (fun _ state ↦ { state with sealMu := some thread }) fun _ _ ↦ ()

def unlockSealMu : Action Unit := change fun state ↦ { state with sealMu := none }

def State.publish (hour : ℕ) (state : State) : State :=
  { state with pendingSeals := hour :: state.pendingSeals.filter (· ≠ hour) }

def State.unpublish (hour : ℕ) (state : State) : State :=
  { state with pendingSeals := state.pendingSeals.filter (· ≠ hour) }

/-- The swap from the pending set to the registered segments, under `pendingMu`. -/
def State.registerSealed (hour : ℕ) (segment : SegmentMeta) (state : State) : State :=
  { state.unpublish hour with segments := register ⟨hour, segment⟩ state.segments }

def sealPending (hour : ℕ) : Action Unit := do
  let result ← sealDir config hour
  match result with
  | .failed => return ()
  | .empty => change (State.unpublish hour)
  | .segment segment => change (State.registerSealed hour segment)

def sealAllPending : List ℕ → Action Unit
  | [] => pure ()
  | hour :: hours => do
    sealPending config hour
    sealAllPending hours

def retryPendingSeals : Action Unit := do
  let pending ← load fun state ↦ state.pendingSeals
  sealAllPending config pending

def sealCurrentHour : Action Unit := do
  lockSealMu thread
  retryPendingSeals config
  let rotated ← rotate config thread
  match rotated with
  | none => unlockSealMu
  | some hour =>
    change (State.publish hour)
    sealPending config hour
    unlockSealMu

/-- `Ingest` returns success. -/
def State.acknowledge (stamped : List Entry) (state : State) : State :=
  { state with
    acked := state.acked ++ stamped
    inflight := state.inflight.filter fun batch ↦ batch.1 ≠ thread }

def ingest (batch : Batch) : Action Unit := do
  let written ← append config thread batch.entries
  match written with
  | some stamped => change (State.acknowledge thread stamped)
  | none =>
    sealCurrentHour config thread
    let written ← append config thread batch.entries
    match written with
    | some stamped => change (State.acknowledge thread stamped)
    | none => return ()

/-! ### Opening the store -/

/-- The rows of a loaded segment, read from its chunk files. -/
def State.segmentRows (state : State) (loaded : LoadedSegment) : List Entry :=
  Engine.segmentRows (state.dirs loaded.hour).chunks loaded.segment

/-- The rows of the registered segments and of the WAL files that `queryView` names. -/
def State.held (state : State) : List Entry :=
  state.segments.flatMap state.segmentRows ++
    (((state.dirs state.segmentHour).active.map (WalFile.rows config.codec.zstd)).getD [] ++
      state.pendingSeals.flatMap fun hour ↦
        ((state.dirs hour).sealing.map (WalFile.rows config.codec.zstd)).getD [])

/-- `NewStore` returns. -/
def State.opened (segments : List LoadedSegment) (state : State) : State :=
  let running : State :=
    { state with
      phase := .running
      pendingSeals := []
      segments := segments.mergeSort fun first second ↦ first.hour ≤ second.hour }
  { running with log := .opened running.acked (running.held config) :: running.log }

/-- `SegmentManager.scan`. The clock is read a second time. -/
def scanSegments : Action Unit := do
  let names ← load fun state ↦ state.names
  let currentHour ← loadUnless (fun state ↦ state.segmentHour < state.hour) fun state ↦ state.hour
  let segments ← scanDirs config currentHour names
  change (State.opened config segments)

/-- `freeSegmentHour` from the current hour. It lapses if the directory it picks holds the WAL of an
interrupted seal. -/
def pickHour : Action (Option ℕ) :=
  loadUnless
    (fun state ↦ (state.freeSegmentHour state.hour).any fun hour ↦ (state.dirs hour).sealing.isSome)
    fun state ↦ state.freeSegmentHour state.hour

/-- `NewStore`: the WAL writer is opened before the segments are recovered and loaded. -/
def newStore : Action Unit := do
  Prog.atomically (fun _ state ↦ state.phase = .closed) (fun _ _ ↦ false)
    (fun _ state ↦ { state with phase := .opening thread }) fun _ _ ↦ ()
  let picked ← pickHour
  match picked with
  | none => change fun state ↦ { state with phase := .closed }
  | some hour =>
    ensureWAL config hour
    scanSegments config

/-! ### Queries -/

/-- A rotated WAL that no query can know of yet. -/
def State.unpublished (state : State) : Bool :=
  state.names.any fun hour ↦
    (state.dirs hour).sealing.isSome && !(state.dirs hour).complete && hour ∉ state.pendingSeals

structure View where
  segments : List LoadedSegment
  skipped : List ℕ
  active : ℕ
  pending : List ℕ

/-- `queryView`: one snapshot under `pendingMu`, for which `WALPath` waits for `mu`. -/
def queryView (start finish : ℤ) : Action View :=
  Prog.atomically (fun _ state ↦ state.mu = none) (fun _ state ↦ state.unpublished)
    (fun _ state ↦ state)
    fun _ state ↦
      { segments := segmentsInRange state.segments start finish
        skipped := (state.segments.filter fun loaded ↦ !loaded.inRange start finish).map
          LoadedSegment.hour
        active := state.segmentHour
        pending := state.pendingSeals }

/-- A WAL file is opened by name and parsed; a missing file has no rows. The WAL cache changes
nothing here: `WalCache.forEach_eq`. -/
def readWAL (file : State → Option WalFile) : Action (List Entry) :=
  loadUnless (fun state ↦ (file state).isNone)
    fun state ↦ ((file state).map (WalFile.rows config.codec.zstd)).getD []

def readActive (hour : ℕ) : Action (List Entry) :=
  readWAL config fun state ↦ (state.dirs hour).active

def readSealing (hour : ℕ) : Action (List Entry) :=
  readWAL config fun state ↦ (state.dirs hour).sealing

/-- Reads one after another, with the rows put together. -/
def readAll {α : Type} (read : α → Action (List Entry)) : List α → Action (List Entry)
  | [] => pure []
  | first :: rest => do
    let rows ← read first
    let others ← readAll read rest
    return rows ++ others

def search (start finish : ℤ) : Action Unit := do
  let acked ← load fun state ↦ state.acked
  let view ← queryView start finish
  let stored ← readAll (fun loaded ↦ load fun state ↦ state.segmentRows loaded) view.segments
  let live ← readActive config view.active
  let pending ← readAll (readSealing config) view.pending
  change fun state ↦
    { state with log := .searched acked view.skipped (stored ++ (live ++ pending)) :: state.log }

/-- The row of a loaded segment that an ID leads to. -/
def State.rowByID (loaded : LoadedSegment) (id : Int64) (state : State) : Option Entry :=
  (locatePhysicalChunk loaded.segment id).bind fun (index, row) ↦
    ((state.dirs loaded.hour).chunks[index]?).bind fun rows ↦ rows[row]?

/-- `walPaths`, in `GetByID`: the hour of the active WAL and the pending hours. It lapses while a
rotated WAL is unpublished, and when a segment of the ID's hour has been registered by now. -/
def walPaths (id : Int64) : Action (ℕ × List ℕ) :=
  Prog.atomically (fun _ state ↦ state.mu = none)
    (fun _ state ↦ state.unpublished || (findSegmentByID state.segments id).isSome)
    (fun _ state ↦ state) fun _ state ↦ (state.segmentHour, state.pendingSeals)

/-- `findInWALs`: the first entry with the ID. -/
def findInWALs (id : Int64) : Action (Option Entry) := do
  let (active, pending) ← walPaths id
  let live ← readActive config active
  let sealing ← readAll (readSealing config) pending
  return (live ++ sealing).find? fun entry ↦ entry.id = id

def getByID (id : Int64) : Action Unit := do
  let acked ← load fun state ↦ state.acked
  let found ← load fun state ↦ findSegmentByID state.segments id
  let result ← match found with
    | some loaded => load fun state ↦ state.rowByID loaded id
    | none => findInWALs config id
  change fun state ↦ { state with log := .fetched acked id result :: state.log }

end Store

/-! ### The system -/

inductive Call
  | newStore
  | ingest (batch : Batch)
  | sealCurrentHour
  | advanceClock
  | search (start finish : ℤ)
  | getByID (id : Int64)

def Dir.crash (kept : ℕ × ℕ) (scrap : List (List Entry) × Option SegmentMeta) (dir : Dir) : Dir :=
  { dir with
    active := dir.active.map (WalFile.cut kept.1)
    sealing := dir.sealing.map (WalFile.cut kept.2)
    chunks := if dir.complete then dir.chunks else scrap.1
    segmentMeta := if dir.complete then dir.segmentMeta else scrap.2 }

def State.crash (input : Input) (state : State) : State :=
  { state with
    dirs := fun hour ↦ (state.dirs hour).crash (input.kept hour) (input.scrap hour)
    phase := .closed
    mu := none
    sealMu := none
    inflight := [] }

def system (config : Config) : System Call Input State where
  program := fun call thread ↦
    match call with
    | .newStore => newStore config thread
    | .ingest batch => ingest config thread batch
    | .sealCurrentHour => sealCurrentHour config thread
    | .advanceClock => act (fun input state ↦ { state with clock := state.clock + input.millis })
        fun _ ↦ ()
    | .search start finish => search config start finish
    | .getByID id => getByID config id
  admits := fun call state ↦
    match call with
    | .newStore => state.phase = .closed
    | .advanceClock => true
    | .ingest _ | .sealCurrentHour | .search _ _ | .getByID _ => state.phase = .running
  crash := fun input state ↦ some (state.crash input)

/-- An empty data directory. -/
def fresh (clock : ℕ) : State where
  clock := clock
  dirs := fun _ ↦ Dir.blank
  names := []
  phase := .closed
  mu := none
  sealMu := none
  segmentHour := 0
  entryCount := 0
  handle := .detached
  pendingSeals := []
  segments := []
  inflight := []
  acked := []
  log := []

end OpenTrace.Engine.Store
