import OpenTrace.Engine.Store.Model
import OpenTrace.Library.Crash

/-!
# Sealing a directory, step by step

`Seal` with `writeChunk`, `writeFileSync` and `syncDir` (`engine/seal.go`), `CleanIncompleteSeal`, and
`recoverDir` (`engine/segment.go`), as scripts of file-system steps on one segment directory. The
coarser model of `Engine.Store` takes the file-system steps of a seal to survive in order; here a
directory entry survives a crash for certain only once the directory was fsynced, and the content of
a file only once the file was.

Between the creation of a file and its fsync its content is anything, so the writes in between need
no steps of their own. The WAL is one file that moves between names: a rename that was not fsynced
may be undone by a crash, a removal as well. Its content was fsynced when it was handed over, and
nothing here writes to it. No call meets an I/O error.
-/

namespace OpenTrace.Engine.Seal

open Library Encoding Chunk Wal Engine.Store

/-- The files that a seal writes into its directory. -/
inductive Name
  /-- `chunk_%03d.col` -/
  | column (chunk : ℕ)
  /-- `chunk_%03d.idx` -/
  | index (chunk : ℕ)
  /-- `meta.json` -/
  | metaJSON
  /-- `.seal_complete` -/
  | sealComplete
  deriving DecidableEq, Repr

/-- What is written to them. A column file is given as its rows, an index by the messages of the
rows. -/
inductive Content
  | column (rows : List Entry)
  | index (messages : List Bytes)
  | segmentMeta (segment : SegmentMeta)
  | ok
  deriving DecidableEq

/-- Where the WAL is: `active.wal`, `sealing_*.wal`, `sealing_*.wal.corrupt`, or nowhere. -/
inductive WalName
  | active
  | sealing
  | corrupt
  | removed
  deriving DecidableEq, Repr

/-- The rows that a WAL parses to. -/
def parsedRows (zstd : Zstd) (content : Bytes) : List Entry := (readEntriesFrom zstd content).entries

structure SegmentDir where
  files : Directory Name Content
  wal : Cell WalName
  /-- The bytes of the WAL. -/
  content : Bytes

/-- What survives a crash: for every file and for the WAL one of its possible states. -/
structure Outcome where
  files : Name → ℕ
  wal : ℕ

namespace SegmentDir

def mapFiles (update : Directory Name Content → Directory Name Content) (dir : SegmentDir) :
    SegmentDir := { dir with files := update dir.files }

def moveWal (name : WalName) (dir : SegmentDir) : SegmentDir := { dir with wal := dir.wal.set name }

def sync (dir : SegmentDir) : SegmentDir :=
  { dir with files := dir.files.sync, wal := dir.wal.sync }

def crash (outcome : Outcome) (dir : SegmentDir) : SegmentDir :=
  { dir with files := dir.files.crash outcome.files, wal := dir.wal.crash outcome.wal }

def isSealComplete (dir : SegmentDir) : Bool := (dir.files.now .sealComplete).isSome

end SegmentDir

abbrev Action := Script SegmentDir

/-! ### Seal -/

def writeFileSync (name : Name) (content : Content) : Action Unit := do
  Script.change (SegmentDir.mapFiles (Directory.create name))
  Script.change (SegmentDir.mapFiles (Directory.flush name content))

def syncDir : Action Unit := Script.change SegmentDir.sync

def writeChunk (chunk : ℕ) (rows : List Entry) : Action Unit := do
  writeFileSync (.column chunk) (.column rows)
  writeFileSync (.index chunk) (.index (rows.map (·.str .message)))

def writeChunks : ℕ → List (List Entry) → Action Unit
  | _, [] => pure ()
  | chunk, rows :: groups => do
    writeChunk chunk rows
    writeChunks (chunk + 1) groups

/-- `Seal`, on the `sealing_*.wal` of the directory. -/
def sealWal (zstd : Zstd) (sealChunkEntries : ℤ) : Action SealResult := do
  let dir ← Script.read id
  if dir.isSealComplete then return .failed
  else if dir.wal.now ≠ .sealing then return .failed
  else
    let physical := effectiveSealChunkEntries sealChunkEntries
    let rows := parsedRows zstd dir.content
    writeChunks 0 (rowGroups physical rows)
    if rows = [] then
      Script.change (SegmentDir.moveWal
        (if (readEntriesFrom zstd dir.content).error.isSome then .corrupt else .removed))
      return .empty
    else
      writeFileSync .metaJSON (.segmentMeta (sealMeta physical rows))
      syncDir
      writeFileSync .sealComplete .ok
      syncDir
      Script.change (SegmentDir.moveWal .removed)
      return .segment (sealMeta physical rows)

/-! ### Recovery -/

def Name.isColumn : Name → Bool
  | .column _ => true
  | _ => false

def Name.isIndex : Name → Bool
  | .index _ => true
  | _ => false

def removeFile (name : Name) : Action Unit := Script.change (SegmentDir.mapFiles (Directory.remove name))

def removeFiles : List Name → Action Unit
  | [] => pure ()
  | name :: names => do
    removeFile name
    removeFiles names

def cleanIncompleteSeal : Action Unit := do
  let columns ← Script.read fun dir ↦ dir.files.glob Name.isColumn
  removeFiles columns
  let indexes ← Script.read fun dir ↦ dir.files.glob Name.isIndex
  removeFiles indexes
  removeFile .metaJSON
  removeFile .sealComplete

/-- `recoverDir`, on the directory of an hour. -/
def recoverDir (zstd : Zstd) (sealChunkEntries : ℤ) (currentHour hour : ℕ) : Action Unit := do
  let dir ← Script.read id
  if dir.isSealComplete then return ()
  else if parseSegmentHour hour ≤ 0 then return ()
  else if dir.wal.now = .sealing then
    cleanIncompleteSeal
    let _ ← sealWal zstd sealChunkEntries
    return ()
  else if currentHour ≤ hour then return ()
  else if dir.wal.now ≠ .active then return ()
  else
    Script.change (SegmentDir.moveWal .sealing)
    let _ ← sealWal zstd sealChunkEntries
    return ()

/-- A start of the process: the setting and the hour that its recovery finds. -/
structure Start where
  sealChunkEntries : ℤ
  currentHour : ℕ

def Start.recoverDir (zstd : Zstd) (hour : ℕ) (start : Start) : Action Unit :=
  Seal.recoverDir zstd start.sealChunkEntries start.currentHour hour

/-- A recovery that crashes after so many steps. -/
structure Attempt extends Start where
  steps : ℕ
  outcome : Outcome

/-- The directory after recoveries that all crashed. -/
def afterAttempts (zstd : Zstd) (hour : ℕ) (attempts : List Attempt) (dir : SegmentDir) : SegmentDir :=
  attempts.foldl
    (fun dir attempt ↦
      ((attempt.recoverDir zstd hour).after attempt.steps dir).crash attempt.outcome)
    dir

end OpenTrace.Engine.Seal
