import OpenTrace.Engine.Rotation

/-!
# The WAL cache beside the writer and the sealer

Queries hold no lock of the writer, so between any two file-system steps of `Append`, of `Rotate` and
of a seal a query may read a WAL file through the cache. A `Live` store is changed by one such step at
a time: a write that reaches the file in whole or in part, the rollback after a write that failed, the
closing, renaming, removing and opening of files, `forget`, and a query.

Files are told apart by a number that is never given to a second file: a held file is open, so the
operating system does not reuse its identity.

The cache notices that a file was replaced or is now shorter than what was parsed of it. It does not
notice a file that was cut below that offset and has grown over it again. `Calm` runs are those in
which no file is cut below what a query has parsed of it: no query parses a record of a batch whose
write failed before the batch is rolled back, every such rollback succeeds, and a file that is opened
again is found with its size. In a calm run every query visits what parsing the file from its first
byte gives (`query_after_calm_run`).
-/

namespace OpenTrace.Engine

open Library Encoding Chunk Wal Engine.Rotation List

/-! ### Files -/

section Files

variable {Path : Type} [DecidableEq Path]

namespace Files

def setContent (files : Files Path) (inode : ℕ) (bytes : Bytes) : Files Path :=
  { files with content := fun other ↦ if other = inode then bytes else files.content other }

def setInode (files : Files Path) (path : Path) (inode : Option ℕ) : Files Path :=
  { files with inodeAt := fun other ↦ if other = path then inode else files.inodeAt other }

/-- `os.Rename`; a file the target named before is replaced. -/
def rename (files : Files Path) (source target : Path) : Files Path :=
  match files.inodeAt source with
  | none => files
  | some inode => (files.setInode source none).setInode target (some inode)

variable (files : Files Path) (bytes : Bytes)

omit [DecidableEq Path] in
@[simp] theorem content_setContent_self (files : Files Path) (inode : ℕ) (bytes : Bytes) :
    (files.setContent inode bytes).content inode = bytes := if_pos rfl

omit [DecidableEq Path] in
theorem content_setContent_of_ne {inode other : ℕ} (hother : other ≠ inode) :
    (files.setContent inode bytes).content other = files.content other :=
  if_neg hother

omit [DecidableEq Path] in
@[simp] theorem inodeAt_setContent (files : Files Path) (inode : ℕ) (bytes : Bytes) :
    (files.setContent inode bytes).inodeAt = files.inodeAt := rfl

@[simp] theorem content_setInode (path : Path) (inode : Option ℕ) :
    (files.setInode path inode).content = files.content := rfl

@[simp] theorem content_rename (source target : Path) :
    (files.rename source target).content = files.content := by
  unfold rename
  split <;> rfl

/-- Every file that a path names satisfies `P`. -/
def Names (files : Files Path) (P : ℕ → Prop) : Prop :=
  ∀ path inode, files.inodeAt path = some inode → P inode

variable {files : Files Path} {P : ℕ → Prop}

theorem Names.setInode (hfiles : files.Names P) {inode : Option ℕ}
    (hinode : ∀ other, inode = some other → P other) (path : Path) :
    (files.setInode path inode).Names P := by
  intro other number hnumber
  simp only [Files.setInode] at hnumber
  split_ifs at hnumber
  · exact hinode number hnumber
  · exact hfiles other number hnumber

theorem Names.rename (hfiles : files.Names P) (source target : Path) :
    (files.rename source target).Names P := by
  unfold Files.rename
  cases hsource : files.inodeAt source with
  | none => exact hfiles
  | some inode =>
    exact (hfiles.setInode (fun _ hnone ↦ by cases hnone) source).setInode
      (fun _ hsame ↦ Option.some.inj hsame ▸ hfiles source inode hsource) target

end Files

/-! ### What keeps a cache aligned -/

namespace WalCache

variable {zstd : Zstd} {files : Files Path} {cache : WalCache Path}

omit [DecidableEq Path] in
/-- A file may change in any way behind what was parsed of it. -/
theorem Aligned.setContent (hcache : cache.Aligned zstd files) {inode : ℕ} {bytes : Bytes}
    (hkept : ∀ held ∈ cache.files, held.2.inode = inode → held.2.offset ≤ bytes.length ∧
      bytes.take held.2.offset = (files.content inode).take held.2.offset) :
    cache.Aligned zstd (files.setContent inode bytes) := by
  intro held hheld
  obtain ⟨hoffset, hparsed⟩ := hcache held hheld
  by_cases hinode : held.2.inode = inode
  · obtain ⟨hfits, hsame⟩ := hkept held hheld hinode
    refine ⟨?_, ?_⟩
    · rw [hinode, Files.content_setContent_self]
      exact hfits
    · rw [hinode, Files.content_setContent_self, hsame, ← hinode]
      exact hparsed
  · unfold WalCacheFile.Aligned
    rw [Files.content_setContent_of_ne files bytes hinode]
    exact ⟨hoffset, hparsed⟩

omit [DecidableEq Path] in
/-- Parsing the file from its first byte gets at least as far as the cache has got. -/
theorem Aligned.offset_le_consumed (hcache : cache.Aligned zstd files) {held : Path × WalCacheFile}
    (hheld : held ∈ cache.files) :
    held.2.offset ≤ (readEntriesFrom zstd (files.content held.2.inode)).consumed := by
  obtain ⟨hoffset, hparsed⟩ := hcache held hheld
  have hsplit := hparsed.scan_append scannerLength_local
    ((files.content held.2.inode).drop held.2.offset)
  rw [take_append_drop, length_take, min_eq_left hoffset] at hsplit
  rw [readEntriesFrom, hsplit]
  exact Nat.le_add_right _ _

omit [DecidableEq Path] in
/-- Cutting a file at a place that no held offset exceeds keeps the cache aligned. -/
theorem Aligned.cut (hcache : cache.Aligned zstd files) {inode size : ℕ}
    (hsize : ∀ held ∈ cache.files, held.2.inode = inode → held.2.offset ≤ size) :
    cache.Aligned zstd (files.setContent inode ((files.content inode).take size)) := by
  refine hcache.setContent fun held hheld hinode ↦ ⟨?_, ?_⟩
  · rw [length_take, ← hinode]
    exact le_min (hsize held hheld hinode) (hcache held hheld).1
  · rw [take_take, min_eq_left (hsize held hheld hinode)]

end WalCache

end Files

/-- The replay of a file gets at least as far as a query of it: it admits every length a query
admits. -/
theorem consumed_readEntriesFrom_le (zstd : Zstd) (content : Bytes) :
    (readEntriesFrom zstd content).consumed ≤ (scanWAL zstd content).consumed := by
  have hparsed := (@parses_take_consumed zstd scannerLength scannerLength_local content).replay
  have hsplit := hparsed.scan_append replayLength_local
    (content.drop (scan zstd scannerLength content).consumed)
  rw [take_append_drop, length_take, min_eq_left (consumed_le_length content)] at hsplit
  rw [scanWAL, hsplit]
  exact Nat.le_add_right _ _

namespace Coherence

/-! ### The live store -/

/-- The WAL files of the directory of an hour. -/
inductive WalPath
  | active (hour : Int64)
  | sealing (hour : Int64)
  | corrupt (hour : Int64)
  deriving DecidableEq, Repr

structure Live where
  files : Files WalPath
  /-- The number of the next file that is created. -/
  nextInode : ℕ
  /-- The file the writer has open. -/
  handle : Option ℕ
  segmentHour : Int64
  /-- The writer's last known good size of its file. -/
  fileSize : ℕ
  /-- `Append` holds its lock after a write that failed, before the rollback. -/
  failing : Bool
  cache : WalCache WalPath

/-- A store that has just started over a data directory. -/
def Live.start (files : Files WalPath) (nextInode : ℕ) : Live :=
  ⟨files, nextInode, none, 0, 0, false, newWALCache⟩

inductive FileEvent
  /-- `Append` writes a stamped batch; the write may stop and fail after some bytes. -/
  | write (batch : List Entry) (failedAfter : Option ℕ)
  /-- `rollback`, after a write that failed. -/
  | rollback (truncateOk : Bool)
  /-- `Rotate` closes the file of the writer. -/
  | close
  /-- `rotate` renames the file of the segment hour for the sealer. -/
  | renameForSealing
  /-- `advanceEmpty` removes an empty file. -/
  | removeEmpty
  | ensureWAL (hour : Int64) (faults : OpenFaults)
  /-- `Seal` removes the WAL it has sealed. -/
  | removeSealed (hour : Int64)
  /-- `Seal` puts a WAL it cannot read aside. -/
  | quarantine (hour : Int64)
  | forget (path : WalPath)
  | query (path : WalPath)

namespace Live

section Steps

variable (codec : Codec) (budget : CacheBudget)

section

variable (live : Live)

/-- The batch reaches the file in whole, or its first bytes do and the write fails. A write to a closed
handle does nothing. -/
def write (batch : List Entry) (failedAfter : Option ℕ) : Live :=
  match live.handle with
  | none => live
  | some inode =>
    if live.failing then live
    else
      let bytes := codec.marshalBatch batch
      let content := live.files.content inode
      match failedAfter with
      | none =>
        { live with
          files := live.files.setContent inode (content ++ bytes)
          fileSize := live.fileSize + bytes.length }
      | some count =>
        { live with
          files := live.files.setContent inode (content ++ bytes.take count)
          failing := true }

/-- The file is cut back to its last known good size, unless the truncate fails. -/
def rollback (truncateOk : Bool) : Live :=
  match live.handle with
  | none => live
  | some inode =>
    if !live.failing then live
    else if truncateOk then
      { live with
        files := live.files.setContent inode (truncateFile live.fileSize (live.files.content inode))
        failing := false }
    else { live with failing := false }

/-- The last step of `ensureWAL`. -/
def openFile (hour : Int64) (inode : ℕ) (openOk : Bool) : Live :=
  if openOk then { live with handle := some inode, segmentHour := hour } else live

/-- `ensureWAL`, after the file of the writer was closed; `Append` does not hold the lock then. -/
def ensureWAL (hour : Int64) (faults : OpenFaults) : Live :=
  if live.failing || live.handle.isSome || !faults.mkdirOk then live
  else
    match live.files.inodeAt (.active hour) with
    | none =>
      if faults.openOk then
        { live with
          files := (live.files.setContent live.nextInode []).setInode (.active hour) (some live.nextInode)
          nextInode := live.nextInode + 1
          handle := some live.nextInode
          segmentHour := hour
          fileSize := 0 }
      else { live with fileSize := 0 }
    | some inode =>
      if !faults.statOk then
        -- taken for a missing file, and opened behind its bytes
        { live with fileSize := 0 }.openFile hour inode faults.openOk
      else
        let content := live.files.content inode
        let torn := !faults.readOk || (scanWAL codec.zstd content).error.isSome
        if torn && !faults.truncateOk then live
        else
          let readable := if faults.readOk then content else []
          let opened := openWAL codec.zstd hour readable newRingBuffer
          { live with
            files := live.files.setContent inode opened.file
            fileSize := opened.offsets.fileSize }.openFile hour inode faults.openOk

/-- A query of one WAL file: the entries it visits. -/
def query (path : WalPath) : WalCache WalPath × List Entry :=
  live.cache.forEach codec.zstd budget live.files path

def step : FileEvent → Live
  | .write batch failedAfter => live.write codec batch failedAfter
  | .rollback truncateOk => live.rollback truncateOk
  | .close => if live.failing then live else { live with handle := none }
  | .renameForSealing =>
    { live with files := live.files.rename (.active live.segmentHour) (.sealing live.segmentHour) }
  | .removeEmpty =>
    match live.files.inodeAt (.active live.segmentHour) with
    | none => live
    | some inode =>
      if live.files.content inode = [] then
        { live with files := live.files.setInode (.active live.segmentHour) none }
      else live
  | .ensureWAL hour faults => live.ensureWAL codec hour faults
  | .removeSealed hour => { live with files := live.files.setInode (.sealing hour) none }
  | .quarantine hour => { live with files := live.files.rename (.sealing hour) (.corrupt hour) }
  | .forget path => { live with cache := live.cache.remove path }
  | .query path => { live with cache := (live.query codec budget path).1 }

def run (events : List FileEvent) : Live := events.foldl (step codec budget) live

/-- A step after which no file is cut below what a query has parsed of it. -/
def Calm : FileEvent → Prop
  | .query path =>
    -- while a batch waits for its rollback, parsing the file finds no whole record of the batch
    live.failing = true → ∀ inode ∈ live.handle, live.files.inodeAt path = some inode →
      (readEntriesFrom codec.zstd (live.files.content inode)).consumed ≤ live.fileSize
  | .rollback truncateOk =>
    truncateOk = true ∨ ∀ inode ∈ live.handle, (live.files.content inode).length = live.fileSize
  | .ensureWAL hour faults =>
    ∀ inode ∈ live.files.inodeAt (.active hour), faults.statOk = true ∧
      (faults.readOk = true ∨ ∀ held ∈ live.cache.files, held.2.inode ≠ inode)
  | _ => True

end

instance (live : Live) : (event : FileEvent) → Decidable (live.Calm codec event)
  | .query _ => inferInstanceAs (Decidable (_ → ∀ inode ∈ _, _ → _))
  | .rollback _ => inferInstanceAs (Decidable (_ ∨ ∀ inode ∈ _, _))
  | .ensureWAL _ _ => inferInstanceAs (Decidable (∀ inode ∈ _, _ ∧ (_ ∨ ∀ held ∈ _, _)))
  | .write _ _ | .close | .renameForSealing | .removeEmpty | .removeSealed _ | .quarantine _
  | .forget _ => isTrue trivial

/-- Every step of the run is calm. -/
def CalmRun (live : Live) : List FileEvent → Prop
  | [] => True
  | event :: events => live.Calm codec event ∧ CalmRun (live.step codec budget event) events

instance decidableCalmRun (live : Live) : (events : List FileEvent) →
    Decidable (live.CalmRun codec budget events)
  | [] => isTrue trivial
  | event :: events =>
    have := decidableCalmRun (live.step codec budget event) events
    inferInstanceAs (Decidable (live.Calm codec event ∧ _))

end Steps

/-! ### The steps of an append -/

/-- The open file and its known size are those of a writer between two calls. -/
structure Follows (live : Live) (writer : WALWriter) : Prop where
  file : ∃ inode, live.handle = some inode ∧ live.files.content inode = writer.file
  fileSize : live.fileSize = writer.offsets.fileSize
  failing : live.failing = false

/-- The file-system steps of a call of `Append` that writes. -/
def appendSteps (stamped : List Entry) (faults : Faults) : List FileEvent :=
  match faults.failedAfter with
  | none => [.write stamped none]
  | some count => [.write stamped (some count), .rollback faults.truncateOk]

variable {codec : Codec} (budget : CacheBudget) {live : Live} {writer : WALWriter}

theorem Follows.wrote (hlive : live.Follows writer) (stamped : List Entry) {offsets : Offsets}
    (hoffsets : offsets.fileSize = (writer.wrote codec stamped).offsets.fileSize) :
    (live.run codec budget [.write stamped none]).Follows
      { writer.wrote codec stamped with offsets := offsets } := by
  obtain ⟨⟨inode, hhandle, hfile⟩, hsize, hfailing⟩ := hlive
  constructor <;>
    simp [run, step, Live.write, hhandle, hfailing, hfile, hsize, hoffsets, WALWriter.wrote, Offsets.wrote]

theorem Follows.tore (hlive : live.Follows writer) (stamped : List Entry) (count : ℕ)
    (truncateOk : Bool) :
    (live.run codec budget [.write stamped (some count), .rollback truncateOk]).Follows
      (writer.tore codec stamped count truncateOk) := by
  obtain ⟨⟨inode, hhandle, hfile⟩, hsize, hfailing⟩ := hlive
  cases truncateOk <;>
    constructor <;>
    simp [run, step, Live.write, Live.rollback, hhandle, hfailing, hfile, hsize, WALWriter.tore,
      WALWriter.rollback, Offsets.rolledBack]

/-- What holds between two steps of a calm run. -/
structure Coherent (zstd : Zstd) (live : Live) : Prop where
  aligned : live.cache.Aligned zstd live.files
  named : live.files.Names (· < live.nextInode)
  held : ∀ held ∈ live.cache.files, held.2.inode < live.nextInode
  opened : ∀ inode, live.handle = some inode → inode < live.nextInode
  /-- The writer knows the size of its file, but for a batch that waits for its rollback. -/
  size : ∀ inode, live.handle = some inode → live.fileSize ≤ (live.files.content inode).length
  settled : live.failing = false → ∀ inode, live.handle = some inode →
    (live.files.content inode).length = live.fileSize
  /-- No query has parsed a record of the batch that waits. -/
  waiting : live.failing = true → ∀ inode, live.handle = some inode →
    ∀ held ∈ live.cache.files, held.2.inode = inode → held.2.offset ≤ live.fileSize

variable {codec : Codec} {budget : CacheBudget} {live : Live}

theorem coherent_start {zstd : Zstd} {files : Files WalPath} {nextInode : ℕ}
    (hnamed : files.Names (· < nextInode)) : (Live.start files nextInode).Coherent zstd where
  aligned := WalCache.aligned_newWALCache
  named := hnamed
  held := fun _ hheld ↦ by cases hheld
  opened := fun _ hhandle ↦ by cases hhandle
  size := fun _ hhandle ↦ by cases hhandle
  settled := fun _ _ hhandle ↦ by cases hhandle
  waiting := fun hfailing ↦ by cases hfailing

/-- What a write can do. -/
theorem write_cases (codec : Codec) (live : Live) (batch : List Entry) (failedAfter : Option ℕ) :
    live.write codec batch failedAfter = live ∨
      ∃ inode, live.handle = some inode ∧ live.failing = false ∧
        (live.write codec batch failedAfter = { live with
              files := live.files.setContent inode
                (live.files.content inode ++ codec.marshalBatch batch)
              fileSize := live.fileSize + (codec.marshalBatch batch).length } ∨
          ∃ count, live.write codec batch failedAfter = { live with
              files := live.files.setContent inode
                (live.files.content inode ++ (codec.marshalBatch batch).take count)
              failing := true }) := by
  cases hhandle : live.handle with
  | none => exact .inl (by simp [Live.write, hhandle])
  | some inode =>
    cases hfailing : live.failing with
    | true => exact .inl (by simp [Live.write, hhandle, hfailing])
    | false =>
      refine .inr ⟨inode, rfl, rfl, ?_⟩
      cases failedAfter with
      | none => exact .inl (by simp [Live.write, hhandle, hfailing])
      | some count => exact .inr ⟨count, by simp [Live.write, hhandle, hfailing]⟩

/-- What a rollback can do. -/
theorem rollback_cases (live : Live) (truncateOk : Bool) : live.rollback truncateOk = live ∨
      ∃ inode, live.handle = some inode ∧ live.failing = true ∧
        ((truncateOk = true ∧ live.rollback truncateOk = { live with
              files := live.files.setContent inode
                (truncateFile live.fileSize (live.files.content inode))
              failing := false }) ∨
          (truncateOk = false ∧ live.rollback truncateOk = { live with failing := false })) := by
  cases hhandle : live.handle with
  | none => exact .inl (by simp [Live.rollback, hhandle])
  | some inode =>
    cases hfailing : live.failing with
    | false => exact .inl (by simp [Live.rollback, hhandle, hfailing])
    | true =>
      refine .inr ⟨inode, rfl, rfl, ?_⟩
      cases truncateOk with
      | true => exact .inl ⟨rfl, by simp [Live.rollback, hhandle, hfailing]⟩
      | false => exact .inr ⟨rfl, by simp [Live.rollback, hhandle, hfailing]⟩

namespace Coherent

variable {zstd : Zstd} {inode : ℕ} {fileSize : ℕ}

/-- Names may change in any way that names no file that was never created. -/
theorem setFiles (hlive : live.Coherent zstd) {files : Files WalPath}
    (hcontent : files.content = live.files.content) (hnamed : files.Names (· < live.nextInode)) :
    ({ live with files := files } : Live).Coherent zstd where
  aligned := by
    intro held hheld
    unfold WalCacheFile.Aligned
    rw [hcontent]
    exact hlive.aligned held hheld
  named := hnamed
  held := hlive.held
  opened := hlive.opened
  size := fun inode hhandle ↦ by
    rw [hcontent]
    exact hlive.size inode hhandle
  settled := fun hfailing inode hhandle ↦ by
    rw [hcontent]
    exact hlive.settled hfailing inode hhandle
  waiting := hlive.waiting

/-- The open file is rewritten. -/
theorem setContent (hlive : live.Coherent zstd) {bytes : Bytes} {failing : Bool}
    (hhandle : live.handle = some inode)
    (haligned : live.cache.Aligned zstd (live.files.setContent inode bytes))
    (hsize : fileSize ≤ bytes.length) (hsettled : failing = false → bytes.length = fileSize)
    (hwaiting : failing = true → ∀ held ∈ live.cache.files, held.2.inode = inode → held.2.offset ≤ fileSize) :
    ({ live with files := live.files.setContent inode bytes, fileSize := fileSize,
                 failing := failing } : Live).Coherent zstd := by
  have hsame : ∀ {other}, live.handle = some other → other = inode := by
    intro other hother
    exact Option.some.inj (hother.symm.trans hhandle)
  refine ⟨haligned, hlive.named, hlive.held, hlive.opened, ?_, ?_, ?_⟩
  · intro other hother
    rw [hsame hother, Files.content_setContent_self]
    exact hsize
  · intro hdone other hother
    rw [hsame hother, Files.content_setContent_self]
    exact hsettled hdone
  · intro hwaits other hother
    rw [hsame hother]
    exact hwaiting hwaits

theorem write (hlive : live.Coherent codec.zstd) (batch : List Entry) (failedAfter : Option ℕ) :
    (live.write codec batch failedAfter).Coherent codec.zstd := by
  rcases write_cases codec live batch failedAfter with hwrite | ⟨inode, hhandle, hdone, hwrite⟩
  · rw [hwrite]
    exact hlive
  have hsettled := hlive.settled hdone inode hhandle
  have hoffsets : ∀ held ∈ live.cache.files, held.2.inode = inode →
      held.2.offset ≤ (live.files.content inode).length :=
    fun held hheld hinode ↦ hinode ▸ (hlive.aligned held hheld).1
  have hgrown : ∀ bytes : Bytes, live.cache.Aligned codec.zstd
      (live.files.setContent inode (live.files.content inode ++ bytes)) := by
    intro bytes
    refine hlive.aligned.setContent fun held hheld hinode ↦ ?_
    have hoffset := hoffsets held hheld hinode
    refine ⟨?_, take_append_of_le_length hoffset⟩
    rw [length_append]
    omega
  rcases hwrite with hwhole | ⟨count, htorn⟩
  · have hlength : (live.files.content inode ++ codec.marshalBatch batch).length =
        live.fileSize + (codec.marshalBatch batch).length := by
      rw [length_append, hsettled]
    rw [hwhole]
    refine hlive.setContent hhandle (hgrown _) hlength.ge (fun _ ↦ hlength) fun hwaits ↦ ?_
    rw [hdone] at hwaits
    cases hwaits
  · rw [htorn]
    refine hlive.setContent hhandle (hgrown _) ?_ (fun hnone ↦ by cases hnone) fun _ ↦ ?_
    · rw [length_append, hsettled]
      exact Nat.le_add_right _ _
    · rwa [← hsettled]

theorem rollback (hlive : live.Coherent codec.zstd) {truncateOk : Bool}
    (hcalm : live.Calm codec (.rollback truncateOk)) :
    (live.rollback truncateOk).Coherent codec.zstd := by
  rcases rollback_cases live truncateOk with
    hrollback | ⟨inode, hhandle, hfailing, ⟨-, hcut⟩ | ⟨hstuck, hkept⟩⟩
  · rw [hrollback]
    exact hlive
  · -- the held offsets lie below the size the file is cut back to
    have hsize := hlive.size inode hhandle
    have htake : truncateFile live.fileSize (live.files.content inode) =
        (live.files.content inode).take live.fileSize := by
      simp [truncateFile, Nat.sub_eq_zero_of_le hsize]
    have hlength : ((live.files.content inode).take live.fileSize).length = live.fileSize := by
      rw [length_take, min_eq_left hsize]
    rw [hcut, htake]
    exact hlive.setContent hhandle (hlive.aligned.cut (hlive.waiting hfailing inode hhandle))
      hlength.ge (fun _ ↦ hlength) fun hnone ↦ by cases hnone
  · have hnothing := hcalm.resolve_left (by simp [hstuck])
    rw [hkept]
    exact { hlive with
      settled := fun _ ↦ hnothing
      waiting := fun hnone ↦ by cases hnone }

/-- Nothing is open. -/
theorem closed (hlive : live.Coherent zstd) (hhandle : live.handle = none) {failing : Bool} :
    ({ live with fileSize := fileSize, failing := failing } : Live).Coherent zstd :=
  { hlive with
    size := by simp [hhandle]
    settled := by simp [hhandle]
    waiting := by simp [hhandle] }

theorem close (hlive : live.Coherent codec.zstd) :
    (live.step codec budget .close).Coherent codec.zstd := by
  simp only [Live.step]
  split_ifs
  · exact hlive
  · exact { hlive with
      opened := by simp
      size := by simp
      settled := by simp
      waiting := by simp }

/-- Opening a file whose size is known, after the last one was closed. -/
theorem openFile (hlive : live.Coherent zstd) (hfailing : live.failing = false) {hour : Int64}
    (hinode : inode < live.nextInode) (hsize : (live.files.content inode).length = live.fileSize)
    (openOk : Bool) : (live.openFile hour inode openOk).Coherent zstd := by
  unfold Live.openFile
  split_ifs
  · refine ⟨hlive.aligned, hlive.named, hlive.held, ?_, ?_, ?_, ?_⟩
    · rintro other ⟨rfl⟩
      exact hinode
    · rintro other ⟨rfl⟩
      exact hsize.ge
    · rintro - other ⟨rfl⟩
      exact hsize
    · intro hwaits
      rw [hfailing] at hwaits
      cases hwaits
  · exact hlive

/-- The bytes of a file change while nothing is open. -/
theorem setContent_closed (hlive : live.Coherent zstd) (hhandle : live.handle = none)
    {bytes : Bytes} (haligned : live.cache.Aligned zstd (live.files.setContent inode bytes)) :
    ({ live with files := live.files.setContent inode bytes, fileSize := fileSize } : Live).Coherent
      zstd :=
  { hlive with
    aligned := haligned
    size := by simp [hhandle]
    settled := by simp [hhandle]
    waiting := by simp [hhandle] }

/-- A file that is opened again is cut where its replay ended, behind what queries have parsed, or, if
it could not be read and no query has read it, emptied. -/
theorem aligned_reopened (hlive : live.Coherent codec.zstd) (hour : Int64) {readOk : Bool}
    (hread : readOk = true ∨ ∀ held ∈ live.cache.files, held.2.inode ≠ inode) :
    live.cache.Aligned codec.zstd (live.files.setContent inode
      (openWAL codec.zstd hour (if readOk then live.files.content inode else []) newRingBuffer).file) := by
  rcases hread with rfl | hunread
  · rw [openWAL_file]
    exact hlive.aligned.cut fun held hheld hinode ↦
      (hinode ▸ hlive.aligned.offset_le_consumed hheld).trans (consumed_readEntriesFrom_le _ _)
  · exact hlive.aligned.setContent fun held hheld hinode ↦ absurd hinode (hunread held hheld)

/-- A file that does not exist is created under a number no file had. -/
theorem created (hlive : live.Coherent zstd) (hfailing : live.failing = false) (hour : Int64) :
    ({ live with
        files := (live.files.setContent live.nextInode []).setInode (.active hour) (some live.nextInode)
        nextInode := live.nextInode + 1
        handle := some live.nextInode
        segmentHour := hour
        fileSize := 0 } : Live).Coherent zstd where
  aligned := hlive.aligned.setContent fun held hheld hinode ↦
    absurd hinode (hlive.held held hheld).ne
  named := by
    refine Files.Names.setInode (fun path inode hinode ↦ ?_) ?_ _
    · exact (hlive.named path inode hinode).trans (Nat.lt_succ_self _)
    · rintro other ⟨rfl⟩
      exact Nat.lt_succ_self _
  held := fun held hheld ↦ (hlive.held held hheld).trans (Nat.lt_succ_self _)
  opened := by
    rintro inode ⟨rfl⟩
    exact Nat.lt_succ_self _
  size := fun _ _ ↦ Nat.zero_le _
  settled := by
    simp
  waiting := by simp [hfailing]

section

variable (hlive : live.Coherent codec.zstd)

include hlive

theorem ensureWAL {hour : Int64} {faults : OpenFaults}
    (hcalm : live.Calm codec (.ensureWAL hour faults)) :
    (live.ensureWAL codec hour faults).Coherent codec.zstd := by
  unfold Live.ensureWAL
  by_cases hbusy : (live.failing || live.handle.isSome || !faults.mkdirOk) = true
  · rw [if_pos hbusy]
    exact hlive
  rw [if_neg hbusy]
  simp only [Bool.or_eq_true, not_or, Bool.not_eq_true, Option.isSome_eq_false_iff,
    Option.isNone_iff_eq_none] at hbusy
  obtain ⟨⟨hfailing, hhandle⟩, -⟩ := hbusy
  split
  · split_ifs
    · exact hlive.created hfailing hour
    · exact hlive.closed hhandle
  · next inode hinode =>
    obtain ⟨hstat, hread⟩ := hcalm inode hinode
    simp only [hstat]
    by_cases hstuck : ((!faults.readOk ||
        (scanWAL codec.zstd (live.files.content inode)).error.isSome) && !faults.truncateOk) = true
    · rw [if_pos hstuck]
      exact hlive
    · rw [if_neg hstuck]
      exact (hlive.setContent_closed hhandle (hlive.aligned_reopened hour hread)).openFile hfailing
        (hlive.named _ inode hinode) (by rw [Files.content_setContent_self, length_openWAL_file]) _

theorem query {path : WalPath} (hcalm : live.Calm codec (.query path)) :
    (live.step codec budget (.query path)).Coherent codec.zstd := by
  have haligned := (WalCache.forEach_eq budget hlive.aligned path).1
  refine { hlive with aligned := haligned, held := ?_, waiting := ?_ }
  · intro held hheld
    rcases WalCache.inode_forEach budget hlive.aligned hheld with hold | hnamed
    · exact hlive.held held hold
    · exact hlive.named path _ hnamed
  · intro hfailing inode hhandle held hheld hinode
    rcases WalCache.inode_forEach budget hlive.aligned hheld with hold | hnamed
    · exact hlive.waiting hfailing inode hhandle held hold hinode
    · -- the query parsed the writer's own file, but no further than its last known good size
      have hparsed := haligned.offset_le_consumed hheld
      rw [hinode] at hparsed hnamed
      exact hparsed.trans (hcalm hfailing inode hhandle hnamed)

/-- A calm step keeps the invariant. -/
theorem step {event : FileEvent} (hcalm : live.Calm codec event) :
    (live.step codec budget event).Coherent codec.zstd := by
  cases event with
  | write batch failedAfter => exact hlive.write batch failedAfter
  | rollback truncateOk => exact hlive.rollback hcalm
  | close => exact hlive.close
  | renameForSealing => exact hlive.setFiles (by simp) (hlive.named.rename _ _)
  | removeEmpty =>
    simp only [Live.step]
    split
    · exact hlive
    · split_ifs
      · exact hlive.setFiles rfl (hlive.named.setInode (fun _ hnone ↦ by cases hnone) _)
      · exact hlive
  | ensureWAL hour faults => exact hlive.ensureWAL hcalm
  | removeSealed hour =>
    exact hlive.setFiles rfl (hlive.named.setInode (fun _ hnone ↦ by cases hnone) _)
  | quarantine hour => exact hlive.setFiles (by simp) (hlive.named.rename _ _)
  | forget path =>
    have hkept := live.cache.remove_subset path
    exact { hlive with
      aligned := hlive.aligned.remove path
      held := fun held hheld ↦ hlive.held held (hkept hheld)
      waiting := fun hfailing inode hhandle held hheld ↦
        hlive.waiting hfailing inode hhandle held (hkept hheld) }
  | query path => exact hlive.query hcalm

theorem run {events : List FileEvent} (hcalm : live.CalmRun codec budget events) :
    (live.run codec budget events).Coherent codec.zstd := by
  induction events generalizing live with
  | nil => exact hlive
  | cons event events ih => exact ih (hlive.step hcalm.1) hcalm.2

end

end Coherent

/-! ### Queries -/

/-- After a calm run over any data directory, a query visits exactly the entries that parsing the named
file from its first byte gives, in the same order. Assumes: `nextInode` is no file's number, and no step
of the run cuts a file below what a query has parsed of it. -/
theorem query_after_calm_run (codec : Codec) (budget : CacheBudget) {files : Files WalPath}
    {nextInode : ℕ} (hnamed : files.Names (· < nextInode)) {events : List FileEvent}
    (hcalm : (Live.start files nextInode).CalmRun codec budget events) (path : WalPath) :
    let live := (Live.start files nextInode).run codec budget events
    (live.query codec budget path).2 = WalCache.streamWALFile codec.zstd live.files path := by
  intro live
  have hlive : live.Coherent codec.zstd := (coherent_start hnamed).run hcalm
  exact (WalCache.forEach_eq budget hlive.aligned path).2

end Live

/-- A data directory without files. -/
def noFiles : Files WalPath := ⟨fun _ ↦ none, fun _ ↦ []⟩

def sampleRecord (message : String) : Bytes := rawCodec.marshalBatch [sampleEntry message]

/-- A batch is torn within its first record while a query looks, and rolled back; the hour is then
rotated, sealed and forgotten while queries go on. -/
theorem query_after_calm_run_witness : let path := WalPath.active 490000
    let events := [.ensureWAL 490000 noFaults.toOpenFaults, .write [sampleEntry "a"] none, .query path,
      .write [sampleEntry "b"] (some 7), .query path, .rollback true, .write [sampleEntry "c"] none,
      .query path, .close, .renameForSealing, .query (.sealing 490000),
      .ensureWAL 490001 noFaults.toOpenFaults, .write [sampleEntry "d"] none, .removeSealed 490000,
      .forget (.sealing 490000)]
    let live := (Live.start noFiles 0).run rawCodec sampleBudget events
    (live.query rawCodec sampleBudget (.active 490001)).2 =
        WalCache.streamWALFile rawCodec.zstd live.files (.active 490001) ∧
      WalCache.streamWALFile rawCodec.zstd live.files (.active 490001) = [sampleEntry "d"] :=
  ⟨Live.query_after_calm_run rawCodec sampleBudget (fun _ _ hnone ↦ by cases hnone) (by decide +kernel) _,
    by decide +kernel⟩

/-! ### Runs that are not calm -/

/-- A query sees the first record of a batch whose write stops in the second. The batch is rolled back,
and the next batch grows over the place of that record. The cache keeps the record, which no file
holds, and hides the one written in its place. -/
theorem rolled_back_record_stays : let path := WalPath.active 490000
    let events := [.ensureWAL 490000 noFaults.toOpenFaults,
      .write [sampleEntry "a", sampleEntry "b"] (some ((sampleRecord "a").length + 3)), .query path,
      .rollback true, .write [sampleEntry "c"] none]
    let live := (Live.start noFiles 0).run rawCodec sampleBudget events
    (live.query rawCodec sampleBudget path).2 = [sampleEntry "a"] ∧
      WalCache.streamWALFile rawCodec.zstd live.files path = [sampleEntry "c"] := by
  decide +kernel

/-- No query looks while a batch waits. The first record of a batch stays in the file because its
rollback fails, so the writer takes the file for shorter than it is, and the rollback of a later batch
cuts it below what a query has parsed. -/
theorem failed_truncate_goes_stale : let path := WalPath.active 490000
    let torn := [.ensureWAL 490000 noFaults.toOpenFaults,
      .write [sampleEntry "a", sampleEntry "b"] (some (sampleRecord "a").length), .rollback false]
    let events := torn ++ [.write [sampleEntry "c"] none, .query path, .write [sampleEntry "d"] (some 7),
      .rollback true, .write [sampleEntry "e"] none]
    let live := (Live.start noFiles 0).run rawCodec sampleBudget events
    (live.query rawCodec sampleBudget path).2 = [sampleEntry "a", sampleEntry "c"] ∧
      WalCache.streamWALFile rawCodec.zstd live.files path = [sampleEntry "a", sampleEntry "e"] := by
  decide +kernel

end Coherence

end OpenTrace.Engine
