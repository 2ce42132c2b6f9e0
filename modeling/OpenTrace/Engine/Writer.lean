import OpenTrace.Engine.Id
import OpenTrace.Engine.Ring
import OpenTrace.Engine.WalCache

/-!
# Appending to the WAL

`engine/writer.go`: opening the WAL of an hour, and `Append` with every way its write, its rollback
and its fsync can go. The environment decides in `Faults` how the file-system steps of a call end.

`Appended` lists the ways a call can end, and `appended_append` says that there are no others.
-/

namespace OpenTrace.Engine

open Library Encoding Chunk Wal

/-! ### Offsets -/

/-- The writer's offsets into its file. -/
structure Offsets where
  /-- Last known good size of the file. -/
  fileSize : ℕ
  /-- Mirror of `fileSize` for a goroutine in the fsync phase. -/
  writtenBytes : ℕ
  /-- Offset a group commit has made durable. -/
  syncedBytes : ℕ
  /-- Bytes that readers may rely on. -/
  validBytes : ℕ
  deriving DecidableEq, Repr

/-- The offsets after a file of this many valid bytes is opened. -/
def Offsets.opened (size : ℕ) : Offsets := ⟨size, size, size, size⟩

section

variable (offsets : Offsets)

/-- The offsets after a write that ended at `size`. -/
def Offsets.wrote (size : ℕ) : Offsets := { offsets with fileSize := size, writtenBytes := size }

/-- The offsets after an fsync that covered the bytes below `covered`. -/
def Offsets.synced (covered : ℕ) : Offsets :=
  if offsets.syncedBytes < covered then
    { offsets with syncedBytes := covered, validBytes := covered }
  else offsets

/-- The offsets after the file was truncated to `offset`. -/
def Offsets.rolledBack (offset : ℕ) : Offsets where
  fileSize := offset
  writtenBytes := offset
  syncedBytes := min offsets.syncedBytes offset
  validBytes := offset

/-- `syncThrough` when no other goroutine interferes: the offsets, and whether it succeeded. -/
def Offsets.syncThrough (target : ℕ) (syncOk : Bool) : Offsets × Bool :=
  if target ≤ offsets.syncedBytes then (offsets, true)
  else if syncOk then (offsets.synced offsets.writtenBytes, true)
  else (offsets, false)

end

/-! ### The writer -/

structure WALWriter where
  segmentHour : Int64
  /-- The bytes of the open file. -/
  file : Bytes
  entryCount : ℕ
  offsets : Offsets
  ring : RingBuffer

/-- `Truncate`: a shorter file is extended with zeros. -/
def truncateFile (size : ℕ) (file : Bytes) : Bytes :=
  file.take size ++ List.replicate (size - file.length) 0

/-- `ensureWAL` on a file with the given bytes: the records are counted and a torn tail is cut. -/
def openWAL (zstd : Zstd) (segmentHour : Int64) (content : Bytes) (ring : RingBuffer) : WALWriter :=
  let replay := scanWAL zstd content
  { segmentHour := segmentHour
    file := if replay.error.isSome then truncateFile replay.consumed content else content
    entryCount := replay.entries.length
    offsets := Offsets.opened replay.consumed
    ring := ring }

/-- How the file-system steps of one `Append` end. -/
structure Faults where
  /-- Nothing when the whole batch was written, or the number of bytes after which the write
  stopped and failed. -/
  failedAfter : Option ℕ
  truncateOk : Bool
  syncOk : Bool

inductive AppendError
  | segmentFull
  | writeEntry
  | fsync
  deriving DecidableEq, Repr

/-- The IDs and receive times of a batch. -/
def stamp (segmentHour : Int64) (startIdx : ℕ) (receivedAt : Int64) (entries : List Entry) :
    List Entry :=
  entries.mapIdx fun index entry ↦
    { entry with id := idForPosition segmentHour (startIdx + index), receivedAt := receivedAt }

/-- The entry as the tail shows it: what the record stores, if the record or the body is large. -/
def normalizeForRing (codec : Codec) (entry : Entry) : Entry :=
  if (codec.marshalEntry entry).length < maxFieldBytes ∧ entry.body.length < maxFieldBytes then entry
  else
    match unmarshalEntry codec.zstd ((codec.marshalEntry entry).drop 4) with
    | .ok stored => stored
    | .error _ => entry

/-- `rollback`: a failed truncate leaves everything as it is. The fsync that follows a successful one
is only logged when it fails. -/
def WALWriter.rollback (writer : WALWriter) (offset : ℕ) (truncateOk : Bool) : WALWriter :=
  if truncateOk then
    { writer with
      file := truncateFile offset writer.file
      offsets := writer.offsets.rolledBack offset }
  else writer

section

variable (codec : Codec) (writer : WALWriter)

/-- The writer after the whole batch was written: the offsets and the count advance and the tail is
notified, before the fsync. -/
def WALWriter.wrote (stamped : List Entry) : WALWriter :=
  let batch := codec.marshalBatch stamped
  { writer with
    file := writer.file ++ batch
    offsets := writer.offsets.wrote (writer.offsets.fileSize + batch.length)
    entryCount := writer.entryCount + stamped.length
    ring := writer.ring.push (stamped.map (normalizeForRing codec)) }

/-- The writer after the write stopped and failed after `count` bytes. -/
def WALWriter.tore (stamped : List Entry) (count : ℕ)
    (truncateOk : Bool) : WALWriter :=
  let torn := { writer with file := writer.file ++ (codec.marshalBatch stamped).take count }
  torn.rollback writer.offsets.fileSize truncateOk

/-- The fsync phase of a call: the writer, and what the call returns. -/
def WALWriter.commit (stamped : List Entry) (syncOk : Bool) :
    WALWriter × Except AppendError (List Entry) :=
  let (offsets, synced) := writer.offsets.syncThrough writer.offsets.fileSize syncOk
  ({ writer with offsets := offsets },
    if synced then .ok (stamped.map (normalizeForRing codec)) else .error .fsync)

def WALWriter.append (entries : List Entry)
    (receivedAt : Int64) (faults : Faults) : WALWriter × Except AppendError (List Entry) :=
  if entries = [] then (writer, .ok [])
  else if !segmentHasRoom writer.entryCount entries.length then (writer, .error .segmentFull)
  else
    let stamped := stamp writer.segmentHour writer.entryCount receivedAt entries
    match faults.failedAfter with
    | some count => (writer.tore codec stamped count faults.truncateOk, .error .writeEntry)
    | none => (writer.wrote codec stamped).commit codec stamped faults.syncOk

end

/-! ### What one call can do -/

theorem length_stamp (segmentHour : Int64) (startIdx : ℕ) (receivedAt : Int64)
    (entries : List Entry) :
    (stamp segmentHour startIdx receivedAt entries).length = entries.length := by
  simp [stamp]

theorem storable_of_mem_stamp {segmentHour : Int64} {startIdx : ℕ} {receivedAt : Int64}
    {entries : List Entry} (hstorable : ∀ entry ∈ entries, Storable entry) :
    ∀ entry ∈ stamp segmentHour startIdx receivedAt entries, Storable entry := by
  intro entry hentry
  obtain ⟨index, hindex, rfl⟩ := List.mem_mapIdx.mp hentry
  exact hstorable entries[index] (List.getElem_mem hindex)

/-- The ways a call of `Append` can end. -/
inductive Appended (codec : Codec) (writer : WALWriter) (stamped : List Entry) (faults : Faults) :
    WALWriter → Except AppendError (List Entry) → Prop
  | empty (hempty : stamped = []) : Appended codec writer stamped faults writer (.ok [])
  | full : Appended codec writer stamped faults writer (.error .segmentFull)
  | failed (count : ℕ) (hfailed : faults.failedAfter = some count) :
      Appended codec writer stamped faults (writer.tore codec stamped count faults.truncateOk)
        (.error .writeEntry)
  | synced (offsets : Offsets) (hwritten : faults.failedAfter = none)
      (hsize : offsets.fileSize = (writer.wrote codec stamped).offsets.fileSize) :
      Appended codec writer stamped faults { writer.wrote codec stamped with offsets := offsets }
        (.ok (stamped.map (normalizeForRing codec)))
  | unsynced (offsets : Offsets) (hwritten : faults.failedAfter = none)
      (hsync : faults.syncOk = false)
      (hsize : offsets.fileSize = (writer.wrote codec stamped).offsets.fileSize) :
      Appended codec writer stamped faults { writer.wrote codec stamped with offsets := offsets }
        (.error .fsync)

theorem Offsets.syncThrough_spec (offsets : Offsets) (target : ℕ) (syncOk : Bool) :
    (offsets.syncThrough target syncOk).1.fileSize = offsets.fileSize ∧
      ((offsets.syncThrough target syncOk).2 = false → syncOk = false) := by
  unfold syncThrough Offsets.synced
  split_ifs <;> simp_all

theorem appended_append (codec : Codec) (writer : WALWriter) (entries : List Entry)
    (receivedAt : Int64) (faults : Faults) :
    Appended codec writer (stamp writer.segmentHour writer.entryCount receivedAt entries) faults
      (writer.append codec entries receivedAt faults).1
      (writer.append codec entries receivedAt faults).2 := by
  unfold WALWriter.append
  split_ifs with hempty hroom
  · exact .empty (by simp [hempty, stamp])
  · exact .full
  · cases hfailed : faults.failedAfter with
    | some count => exact .failed count hfailed
    | none =>
      generalize stamp writer.segmentHour writer.entryCount receivedAt entries = stamped
      obtain ⟨hsize, hsync⟩ := Offsets.syncThrough_spec (writer.wrote codec stamped).offsets
        (writer.wrote codec stamped).offsets.fileSize faults.syncOk
      unfold WALWriter.commit
      cases hresult : ((writer.wrote codec stamped).offsets.syncThrough
        (writer.wrote codec stamped).offsets.fileSize faults.syncOk).2 with
      | true =>
        simp only [hresult]
        exact .synced _ hfailed hsize
      | false =>
        simp only [hresult]
        exact .unsynced _ hfailed (hsync hresult) hsize

end OpenTrace.Engine
