import OpenTrace.Engine.Session

/-!
# Appends and rotations

`engine/writer.go`: one writer over the hourly directories of a data directory, with `NewWALWriter`,
`Append`, `Rotate`, and what they do to the files of an hour (`ensureWAL`, `advanceEmpty`, `rotate`).
Every call has its own clock reading, and the environment decides which file operations fail. Between
the calls the directories may change in any way, as they do when a sealer works on them.

A rotation that succeeds leads to a later hour and one that fails leaves the file closed, so the
positions at which entries are stored only grow (`AtOrAfter.of_step`), and with them the IDs
(`ids_increase`).
-/

namespace OpenTrace.Engine.Rotation

open Library Encoding Chunk Wal List Option

/-! ### The data directory -/

/-- What the writer reads of the directory of an hour. -/
structure HourDir where
  /-- The bytes of `active.wal`, if it exists. -/
  active : Option Bytes
  /-- `IsSealComplete` -/
  sealComplete : Bool

abbrev DataDir := Int64 → HourDir

def DataDir.setActive (dirs : DataDir) (hour : Int64) (active : Option Bytes) : DataDir :=
  fun other ↦ if other = hour then { dirs hour with active := active } else dirs other

/-- `SegmentHourFromTime`, of the seconds since the epoch. -/
def segmentHourFromTime (unix : Int64) : Int64 := unix / 3600

def maxSealedHourProbe : ℕ := 24 * 365

/-- The loop of `freeSegmentHour`, for so many more hours. -/
def probeHours (dirs : DataDir) : ℕ → Int64 → Option Int64
  | 0, _ => none
  | steps + 1, hour =>
    if (dirs hour).sealComplete then probeHours dirs steps (hour + 1) else some hour

/-- `freeSegmentHour`: no hour is tried if the bound of the loop overflows. -/
def freeSegmentHour (dirs : DataDir) (start : Int64) : Option Int64 :=
  if start < start + Int64.ofNat maxSealedHourProbe then probeHours dirs maxSealedHourProbe start
  else none

/-! ### The writer and its files -/

/-- The writer with the data directory. A closed handle stays in place, and every write to it fails. -/
structure HourlyWriter where
  writer : WALWriter
  isOpen : Bool
  dirs : DataDir

/-- Which file operations of `ensureWAL` succeed. -/
structure OpenFaults where
  mkdirOk : Bool
  statOk : Bool
  /-- `scanWAL` can open the file. -/
  readOk : Bool
  truncateOk : Bool
  openOk : Bool

structure RotateFaults extends OpenFaults where
  /-- The fsync before the handoff; an error is only logged. -/
  syncOk : Bool
  /-- `os.Stat` of the old file. -/
  oldStatOk : Bool
  renameOk : Bool
  removeOk : Bool

inductive RotateError
  | noFreeHour
  | rename
  | createDir
  | truncate
  | openFile
  deriving DecidableEq, Repr

/-- The last step of `ensureWAL`: the counters are those of the new file even if it cannot be opened. -/
def HourlyWriter.openFile (state : HourlyWriter) (opened : WALWriter) (openOk : Bool) :
    HourlyWriter × Option RotateError :=
  if openOk then ({ state with writer := opened, isOpen := true }, none)
  else
    ({ state with
        writer := { state.writer with entryCount := opened.entryCount, offsets := opened.offsets } },
      some .openFile)

def HourlyWriter.ensureWAL (zstd : Zstd) (state : HourlyWriter) (hour : Int64) (faults : OpenFaults) :
    HourlyWriter × Option RotateError :=
  let ring := state.writer.ring
  if !faults.mkdirOk then (state, some .createDir)
  else
    match (state.dirs hour).active with
    | none => state.openFile (openWAL zstd hour [] ring) faults.openOk
    | some content =>
      if !faults.statOk then
        -- taken for a missing file, and opened behind its bytes
        state.openFile { openWAL zstd hour [] ring with file := content } faults.openOk
      else
        let torn := !faults.readOk || (scanWAL zstd content).error.isSome
        if torn && !faults.truncateOk then (state, some .truncate)
        else
          let readable := if faults.readOk then content else []
          state.openFile (openWAL zstd hour readable ring) faults.openOk

/-- The handle is closed, and the file has the bytes that were written. -/
def HourlyWriter.close (state : HourlyWriter) : HourlyWriter :=
  if state.isOpen then
    { state with
      isOpen := false
      dirs := state.dirs.setActive state.writer.segmentHour (some state.writer.file) }
  else state

def HourlyWriter.flushBeforeHandoff (state : HourlyWriter) (syncOk : Bool) : HourlyWriter :=
  let offsets := state.writer.offsets
  let syncOk := syncOk && state.isOpen
  { state with
    writer := { state.writer with offsets := (offsets.syncThrough offsets.writtenBytes syncOk).1 } }

section

variable (zstd : Zstd) (state : HourlyWriter) (newHour : Int64) (faults : RotateFaults)

def HourlyWriter.advanceEmpty : HourlyWriter × Option RotateError :=
  let closed := state.close
  let oldHour := state.writer.segmentHour
  let removed := faults.oldStatOk && faults.removeOk && (closed.dirs oldHour).active == some []
  let swept :=
    if removed then { closed with dirs := closed.dirs.setActive oldHour none } else closed
  swept.ensureWAL zstd newHour faults.toOpenFaults

/-- `rotate`: the old file is renamed for the sealer. -/
def HourlyWriter.rotateTo : HourlyWriter × Option RotateError :=
  let closed := (state.flushBeforeHandoff faults.syncOk).close
  let oldHour := state.writer.segmentHour
  if faults.oldStatOk && (closed.dirs oldHour).active.isSome then
    if faults.renameOk then
      { closed with dirs := closed.dirs.setActive oldHour none }.ensureWAL zstd newHour
        faults.toOpenFaults
    else (closed, some .rename)
  else closed.ensureWAL zstd newHour faults.toOpenFaults

end

/-- The first hour that a rotation tries: also within one hour it goes on. -/
def rotationStart (sealHour nextHour : Int64) : Int64 :=
  if nextHour ≤ sealHour then sealHour + 1 else nextHour

/-- `Rotate`, at the given seconds of the clock. -/
def HourlyWriter.rotate (zstd : Zstd) (state : HourlyWriter) (now : Int64) (faults : RotateFaults) :
    HourlyWriter × Option RotateError :=
  let sealHour := state.writer.segmentHour
  let nextHour := segmentHourFromTime now
  if state.writer.entryCount = 0 then
    if sealHour < nextHour then state.advanceEmpty zstd nextHour faults else (state, none)
  else
    match freeSegmentHour state.dirs (rotationStart sealHour nextHour) with
    | none => (state, some .noFreeHour)
    | some hour => state.rotateTo zstd hour faults

/-- `Append`. A write to a closed handle fails at once, and so does the truncate after it. -/
def HourlyWriter.append (codec : Codec) (state : HourlyWriter) (entries : List Entry)
    (receivedAt : Int64) (faults : Faults) : HourlyWriter × Except AppendError (List Entry) :=
  let faults := if state.isOpen then faults else ⟨some 0, false, faults.syncOk⟩
  let (writer, result) := state.writer.append codec entries receivedAt faults
  ({ state with writer := writer }, result)

/-- The writer before it has a file. -/
def unopened (ring : RingBuffer) (dirs : DataDir) : HourlyWriter :=
  ⟨⟨0, [], 0, Offsets.opened 0, ring⟩, false, dirs⟩

def newWALWriter (zstd : Zstd) (ring : RingBuffer) (dirs : DataDir) (now : Int64)
    (faults : OpenFaults) : Option HourlyWriter :=
  (freeSegmentHour dirs (segmentHourFromTime now)).bind fun hour ↦
    let result := (unopened ring dirs).ensureWAL zstd hour faults
    if result.2 = none then some result.1 else none

/-! ### Runs -/

inductive Event
  | append (entries : List Entry) (receivedAt : Int64) (faults : Faults)
  | rotate (now : Int64) (faults : RotateFaults)
  /-- Others work on the directories. -/
  | change (dirs : DataDir)

/-- An entry of a successful `Append`, with the segment hour of the writer at that moment. -/
structure Assigned where
  segmentHour : Int64
  entry : Entry

def HourlyWriter.step (codec : Codec) (state : HourlyWriter) : Event → HourlyWriter × List Assigned
  | .append entries receivedAt faults =>
    ((state.append codec entries receivedAt faults).1,
      match (state.append codec entries receivedAt faults).2 with
      | .ok stored => stored.map (⟨state.writer.segmentHour, ·⟩)
      | .error _ => [])
  | .rotate now faults => ((state.rotate codec.zstd now faults).1, [])
  | .change dirs => ({ state with dirs := dirs }, [])

/-- The entries of all successful calls of a run, in order. -/
def HourlyWriter.run (codec : Codec) : HourlyWriter → List Event → List Assigned
  | _, [] => []
  | state, event :: events =>
    (state.step codec event).2 ++ HourlyWriter.run codec (state.step codec event).1 events

/-! ### Hours -/

/-- The next hour does not overflow. -/
def HourOk (hour : Int64) : Prop := hour.toInt + 1 < 2 ^ 63

theorem toInt_add_ofNat {hour : Int64} {count : ℕ} (hcount : count < 2 ^ 63)
    (hroom : hour.toInt + count < 2 ^ 63) : (hour + Int64.ofNat count).toInt = hour.toInt + count := by
  have hlow := hour.le_toInt
  rw [Int64.toInt_add, Int64.toInt_ofNat_of_lt hcount, Int.bmod_eq_of_le (by omega) (by omega)]

variable {hour : Int64} {dirs : DataDir} {state : HourlyWriter} (zstd : Zstd)
  (faults : RotateFaults) (codec : Codec)

theorem toInt_add_one (hhour : HourOk hour) : (hour + 1).toInt = hour.toInt + 1 :=
  @toInt_add_ofNat hour 1 (by decide) hhour

theorem probeHours_spec {steps : ℕ} {start hour : Int64} (hroom : start.toInt + steps < 2 ^ 63)
    (hprobe : probeHours dirs steps start = some hour) :
    start.toInt ≤ hour.toInt ∧ hour.toInt < start.toInt + steps := by
  induction steps generalizing start with
  | zero => cases hprobe
  | succ steps ih =>
    rw [probeHours] at hprobe
    split_ifs at hprobe
    · have hstart : HourOk start := by
        unfold HourOk
        omega
      have hnext := toInt_add_one hstart
      obtain ⟨hlow, hhigh⟩ := ih (by omega) hprobe
      omega
    · cases hprobe
      omega

theorem freeSegmentHour_spec {start hour : Int64} (hfree : freeSegmentHour dirs start = some hour) :
    start ≤ hour ∧ HourOk hour := by
  rw [freeSegmentHour] at hfree
  split_ifs at hfree with hbound
  have hroom : start.toInt + maxSealedHourProbe < 2 ^ 63 := by
    by_contra hover
    rw [Int64.lt_iff_toInt_lt, Int64.toInt_add, Int64.toInt_ofNat_of_lt (by decide), Int.bmod_def] at hbound
    unfold maxSealedHourProbe at hbound hover
    omega
  obtain ⟨hlow, hhigh⟩ := probeHours_spec hroom hfree
  refine ⟨Int64.le_iff_toInt_le.mpr hlow, ?_⟩
  unfold HourOk
  omega

theorem hourOk_segmentHourFromTime (now : Int64) : HourOk (segmentHourFromTime now) := by
  have hhigh := now.toInt_lt
  rw [HourOk, segmentHourFromTime, Int64.toInt_div_of_ne_right _ _ (by decide)]
  change now.toInt.tdiv 3600 + 1 < 2 ^ 63
  rcases le_total 0 now.toInt with hpos | hneg
  · rw [Int.tdiv_eq_ediv_of_nonneg hpos]
    omega
  · have hquotient : 0 ≤ (-now.toInt).tdiv 3600 := Int.tdiv_nonneg (by omega) (by decide)
    rw [Int.neg_tdiv] at hquotient
    omega

/-! ### One call -/

/-- The writer's hour has not gone back, and in the same hour an open file goes on where it was. -/
structure Moves (before after : HourlyWriter) : Prop where
  hourOk : HourOk after.writer.segmentHour
  moved : before.writer.segmentHour < after.writer.segmentHour ∨
    after.writer.segmentHour = before.writer.segmentHour ∧
      (after.isOpen = true → before.isOpen = true ∧ before.writer.entryCount ≤ after.writer.entryCount)

theorem Moves.refl (hhour : HourOk state.writer.segmentHour) : Moves state state :=
  ⟨hhour, .inr ⟨rfl, fun hopen ↦ ⟨hopen, le_rfl⟩⟩⟩

/-- A closed writer has been opened for the hour, or is still closed. -/
structure Reopened (state : HourlyWriter) (hour : Int64) (result : HourlyWriter × Option RotateError) :
    Prop where
  ok : result.2 = none → result.1.writer.segmentHour = hour ∧ result.1.isOpen = true
  failed : result.2 ≠ none →
    result.1.writer.segmentHour = state.writer.segmentHour ∧ result.1.isOpen = false

section Reopened

variable {state : HourlyWriter} (hclosed : state.isOpen = false) {hour : Int64}

include hclosed

theorem reopened_error (error : RotateError) : Reopened state hour (state, some error) :=
  ⟨fun hnone ↦ absurd hnone (some_ne_none error), fun _ ↦ ⟨rfl, hclosed⟩⟩

theorem reopened_openFile {opened : WALWriter} (hopened : opened.segmentHour = hour) (openOk : Bool) :
    Reopened state hour (state.openFile opened openOk) := by
  rw [HourlyWriter.openFile]
  split_ifs
  · exact ⟨fun _ ↦ ⟨hopened, rfl⟩, (absurd rfl)⟩
  · exact ⟨fun hnone ↦ absurd hnone (some_ne_none _), fun _ ↦ ⟨rfl, hclosed⟩⟩

theorem reopened_ensureWAL (zstd : Zstd) (faults : OpenFaults) :
    Reopened state hour (state.ensureWAL zstd hour faults) := by
  rw [HourlyWriter.ensureWAL]
  by_cases hmkdir : (!faults.mkdirOk) = true
  · rw [if_pos hmkdir]
    exact reopened_error hclosed .createDir
  rw [if_neg hmkdir]
  cases (state.dirs hour).active with
  | none =>
    refine reopened_openFile hclosed ?_ faults.openOk
    rfl
  | some content =>
    dsimp only
    by_cases hstat : (!faults.statOk) = true
    · rw [if_pos hstat]
      refine reopened_openFile hclosed ?_ faults.openOk
      rfl
    rw [if_neg hstat]
    by_cases htorn : ((!faults.readOk || (scanWAL zstd content).error.isSome) && !faults.truncateOk) = true
    · rw [if_pos htorn]
      exact reopened_error hclosed .truncate
    · rw [if_neg htorn]
      refine reopened_openFile hclosed ?_ faults.openOk
      rfl

end Reopened

theorem Reopened.moves {before state : HourlyWriter} {result : HourlyWriter × Option RotateError}
    (hreopened : Reopened state hour result) (hbefore : HourOk before.writer.segmentHour)
    (hsame : state.writer.segmentHour = before.writer.segmentHour) (hhour : HourOk hour)
    (hlater : before.writer.segmentHour < hour) : Moves before result.1 := by
  by_cases herror : result.2 = none
  · obtain ⟨hopened, -⟩ := hreopened.ok herror
    exact ⟨hopened ▸ hhour, .inl (hopened ▸ hlater)⟩
  · obtain ⟨hkept, hclosed⟩ := hreopened.failed herror
    refine ⟨hkept ▸ hsame ▸ hbefore, .inr ⟨hkept.trans hsame, fun hopen ↦ ?_⟩⟩
    rw [hclosed] at hopen
    cases hopen

theorem isOpen_close (state : HourlyWriter) : state.close.isOpen = false := by
  rw [HourlyWriter.close]
  split_ifs with hopen
  · rfl
  · exact Bool.eq_false_of_not_eq_true hopen

theorem segmentHour_close (state : HourlyWriter) :
    state.close.writer.segmentHour = state.writer.segmentHour := by
  rw [HourlyWriter.close]
  split_ifs <;> rfl

section

variable {newHour : Int64} (hstate : HourOk state.writer.segmentHour) (hhour : HourOk newHour)
  (hlater : state.writer.segmentHour < newHour)

include hstate hhour hlater

theorem moves_advanceEmpty : Moves state (state.advanceEmpty zstd newHour faults).1 := by
  refine (reopened_ensureWAL ?_ zstd faults.toOpenFaults).moves hstate ?_ hhour hlater
  · split_ifs
    · exact isOpen_close state
    · exact isOpen_close state
  · split_ifs
    · exact segmentHour_close state
    · exact segmentHour_close state

theorem moves_rotateTo : Moves state (state.rotateTo zstd newHour faults).1 := by
  have hclosed := isOpen_close (state.flushBeforeHandoff faults.syncOk)
  have hkept : (state.flushBeforeHandoff faults.syncOk).close.writer.segmentHour =
      state.writer.segmentHour := segmentHour_close _
  rw [HourlyWriter.rotateTo]
  split_ifs
  · refine (reopened_ensureWAL ?_ zstd faults.toOpenFaults).moves hstate ?_ hhour hlater
    · exact hclosed
    · exact hkept
  · refine ⟨hkept ▸ hstate, .inr ⟨hkept, fun hopen ↦ ?_⟩⟩
    rw [hclosed] at hopen
    cases hopen
  · exact (reopened_ensureWAL hclosed zstd faults.toOpenFaults).moves hstate hkept hhour hlater

end

theorem lt_rotationStart {sealHour : Int64} (hhour : HourOk sealHour) (nextHour : Int64) :
    sealHour < rotationStart sealHour nextHour := by
  rw [rotationStart]
  split_ifs with hclock
  · rw [Int64.lt_iff_toInt_lt, toInt_add_one hhour]
    omega
  · exact Int64.not_le.mp hclock

/-- A rotation goes to a later hour, closes the file, or does nothing. -/
theorem moves_rotate (zstd : Zstd) {state : HourlyWriter} (hstate : HourOk state.writer.segmentHour)
    (now : Int64) (faults : RotateFaults) : Moves state (state.rotate zstd now faults).1 := by
  rw [HourlyWriter.rotate]
  split_ifs with hempty hlater
  · exact moves_advanceEmpty zstd faults hstate (hourOk_segmentHourFromTime now) hlater
  · exact .refl hstate
  · cases hfree : freeSegmentHour state.dirs
      (rotationStart state.writer.segmentHour (segmentHourFromTime now)) with
    | none => exact .refl hstate
    | some hour =>
      obtain ⟨hfrom, hhour⟩ := freeSegmentHour_spec hfree
      exact moves_rotateTo zstd faults hstate hhour
        (Int64.lt_of_lt_of_le (lt_rotationStart hstate _) hfrom)

/-- A record keeps the ID of its entry, whatever becomes of its other fields. -/
theorem normalizeForRing_id (entry : Entry) : (normalizeForRing codec entry).id = entry.id := by
  have hpayload : (codec.marshalEntry entry).drop 4 = codec.payload entry := by
    rw [Codec.marshalEntry, drop_leBytes_append]
  rw [normalizeForRing, hpayload, unmarshalEntry_payload_eq]
  split_ifs
  · rfl
  · cases decodeBody codec.zstd (codec.flags entry) (encodeBody (codec.storedBody entry)) with
    | error error => rfl
    | ok decoded =>
      dsimp only
      split_ifs <;> rfl

theorem append_segmentHour (writer : WALWriter) (entries : List Entry) (receivedAt : Int64)
    (faults : Faults) :
    (writer.append codec entries receivedAt faults).1.segmentHour = writer.segmentHour ∧
      writer.entryCount ≤ (writer.append codec entries receivedAt faults).1.entryCount := by
  have happended := appended_append codec writer entries receivedAt faults
  generalize (writer.append codec entries receivedAt faults).1 = after at happended ⊢
  generalize (writer.append codec entries receivedAt faults).2 = result at happended
  cases happended with
  | empty => exact ⟨rfl, le_rfl⟩
  | full => exact ⟨rfl, le_rfl⟩
  | failed count =>
    rw [WALWriter.tore, WALWriter.rollback]
    split_ifs <;> exact ⟨rfl, le_rfl⟩
  | synced => exact ⟨rfl, Nat.le_add_right _ _⟩
  | unsynced => exact ⟨rfl, Nat.le_add_right _ _⟩

/-- What a successful call has stored. -/
theorem append_ok {codec : Codec} {writer : WALWriter} {entries stored : List Entry} {receivedAt : Int64}
    {faults : Faults} (hok : (writer.append codec entries receivedAt faults).2 = .ok stored)
    (hstored : stored ≠ []) :
    faults.failedAfter = none ∧ writer.entryCount + stored.length ≤ maxEntriesPerSegment ∧
      (writer.append codec entries receivedAt faults).1.entryCount = writer.entryCount + stored.length ∧
      ∀ (index : ℕ) (entry : Entry), stored[index]? = some entry →
        entry.id = idForPosition writer.segmentHour (writer.entryCount + index) := by
  rw [WALWriter.append] at hok ⊢
  split_ifs at hok ⊢ with hempty hroom
  · exact absurd (Except.ok.inj hok).symm hstored
  · cases hfailed : faults.failedAfter with
    | some count =>
      rw [hfailed] at hok
      cases hok
    | none =>
      rw [hfailed] at hok
      dsimp only [WALWriter.commit] at hok ⊢
      split_ifs at hok with hsynced
      have hstored := Except.ok.inj hok
      have hlength : stored.length = entries.length := by
        rw [← hstored, length_map, length_stamp]
      rw [Bool.not_eq_true', Bool.not_eq_false, segmentHasRoom_natCast] at hroom
      refine ⟨rfl, by rw [hlength]; exact hroom, ?_, fun index entry hentry ↦ ?_⟩
      · rw [WALWriter.wrote, hlength, length_stamp]
      · rw [← hstored, getElem?_map, map_eq_some_iff] at hentry
        obtain ⟨stamped, hstamped, rfl⟩ := hentry
        rw [stamp, getElem?_mapIdx, map_eq_some_iff] at hstamped
        obtain ⟨source, -, rfl⟩ := hstamped
        exact normalizeForRing_id codec _

theorem moves_append (hstate : HourOk state.writer.segmentHour) (entries : List Entry)
    (receivedAt : Int64) (faults : Faults) :
    Moves state (state.append codec entries receivedAt faults).1 := by
  obtain ⟨hsame, hcount⟩ := append_segmentHour codec state.writer entries receivedAt
    (if state.isOpen then faults else ⟨some 0, false, faults.syncOk⟩)
  exact ⟨by rw [HourlyWriter.append, hsame]; exact hstate, .inr ⟨hsame, fun hopen ↦ ⟨hopen, hcount⟩⟩⟩

/-! ### Positions -/

/-- An entry that is stored at a position of an hour. -/
structure Assigned.At (assigned : Assigned) (index : ℕ) : Prop where
  id : assigned.entry.id = idForPosition assigned.segmentHour index
  room : index < maxEntriesPerSegment

/-- The writer has not gone past the position. -/
def AtOrAfter (state : HourlyWriter) (hour : Int64) (index : ℕ) : Prop :=
  state.writer.segmentHour < hour ∨
    hour = state.writer.segmentHour ∧ state.isOpen = true ∧ state.writer.entryCount ≤ index

theorem AtOrAfter.of_moves {before after : HourlyWriter} {index : ℕ} (hmoves : Moves before after)
    (hafter : AtOrAfter after hour index) : AtOrAfter before hour index := by
  rcases hafter with hlater | ⟨rfl, hopen, hcount⟩
  · rcases hmoves.moved with hmoved | ⟨hsame, -⟩
    · exact .inl (Int64.lt_trans hmoved hlater)
    · exact .inl (hsame ▸ hlater)
  · rcases hmoves.moved with hmoved | ⟨hsame, hkept⟩
    · exact .inl hmoved
    · exact .inr ⟨hsame, (hkept hopen).1, (hkept hopen).2.trans hcount⟩

/-- What one event does: the writer moves on, and what it has stored lies between. -/
structure Stores (state : HourlyWriter) (result : HourlyWriter × List Assigned) : Prop where
  moves : Moves state result.1
  stored : ∀ (index : ℕ) (assigned : Assigned), result.2[index]? = some assigned →
    assigned.segmentHour = state.writer.segmentHour ∧ assigned.At (state.writer.entryCount + index) ∧
      state.isOpen = true ∧ result.1.writer.segmentHour = state.writer.segmentHour ∧
        state.writer.entryCount + index < result.1.writer.entryCount

theorem stores_nothing {state after : HourlyWriter} (hmoves : Moves state after) :
    Stores state (after, []) :=
  ⟨hmoves, fun _ _ hassigned ↦ by cases hassigned⟩

theorem stores_step (hstate : HourOk state.writer.segmentHour) (event : Event) :
    Stores state (state.step codec event) := by
  cases event with
  | rotate now faults => exact stores_nothing (moves_rotate codec.zstd hstate now faults)
  | change dirs => exact stores_nothing ⟨hstate, .inr ⟨rfl, fun hopen ↦ ⟨hopen, le_rfl⟩⟩⟩
  | append entries receivedAt faults =>
    have hmoves := moves_append codec hstate entries receivedAt faults
    rw [HourlyWriter.step]
    cases hresult : (state.append codec entries receivedAt faults).2 with
    | error error => exact stores_nothing hmoves
    | ok stored =>
      refine ⟨hmoves, fun index assigned hassigned ↦ ?_⟩
      rw [getElem?_map, map_eq_some_iff] at hassigned
      obtain ⟨entry, hentry, rfl⟩ := hassigned
      have hstored : stored ≠ [] := by
        rintro rfl
        cases hentry
      have hindex : index < stored.length := (List.getElem?_eq_some_iff.mp hentry).1
      obtain ⟨hwritten, hroom, hcount, hids⟩ := append_ok hresult hstored
      have hopen : state.isOpen = true := by
        by_contra hclosed
        rw [if_neg hclosed] at hwritten
        cases hwritten
      refine ⟨rfl, ⟨hids index entry hentry, by omega⟩, hopen, ?_, ?_⟩
      · exact (append_segmentHour codec state.writer entries receivedAt _).1
      · change _ < (state.writer.append codec entries receivedAt _).1.entryCount
        omega

/-- Everything that a run stores lies at or behind the position where it starts. -/
theorem atOrAfter_run (hstate : HourOk state.writer.segmentHour) (events : List Event) :
    ∀ assigned ∈ state.run codec events,
      ∃ index, assigned.At index ∧ AtOrAfter state assigned.segmentHour index := by
  induction events generalizing state with
  | nil => exact fun _ hmem ↦ absurd hmem not_mem_nil
  | cons event events ih =>
    intro assigned hmem
    have hstep := stores_step codec hstate event
    rw [HourlyWriter.run] at hmem
    rcases mem_append.mp hmem with hhere | hlater
    · obtain ⟨index, hindex⟩ := mem_iff_getElem?.mp hhere
      obtain ⟨hhour, hat, hopen, -, -⟩ := hstep.stored index assigned hindex
      exact ⟨_, hat, .inr ⟨hhour, hopen, Nat.le_add_right _ _⟩⟩
    · obtain ⟨index, hat, hafter⟩ := ih hstep.moves.hourOk assigned hlater
      exact ⟨index, hat, hafter.of_moves hstep.moves⟩

/-! ### The IDs of a run -/

/-- A segment hour that an ID can hold. -/
def InHours (hour : Int64) : Prop := 0 ≤ hour.toInt ∧ hour.toInt < 2 ^ 32

theorem exists_ofNat (hhour : InHours hour) : ∃ n < 2 ^ 32, hour = Int64.ofNat n := by
  obtain ⟨hlow, hhigh⟩ := hhour
  refine ⟨hour.toInt.toNat, by omega, ?_⟩
  rw [← Int64.toInt_inj, Int64.toInt_ofNat_of_lt (by omega)]
  omega

/-- The IDs of positions in order. -/
theorem Assigned.At.id_lt {first second : Assigned} {index later : ℕ} (hfirst : first.At index)
    (hsecond : second.At later)
    (horder : first.segmentHour < second.segmentHour ∨
      second.segmentHour = first.segmentHour ∧ index < later)
    (hhour : InHours first.segmentHour) (hhour' : InHours second.segmentHour) :
    first.entry.id < second.entry.id := by
  obtain ⟨early, hearly, hfirstHour⟩ := exists_ofNat hhour
  obtain ⟨late, hlate, hsecondHour⟩ := exists_ofNat hhour'
  rw [hfirst.id, hsecond.id]
  rcases horder with hhours | ⟨hsame, hindex⟩
  · rw [hfirstHour, hsecondHour] at hhours ⊢
    rw [Int64.lt_iff_toInt_lt, Int64.toInt_ofNat_of_lt (by omega), Int64.toInt_ofNat_of_lt (by omega)]
      at hhours
    rw [Int64.lt_iff_toInt_lt, toInt_idForPosition hearly hfirst.room,
      toInt_idForPosition hlate hsecond.room]
    have hbelow := (@packedID_bounds early index hfirst.room).2
    have habove := (@packedID_bounds late later hsecond.room).1
    omega
  · rw [hsame, hfirstHour]
    exact idForPosition_lt hearly hindex hsecond.room

theorem pairwise_run (hstate : HourOk state.writer.segmentHour) (events : List Event) :
    (state.run codec events).Pairwise fun first second ↦
      InHours first.segmentHour → InHours second.segmentHour → first.entry.id < second.entry.id := by
  induction events generalizing state with
  | nil => exact .nil
  | cons event events ih =>
    have hstep := stores_step codec hstate event
    rw [HourlyWriter.run, pairwise_append]
    refine ⟨pairwise_iff_getElem.mpr fun i j hi hj hij ↦ ?_, ih hstep.moves.hourOk, ?_⟩
    · obtain ⟨hfirst, hat, -⟩ := hstep.stored i _ (getElem?_eq_getElem hi)
      obtain ⟨hsecond, hat', -⟩ := hstep.stored j _ (getElem?_eq_getElem hj)
      exact hat.id_lt hat' (.inr ⟨hsecond.trans hfirst.symm, by omega⟩)
    · intro first hfirst second hsecond
      obtain ⟨index, hindex⟩ := mem_iff_getElem?.mp hfirst
      obtain ⟨hhour, hat, -, hkept, hcount⟩ := hstep.stored index first hindex
      obtain ⟨later, hat', hafter⟩ := atOrAfter_run codec hstep.moves.hourOk events second hsecond
      refine hat.id_lt hat' ?_
      rcases hafter with hlater | ⟨hsame, -, hbehind⟩
      · exact .inl (by rwa [hhour, ← hkept])
      · exact .inr ⟨by rw [hsame, hkept, hhour], by omega⟩

theorem hourOk_newWALWriter {zstd : Zstd} {ring : RingBuffer} {now : Int64} {faults : OpenFaults}
    (hnew : newWALWriter zstd ring dirs now faults = some state) :
    HourOk state.writer.segmentHour := by
  obtain ⟨hour, hfree, hopened⟩ := bind_eq_some_iff.mp hnew
  dsimp only at hopened
  split_ifs at hopened with hok
  cases hopened
  have hreopened : Reopened (unopened ring dirs) hour ((unopened ring dirs).ensureWAL zstd hour faults) :=
    reopened_ensureWAL rfl zstd faults
  rw [(hreopened.ok hok).1]
  exact (freeSegmentHour_spec hfree).2

/-- From any data directory, the IDs of a writer grow and decode to its segment hour, and a batch that
does not fit into the hour is refused. -/
theorem ids_increase {codec : Codec} {ring : RingBuffer} {dirs : DataDir} {now : Int64}
    {faults : OpenFaults} {state : HourlyWriter}
    (hnew : newWALWriter codec.zstd ring dirs now faults = some state) (events : List Event) :
    ((state.run codec events).Pairwise fun first second ↦
        InHours first.segmentHour → InHours second.segmentHour → first.entry.id < second.entry.id) ∧
      (∀ assigned ∈ state.run codec events, InHours assigned.segmentHour →
        (decodeID assigned.entry.id).1 = assigned.segmentHour) ∧
      ∀ (reached : HourlyWriter) (entries : List Entry) (receivedAt : Int64) (faults : Faults),
        entries ≠ [] → maxEntriesPerSegment < reached.writer.entryCount + entries.length →
          reached.append codec entries receivedAt faults = (reached, .error .segmentFull) := by
  have hstate := hourOk_newWALWriter hnew
  refine ⟨pairwise_run codec hstate events, fun assigned hassigned hhour ↦ ?_, ?_⟩
  · obtain ⟨index, hat, -⟩ := atOrAfter_run codec hstate events assigned hassigned
    obtain ⟨hour, hbound, hsame⟩ := exists_ofNat hhour
    rw [hat.id, hsame]
    exact decodeID_idForPosition_hour hbound hat.room
  · intro reached entries receivedAt faults hentries hfull
    have hroom : segmentHasRoom reached.writer.entryCount entries.length = false := by
      rw [← Bool.not_eq_true, segmentHasRoom_natCast]
      omega
    rw [HourlyWriter.append, WALWriter.append, if_neg hentries, hroom]
    rfl

/-- A directory with a WAL of one entry in hour 3, and hour 4 sealed. -/
def sampleDirs : DataDir := fun hour ↦
  if hour = 3 then ⟨some (rawCodec.marshalEntry (sampleEntry "found")), false⟩ else ⟨none, hour = 4⟩

def noFaults : RotateFaults := ⟨⟨true, true, true, true, true⟩, true, true, true, true⟩

/-- Two batches with a rotation between them, at which the clock has gone back to hour 2. -/
def sampleRun : List Event :=
  [.append [sampleEntry "a", sampleEntry "b"] 0 ⟨none, true, true⟩, .rotate 7200 noFaults,
    .append [sampleEntry "c"] 0 ⟨none, true, true⟩]

theorem ids_increase_witness :
    ∃ state, newWALWriter rawCodec.zstd newRingBuffer sampleDirs 10800 noFaults.toOpenFaults = some state ∧
      (state.run rawCodec sampleRun).map (fun assigned ↦ decodeID assigned.entry.id) =
        [(3, 0, 1), (3, 0, 2), (5, 0, 0)] ∧
      (state.run rawCodec sampleRun).Pairwise fun first second ↦
        InHours first.segmentHour → InHours second.segmentHour → first.entry.id < second.entry.id := by
  have hrun : (newWALWriter rawCodec.zstd newRingBuffer sampleDirs 10800 noFaults.toOpenFaults).map
      (fun state ↦ (state.run rawCodec sampleRun).map fun assigned ↦ decodeID assigned.entry.id) =
        some [(3, 0, 1), (3, 0, 2), (5, 0, 0)] := by
    decide +kernel
  obtain ⟨state, hstate, hids⟩ := map_eq_some_iff.mp hrun
  exact ⟨state, hstate, hids, (ids_increase hstate sampleRun).1⟩

end OpenTrace.Engine.Rotation
