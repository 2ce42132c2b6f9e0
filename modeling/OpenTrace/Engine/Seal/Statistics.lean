import OpenTrace.Engine.Seal.CrashAtomic
import OpenTrace.Library.Table

/-!
# The statistics of a segment

The streaming loop of `Seal` (`engine/seal.go`): `NextBatch` fills one batch at a time, and the
`metaAccumulator` folds it into the metadata. `add` keeps the first and the last entry, running totals
per level, service and minute, and the values of four columns; within a batch the key of a minute is
formatted once for consecutive entries of the minute.

`add_summary` is the step: the accumulator of some rows becomes that of the rows with the batch behind
them, whatever the batch. Hence the metadata do not depend on how the rows were cut
(`metadata_chunking`), and every part of them is the count over all rows that its name says
(`Summarises`). This needs receive times after the epoch: the key of minute -1 is empty at the start of a
batch. What does depend on the setting besides the chunk list is the setting itself, which is recorded.

A batch is a value here. The source reuses one slice for all batches; decoding starts from the zero
entry, and what the accumulator keeps it copies. The texts of times are a parameter. The order of the
values of a dictionary is that of a Go map, any order.
-/

/-! ### Batches -/

namespace OpenTrace.Wal

open Library Encoding Chunk

/-- A scanner: what it has not read, and the error that stopped it. -/
structure Scanner where
  input : Bytes
  error : Option ScanError

/-- `Next`: the entry it decodes, if it does, and the scanner behind it. -/
def Scanner.next (zstd : Zstd) (scanner : Scanner) : Option Entry × Scanner :=
  if scanner.error.isSome then (none, scanner)
  else
    match scanStep zstd scannerLength scanner.input with
    | .endOfFile => (none, scanner)
    | .failed error => (none, { scanner with error := some error })
    | .record entry rest => (some entry, { scanner with input := rest })

/-- `NextBatch`, with the room that is left in the batch. -/
def Scanner.nextBatch (zstd : Zstd) : ℕ → List Entry → Scanner → List Entry × Scanner
  | 0, batch, scanner => (batch, scanner)
  | room + 1, batch, scanner =>
    match (scanner.next zstd).1 with
    | none => (batch, (scanner.next zstd).2)
    | some entry => Scanner.nextBatch zstd room (batch ++ [entry]) (scanner.next zstd).2

/-- The entries that a scanner is going to decode. -/
def Scanner.rows (zstd : Zstd) (scanner : Scanner) : List Entry :=
  if scanner.error.isSome then [] else (readEntriesFrom zstd scanner.input).entries

theorem Scanner.next_eq (zstd : Zstd) (scanner : Scanner) :
    (scanner.next zstd).1 = (scanner.rows zstd).head? ∧
      (scanner.next zstd).2.rows zstd = (scanner.rows zstd).tail := by
  unfold Scanner.next Scanner.rows
  by_cases herror : scanner.error.isSome
  · simp [herror]
  · have hround := @scan_eq zstd scannerLength scanner.input
    simp only [herror, if_false, Bool.false_eq_true, readEntriesFrom]
    cases hstep : scanStep zstd scannerLength scanner.input with
    | endOfFile =>
      simp only [hstep] at hround
      simp [herror, hround]
    | failed error =>
      simp only [hstep] at hround
      simp [hround]
    | record entry rest =>
      simp only [hstep] at hround
      simp [herror, hround, Scan.push]

/-- A batch is the next part of the rows. -/
theorem Scanner.nextBatch_eq (zstd : Zstd) (room : ℕ) (batch : List Entry) (scanner : Scanner) :
    (scanner.nextBatch zstd room batch).1 = batch ++ (scanner.rows zstd).take room ∧
      (scanner.nextBatch zstd room batch).2.rows zstd = (scanner.rows zstd).drop room := by
  induction room generalizing batch scanner with
  | zero => simp [Scanner.nextBatch]
  | succ room ih =>
    obtain ⟨hentry, hrest⟩ := scanner.next_eq zstd
    rw [Scanner.nextBatch]
    cases hrows : scanner.rows zstd with
    | nil =>
      rw [hrows] at hentry hrest
      simp [hentry, hrest]
    | cons entry rest =>
      rw [hrows] at hentry hrest
      simp only [hentry, List.head?_cons]
      obtain ⟨hbatch, hscanner⟩ := ih (batch ++ [entry]) (scanner.next zstd).2
      rw [hbatch, hscanner, hrest]
      simp

end OpenTrace.Wal

namespace OpenTrace.Engine.Seal

open Library Encoding Chunk Wal Engine.Store

/-! ### The accumulator -/

/-- How times are written: `Format("2006-01-02T15:04")` and `Format(time.RFC3339)` of a time in UTC,
given in milliseconds. -/
structure TimeTexts where
  minute : Int64 → Bytes
  rfc3339 : Int64 → Bytes

/-- The level counts as an error. -/
def isErrorLevel (level : Bytes) : Bool := level = ascii "error" || level = ascii "fatal"

structure HBucket where
  total : ℕ
  errors : ℕ
  deriving DecidableEq, Repr

/-- The columns whose values are listed in `meta.json`. -/
inductive DictName
  | service
  | level
  | env
  | eventType
  deriving DecidableEq, Repr

def DictName.field : DictName → StrField
  | .service => .service
  | .level => .level
  | .env => .env
  | .eventType => .eventType

structure MetaAccumulator where
  first : Option Entry
  last : Entry
  seen : ℕ
  byLevel : Table Bytes ℕ
  byService : Table Bytes ℕ
  byServiceError : Table Bytes ℕ
  histogram : Table Bytes HBucket
  dictSets : DictName → List Bytes

def newMetaAccumulator : MetaAccumulator where
  first := none
  last := Entry.zero
  seen := 0
  byLevel := .empty
  byService := .empty
  byServiceError := .empty
  histogram := .empty
  dictSets := fun _ ↦ []

/-- The minute of an entry, as `add` computes it. -/
def minuteOf (entry : Entry) : Int64 := entry.receivedAt / 60000

/-- The key of a minute in the histogram. -/
def TimeTexts.minuteKey (texts : TimeTexts) (minute : Int64) : Bytes := texts.minute (minute * 60000)

/-- One more entry in a bucket of the histogram. -/
def HBucket.count (entry : Entry) (bucket : HBucket) : HBucket :=
  ⟨bucket.total + 1, if isErrorLevel (entry.str .level) then bucket.errors + 1 else bucket.errors⟩

/-- A value joins the set of its column; of the levels also the empty one. -/
def dictValue (name : DictName) (entry : Entry) : Option Bytes :=
  if entry.str name.field ≠ [] ∨ name = .level then some (entry.str name.field) else none

/-- The body of the loop of `add`, with the key of the entry's minute. -/
def MetaAccumulator.addEntry (acc : MetaAccumulator) (minuteKey : Bytes) (entry : Entry) :
    MetaAccumulator :=
  { acc with
    byLevel := acc.byLevel.tally 0 (entry.str .level) (· + 1)
    byService :=
      if entry.str .service ≠ [] then acc.byService.tally 0 (entry.str .service) (· + 1)
      else acc.byService
    byServiceError :=
      if entry.str .service ≠ [] ∧ isErrorLevel (entry.str .level) then
        acc.byServiceError.tally 0 (entry.str .service) (· + 1)
      else acc.byServiceError
    histogram := acc.histogram.tally ⟨0, 0⟩ minuteKey (HBucket.count entry)
    dictSets := fun name ↦ (dictValue name entry).elim (acc.dictSets name) fun value ↦
      (acc.dictSets name).insert value }

/-- The loop of `add`, with the minute whose key is at hand. -/
def addLoop (texts : TimeTexts) : MetaAccumulator → Int64 → Bytes → List Entry → MetaAccumulator
  | acc, _, _, [] => acc
  | acc, lastMinute, minuteKey, entry :: entries =>
    if minuteOf entry ≠ lastMinute then
      addLoop texts (acc.addEntry (texts.minuteKey (minuteOf entry)) entry) (minuteOf entry)
        (texts.minuteKey (minuteOf entry)) entries
    else addLoop texts (acc.addEntry minuteKey entry) lastMinute minuteKey entries

def MetaAccumulator.add (texts : TimeTexts) (acc : MetaAccumulator) (entries : List Entry) :
    MetaAccumulator :=
  if entries = [] then acc
  else
    addLoop texts
      { acc with
        first := acc.first.or entries.head?
        last := entries.getLast?.getD Entry.zero
        seen := acc.seen + entries.length } (-1) [] entries

/-! ### Metadata -/

/-- `SegmentMeta`, as it is written to `meta.json`. -/
structure MetaJSON where
  formatVersion : ℕ
  chunkEntries : ℕ
  segment : Bytes
  chunks : List ChunkMeta
  entryCount : ℕ
  idRange : Int64 × Int64
  timeRange : Bytes × Bytes
  byLevel : Table Bytes ℕ
  byService : Table Bytes ℕ
  byServiceError : Table Bytes ℕ
  histogram : Table Bytes HBucket
  dicts : DictName → List Bytes

def MetaAccumulator.finish (texts : TimeTexts) (segment : Bytes) (chunkEntries : ℕ)
    (chunks : List ChunkMeta) (acc : MetaAccumulator) : MetaJSON where
  formatVersion := 2
  chunkEntries := chunkEntries
  segment := segment
  chunks := chunks
  entryCount := acc.seen
  idRange := acc.first.elim (0, 0) fun first ↦ (first.id, acc.last.id)
  timeRange := acc.first.elim ([], []) fun first ↦
    (texts.rfc3339 first.receivedAt, texts.rfc3339 acc.last.receivedAt)
  byLevel := acc.byLevel
  byService := acc.byService
  byServiceError := acc.byServiceError
  histogram := acc.histogram
  dicts := acc.dictSets

/-- The chunk list behind a `writeChunk`. -/
def appendChunk (chunks : List ChunkMeta) (entries : List Entry) : List ChunkMeta :=
  chunks ++ [⟨chunks.length, entries.length, (entries.head?.getD Entry.zero).id,
    (entries.getLast?.getD Entry.zero).id⟩]

/-- What the loop of `Seal` leaves. -/
structure Streamed where
  acc : MetaAccumulator
  chunks : List ChunkMeta
  total : ℕ

/-- The loop of `Seal`, for at most `fuel` batches. -/
def sealLoop (zstd : Zstd) (texts : TimeTexts) (physical : ℕ) : ℕ → Scanner → Streamed → Streamed
  | 0, _, streamed => streamed
  | fuel + 1, scanner, streamed =>
    let limit := min physical (chunkSize - streamed.total % chunkSize)
    let next := scanner.nextBatch zstd limit []
    if next.1 = [] then streamed
    else sealLoop zstd texts physical fuel next.2
      ⟨streamed.acc.add texts next.1, appendChunk streamed.chunks next.1,
        streamed.total + next.1.length⟩

/-- The metadata that `Seal` produces from the contents of a WAL; none if no record was read. -/
def sealMetadata (zstd : Zstd) (texts : TimeTexts) (segment : Bytes) (sealChunkEntries : ℤ)
    (content : Bytes) : Option MetaJSON :=
  let physical := effectiveSealChunkEntries sealChunkEntries
  let streamed := sealLoop zstd texts physical content.length ⟨content, none⟩ ⟨newMetaAccumulator, [], 0⟩
  if streamed.total = 0 then none
  else some (streamed.acc.finish texts segment physical streamed.chunks)

/-! ### The cached minute -/

theorem minuteOf_ne {entry : Entry} (hreceived : 0 < entry.receivedAt) : minuteOf entry ≠ -1 := by
  intro hminute
  have hvalue : (minuteOf entry).toInt = -1 := by rw [hminute]; rfl
  rw [Int64.lt_iff_toInt_lt] at hreceived
  rw [minuteOf, Int64.toInt_div_of_ne_right _ _ (by decide)] at hvalue
  have hnonneg : 0 ≤ entry.receivedAt.toInt.tdiv (60000 : Int64).toInt :=
    Int.tdiv_nonneg hreceived.le (by decide)
  omega

/-- An entry with the key of its own minute. -/
def MetaAccumulator.count (texts : TimeTexts) (acc : MetaAccumulator) (entry : Entry) :
    MetaAccumulator := acc.addEntry (texts.minuteKey (minuteOf entry)) entry

/-- The key at hand is the right one whenever it is used. -/
theorem addLoop_eq (texts : TimeTexts) {entries : List Entry}
    (hreceived : ∀ entry ∈ entries, 0 < entry.receivedAt) (acc : MetaAccumulator) {lastMinute : Int64}
    {minuteKey : Bytes} (hkey : lastMinute = -1 ∨ minuteKey = texts.minuteKey lastMinute) :
    addLoop texts acc lastMinute minuteKey entries = entries.foldl (MetaAccumulator.count texts) acc := by
  induction entries generalizing acc lastMinute minuteKey with
  | nil => rfl
  | cons entry entries ih =>
    obtain ⟨hfirst, hrest⟩ := List.forall_mem_cons.mp hreceived
    rw [addLoop, List.foldl_cons]
    split_ifs with hminute
    · exact ih hrest _ (Or.inr rfl)
    · rw [not_not] at hminute
      have hcached : minuteKey = texts.minuteKey (minuteOf entry) := by
        rcases hkey with hnone | hkey
        · exact absurd (hminute.trans hnone) (minuteOf_ne hfirst)
        · rw [hkey, hminute]
      rw [MetaAccumulator.count, ← hcached]
      exact ih hrest _ (Or.inr (by rw [hcached, hminute]))

/-! ### Batches do not matter -/

/-- The accumulator of some rows. -/
def summary (texts : TimeTexts) (rows : List Entry) : MetaAccumulator :=
  { rows.foldl (MetaAccumulator.count texts) newMetaAccumulator with
    first := rows.head?
    last := rows.getLast?.getD Entry.zero
    seen := rows.length }

/-- Counting touches neither the first and last entry nor their number. -/
theorem foldl_count_frame (texts : TimeTexts) (entries : List Entry) (acc : MetaAccumulator)
    (first : Option Entry) (last : Entry) (seen : ℕ) :
    entries.foldl (MetaAccumulator.count texts) { acc with first := first, last := last, seen := seen } =
      { entries.foldl (MetaAccumulator.count texts) acc with
        first := first, last := last, seen := seen } := by
  induction entries generalizing acc with
  | nil => rfl
  | cons entry entries ih => exact ih (acc.count texts entry)

/-- The accumulator of some rows becomes that of the rows with the batch behind them. -/
theorem add_summary (texts : TimeTexts) (rows : List Entry) {batch : List Entry}
    (hreceived : ∀ entry ∈ batch, 0 < entry.receivedAt) :
    (summary texts rows).add texts batch = summary texts (rows ++ batch) := by
  unfold MetaAccumulator.add
  split_ifs with hbatch
  · rw [hbatch, List.append_nil]
  · rw [addLoop_eq texts hreceived _ (Or.inl rfl), foldl_count_frame, summary, foldl_count_frame, summary,
      List.foldl_append, List.head?_append, List.length_append, List.getLast?_append]
    simp only [List.getLast?_eq_getLast_of_ne_nil hbatch, Option.some_or, Option.getD_some]

theorem chunkMetas_append (start : ℕ) (groups more : List (List Entry)) :
    chunkMetas start (groups ++ more) =
      chunkMetas start groups ++ chunkMetas (start + groups.length) more := by
  induction groups generalizing start with
  | nil => rfl
  | cons group groups ih =>
    rw [List.cons_append, chunkMetas, chunkMetas, ih, List.length_cons, List.cons_append,
      show start + 1 + groups.length = start + (groups.length + 1) by omega]

theorem appendChunk_chunkMetas (groups : List (List Entry)) (batch : List Entry) :
    appendChunk (chunkMetas 0 groups) batch = chunkMetas 0 (groups ++ [batch]) := by
  have hlength : (chunkMetas 0 groups).length = groups.length := by
    simpa using congrArg List.length (map_index_chunkMetas 0 groups)
  rw [chunkMetas_append, appendChunk, hlength, Nat.zero_add]
  rfl

/-- What the loop has made of the groups behind it. -/
def Streamed.of (texts : TimeTexts) (groups : List (List Entry)) : Streamed :=
  ⟨summary texts groups.flatten, chunkMetas 0 groups, groups.flatten.length⟩

/-- The loop goes on as the cutting of the rows does. -/
theorem sealLoop_eq (zstd : Zstd) (texts : TimeTexts) (physical : ℕ) {fuel : ℕ} {scanner : Scanner}
    (hreceived : ∀ entry ∈ scanner.rows zstd, 0 < entry.receivedAt) (groups : List (List Entry)) :
    sealLoop zstd texts physical fuel scanner (.of texts groups) =
      .of texts (groups ++ rowGroupsLoop physical fuel groups.flatten.length (scanner.rows zstd)) := by
  induction fuel generalizing scanner groups with
  | zero => rw [sealLoop, rowGroupsLoop, List.append_nil]
  | succ fuel ih =>
    obtain ⟨hbatch, hscanner⟩ := scanner.nextBatch_eq zstd
      (min physical (chunkSize - groups.flatten.length % chunkSize)) []
    rw [List.nil_append] at hbatch
    simp only [sealLoop, rowGroupsLoop, Streamed.of, hbatch]
    split_ifs with hend
    · rw [List.append_nil]
    · have hrest := @ih (scanner.nextBatch zstd
        (min physical (chunkSize - groups.flatten.length % chunkSize)) []).2
        (fun entry hentry ↦ hreceived entry (List.mem_of_mem_drop (hscanner ▸ hentry)))
        (groups ++ [(scanner.rows zstd).take
          (min physical (chunkSize - groups.flatten.length % chunkSize))])
      have hflatten : ∀ batch : List Entry, (groups ++ [batch]).flatten = groups.flatten ++ batch :=
        fun batch ↦ by rw [List.flatten_append, List.flatten_singleton]
      rw [add_summary texts _ fun entry hentry ↦ hreceived entry (List.mem_of_mem_take hentry),
        appendChunk_chunkMetas]
      rw [hscanner] at hrest
      simp only [Streamed.of, hflatten, List.length_append, List.append_assoc,
        List.cons_append, List.nil_append] at hrest
      simpa using hrest

/-! ### The cut -/

theorem rowGroupsLoop_nil (physical fuel total : ℕ) : rowGroupsLoop physical fuel total [] = [] := by
  cases fuel <;> simp [rowGroupsLoop]

theorem rowGroupsLoop_eq_rowGroupsLoop {physical : ℕ} (hphysical : 0 < physical) {fuel fuel' total : ℕ}
    {rows : List Entry} (hfuel : rows.length ≤ fuel) (hfuel' : rows.length ≤ fuel') :
    rowGroupsLoop physical fuel total rows = rowGroupsLoop physical fuel' total rows := by
  induction fuel generalizing fuel' total rows with
  | zero =>
    rw [List.eq_nil_of_length_eq_zero (Nat.le_zero.mp hfuel), rowGroupsLoop_nil, rowGroupsLoop_nil]
  | succ fuel ih =>
    by_cases hnil : rows = []
    · rw [hnil, rowGroupsLoop_nil, rowGroupsLoop_nil]
    · have hlength := List.length_pos_iff.mpr hnil
      obtain ⟨fuel', rfl⟩ := Nat.exists_eq_add_one_of_ne_zero (show fuel' ≠ 0 by omega)
      have hlimit : 0 < min physical (chunkSize - total % chunkSize) :=
        lt_min hphysical (Nat.sub_pos_of_lt (Nat.mod_lt _ (by decide)))
      have hrest : (rows.drop (min physical (chunkSize - total % chunkSize))).length =
          rows.length - min physical (chunkSize - total % chunkSize) := List.length_drop
      rw [rowGroupsLoop, rowGroupsLoop]
      simp only [ih (show (rows.drop (min physical (chunkSize - total % chunkSize))).length ≤ fuel by omega)
        (show (rows.drop (min physical (chunkSize - total % chunkSize))).length ≤ fuel' by omega)]

theorem length_le_of_mem_rowGroupsLoop {physical fuel total : ℕ} {rows : List Entry} :
    ∀ group ∈ rowGroupsLoop physical fuel total rows, group.length ≤ physical := by
  induction fuel generalizing total rows with
  | zero => simp [rowGroupsLoop]
  | succ fuel ih =>
    simp only [rowGroupsLoop]
    split_ifs with hend
    · simp
    · rw [List.forall_mem_cons]
      exact ⟨(List.length_take_le _ _).trans (min_le_left _ _), ih⟩

/-! ### What the metadata say -/

/-- A count in a map: a key that does not occur is absent. -/
def counted (count : ℕ) : Option ℕ := if count = 0 then none else some count

/-- Every part of the metadata is what its name says, counted over all rows. -/
structure Summarises (texts : TimeTexts) (rows : List Entry) (sealed : MetaJSON) : Prop where
  entryCount : sealed.entryCount = rows.length
  byLevel : ∀ level, sealed.byLevel.get level = counted (rows.countP (·.str .level = level))
  byService : ∀ service, sealed.byService.get service =
    counted (rows.countP fun row ↦ row.str .service = service ∧ service ≠ [])
  byServiceError : ∀ service, sealed.byServiceError.get service = counted (rows.countP fun row ↦
      (row.str .service = service ∧ service ≠ []) ∧ isErrorLevel (row.str .level))
  histogram : ∀ key, let minute := rows.filter fun row ↦ texts.minuteKey (minuteOf row) = key
    sealed.histogram.get key = if minute = [] then none
      else some ⟨minute.length, minute.countP fun row ↦ isErrorLevel (row.str .level)⟩
  idRange : sealed.idRange = ((rows.head?.getD Entry.zero).id, (rows.getLast?.getD Entry.zero).id)
  timeRange : sealed.timeRange = (texts.rfc3339 (rows.head?.getD Entry.zero).receivedAt,
    texts.rfc3339 (rows.getLast?.getD Entry.zero).receivedAt)
  dicts : ∀ name value, value ∈ sealed.dicts name ↔
    (value ≠ [] ∨ name = .level) ∧ ∃ row ∈ rows, row.str name.field = value

/-- A running count per key counts the rows with the key. -/
theorem get_foldl_counts (keyOf : Entry → Option Bytes) (rows : List Entry) (key : Bytes) :
    (rows.foldl (fun table row ↦ table.tallyEntry 0 keyOf (fun _ count ↦ count + 1) row)
      (Table.empty : Table Bytes ℕ)).get key = counted (rows.countP (keyOf · = some key)) := by
  have hlength : ∀ (mine : List Entry) (start : ℕ),
      mine.foldl (fun total _ ↦ total + 1) start = start + mine.length := by
    intro mine
    induction mine with
    | nil => intro start; rfl
    | cons row mine ih =>
      intro start
      rw [List.foldl_cons, ih, List.length_cons]
      omega
  rw [Table.get_foldl_tallyEntry, List.countP_eq_length_filter, counted, Table.get_empty]
  simp only [hlength, List.length_eq_zero_iff, Option.getD_none, Nat.zero_add]

theorem foldl_bucket (mine : List Entry) (bucket : HBucket) :
    mine.foldl (fun bucket row ↦ bucket.count row) bucket = ⟨bucket.total + mine.length,
        bucket.errors + mine.countP fun row ↦ isErrorLevel (row.str .level)⟩ := by
  induction mine generalizing bucket with
  | nil => rfl
  | cons row mine ih =>
    rw [List.foldl_cons, ih, HBucket.count, List.length_cons, List.countP_cons]
    by_cases herror : isErrorLevel (row.str .level)
    · simp only [herror, if_true]
      congr 1 <;> omega
    · simp only [herror, if_false, Bool.false_eq_true]
      congr 1; omega

section Summary

variable (texts : TimeTexts) (rows : List Entry)

/-- A part of the accumulator that is updated by itself is its own fold. -/
theorem foldl_count_part {β : Type} (part : MetaAccumulator → β) {step : β → Entry → β}
    (hstep : ∀ acc row, part (acc.count texts row) = step (part acc) row) :
    part (rows.foldl (MetaAccumulator.count texts) newMetaAccumulator) =
      rows.foldl step (part newMetaAccumulator) :=
  (List.foldl_hom part fun acc row ↦ (hstep acc row).symm).symm

/-- A running count among the parts of the accumulator. -/
theorem get_count_part (part : MetaAccumulator → Table Bytes ℕ)
    (hempty : part newMetaAccumulator = .empty) (keyOf : Entry → Option Bytes)
    (hstep : ∀ acc row, part (acc.count texts row) =
      (part acc).tallyEntry 0 keyOf (fun _ count ↦ count + 1) row) {key : Bytes} {mine : Entry → Bool}
    (hmine : ∀ row, keyOf row = some key ↔ mine row) :
    (part (rows.foldl (MetaAccumulator.count texts) newMetaAccumulator)).get key =
      counted (rows.countP mine) := by
  rw [@foldl_count_part texts rows _ part
    (fun table row ↦ table.tallyEntry 0 keyOf (fun _ count ↦ count + 1) row) hstep, hempty,
    get_foldl_counts]
  exact congrArg counted (List.countP_congr fun row _ ↦ by rw [decide_eq_true_iff, hmine])

/-- The service under which a row is counted. -/
def serviceKey (row : Entry) : Option Bytes :=
  if row.str .service ≠ [] then some (row.str .service) else none

theorem serviceKey_eq_some {row : Entry} {service : Bytes} :
    serviceKey row = some service ↔ row.str .service = service ∧ service ≠ [] := by
  unfold serviceKey
  split_ifs with hservice
  · rw [Option.some.injEq]
    exact ⟨fun heq ↦ ⟨heq, heq ▸ hservice⟩, And.left⟩
  · rw [not_not] at hservice
    simp only [false_iff, not_and, not_not]
    intro heq
    rw [← heq, hservice]

theorem get_histogram (key : Bytes) :
    let minute := rows.filter fun row ↦ texts.minuteKey (minuteOf row) = key
    (rows.foldl (MetaAccumulator.count texts) newMetaAccumulator).histogram.get key =
      if minute = [] then none
      else some ⟨minute.length, minute.countP fun row ↦ isErrorLevel (row.str .level)⟩ := by
  have hfold := @foldl_count_part texts rows _ MetaAccumulator.histogram
    (fun table row ↦ table.tallyEntry ⟨0, 0⟩ (fun row ↦ some (texts.minuteKey (minuteOf row)))
      (fun row bucket ↦ bucket.count row) row)
    fun _ _ ↦ rfl
  have hempty : newMetaAccumulator.histogram = .empty := rfl
  rw [hfold, hempty, Table.get_foldl_tallyEntry, Table.get_empty]
  simp only [Option.some.injEq, foldl_bucket, Option.getD_none, Nat.zero_add]

theorem mem_dictSets (name : DictName) (value : Bytes) :
    value ∈ (rows.foldl (MetaAccumulator.count texts) newMetaAccumulator).dictSets name ↔
      (value ≠ [] ∨ name = .level) ∧ ∃ row ∈ rows, row.str name.field = value := by
  have hfold := @foldl_count_part texts rows _ (fun acc ↦ acc.dictSets name)
    (fun values row ↦ (dictValue name row).elim values fun value ↦ values.insert value) fun _ _ ↦ rfl
  have hvalues : ∀ values : List Bytes, value ∈ rows.foldl (fun values row ↦
      (dictValue name row).elim values fun value ↦ values.insert value) values ↔
        value ∈ values ∨ ∃ row ∈ rows, dictValue name row = some value := by
    clear hfold
    induction rows with
    | nil => simp
    | cons row rows ih =>
      intro values
      rw [List.foldl_cons, ih]
      cases hvalue : dictValue name row with
      | none => simp [hvalue]
      | some other =>
        rw [Option.elim_some, List.mem_insert_iff]
        simp only [List.mem_cons, exists_eq_or_imp, hvalue, Option.some.injEq]
        tauto
  have hlisted : ∀ row : Entry, dictValue name row = some value ↔
      (value ≠ [] ∨ name = .level) ∧ row.str name.field = value := by
    intro row
    unfold dictValue
    split_ifs with hkept
    · rw [Option.some.injEq]
      exact ⟨fun heq ↦ ⟨heq ▸ hkept, heq⟩, And.right⟩
    · simp only [false_iff]
      rintro ⟨hvalue, rfl⟩
      exact hkept hvalue
  rw [hfold, hvalues]
  simp only [newMetaAccumulator, List.not_mem_nil, false_or, hlisted]
  constructor
  · rintro ⟨row, hrow, hvalue, heq⟩
    exact ⟨hvalue, row, hrow, heq⟩
  · rintro ⟨hvalue, row, hrow, heq⟩
    exact ⟨row, hrow, hvalue, heq⟩

theorem summarises_finish (hrows : rows ≠ []) (segment : Bytes) (chunkEntries : ℕ)
    (chunks : List ChunkMeta) :
    Summarises texts rows ((summary texts rows).finish texts segment chunkEntries chunks) where
  entryCount := rfl
  byLevel := fun level ↦ get_count_part texts rows MetaAccumulator.byLevel rfl
    (fun row ↦ some (row.str .level)) (fun _ _ ↦ rfl) fun row ↦ by simp
  byService := fun service ↦ get_count_part texts rows MetaAccumulator.byService rfl serviceKey
    (fun acc row ↦ by
      simp only [MetaAccumulator.count, MetaAccumulator.addEntry, Table.tallyEntry, serviceKey]
      split_ifs <;> rfl)
    fun row ↦ by rw [serviceKey_eq_some, decide_eq_true_iff]
  byServiceError := fun service ↦ get_count_part texts rows MetaAccumulator.byServiceError rfl
    (fun row ↦ if isErrorLevel (row.str .level) then serviceKey row else none)
    (fun acc row ↦ by
      simp only [MetaAccumulator.count, MetaAccumulator.addEntry, Table.tallyEntry, serviceKey]
      split_ifs <;> simp_all)
    fun row ↦ by
      rw [decide_eq_true_iff, ← serviceKey_eq_some]
      split_ifs with herror <;> simp [herror]
  histogram := get_histogram texts rows
  idRange := by
    rw [MetaAccumulator.finish, summary, List.head?_eq_some_head hrows]
    rfl
  timeRange := by
    rw [MetaAccumulator.finish, summary, List.head?_eq_some_head hrows]
    rfl
  dicts := mem_dictSets texts rows

end Summary

/-! ### Two settings -/

theorem length_scanLoop_le (zstd : Zstd) (admits : LengthCheck) (fuel : ℕ) (input : Bytes) :
    (scanLoop zstd admits fuel input).entries.length ≤ fuel := by
  induction fuel generalizing input with
  | zero => exact Nat.le_refl 0
  | succ fuel ih =>
    rw [scanLoop]
    cases scanStep zstd admits input with
    | endOfFile => exact Nat.zero_le _
    | failed error => exact Nat.zero_le _
    | record entry rest => exact Nat.succ_le_succ (ih rest)

/-- The metadata that a seal produces, for every setting. -/
theorem sealMetadata_eq (zstd : Zstd) (texts : TimeTexts) (segment : Bytes) (sealChunkEntries : ℤ)
    {content : Bytes} (hreceived : ∀ row ∈ parsedRows zstd content, 0 < row.receivedAt) :
    let rows := parsedRows zstd content
    let physical := effectiveSealChunkEntries sealChunkEntries
    sealMetadata zstd texts segment sealChunkEntries content = if rows = [] then none
      else some ((summary texts rows).finish texts segment physical
        (chunkMetas 0 (rowGroups physical rows))) := by
  intro rows physical
  have hphysical : 0 < physical := effectiveSealChunkEntries_pos sealChunkEntries
  have hscanner : (⟨content, none⟩ : Scanner).rows zstd = rows := rfl
  have hloop := @sealLoop_eq zstd texts physical content.length ⟨content, none⟩ hreceived []
  have hstart : Streamed.of texts [] = ⟨newMetaAccumulator, [], 0⟩ := rfl
  have hgroups : rowGroupsLoop physical content.length 0 rows = rowGroups physical rows :=
    rowGroupsLoop_eq_rowGroupsLoop hphysical (length_scanLoop_le zstd _ _ content) le_rfl
  rw [hstart, hscanner, List.nil_append, List.flatten_nil, List.length_nil, hgroups] at hloop
  simp only [sealMetadata]
  rw [hloop]
  simp only [Streamed.of, flatten_rowGroups hphysical, List.length_eq_zero_iff]
  rfl

/-- The metadata of a seal but for what the setting decides: the chunk list and the recorded chunk size. -/
def MetaJSON.statistics (sealed : MetaJSON) : MetaJSON := { sealed with chunkEntries := 0, chunks := [] }

/-- Two settings lead to metadata that agree on everything but the chunk list and the chunk size, the
statistics are those of all rows, and the chunk list cuts the rows, in order, into chunks of at most the
effective size. Assumes: receive times after the epoch. -/
theorem metadata_chunking (zstd : Zstd) (texts : TimeTexts) (segment : Bytes) {content : Bytes}
    (hreceived : ∀ row ∈ parsedRows zstd content, 0 < row.receivedAt) (sealChunkEntries other : ℤ) :
    let rows := parsedRows zstd content
    let sealed := sealMetadata zstd texts segment sealChunkEntries content
    (sealed = none ↔ rows = []) ∧
    sealed.map MetaJSON.statistics =
      (sealMetadata zstd texts segment other content).map MetaJSON.statistics ∧
    ∀ found, sealed = some found → Summarises texts rows found ∧
      ∃ groups : List (List Entry), found.chunks = chunkMetas 0 groups ∧ groups.flatten = rows ∧
        ∀ group ∈ groups, group ≠ [] ∧
          group.length ≤ effectiveSealChunkEntries sealChunkEntries := by
  intro rows sealed
  have hsealed : sealed = _ := sealMetadata_eq zstd texts segment sealChunkEntries hreceived
  have hphysical := effectiveSealChunkEntries_pos sealChunkEntries
  rw [hsealed, sealMetadata_eq zstd texts segment other hreceived]
  refine ⟨?_, ?_, fun found hfound ↦ ?_⟩
  · split_ifs with hrows
    · exact ⟨fun _ ↦ hrows, fun _ ↦ rfl⟩
    · simpa using hrows
  · split_ifs <;> rfl
  · split_ifs at hfound with hrows
    cases hfound
    refine ⟨summarises_finish texts rows hrows _ _ _,
      rowGroups (effectiveSealChunkEntries sealChunkEntries) rows, rfl, flatten_rowGroups hphysical rows,
      fun group hgroup ↦ ⟨rowGroupsLoop_ne_nil group hgroup, length_le_of_mem_rowGroupsLoop group hgroup⟩⟩

/-- Times written as their eight bytes. -/
def plainTexts : TimeTexts where
  minute := fun time ↦ leBytes 8 time.toUInt64.toNat
  rfc3339 := fun time ↦ leBytes 8 time.toUInt64.toNat

/-- A WAL of two records that were received in one minute. -/
def twoRecords : Bytes :=
  Codec.marshalBatch ⟨Zstd.stored, false⟩
    [{ Entry.zero with id := 1, receivedAt := 60001 }, { Entry.zero with id := 2, receivedAt := 60002 }]

theorem metadata_chunking_witness :
    (∀ row ∈ parsedRows Zstd.stored twoRecords, 0 < row.receivedAt) ∧
      (sealMetadata Zstd.stored plainTexts [] 1 twoRecords).map MetaJSON.statistics =
        (sealMetadata Zstd.stored plainTexts [] 0 twoRecords).map MetaJSON.statistics := by
  have hreceived : ∀ row ∈ parsedRows Zstd.stored twoRecords, 0 < row.receivedAt := by decide +kernel
  exact ⟨hreceived, (metadata_chunking Zstd.stored plainTexts [] hreceived 1 0).2.1⟩

/-- With chunks of two and of three entries the chunk lists are the same, and the metadata differ. -/
theorem chunk_size_recorded : (∀ row ∈ parsedRows Zstd.stored twoRecords, 0 < row.receivedAt) ∧
      ∃ sealed other, sealMetadata Zstd.stored plainTexts [] 2 twoRecords = some sealed ∧
        sealMetadata Zstd.stored plainTexts [] 3 twoRecords = some other ∧
        sealed.chunks = other.chunks ∧ sealed.chunkEntries ≠ other.chunkEntries := by
  have hreceived : ∀ row ∈ parsedRows Zstd.stored twoRecords, 0 < row.receivedAt := by decide +kernel
  have hrows : parsedRows Zstd.stored twoRecords ≠ [] := by decide +kernel
  have hchunks : chunkMetas 0 (rowGroups (effectiveSealChunkEntries 2) (parsedRows Zstd.stored twoRecords)) =
      chunkMetas 0 (rowGroups (effectiveSealChunkEntries 3) (parsedRows Zstd.stored twoRecords)) := by
    decide +kernel
  refine ⟨hreceived, _, _, (sealMetadata_eq Zstd.stored plainTexts [] 2 hreceived).trans (if_neg hrows),
    (sealMetadata_eq Zstd.stored plainTexts [] 3 hreceived).trans (if_neg hrows), ?_, ?_⟩
  · simpa only [MetaAccumulator.finish] using hchunks
  · simp only [MetaAccumulator.finish]
    decide

end OpenTrace.Engine.Seal
