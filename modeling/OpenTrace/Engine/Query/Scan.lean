import Mathlib.Algebra.BigOperators.Group.List.Basic
import OpenTrace.Engine.Query.Exactness

/-!
# Scans over columns

`scanSegment` (`store.go`) hands the rows of each chunk that pass the columns to a visitor, which reads
the one or two columns it needs; no entry is put together. `scanSegment_eq` is the rule for such scans:
over chunks that can be read, a scan is a fold over the rows that match.

`AggregateRequests` (`requests.go`) is the first of them. It adds up four columns over the sealed
segments and four fields over the WAL files. The segments are scanned until `MaxScanRows` rows have
been seen; a result that is not marked as truncated is the sum over everything in view, however it is
divided between chunks, segments and WAL files.
-/

namespace OpenTrace.Engine.Query

open Library Encoding Chunk List

/-- The last hour, where the caller left the range open. -/
def SearchParams.withDefaultRange (now : ℤ) (params : SearchParams) : SearchParams :=
  { params with
    start := some (params.start.getD (now - 3600 * 1000000000))
    stop := some (params.stop.getD now) }

/-- The parameters of a scan: no page. -/
def scanParams (now : ℤ) (params : SearchParams) : SearchParams :=
  { params.withDefaultRange now with limit := 0, offset := 0 }

section Scan

variable (zstd : Zstd) (texts : Texts) (now : ℤ) {σ : Type}

/-- A chunk that fails ends the scan of its segment. The callers log the failure and go on with what
they have. -/
def scanSegment (params : SearchParams) (visit : σ → Reader → List ℕ → Except SearchError σ) :
    List ChunkFile → σ → σ
  | [], state => state
  | chunk :: chunks, state =>
    match openChunkRows zstd texts now params chunk with
    | .error _ => state
    | .ok none => scanSegment params visit chunks state
    | .ok (some (reader, rows)) =>
      match visit state reader rows with
      | .error _ => state
      | .ok state => scanSegment params visit chunks state

/-- The segments one after another, until so many rows are held or seen; whether segments are left
out. -/
def scanUpTo (maxScanRows : ℕ) (held : σ → ℕ) (scan : σ → List ChunkFile → σ) :
    List (List ChunkFile) → σ → σ × Bool
  | [], state => (state, false)
  | chunks :: segments, state =>
    if maxScanRows ≤ held state then (state, true)
    else scanUpTo maxScanRows held scan segments (scan state chunks)

/-- A sparse integer column, read by a visitor. -/
def sparseInt64 (reader : Reader) (field : IntField) : Except SearchError (List (Option Int64)) :=
  match reader.readSparseInt64 zstd (.int field) with
  | .error cause => .error (.column cause)
  | .ok values => .ok values

/-- A row without a value counts as zero. -/
def valueAt (values : List (Option Int64)) (row : ℕ) : Int64 := ((values[row]?).getD none).getD 0

end Scan

theorem scanUpTo_complete {σ : Type} {maxScanRows : ℕ} {held : σ → ℕ} {scan : σ → List ChunkFile → σ}
    {segments : List (List ChunkFile)} {state : σ}
    (hcomplete : (scanUpTo maxScanRows held scan segments state).2 = false) :
    (scanUpTo maxScanRows held scan segments state).1 = segments.foldl scan state := by
  induction segments generalizing state with
  | nil => rfl
  | cons chunks segments ih =>
    rw [scanUpTo] at hcomplete ⊢
    split_ifs at hcomplete ⊢ with hfull
    exact ih hcomplete

theorem ColumnsOnly.scan {params : SearchParams} (honly : ColumnsOnly params) (now : ℤ) :
    ColumnsOnly (scanParams now params) :=
  ⟨honly.query, honly.metadataFilter, honly.exclude, honly.traceID, honly.requestID, honly.userID,
    honly.tenantID, honly.errorFingerprint⟩

/-- The matches in view, chunk by chunk, and those of the WAL files. -/
theorem matches_eq {zstd : Zstd} (texts : Texts) (params : SearchParams) (view : View zstd) :
    view.matches texts params = view.chunks.flatMap (fun chunk ↦
        (matchingRows chunk.columns texts params).map (chunk.columns.entry · true)) ++
      view.wals.flatten.filter fun entry ↦ matchesParams texts entry params := by
  rw [View.matches, filter_held]
  refine congrArg (· ++ _) ?_
  rw [View.chunks, ← flatMap_id, flatMap_assoc]
  rfl

section Rule

variable {zstd : Zstd} {texts : Texts} {params : SearchParams} (honly : ColumnsOnly params) (now : ℤ)

include honly

/-- A chunk that can be read opens with the rows that match. -/
theorem openChunkRows_sealed (chunk : SealedChunk zstd) {start stop : ℤ}
    (hstart : params.start = some start) (hstop : params.stop = some stop) :
    ∃ reader, Reads zstd reader chunk.columns ∧ openChunkRows zstd texts now params chunk.file =
        .ok (some (reader, matchingRows chunk.columns texts params)) := by
  obtain ⟨reader, hopen, hreads⟩ := chunk.holds
  have hnone : fullTextRows zstd texts params chunk.file = .ok none := if_pos honly.query
  have hfilters := @applyColumnFilters_eq zstd texts reader chunk.columns hreads params start stop
    hstart hstop now (startRows chunk.columns.rows none) true
  refine ⟨reader, hreads, ?_⟩
  have hrows := passingOf_eq_matchingRows texts chunk honly
  rw [passingOf, foundRows, hnone, passingRows] at hrows
  simp only [openChunkRows, hnone, hopen, hreads.rows, hfilters, bind, Except.bind, reduceCtorEq,
    if_false]
  rw [hrows]

section

variable {σ : Type} {visit : σ → Reader → List ℕ → Except SearchError σ}
  {add : σ → SealedChunk zstd → σ}
  (hvisit : ∀ state reader (chunk : SealedChunk zstd), Reads zstd reader chunk.columns → visit state reader (matchingRows chunk.columns texts (scanParams now params)) = .ok (add state chunk))

include hvisit

/-- A scan over chunks that can be read is a fold, if the visitor does not fail on their columns. -/
theorem scanSegment_eq (chunks : List (SealedChunk zstd)) (state : σ) :
    scanSegment zstd texts now (scanParams now params) visit (chunks.map SealedChunk.file) state =
      chunks.foldl add state := by
  induction chunks generalizing state with
  | nil => rfl
  | cons chunk chunks ih =>
    obtain ⟨reader, hreads, hopen⟩ :=
      @openChunkRows_sealed zstd texts _ (honly.scan now) now chunk _ _ rfl rfl
    simp only [map_cons, scanSegment, hopen, hvisit state reader chunk hreads, ih, foldl_cons]

/-- The same over all segments, if none is left out. -/
theorem scanUpTo_sealed {maxScanRows : ℕ} {held : σ → ℕ} {view : View zstd} {state : σ}
    (hcomplete : (scanUpTo maxScanRows held (fun state chunks ↦
      scanSegment zstd texts now (scanParams now params) visit chunks state) view.files state).2 =
        false) :
    (scanUpTo maxScanRows held (fun state chunks ↦
      scanSegment zstd texts now (scanParams now params) visit chunks state) view.files state).1 =
        view.chunks.foldl add state := by
  rw [scanUpTo_complete hcomplete, View.files, foldl_map, View.chunks, foldl_flatten]
  simp only [scanSegment_eq honly now hvisit]

end

end Rule

theorem sparseInt64_eq {zstd : Zstd} {reader : Reader} {columns : Columns}
    (hreads : Reads zstd reader columns) {field : IntField} (hfield : field ≠ .status) :
    sparseInt64 zstd reader field = .ok (columns.int field) := by
  rw [sparseInt64, hreads.int field hfield]

theorem valueAt_eq {columns : Columns} {field : IntField} (hfield : field ≠ .status) (row : ℕ)
    (includeBody : Bool) :
    valueAt (columns.int field) row = (columns.entry row includeBody).int field := by
  simp only [valueAt, Columns.entry, if_neg hfield, getD_eq_getElem?_getD]

/-! ### Request aggregates -/

/-- The floats of the source add up whole milliseconds and queries; here they are integers, as its
counters are. -/
structure RequestAggregate where
  count : ℤ := 0
  totalDurationMs : ℤ := 0
  totalSQLCount : ℤ := 0
  cacheReads : ℤ := 0
  cacheHits : ℤ := 0
  truncated : Bool := false
  deriving DecidableEq, Repr

/-- One request more; one without a duration does not count. -/
def RequestAggregate.add (agg : RequestAggregate) (duration dbCount hits misses : Int64) :
    RequestAggregate :=
  if duration ≤ 0 then agg
  else
    { agg with
      count := agg.count + 1
      totalDurationMs := agg.totalDurationMs + duration.toInt
      totalSQLCount := agg.totalSQLCount + dbCount.toInt
      cacheHits := agg.cacheHits + hits.toInt
      cacheReads := agg.cacheReads + (hits.toInt + misses.toInt) }

/-- An aggregate under way, with the number of rows seen. -/
structure AggregateScan where
  agg : RequestAggregate := {}
  scanned : ℕ := 0

def AggregateScan.addRows (zstd : Zstd) (state : AggregateScan) (reader : Reader) (rows : List ℕ) :
    Except SearchError AggregateScan := do
  let durations ← sparseInt64 zstd reader .durationMs
  let dbCounts ← sparseInt64 zstd reader .dbCount
  let hits ← sparseInt64 zstd reader .cacheHits
  let misses ← sparseInt64 zstd reader .cacheMisses
  return rows.foldl (fun state row ↦
    ⟨state.agg.add (valueAt durations row) (valueAt dbCounts row) (valueAt hits row)
      (valueAt misses row), state.scanned + 1⟩) state

def RequestAggregate.addEntry (agg : RequestAggregate) (entry : Entry) : RequestAggregate :=
  agg.add (entry.int .durationMs) (entry.int .dbCount) (entry.int .cacheHits) (entry.int .cacheMisses)

/-- `AggregateRequests`, on the segments and WAL files that `queryView` returned. The WAL files are
not bounded. -/
def aggregateRequests (zstd : Zstd) (texts : Texts) (now : ℤ) (maxScanRows : ℕ)
    (params : SearchParams) (segments : List (List ChunkFile)) (wals : List (List Entry)) :
    RequestAggregate :=
  let scan := scanParams now params
  let scanned := scanUpTo maxScanRows AggregateScan.scanned
    (fun state chunks ↦ scanSegment zstd texts now scan (AggregateScan.addRows zstd) chunks state)
    segments {}
  if scanned.2 then { scanned.1.agg with truncated := true }
  else wals.flatten.foldl (fun agg entry ↦
    if matchesParams texts entry scan then agg.addEntry entry else agg) scanned.1.agg

/-- What `AggregateRequestSummaries` (`adapter/logstore.go`) is asked for. -/
structure AggregateFilters where
  start : Option ℤ := none
  stop : Option ℤ := none
  service : Bytes := []
  environment : Bytes := []
  endpoint : Bytes := []

def AggregateFilters.params (filters : AggregateFilters) : SearchParams :=
  { requestsOnly := true, start := filters.start, stop := filters.stop, service := filters.service,
    env := filters.environment, path := filters.endpoint }

theorem AggregateFilters.columnsOnly (filters : AggregateFilters) : ColumnsOnly filters.params :=
  ⟨rfl, rfl, rfl, rfl, rfl, rfl, rfl, rfl⟩

/-- The sums over requests that all count. -/
def requestTotals (entries : List Entry) : RequestAggregate where
  count := entries.length
  totalDurationMs := (entries.map fun entry ↦ (entry.int .durationMs).toInt).sum
  totalSQLCount := (entries.map fun entry ↦ (entry.int .dbCount).toInt).sum
  cacheHits := (entries.map fun entry ↦ (entry.int .cacheHits).toInt).sum
  cacheReads := (entries.map fun entry ↦
    (entry.int .cacheHits).toInt + (entry.int .cacheMisses).toInt).sum

theorem requestTotals_perm {entries others : List Entry} (hperm : entries.Perm others) :
    requestTotals entries = requestTotals others := by
  simp only [requestTotals, hperm.length_eq, (hperm.map _).sum_eq]

theorem addEntry_eq (agg : RequestAggregate) (entry : Entry) :
    agg.addEntry entry = if 0 < entry.int .durationMs then
      { agg with
        count := agg.count + 1
        totalDurationMs := agg.totalDurationMs + (entry.int .durationMs).toInt
        totalSQLCount := agg.totalSQLCount + (entry.int .dbCount).toInt
        cacheHits := agg.cacheHits + (entry.int .cacheHits).toInt
        cacheReads := agg.cacheReads +
          ((entry.int .cacheHits).toInt + (entry.int .cacheMisses).toInt) }
    else agg := by
  rw [RequestAggregate.addEntry, RequestAggregate.add]
  by_cases hsome : 0 < entry.int .durationMs
  · rw [if_pos hsome, if_neg (Int64.not_le.mpr hsome)]
  · rw [if_neg hsome, if_pos (Int64.not_lt.mp hsome)]

/-- Adding entries one by one adds their sums. -/
theorem foldl_addEntry (entries : List Entry) (agg : RequestAggregate) :
    entries.foldl RequestAggregate.addEntry agg =
      let totals := requestTotals (entries.filter fun entry ↦ 0 < entry.int .durationMs)
      ⟨agg.count + totals.count, agg.totalDurationMs + totals.totalDurationMs,
        agg.totalSQLCount + totals.totalSQLCount, agg.cacheReads + totals.cacheReads,
        agg.cacheHits + totals.cacheHits, agg.truncated⟩ := by
  induction entries generalizing agg with
  | nil => simp [requestTotals]
  | cons entry entries ih =>
    rw [foldl_cons, ih, addEntry_eq, filter_cons]
    by_cases hsome : 0 < entry.int .durationMs
    · simp only [hsome, if_true, decide_true, requestTotals, length_cons, map_cons,
        sum_cons, RequestAggregate.mk.injEq, and_true]
      omega
    · simp only [hsome, if_false, decide_false, Bool.false_eq_true]

section Aggregate

variable {zstd : Zstd} {texts : Texts} {params : SearchParams} (honly : ColumnsOnly params) (now : ℤ)

/-- What the visitor adds is what the entries of the rows add. -/
theorem addRows_eq {reader : Reader} {columns : Columns} (hreads : Reads zstd reader columns)
    (state : AggregateScan) (rows : List ℕ) :
    state.addRows zstd reader rows = .ok ((rows.map (columns.entry · true)).foldl
      (fun state entry ↦ ⟨state.agg.addEntry entry, state.scanned + 1⟩) state) := by
  simp only [AggregateScan.addRows, sparseInt64_eq hreads (by decide : IntField.durationMs ≠ .status),
    sparseInt64_eq hreads (by decide : IntField.dbCount ≠ .status),
    sparseInt64_eq hreads (by decide : IntField.cacheHits ≠ .status),
    sparseInt64_eq hreads (by decide : IntField.cacheMisses ≠ .status), bind, Except.bind, pure,
    Except.pure, foldl_map, RequestAggregate.addEntry,
    valueAt_eq (by decide : IntField.durationMs ≠ .status) _ true,
    valueAt_eq (by decide : IntField.dbCount ≠ .status) _ true,
    valueAt_eq (by decide : IntField.cacheHits ≠ .status) _ true,
    valueAt_eq (by decide : IntField.cacheMisses ≠ .status) _ true]

theorem agg_foldl (entries : List Entry) (state : AggregateScan) :
    (entries.foldl (fun state entry ↦ (⟨state.agg.addEntry entry, state.scanned + 1⟩ : AggregateScan))
      state).agg = entries.foldl RequestAggregate.addEntry state.agg := by
  induction entries generalizing state with
  | nil => rfl
  | cons entry entries ih => exact ih _

include honly

/-- An aggregate that is not truncated adds up every match in view. -/
theorem aggregateRequests_eq_foldl (maxScanRows : ℕ) (view : View zstd)
    (hcomplete : (aggregateRequests zstd texts now maxScanRows params view.files view.wals).truncated =
      false) :
    aggregateRequests zstd texts now maxScanRows params view.files view.wals =
      (view.matches texts (params.withDefaultRange now)).foldl RequestAggregate.addEntry {} := by
  set scan := scanParams now params with hscan
  rw [aggregateRequests] at hcomplete ⊢
  split_ifs at hcomplete ⊢ with htruncated
  rw [Bool.not_eq_true] at htruncated
  have hmatches : view.matches texts (params.withDefaultRange now) = view.matches texts scan := rfl
  rw [scanUpTo_sealed honly now (fun state reader chunk hreads ↦ addRows_eq hreads state _) htruncated,
    hmatches, matches_eq, foldl_append, foldl_filter, ← foldl_flatMap, agg_foldl]

end Aggregate

/-- Two requests, of which one has no duration. -/
def timedEntries : List Entry :=
  [(Entry.zero.setStr .kind (ascii "request")).setInt .durationMs 7,
    { Entry.zero.setStr .kind (ascii "request") with id := 1 }]

example : aggregateRequests Zstd.stored Texts.ascii 0 1
    ({ start := some 0, stop := some 0 } : AggregateFilters).params [] [timedEntries] =
      { count := 1, totalDurationMs := 7 } := by
  decide +kernel

end OpenTrace.Engine.Query
