import OpenTrace.Engine.ChunkRow
import OpenTrace.Engine.Query.Params

/-!
# Filtering the rows of a chunk by its columns

`applyColumnFilters` narrows a set of row numbers column by column, without putting an entry together
(`store.go`). It decides every filter of a search but three: the full text, which the index answers,
and the metadata and exclusion filters. The identifiers are compared without regard to case here and
exactly by `matchesParams`.

`Columns` holds what the columns of a readable chunk decode to, and `Columns.entry` is the entry that
a row of them makes.
-/

namespace OpenTrace.Engine.Query

open Library Encoding Chunk List
open Index (messageMatchesQuery)

/-! ### The filters -/

section Filters

variable (zstd : Zstd) (texts : Texts) (reader : Reader)

def hasColumn (field : StrField) : Bool := (reader.lookup (ascii field.name)).isSome

/-- A dictionary column. Only the environment has a value that answers every filter. -/
def filterByColumn (rows : List ℕ) (filter : StrField × Bytes) : Except ChunkError (List ℕ) :=
  if filter.2 = [] then .ok rows
  else do
    let values ← match filter.1.columnType with
      | .dictBitpack => reader.readDictBitpack (.str filter.1)
      | .dictZstd => reader.readDictZstd zstd (.str filter.1)
      | _ => return rows
    return rows.filter fun row ↦ (values[row]?).any fun stored ↦
      (filter.1 = .env && stored = []) || texts.equalFold stored filter.2

def filterBySparseColumn (rows : List ℕ) (filter : StrField × Bytes) : Except ChunkError (List ℕ) :=
  if filter.2 = [] then .ok rows
  else if !hasColumn reader filter.1 then .ok []
  else do
    let values ← reader.readSparseStrings zstd (.str filter.1)
    return rows.filter fun row ↦ (values[row]?).any (texts.equalFold · filter.2)

/-- A search without a start begins at the epoch, one without an end ends now. -/
def filterByTimeRange (now : ℤ) (start stop : Option ℤ) (rows : List ℕ) :
    Except ChunkError (List ℕ) := do
  let values ← reader.readZstdInt64 zstd .ts
  let startMs := (start.map unixMilli).getD 0
  let stopMs := unixMilli (stop.getD now)
  return rows.filter fun row ↦ (values[row]?).any fun ts ↦ startMs ≤ ts.toInt && ts.toInt ≤ stopMs

/-- `keepRows`: the row numbers are filtered in place. -/
def keepRows (rows : List ℕ) (keep : ℕ → Bool) : List ℕ := compact keep rows

/-- The filters below end the scan when no row is left: `none`. -/
def orDone (rows : List ℕ) : Option (List ℕ) := if rows = [] then none else some rows

/-- One of the `strFilters`. -/
def strFilter (field : StrField) (value : Bytes) (accepts : Bytes → Bytes → Bool)
    (rows : List ℕ) : Except ChunkError (Option (List ℕ)) :=
  if value = [] then .ok (some rows)
  else if !hasColumn reader field then .ok none
  else do
    let values ← reader.readSparseStrings zstd (.str field)
    return orDone (keepRows rows fun row ↦ (values[row]?).any (accepts · value))

/-- One of the `intFilters`. -/
def intFilter (field : IntField) (least : Int64) (rows : List ℕ) :
    Except ChunkError (Option (List ℕ)) :=
  if least ≤ 0 then .ok (some rows)
  else do
    let values ← reader.readSparseInt64 zstd (.int field)
    return orDone (keepRows rows fun row ↦ ((values[row]?).getD none).any (least ≤ ·))

def nPlusOneFilter (only : Bool) (rows : List ℕ) : Except ChunkError (Option (List ℕ)) :=
  if !only then .ok (some rows)
  else do
    let values ← reader.readSparseBool .nPlusOne
    return orDone (keepRows rows fun row ↦ (values[row]?).getD none = some true)

def sinceFilter (sinceID : Int64) (rows : List ℕ) : Except ChunkError (Option (List ℕ)) :=
  if sinceID ≤ 0 then .ok (some rows)
  else do
    let values ← reader.readDeltaInt64 zstd .id
    return orDone (keepRows rows fun row ↦ (values[row]?).any (sinceID < ·))

/-- `isRequestEntry`, on the columns it reads. -/
def filterRequestRows (rows : List ℕ) : Except ChunkError (List ℕ) := do
  let kinds ← reader.readDictZstd zstd (.str .kind)
  let eventTypes ← reader.readSparseStrings zstd (.str .eventType)
  let durations ← reader.readSparseInt64 zstd (.int .durationMs)
  let methods ← reader.readSparseStrings zstd (.str .method)
  let paths ← reader.readSparseStrings zstd (.str .path)
  let handlers ← reader.readSparseStrings zstd (.str .handler)
  return keepRows rows fun row ↦
    texts.equalFold (kinds.getD row []) (ascii "request") ||
      texts.equalFold (eventTypes.getD row []) (ascii "http.request") ||
      (((durations[row]?).getD none).any (0 < ·) &&
        (methods.getD row [] ≠ [] || paths.getD row [] ≠ [] || handlers.getD row [] ≠ []))

def requestFilter (only : Bool) (rows : List ℕ) : Except ChunkError (Option (List ℕ)) :=
  if only then (filterRequestRows zstd texts reader rows).map some else .ok (some rows)

/-- The filters one after another, until one of them ends the scan. -/
def narrow : List (List ℕ → Except ChunkError (Option (List ℕ))) → List ℕ →
    Except ChunkError (List ℕ)
  | [], rows => .ok rows
  | step :: steps, rows => do
    match ← step rows with
    | none => return []
    | some rows => narrow steps rows

section

variable (params : SearchParams)

/-- A search for positive durations asks for at least a millisecond. -/
def leastDuration : Int64 :=
  if params.positiveDurationOnly ∧ params.minDurationMs ≤ 0 then 1 else params.minDurationMs

def applyScalarColumnFilters : List ℕ → Except ChunkError (List ℕ) :=
  narrow
    [strFilter zstd reader .tenantID params.tenantID texts.equalFold,
      strFilter zstd reader .sourceFile params.sourceFile texts.equalFold,
      strFilter zstd reader .version params.commitHash texts.equalFold,
      strFilter zstd reader .method params.method texts.equalFold,
      strFilter zstd reader .path params.path (containsFold texts),
      strFilter zstd reader .handler params.handler (handlerMatches texts),
      intFilter zstd reader .durationMs (leastDuration params),
      intFilter zstd reader .dbCount params.minSQLCount,
      nPlusOneFilter reader params.nPlusOneOnly,
      sinceFilter zstd reader params.sinceID,
      requestFilter zstd texts reader params.requestsOnly]

def dictFilters : List (StrField × Bytes) :=
  [(.level, params.level), (.service, params.service), (.env, params.env)]

def sparseFilters : List (StrField × Bytes) :=
  [(.traceID, params.traceID), (.requestID, params.requestID), (.userID, params.userID),
    (.eventType, params.eventType), (.errorClass, params.errorClass),
    (.errorFingerprint, params.errorFingerprint)]

end

def applyColumnFilters (now : ℤ) (params : SearchParams) (rows : List ℕ) :
    Except ChunkError (List ℕ) := do
  let rows ← (dictFilters params).foldlM (filterByColumn zstd texts reader) rows
  let rows ← (sparseFilters params).foldlM (filterBySparseColumn zstd texts reader) rows
  let rows ← if params.start.isSome || params.stop.isSome then
      filterByTimeRange zstd reader now params.start params.stop rows
    else pure rows
  applyScalarColumnFilters zstd texts reader params rows

end Filters

/-- The filters as one predicate on the entry of a row. -/
def columnsKeep (texts : Texts) (params : SearchParams) (entry : Entry) : Bool :=
  wants params.level (texts.equalFold (entry.str .level) params.level) &&
  wants params.service (texts.equalFold (entry.str .service) params.service) &&
  wants params.env (entry.str .env = [] || texts.equalFold (entry.str .env) params.env) &&
  wants params.traceID (texts.equalFold (entry.str .traceID) params.traceID) &&
  wants params.requestID (texts.equalFold (entry.str .requestID) params.requestID) &&
  wants params.userID (texts.equalFold (entry.str .userID) params.userID) &&
  wants params.eventType (texts.equalFold (entry.str .eventType) params.eventType) &&
  wants params.errorClass (texts.equalFold (entry.str .errorClass) params.errorClass) &&
  wants params.errorFingerprint
    (texts.equalFold (entry.str .errorFingerprint) params.errorFingerprint) &&
  params.start.all (fun start ↦ unixMilli start ≤ entry.ts.toInt) &&
  params.stop.all (fun stop ↦ entry.ts.toInt ≤ unixMilli stop) &&
  wants params.tenantID (texts.equalFold (entry.str .tenantID) params.tenantID) &&
  wants params.sourceFile (texts.equalFold (entry.str .sourceFile) params.sourceFile) &&
  wants params.commitHash (texts.equalFold (entry.str .version) params.commitHash) &&
  wants params.method (texts.equalFold (entry.str .method) params.method) &&
  wants params.path (containsFold texts (entry.str .path) params.path) &&
  wants params.handler (handlerMatches texts (entry.str .handler) params.handler) &&
  (leastDuration params ≤ 0 || leastDuration params ≤ entry.int .durationMs) &&
  (params.minSQLCount ≤ 0 || params.minSQLCount ≤ entry.int .dbCount) &&
  (!params.nPlusOneOnly || entry.nPlusOne = some true) &&
  (params.sinceID ≤ 0 || params.sinceID < entry.id) &&
  (!params.requestsOnly || isRequestEntry texts entry)

/-! ### Columns with a value for every row -/

theorem length_readFixed {α : Type} (width : ℕ) (ofNat : ℕ → α) (count : ℕ) (raw : Bytes) :
    (readFixed width ofNat count raw).length = count := by
  induction count generalizing raw with
  | zero => rfl
  | succ count ih =>
    rw [readFixed]
    split_ifs
    · rw [length_replicate]
    · rw [length_cons, ih]

variable {reader : Reader} {column : Column} {zstd : Zstd} (texts : Texts)

/-- A column that is missing has a value for every row, and so has one that its decoder fills up. -/
theorem length_readWith {α : Type} {missing : α} {decode : Bytes → Except ChunkError (List α)}
    {values : List α} (hread : reader.readWith column missing decode = .ok values)
    (hdecode : ∀ data values, decode data = .ok values → values.length = reader.entryCount) :
    values.length = reader.entryCount := by
  rw [Reader.readWith] at hread
  split at hread
  · cases hread
  · cases hread
    rw [length_replicate]
  · exact hdecode _ _ hread

theorem length_readZstdInt64 {values : List Int64}
    (hread : reader.readZstdInt64 zstd column = .ok values) :
    values.length = reader.entryCount := by
  refine length_readWith hread fun data values hdecode ↦ ?_
  rw [zstdBlockDecodeInt64] at hdecode
  split at hdecode
  · cases hdecode
  · cases hdecode
    exact length_readFixed ..

theorem length_readDictZstd {values : List Bytes}
    (hread : reader.readDictZstd zstd column = .ok values) : values.length = reader.entryCount := by
  refine length_readWith hread fun data values hdecode ↦ ?_
  cases hdict : dictUnmarshal zstd reader.lenFormat data reader.entryCount with
  | error cause =>
    rw [hdict] at hdecode
    cases hdecode
  | ok encoded =>
    rw [hdict] at hdecode
    cases hdecode
    rw [dictLookup, length_map]
    unfold dictUnmarshal at hdict
    split at hdict
    · cases hdict
    · split_ifs at hdict
      split at hdict
      · cases hdict
      · split at hdict
        · cases hdict
        · split at hdict
          · cases hdict
          · cases hdict
            exact length_readFixed ..

/-- A column that the chunk does not have holds no value. -/
theorem readSparseStrings_of_missing {field : StrField}
    (hmissing : hasColumn reader field = false) :
    reader.readSparseStrings zstd (.str field) = .ok (replicate reader.entryCount []) := by
  rw [hasColumn, Option.isSome_eq_false_iff, Option.isNone_iff_eq_none] at hmissing
  rw [Reader.readSparseStrings, Reader.readWith, Reader.readColumnRaw]
  simp only [Column.name, hmissing]

/-! ### What the filters keep -/

section Steps

variable {zstd : Zstd} {texts : Texts} {reader : Reader} {columns : Columns}

theorem foldlM_filter {filter : List ℕ → StrField × Bytes → Except ChunkError (List ℕ)}
    {keep : StrField × Bytes → ℕ → Bool} {filters : List (StrField × Bytes)}
    (hfilter : ∀ entry ∈ filters, ∀ rows, filter rows entry = .ok (rows.filter (keep entry)))
    (rows : List ℕ) :
    filters.foldlM filter rows = .ok (rows.filter fun row ↦ filters.all fun entry ↦ keep entry row) := by
  induction filters generalizing rows with
  | nil => simp [pure, Except.pure]
  | cons entry filters ih =>
    rw [foldlM_cons, hfilter entry (mem_cons_self ..)]
    simp only [bind, Except.bind]
    rw [ih fun other hother ↦ hfilter other (mem_cons_of_mem _ hother), filter_filter]
    refine congrArg Except.ok (filter_congr fun row _ ↦ ?_)
    rw [all_cons, Bool.and_comm]

/-- The step keeps these rows, or ends the scan when there are none. -/
def Keeps (step : List ℕ → Except ChunkError (Option (List ℕ))) (keep : ℕ → Bool) : Prop :=
  ∀ rows, ∃ result, step rows = .ok result ∧ result.getD [] = rows.filter keep

theorem narrow_eq {steps : List (List ℕ → Except ChunkError (Option (List ℕ)))}
    {keeps : List (ℕ → Bool)} (hsteps : Forall₂ Keeps steps keeps) (rows : List ℕ) :
    narrow steps rows = .ok (rows.filter fun row ↦ keeps.all (· row)) := by
  induction hsteps generalizing rows with
  | nil => simp [narrow]
  | @cons step keep steps keeps hstep _ ih =>
    obtain ⟨result, hresult, hrows⟩ := hstep rows
    rw [narrow, hresult]
    have hsplit : (rows.filter fun row ↦ (keep :: keeps).all (· row)) =
        (rows.filter keep).filter fun row ↦ keeps.all (· row) := by
      rw [filter_filter]
      exact filter_congr fun row _ ↦ by rw [all_cons, Bool.and_comm]
    cases result with
    | none =>
      rw [hsplit, ← hrows]
      rfl
    | some kept =>
      rw [hsplit, ← hrows]
      exact ih _

variable (rows : List ℕ) (includeBody : Bool) {field : StrField} (value : Bytes)
  (params : SearchParams)

theorem getD_orDone (keep : ℕ → Bool) :
    (orDone (keepRows rows keep)).getD [] = rows.filter keep := by
  rw [keepRows, compact_eq_filter, orDone]
  split_ifs with hnone
  · exact hnone.symm
  · rfl

variable (hreads : Reads zstd reader columns)

include hreads

theorem length_ts : columns.ts.length = columns.rows := by
  rw [← hreads.rows]
  exact length_readZstdInt64 hreads.ts

theorem length_env : (columns.str .env).length = columns.rows := by
  rw [← hreads.rows]
  exact length_readDictZstd (hreads.str .env)

omit hreads in
/-- A filter on strings that refuses the empty one keeps the rows whose entry has an accepted
value. -/
theorem any_str {accepts : Bytes → Bool} (hempty : accepts [] = false) (field : StrField)
    (row : ℕ) (includeBody : Bool) :
    ((columns.str field)[row]?).any accepts =
      accepts ((columns.entry row includeBody).str field) := by
  simp only [Columns.entry, getD_eq_getElem?_getD]
  cases (columns.str field)[row]? with
  | none => exact hempty.symm
  | some value => rfl

omit hreads in
/-- An integer filter with a positive bound refuses rows without a value. -/
theorem any_int {least : Int64} (hleast : 0 < least) {field : IntField} (hstatus : field ≠ .status)
    (row : ℕ) (includeBody : Bool) :
    (((columns.int field)[row]?).getD none).any (least ≤ ·) =
      decide (least ≤ (columns.entry row includeBody).int field) := by
  simp only [Columns.entry, if_neg hstatus, getD_eq_getElem?_getD]
  cases ((columns.int field)[row]?).getD none with
  | none => simpa using Int64.not_le.mpr hleast
  | some value => simp

theorem filterByColumn_eq {field : StrField} (hfield : field = .level ∨ field = .service)
    (value : Bytes) (rows : List ℕ) (includeBody : Bool) :
    filterByColumn zstd texts reader rows (field, value) = .ok (rows.filter fun row ↦ wants value
        (texts.equalFold ((columns.entry row includeBody).str field) value)) := by
  by_cases hvalue : value = []
  · simp [filterByColumn, wants, hvalue]
  · rw [filterByColumn]
    have hempty : texts.equalFold [] value = false := equalFold_nil_left _ hvalue
    have hread := hreads.str field
    rcases hfield with rfl | rfl
    all_goals
      rw [readStrColumn] at hread
      simp only [hread, wants, hvalue]
      exact congrArg Except.ok (filter_congr fun row _ ↦ any_str hempty _ row includeBody)

/-- Rows without an environment answer every environment filter; there is one for every row. -/
theorem filterByColumn_env_eq (value : Bytes) (rows : List ℕ) (includeBody : Bool) :
    filterByColumn zstd texts reader rows (.env, value) =
      .ok (rows.filter fun row ↦ wants value (row < columns.rows &&
        ((columns.entry row includeBody).str .env = [] ||
          texts.equalFold ((columns.entry row includeBody).str .env) value))) := by
  by_cases hvalue : value = []
  · simp [filterByColumn, wants, hvalue]
  · rw [filterByColumn]
    have hread := hreads.str .env
    rw [readStrColumn] at hread
    simp only [hread, wants, hvalue]
    refine congrArg Except.ok (filter_congr fun row _ ↦ ?_)
    rw [← length_env hreads]
    simp only [Columns.entry, getD_eq_getElem?_getD]
    cases hrow : (columns.str .env)[row]? with
    | none => simp [getElem?_eq_none_iff.mp hrow]
    | some stored => simp [(List.getElem?_eq_some_iff.mp hrow).1]

theorem readSparseStrings_of_reads
    (htype : field.columnType = .sparseString ∨ field.columnType = .sparseDictZstd) :
    reader.readSparseStrings zstd (.str field) = .ok (columns.str field) := by
  rw [← hreads.str field]
  cases field
  case level | service | env | kind | message => simp [StrField.columnType] at htype
  all_goals rfl

section

variable {field : StrField}
  (htype : field.columnType = .sparseString ∨ field.columnType = .sparseDictZstd)

include htype

/-- Without its column, no row has a value of the field. -/
theorem str_eq_nil_of_missing (hmissing : hasColumn reader field = false) (row : ℕ)
    (includeBody : Bool) : (columns.entry row includeBody).str field = [] := by
  have hcolumn := readSparseStrings_of_reads hreads htype
  rw [readSparseStrings_of_missing hmissing, Except.ok.injEq] at hcolumn
  simp only [Columns.entry, ← hcolumn, getD_eq_getElem?_getD, getElem?_replicate]
  split_ifs <;> rfl

theorem filterBySparseColumn_eq (value : Bytes) (rows : List ℕ) (includeBody : Bool) :
    filterBySparseColumn zstd texts reader rows (field, value) =
      .ok (rows.filter fun row ↦ wants value
        (texts.equalFold ((columns.entry row includeBody).str field) value)) := by
  by_cases hvalue : value = []
  · simp [filterBySparseColumn, wants, hvalue]
  · have hempty : texts.equalFold [] value = false := equalFold_nil_left _ hvalue
    rw [filterBySparseColumn]
    simp only [wants, hvalue]
    by_cases hcolumn : hasColumn reader field
    · simp only [hcolumn, readSparseStrings_of_reads hreads htype]
      exact congrArg Except.ok (filter_congr fun row _ ↦ any_str hempty _ row includeBody)
    · rw [Bool.not_eq_true] at hcolumn
      simp only [hcolumn]
      refine congrArg Except.ok (filter_eq_nil_iff.mpr fun row _ ↦ ?_).symm
      rw [str_eq_nil_of_missing hreads htype hcolumn, hempty]
      exact Bool.false_ne_true

end

theorem filterByTimeRange_eq (now start stop : ℤ) (rows : List ℕ) (includeBody : Bool) :
    filterByTimeRange zstd reader now (some start) (some stop) rows =
      .ok (rows.filter fun row ↦ row < columns.rows &&
        (unixMilli start ≤ (columns.entry row includeBody).ts.toInt &&
          (columns.entry row includeBody).ts.toInt ≤ unixMilli stop)) := by
  rw [filterByTimeRange, hreads.ts, ← length_ts hreads]
  refine congrArg Except.ok (filter_congr fun row _ ↦ ?_)
  simp only [Columns.entry, getD_eq_getElem?_getD]
  cases hrow : columns.ts[row]? with
  | none => simp [getElem?_eq_none_iff.mp hrow]
  | some ts => simp [(List.getElem?_eq_some_iff.mp hrow).1]

theorem keeps_strFilter {field : StrField} (htype : field.columnType = .sparseString ∨
    field.columnType = .sparseDictZstd) {value : Bytes} {accepts : Bytes → Bytes → Bool}
    (hempty : value ≠ [] → accepts [] value = false) (includeBody : Bool) :
    Keeps (strFilter zstd reader field value accepts) fun row ↦
      wants value (accepts ((columns.entry row includeBody).str field) value) := by
  intro rows
  by_cases hvalue : value = []
  · exact ⟨some rows, by rw [strFilter, if_pos hvalue], by simp [wants, hvalue]⟩
  · simp only [wants, hvalue, decide_false, Bool.false_or]
    by_cases hcolumn : hasColumn reader field
    · have haccepts : ∀ row, ((columns.str field)[row]?).any (accepts · value) =
          accepts ((columns.entry row includeBody).str field) value :=
        fun row ↦ any_str (hempty hvalue) field row includeBody
      refine ⟨_, ?_, getD_orDone rows _⟩
      simp only [strFilter, if_neg hvalue, hcolumn, Bool.not_true, Bool.false_eq_true, if_false,
        readSparseStrings_of_reads hreads htype, bind, Except.bind, pure, Except.pure, haccepts]
    · rw [Bool.not_eq_true] at hcolumn
      refine ⟨none, by rw [strFilter, if_neg hvalue, hcolumn]; rfl, ?_⟩
      refine (filter_eq_nil_iff.mpr fun row _ ↦ ?_).symm
      rw [str_eq_nil_of_missing hreads htype hcolumn, hempty hvalue]
      exact Bool.false_ne_true

theorem keeps_intFilter {field : IntField} (hstatus : field ≠ .status) (least : Int64)
    (includeBody : Bool) :
    Keeps (intFilter zstd reader field least) fun row ↦
      (least ≤ 0 || least ≤ (columns.entry row includeBody).int field) := by
  intro rows
  by_cases hleast : least ≤ 0
  · exact ⟨some rows, by rw [intFilter, if_pos hleast], by simp [hleast]⟩
  · simp only [hleast, decide_false, Bool.false_or]
    refine ⟨_, ?_, getD_orDone rows _⟩
    simp only [intFilter, if_neg hleast, hreads.int field hstatus, bind, Except.bind, pure,
      Except.pure, any_int (Int64.not_le.mp hleast) hstatus _ includeBody]

theorem keeps_nPlusOneFilter (only includeBody : Bool) :
    Keeps (nPlusOneFilter reader only) fun row ↦
      (!only || (columns.entry row includeBody).nPlusOne = some true) := by
  intro rows
  cases only with
  | false => exact ⟨some rows, rfl, by simp⟩
  | true =>
    refine ⟨_, ?_, getD_orDone rows _⟩
    simp only [nPlusOneFilter, Bool.not_true, Bool.false_eq_true, if_false, hreads.nPlusOne, bind,
      Except.bind, pure, Except.pure, Columns.entry, getD_eq_getElem?_getD, Bool.false_or]

/-- An ID that is missing reads as zero, which no cursor lies below. -/
theorem keeps_sinceFilter (sinceID : Int64) (includeBody : Bool) :
    Keeps (sinceFilter zstd reader sinceID) fun row ↦
      (sinceID ≤ 0 || sinceID < (columns.entry row includeBody).id) := by
  intro rows
  by_cases hsince : sinceID ≤ 0
  · exact ⟨some rows, by rw [sinceFilter, if_pos hsince], by simp [hsince]⟩
  · have hvalue : ∀ row, ((columns.id)[row]?).any (sinceID < ·) =
        (sinceID < (columns.entry row includeBody).id : Bool) := by
      intro row
      simp only [Columns.entry, getD_eq_getElem?_getD]
      cases columns.id[row]? with
      | none => simpa using Int64.le_of_lt (Int64.not_le.mp hsince)
      | some id => rfl
    simp only [hsince, decide_false, Bool.false_or]
    refine ⟨_, ?_, getD_orDone rows _⟩
    simp only [sinceFilter, if_neg hsince, hreads.id, bind, Except.bind, pure, Except.pure, hvalue]

theorem keeps_requestFilter (only includeBody : Bool) :
    Keeps (requestFilter zstd texts reader only) fun row ↦
      (!only || isRequestEntry texts (columns.entry row includeBody)) := by
  intro rows
  cases only with
  | false => exact ⟨some rows, rfl, by simp⟩
  | true =>
    have hkind := hreads.str .kind
    rw [readStrColumn] at hkind
    have hduration : ∀ row, (((columns.int .durationMs)[row]?).getD none).any (0 < ·) =
        (0 < (columns.entry row includeBody).int .durationMs : Bool) := by
      intro row
      simp only [Columns.entry, getD_eq_getElem?_getD]
      cases ((columns.int .durationMs)[row]?).getD none with
      | none => rfl
      | some value => rfl
    refine ⟨some _, ?_, rfl⟩
    simp only [requestFilter, filterRequestRows, hkind,
      readSparseStrings_of_reads hreads (.inl rfl : StrField.path.columnType = _ ∨ _),
      readSparseStrings_of_reads hreads (.inr rfl : _ ∨ StrField.eventType.columnType = _),
      readSparseStrings_of_reads hreads (.inr rfl : _ ∨ StrField.method.columnType = _),
      readSparseStrings_of_reads hreads (.inr rfl : _ ∨ StrField.handler.columnType = _),
      hreads.int .durationMs (by decide), bind, Except.bind, keepRows, compact_eq_filter, hduration]
    rfl

omit hreads in
theorem containsFold_nil {value : Bytes} (hvalue : value ≠ []) :
    containsFold texts [] value = false :=
  contains_nil (toLower_ne_nil texts.unicode hvalue)

omit hreads in
theorem handlerMatches_nil {value : Bytes} (hvalue : value ≠ []) :
    handlerMatches texts [] value = false := by
  have hempty : texts.equalFold [] value = false := equalFold_nil_left _ hvalue
  simp [handlerMatches, hempty, index, ascii]

section

variable (params : SearchParams) (includeBody : Bool) (rows : List ℕ)

theorem keeps_scalar :
    applyScalarColumnFilters zstd texts reader params rows = .ok (rows.filter fun row ↦ all
        [fun entry : Entry ↦ wants params.tenantID (texts.equalFold (entry.str .tenantID) params.tenantID),
          fun entry ↦ wants params.sourceFile (texts.equalFold (entry.str .sourceFile) params.sourceFile),
          fun entry ↦ wants params.commitHash (texts.equalFold (entry.str .version) params.commitHash),
          fun entry ↦ wants params.method (texts.equalFold (entry.str .method) params.method),
          fun entry ↦ wants params.path (containsFold texts (entry.str .path) params.path),
          fun entry ↦ wants params.handler (handlerMatches texts (entry.str .handler) params.handler),
          fun entry ↦ leastDuration params ≤ 0 || leastDuration params ≤ entry.int .durationMs,
          fun entry ↦ params.minSQLCount ≤ 0 || params.minSQLCount ≤ entry.int .dbCount,
          fun entry ↦ !params.nPlusOneOnly || entry.nPlusOne = some true,
          fun entry ↦ params.sinceID ≤ 0 || params.sinceID < entry.id,
          fun entry ↦ !params.requestsOnly || isRequestEntry texts entry]
        (· (columns.entry row includeBody))) := by
  have hfold : ∀ value : Bytes, value ≠ [] → texts.equalFold [] value = false :=
    fun value ↦ equalFold_nil_left _
  refine (narrow_eq (.cons (keeps_strFilter hreads (.inr rfl) (hfold _) includeBody)
    (.cons (keeps_strFilter hreads (.inl rfl) (hfold _) includeBody)
    (.cons (keeps_strFilter hreads (.inr rfl) (hfold _) includeBody)
    (.cons (keeps_strFilter hreads (.inr rfl) (hfold _) includeBody)
    (.cons (keeps_strFilter hreads (.inl rfl) containsFold_nil includeBody)
    (.cons (keeps_strFilter hreads (.inr rfl) handlerMatches_nil includeBody)
    (.cons (keeps_intFilter hreads (by decide) _ includeBody)
    (.cons (keeps_intFilter hreads (by decide) _ includeBody)
    (.cons (keeps_nPlusOneFilter hreads _ includeBody)
    (.cons (keeps_sinceFilter hreads _ includeBody)
    (.cons (keeps_requestFilter hreads _ includeBody) .nil))))))))))) rows).trans ?_
  rfl

theorem foldlM_dictFilters : (dictFilters params).foldlM (filterByColumn zstd texts reader) rows =
      .ok (rows.filter fun row ↦ wants params.env (row < columns.rows &&
          ((columns.entry row includeBody).str .env = [] ||
            texts.equalFold ((columns.entry row includeBody).str .env) params.env)) &&
        (wants params.service
            (texts.equalFold ((columns.entry row includeBody).str .service) params.service) &&
          wants params.level
            (texts.equalFold ((columns.entry row includeBody).str .level) params.level))) := by
  simp only [dictFilters, foldlM_cons, foldlM_nil,
    filterByColumn_eq hreads (.inl rfl) _ _ includeBody,
    filterByColumn_eq hreads (.inr rfl) _ _ includeBody,
    filterByColumn_env_eq hreads _ _ includeBody, bind, Except.bind, pure, Except.pure,
    filter_filter]

theorem foldlM_sparseFilters :
    (sparseFilters params).foldlM (filterBySparseColumn zstd texts reader) rows =
      .ok (rows.filter fun row ↦ (sparseFilters params).all fun filter ↦ wants filter.2
        (texts.equalFold ((columns.entry row includeBody).str filter.1) filter.2)) := by
  have htypes : ∀ field ∈ [StrField.traceID, .requestID, .userID, .eventType, .errorClass,
      .errorFingerprint], field.columnType = .sparseString ∨ field.columnType = .sparseDictZstd := by
    decide
  refine @foldlM_filter _ (fun filter row ↦ wants filter.2
    (texts.equalFold ((columns.entry row includeBody).str filter.1) filter.2)) _ ?_ rows
  intro filter hfilter rows
  exact filterBySparseColumn_eq hreads
    (htypes filter.1 (mem_map_of_mem (f := Prod.fst) hfilter)) filter.2 rows includeBody

end

/-- The column filters keep the rows whose entry passes `columnsKeep`. -/
theorem applyColumnFilters_eq {params : SearchParams} {start stop : ℤ}
    (hstart : params.start = some start) (hstop : params.stop = some stop) (now : ℤ) (rows : List ℕ)
    (includeBody : Bool) :
    applyColumnFilters zstd texts reader now params rows =
      .ok (rows.filter fun row ↦ row < columns.rows &&
        columnsKeep texts params (columns.entry row includeBody)) := by
  simp only [applyColumnFilters, foldlM_dictFilters hreads params includeBody,
    foldlM_sparseFilters hreads params includeBody, hstart, hstop, Option.isSome_some, Bool.or_self,
    if_true, filterByTimeRange_eq hreads now start stop _ includeBody,
    keeps_scalar hreads params includeBody, bind, Except.bind, filter_filter]
  refine congrArg Except.ok (filter_congr fun row _ ↦ ?_)
  by_cases hrow : row < columns.rows
  · rw [Bool.eq_iff_iff]
    simp only [all_cons, all_nil, sparseFilters, columnsKeep, hrow, hstart, hstop,
      Option.all_some, decide_true, Bool.true_and, Bool.and_true, Bool.and_eq_true]
    tauto
  · simp [hrow]

end Steps

/-! ### The filters and the predicate -/

/-- The identifiers, compared exactly. -/
def idsMatch (params : SearchParams) (entry : Entry) : Bool :=
  wants params.traceID (entry.str .traceID = params.traceID) &&
  wants params.requestID (entry.str .requestID = params.requestID) &&
  wants params.userID (entry.str .userID = params.userID) &&
  wants params.errorFingerprint (entry.str .errorFingerprint = params.errorFingerprint) &&
  wants params.tenantID (entry.str .tenantID = params.tenantID)

theorem wants_of_eq {value stored : Bytes} (hwants : wants value (decide (stored = value)) = true) :
    wants value (texts.equalFold stored value) = true := by
  simp only [wants, Bool.or_eq_true, decide_eq_true_eq] at hwants ⊢
  rcases hwants with hoff | rfl
  · exact .inl hoff
  · exact .inr (equalFold_self ..)

/-- The two duration filters are one. -/
theorem leastDuration_iff (params : SearchParams) (duration : Int64) :
    (leastDuration params ≤ 0 || leastDuration params ≤ duration) = true ↔
      (params.minDurationMs ≤ 0 || params.minDurationMs ≤ duration) = true ∧
        (!params.positiveDurationOnly || 0 < duration) = true := by
  simp only [leastDuration, Int64.le_iff_toInt_le, Int64.lt_iff_toInt_lt]
  cases params.positiveDurationOnly <;> split_ifs with hleast <;> simp_all <;> omega

/-- What decides a search besides the columns: the full text, the exact identifiers, the metadata
and the exclusions. -/
theorem matchesParams_eq (params : SearchParams) (entry : Entry) :
    matchesParams texts entry params = (columnsKeep texts params entry &&
        wants params.query (messageMatchesQuery texts.unicode (entry.str .message) params.query) &&
        idsMatch params entry && matchesMetadata texts entry params.metadataFilter &&
        matchesExclude texts entry params.exclude) := by
  rw [Bool.eq_iff_iff]
  simp only [matchesParams, columnsKeep, idsMatch, Bool.and_eq_true, and_assoc, leastDuration_iff]
  constructor
  · rintro ⟨hservice, hlevel, henv, htrace, hrequest, huser, hevent, hclass, hfingerprint, htenant,
      hfile, hcommit, hsince, hmethod, hpath, honly, hhandler, hduration, hpositive, hcount, hnPlusOne,
      hquery, hmetadata, hexclude, hstart, hstop⟩
    exact ⟨hlevel, hservice, henv, wants_of_eq texts htrace, wants_of_eq texts hrequest,
      wants_of_eq texts huser, hevent, hclass, wants_of_eq texts hfingerprint, hstart, hstop,
      wants_of_eq texts htenant, hfile, hcommit, hmethod, hpath, hhandler, hduration, hpositive, hcount,
      hnPlusOne, hsince, honly, hquery, htrace, hrequest, huser, hfingerprint, htenant, hmetadata,
      hexclude⟩
  · rintro ⟨hlevel, hservice, henv, -, -, -, hevent, hclass, -, hstart, hstop, -, hfile, hcommit,
      hmethod, hpath, hhandler, hduration, hpositive, hcount, hnPlusOne, hsince, honly, hquery, htrace,
      hrequest, huser, hfingerprint, htenant, hmetadata, hexclude⟩
    exact ⟨hservice, hlevel, henv, htrace, hrequest, huser, hevent, hclass, hfingerprint, htenant,
      hfile, hcommit, hsince, hmethod, hpath, honly, hhandler, hduration, hpositive, hcount, hnPlusOne,
      hquery, hmetadata, hexclude, hstart, hstop⟩

/-- The search has no filter that the columns cannot decide. -/
structure ColumnsOnly (params : SearchParams) : Prop where
  query : params.query = []
  metadataFilter : params.metadataFilter = []
  exclude : params.exclude = []
  traceID : params.traceID = []
  requestID : params.requestID = []
  userID : params.userID = []
  tenantID : params.tenantID = []
  errorFingerprint : params.errorFingerprint = []

theorem matchesParams_of_columnsOnly {params : SearchParams} (honly : ColumnsOnly params)
    (entry : Entry) :
    matchesParams texts entry params = columnsKeep texts params entry := by
  rw [matchesParams_eq]
  simp [wants, idsMatch, matchesMetadata, matchesExclude, honly.query, honly.metadataFilter,
    honly.exclude, honly.traceID, honly.requestID, honly.userID, honly.tenantID,
    honly.errorFingerprint]

/-- The column filters decide like the predicate on entries. Assumes: a readable chunk, a search with
both time bounds and no filter that the columns cannot decide. -/
theorem columnFilters_decide_like_matchesParams {zstd : Zstd} {reader : Reader}
    (hreadable : Readable zstd reader) (texts : Texts) (now : ℤ) {params : SearchParams}
    (hstart : params.start.isSome) (hstop : params.stop.isSome) (honly : ColumnsOnly params) :
    ∃ materialised : ℕ → Entry,
      (∀ row, fillEntryFromChunk zstd reader row = .ok (materialised row)) ∧
      applyColumnFilters zstd texts reader now params (range reader.entryCount) =
        .ok ((range reader.entryCount).filter fun row ↦
          matchesParams texts (materialised row) params) := by
  obtain ⟨columns, hreads⟩ := hreadable
  obtain ⟨start, hstart⟩ := Option.isSome_iff_exists.mp hstart
  obtain ⟨stop, hstop⟩ := Option.isSome_iff_exists.mp hstop
  refine ⟨fun row ↦ columns.entry row true, fun row ↦ hreads.fillEntryFromChunkProjected_eq row true,
    ?_⟩
  rw [applyColumnFilters_eq hreads hstart hstop now _ true]
  refine congrArg Except.ok (filter_congr fun row hrow ↦ ?_)
  have hbound : row < columns.rows := hreads.rows ▸ mem_range.mp hrow
  rw [matchesParams_of_columnsOnly texts honly, decide_eq_true hbound, Bool.true_and]

theorem columnFilters_decide_like_matchesParams_witness :
    ∃ reader, Readable Zstd.stored reader ∧ ∃ materialised : ℕ → Entry,
      (∀ row, fillEntryFromChunk Zstd.stored reader row = .ok (materialised row)) ∧
      applyColumnFilters Zstd.stored Texts.ascii reader 0 { start := some 0, stop := some 0 }
          (range reader.entryCount) =
        .ok ((range reader.entryCount).filter fun row ↦
          matchesParams Texts.ascii (materialised row) { start := some 0, stop := some 0 }) := by
  have hcolumnar : ∀ entry ∈ leveledEntries.take 2, Columnar entry := fun entry hentry ↦
    (fromWal_leveledEntries entry (mem_of_mem_take hentry)).columnar
  have hbodies : ∀ entry ∈ leveledEntries.take 2, entry.body.length ≤ maxColumnValueBytes := by
    intro entry hentry
    obtain ⟨level, -, rfl⟩ := mem_map.mp (mem_of_mem_take hentry)
    exact Nat.zero_le _
  obtain ⟨file, reader, -, -, hreads⟩ := exists_reads_stored
    ((length_take_le _ _).trans (by decide)) hcolumnar hbodies (by decide)
  exact ⟨reader, ⟨_, hreads⟩, columnFilters_decide_like_matchesParams ⟨_, hreads⟩ Texts.ascii 0 rfl rfl
    ⟨rfl, rfl, rfl, rfl, rfl, rfl, rfl, rfl⟩⟩

end OpenTrace.Engine.Query
