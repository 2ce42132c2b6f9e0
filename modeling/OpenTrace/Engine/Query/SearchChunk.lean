import OpenTrace.Engine.Query.ColumnFilters
import OpenTrace.Index.File

/-!
# Searching one chunk

`searchChunk` (`store.go`) takes the rows that the full-text index finds, or all of them, narrows them
by the columns, cuts them to the rows that can reach the caller's page, puts the entries together and
applies the whole predicate to them. Without a metadata or exclusion filter the cut keeps the rows that
come first, from a heap over the `ts` column; with one the rows are walked in order until the page is
full.

`searchChunk_eq` says what comes back from a chunk that can be read. `searchChunk_keeps_page_iff` says when
the cut loses a row of the page: the columns compare identifiers without regard to case, the predicate
exactly, and the cut lies between them.
-/

namespace OpenTrace.Engine.Query

open Library Encoding Chunk List

/-- The two files of a chunk, `chunk_NNN.col` and `chunk_NNN.idx`. -/
structure ChunkFile where
  columns : Bytes
  index : Bytes

inductive SearchError
  | openIndex (cause : Index.IndexError)
  | indexSearch (cause : Index.IndexError)
  | openChunk (cause : ChunkError)
  | column (cause : ChunkError)

/-- The search without its full text, which the index has answered. -/
def SearchParams.withoutQuery (params : SearchParams) : SearchParams := { params with query := [] }

/-! ### Rows in order -/

/-- A column that is too short has no timestamp for the row. -/
def tsAt (tsValues : List Int64) (row : ℕ) : Int64 := tsValues.getD row 0

/-- The order of the heap: rows of one time by ascending row, in either direction. -/
def rowComesBefore (asc : Bool) (tsValues : List Int64) : ℕ → ℕ → Bool :=
  comesBefore asc (tsAt tsValues) fun row ↦ (row : ℤ)

/-- The order of the walk: rows of one time in the direction asked for. -/
def walksBefore (asc : Bool) (tsValues : List Int64) : ℕ → ℕ → Bool :=
  comesBefore asc (tsAt tsValues) fun row ↦ if asc then (row : ℤ) else -(row : ℤ)

/-- `sort.Ints` -/
def sortInts (rows : List ℕ) : List ℕ := rows.insertionSort (· ≤ ·)

def selectTopRows (tsValues : List Int64) (rows : List ℕ) (asc : Bool) (count : ℤ) : List ℕ :=
  if count ≤ 0 ∨ rows.length ≤ count then rows
  else sortInts (keepFirst (rowComesBefore asc tsValues) count.toNat rows)

section Search

variable (zstd : Zstd) (texts : Texts) (now : ℤ)

def topRowsByTs (reader : Reader) (rows : List ℕ) (asc : Bool) (count : ℤ) :
    Except SearchError (List ℕ) :=
  match reader.readZstdInt64 zstd .ts with
  | .error cause => .error (.column cause)
  | .ok tsValues => .ok (selectTopRows tsValues rows asc count)

def rowsInTsOrder (reader : Reader) (rows : List ℕ) (asc : Bool) : Except SearchError (List ℕ) :=
  match reader.readZstdInt64 zstd .ts with
  | .error cause => .error (.column cause)
  | .ok tsValues => .ok (sortBy (walksBefore asc tsValues) rows)

/-- The entries of rows that answer the search, until there are so many. A row that cannot be read is
skipped. -/
def materializeUntil (reader : Reader) (params : SearchParams) (includeBody : Bool) :
    ℕ → List ℕ → List Entry
  | 0, _ => []
  | _, [] => []
  | count + 1, row :: rows =>
    match fillEntryFromChunkProjected zstd reader row includeBody with
    | .error _ => materializeUntil reader params includeBody (count + 1) rows
    | .ok entry =>
      if matchesParams texts entry params then
        entry :: materializeUntil reader params includeBody count rows
      else materializeUntil reader params includeBody (count + 1) rows

/-- The entries of rows that answer the search. -/
def materialize (reader : Reader) (params : SearchParams) (includeBody : Bool) (rows : List ℕ) :
    List Entry :=
  rows.filterMap fun row ↦
    match fillEntryFromChunkProjected zstd reader row includeBody with
    | .error _ => none
    | .ok entry => if matchesParams texts entry params then some entry else none

/-- The rows that the index finds for the full text; `none` without one. -/
def fullTextRows (params : SearchParams) (chunk : ChunkFile) :
    Except SearchError (Option (List ℕ)) :=
  if params.query = [] then .ok none
  else
    match Index.openReader chunk.index with
    | .error cause => .error (.openIndex cause)
    | .ok index =>
      match index.search zstd texts.unicode params.query with
      | .error cause => .error (.indexSearch cause)
      | .ok rows => .ok (some rows)

/-- The rows that the column filters start from. The index's rows go through a map. -/
def startRows (entryCount : ℕ) : Option (List ℕ) → List ℕ
  | none => range entryCount
  | some rows => sortInts rows.dedup

/-- The reader and the rows left by the column filters; `none` when the full text is not found. -/
def openChunkRows (params : SearchParams) (chunk : ChunkFile) :
    Except SearchError (Option (Reader × List ℕ)) := do
  let candidates ← fullTextRows zstd texts params chunk
  if candidates = some [] then return none
  match openReader chunk.columns with
  | .error cause => .error (.openChunk cause)
  | .ok reader =>
    match applyColumnFilters zstd texts reader now params (startRows reader.entryCount candidates) with
    | .error cause => .error (.column cause)
    | .ok rows => .ok (some (reader, rows))

/-- What `searchChunk` does with the rows that are left. -/
def readRows (params : SearchParams) (reader : Reader) (rows : List ℕ) :
    Except SearchError (List Entry) := do
  let filterParams := params.withoutQuery
  let limit := params.offset + params.limit
  let postFilter := needsPostReadFilter filterParams
  let rows ← if 0 < limit ∧ limit < rows.length ∧ !postFilter then
      topRowsByTs zstd reader rows params.sortAsc limit
    else .ok rows
  if 0 < limit ∧ postFilter ∧ limit < rows.length then
    let rows ← rowsInTsOrder zstd reader rows params.sortAsc
    return materializeUntil zstd texts reader filterParams true limit.toNat rows
  return materialize zstd texts reader filterParams (!params.omitBody) rows

def searchChunk (params : SearchParams) (chunk : ChunkFile) : Except SearchError (List Entry) := do
  match ← openChunkRows zstd texts now params chunk with
  | none => return []
  | some (reader, rows) =>
    if rows = [] then return []
    readRows zstd texts params reader rows

end Search

/-! ### Chunks that can be read -/

/-- The column file opens, and its columns read as given. -/
def ChunkFile.Holds (zstd : Zstd) (chunk : ChunkFile) (columns : Columns) : Prop :=
  ∃ reader, openReader chunk.columns = .ok reader ∧ Reads zstd reader columns

/-- A chunk as sealing leaves it: it can be read, and its rows have ascending IDs, since the WAL has. -/
structure SealedChunk (zstd : Zstd) where
  file : ChunkFile
  columns : Columns
  holds : file.Holds zstd columns
  ascending : ∀ row other, row < other → other < columns.rows →
    (columns.entry row true).id < (columns.entry other true).id

/-- The entries of a chunk. -/
def chunkEntries (columns : Columns) : List Entry := (range columns.rows).map (columns.entry · true)

/-- The predicate on a row that passed the columns. -/
def postKeep (texts : Texts) (params : SearchParams) (entry : Entry) : Bool :=
  idsMatch params entry && matchesMetadata texts entry params.metadataFilter &&
    matchesExclude texts entry params.exclude

section

variable (columns : Columns) (texts : Texts) (params : SearchParams)

/-- The rows that pass the index and the columns. -/
def passingRows
    (candidates : Option (List ℕ)) : List ℕ :=
  (startRows columns.rows candidates).filter fun row ↦
    row < columns.rows && columnsKeep texts params (columns.entry row true)

/-- What a search finds in a chunk, given the rows that pass the index and the columns. -/
def chunkAnswer (passing : List ℕ) : List Entry :=
  let limit := params.offset + params.limit
  if needsPostReadFilter params ∧ 0 < limit ∧ limit < passing.length then
    (((sortBy (walksBefore params.sortAsc columns.ts) passing).map (columns.entry · true)).filter
      (postKeep texts params)).take limit.toNat
  else
    let rows := if needsPostReadFilter params then passing
      else selectTopRows columns.ts passing params.sortAsc limit
    (rows.map (columns.entry · !params.omitBody)).filter (postKeep texts params)

end

section Answer

variable {zstd : Zstd} {texts : Texts} {reader : Reader} {columns : Columns}

/-- Past the index and the columns, the predicate without the full text is `postKeep`. -/
theorem matchesParams_of_passes {params : SearchParams} {row : ℕ} {includeBody : Bool}
    (hpasses : columnsKeep texts params (columns.entry row true) = true) :
    matchesParams texts (columns.entry row includeBody) params.withoutQuery =
      postKeep texts params (columns.entry row includeBody) := by
  have hkeep : columnsKeep texts params.withoutQuery (columns.entry row includeBody) = true :=
    hpasses
  rw [matchesParams_eq, hkeep]
  rfl

variable (hreads : Reads zstd reader columns)

include hreads

theorem materialize_eq {params : SearchParams} {rows : List ℕ}
    (hrows : ∀ row ∈ rows, columnsKeep texts params (columns.entry row true) = true)
    (includeBody : Bool) :
    materialize zstd texts reader params.withoutQuery includeBody rows =
      (rows.map (columns.entry · includeBody)).filter (postKeep texts params) := by
  induction rows with
  | nil => rfl
  | cons row rows ih =>
    have hrest := ih fun other hother ↦ hrows other (mem_cons_of_mem _ hother)
    have hrow := @matchesParams_of_passes texts columns params row includeBody
      (hrows row (mem_cons_self ..))
    rw [materialize, filterMap_cons, hreads.fillEntryFromChunkProjected_eq] at *
    simp only [hrow, map_cons, filter_cons]
    split_ifs
    · exact congrArg _ hrest
    · exact hrest

variable {params : SearchParams}

theorem materializeUntil_eq {rows : List ℕ}
    (hrows : ∀ row ∈ rows, columnsKeep texts params (columns.entry row true) = true)
    (includeBody : Bool) (count : ℕ) :
    materializeUntil zstd texts reader params.withoutQuery includeBody count rows =
      ((rows.map (columns.entry · includeBody)).filter (postKeep texts params)).take count := by
  rw [← materialize_eq hreads hrows]
  clear hrows
  induction rows generalizing count with
  | nil => cases count <;> rfl
  | cons row rows ih =>
    cases count with
    | zero => rfl
    | succ count =>
      simp only [materialize] at ih
      rw [materializeUntil, materialize, filterMap_cons, hreads.fillEntryFromChunkProjected_eq]
      dsimp only
      split_ifs <;> simp [ih]

omit hreads in
theorem mem_passing {candidates : Option (List ℕ)} {row : ℕ} :
    row ∈ passingRows columns texts params candidates ↔
      row ∈ startRows columns.rows candidates ∧ row < columns.rows ∧
        columnsKeep texts params (columns.entry row true) = true := by
  simp only [passingRows, mem_filter, Bool.and_eq_true, decide_eq_true_eq]

omit hreads in
theorem selectTopRows_subset (tsValues : List Int64) (rows : List ℕ) (asc : Bool) (count : ℤ) :
    selectTopRows tsValues rows asc count ⊆ rows := by
  unfold selectTopRows
  split_ifs
  · exact Subset.refl rows
  · intro row hrow
    obtain ⟨dropped, hkept⟩ := @exists_kept ℕ _ count.toNat
      (ranks_comesBefore asc (tsAt tsValues) fun row ↦ (row : ℤ)) rows
    refine hkept.perm.mem_iff.mp (mem_append_left _ ?_)
    exact (perm_insertionSort _ _).mem_iff.mp hrow

theorem readRows_eq {rows : List ℕ}
    (hrows : ∀ row ∈ rows, columnsKeep texts params (columns.entry row true) = true) :
    readRows zstd texts params reader rows = .ok (chunkAnswer columns texts params rows) := by
  have hpost : needsPostReadFilter params.withoutQuery = needsPostReadFilter params := rfl
  have hmaterialize := fun rows hrows ↦
    @materialize_eq zstd texts reader columns hreads params rows hrows (!params.omitBody)
  simp only [readRows, hpost, topRowsByTs, rowsInTsOrder, hreads.ts, bind, Except.bind, pure,
    Except.pure, chunkAnswer]
  by_cases hneeds : needsPostReadFilter params
  · simp only [hneeds, Bool.not_true, Bool.false_eq_true, and_false, if_false, true_and, if_true]
    by_cases hcut : 0 < params.offset + params.limit ∧ params.offset + params.limit < rows.length
    · simp only [hcut, and_self, if_true]
      rw [materializeUntil_eq hreads fun row hrow ↦ hrows row (mem_sortBy.mp hrow)]
    · simp only [hcut, if_false, hmaterialize rows hrows]
  · rw [Bool.not_eq_true] at hneeds
    simp only [hneeds, Bool.not_false, Bool.false_eq_true, false_and, and_false, if_false, and_true]
    by_cases hcut : 0 < params.offset + params.limit ∧ params.offset + params.limit < rows.length
    · simp only [hcut, and_self, if_true]
      rw [hmaterialize _ fun row hrow ↦ hrows row (selectTopRows_subset _ _ _ _ hrow)]
    · have hall : selectTopRows columns.ts rows params.sortAsc (params.offset + params.limit) =
          rows := by
        rw [selectTopRows, if_pos (by omega)]
      simp only [hcut, if_false, hmaterialize rows hrows, hall]

omit hreads in
theorem answer_nil (params : SearchParams) : chunkAnswer columns texts params [] = [] := by
  have hnone : ¬ (0 < params.offset + params.limit ∧
      params.offset + params.limit < ([] : List ℕ).length) := by
    simp only [length_nil]
    omega
  have hall : selectTopRows columns.ts [] params.sortAsc (params.offset + params.limit) = [] := by
    rw [selectTopRows, if_pos (by simp only [length_nil]; omega)]
  simp only [chunkAnswer, hnone, and_false, if_false, hall, ite_self, map_nil, filter_nil]

omit hreads in
/-- What a search finds in a chunk that can be read, with an index that can be searched. -/
theorem searchChunk_eq {chunk : ChunkFile} (hholds : chunk.Holds zstd columns) {start stop : ℤ}
    (hstart : params.start = some start) (hstop : params.stop = some stop)
    {candidates : Option (List ℕ)} (hfound : fullTextRows zstd texts params chunk = .ok candidates)
    (now : ℤ) :
    searchChunk zstd texts now params chunk =
      .ok (chunkAnswer columns texts params (passingRows columns texts params candidates)) := by
  obtain ⟨reader, hopen, hreads⟩ := hholds
  have hfilters := @applyColumnFilters_eq zstd texts reader columns hreads params start stop
    hstart hstop now (startRows columns.rows candidates) true
  simp only [searchChunk, openChunkRows, hfound, hopen, hreads.rows, hfilters, bind, Except.bind,
    pure, Except.pure]
  by_cases hnothing : candidates = some []
  · subst hnothing
    exact congrArg Except.ok (answer_nil params).symm
  · simp only [hnothing, if_false]
    rw [← passingRows]
    split_ifs with hnone
    · rw [hnone, answer_nil]
    · exact readRows_eq hreads fun row hrow ↦ (mem_passing.mp hrow).2.2

end Answer

/-! ### The cut -/

variable {rows : List ℕ} (asc : Bool)

theorem nodup_sortInts (hnodup : rows.Nodup) : (sortInts rows).Nodup :=
  (perm_insertionSort _ rows).nodup_iff.mpr hnodup

theorem nodup_startRows (entryCount : ℕ) (candidates : Option (List ℕ)) :
    (startRows entryCount candidates).Nodup := by
  cases candidates with
  | none => exact nodup_range
  | some rows => exact nodup_sortInts (nodup_dedup rows)

theorem nodup_passingRows (columns : Columns) (texts : Texts) (params : SearchParams)
    (candidates : Option (List ℕ)) : (passingRows columns texts params candidates).Nodup :=
  (nodup_startRows _ _).filter _

theorem separates_rowComesBefore (tsValues : List Int64) (rows : List ℕ) :
    Separates (rowComesBefore asc tsValues) rows :=
  separates_comesBefore asc _ fun _ _ _ _ ↦ Int.ofNat_inj.mp

section

variable {tsValues : List Int64} {rows : List ℕ} (hnodup : rows.Nodup) (asc : Bool)

include hnodup

/-- The rows of the heap are those that fewer than `count` rows come before. -/
theorem mem_selectTopRows {count : ℤ} (hcount : 0 < count) {row : ℕ} :
    row ∈ selectTopRows tsValues rows asc count ↔
      row ∈ rows ∧ rows.countP (rowComesBefore asc tsValues · row) < count := by
  have hranks := ranks_comesBefore asc (tsAt tsValues) fun row ↦ (row : ℤ)
  unfold selectTopRows
  split_ifs with hall
  · refine ⟨fun hrow ↦ ⟨hrow, ?_⟩, And.left⟩
    have hshort : rows.countP (rowComesBefore asc tsValues · row) < rows.length := by
      refine countP_lt_length_iff.mpr ⟨row, hrow, ?_⟩
      rw [Bool.eq_false_iff]
      exact fun hself ↦ hranks.asymm hself hself
    omega
  · have hkept := @keepFirst_perm ℕ _ count.toNat hranks rows
      (separates_rowComesBefore asc tsValues rows)
    have hsorted := perm_insertionSort (· ≤ ·)
      (keepFirst (rowComesBefore asc tsValues) count.toNat rows)
    rw [sortInts, (hsorted.trans hkept).mem_iff, mem_topBy hranks hnodup
      (separates_rowComesBefore asc tsValues rows)]
    refine and_congr_right fun _ ↦ ?_
    change rows.countP (rowComesBefore asc tsValues · row) < count.toNat ↔ _
    omega

/-- The heap cuts the rows. -/
theorem cuts_selectTopRows (count : ℤ) :
    Cuts (rowComesBefore asc tsValues) count.toNat (selectTopRows tsValues rows asc count) rows := by
  have hranks := ranks_comesBefore asc (tsAt tsValues) fun row ↦ (row : ℤ)
  have hseparates := separates_rowComesBefore asc tsValues rows
  unfold selectTopRows
  split_ifs
  · exact Cuts.refl hnodup
  · exact cuts_of_perm_topBy hranks hnodup hseparates
      ((perm_insertionSort _ _).trans (keepFirst_perm hranks hseparates))

end

/-- The heap selects the rows that sorting puts first, and gives them back in ascending order. -/
theorem selectTopRows_eq_sort {rows : List ℕ} (hrows : rows.Pairwise (· < ·)) {count : ℤ}
    (hcount : 1 ≤ count) (tsValues : List Int64) (asc : Bool) :
    (selectTopRows tsValues rows asc count).Perm
        ((sortBy (rowComesBefore asc tsValues) rows).take count.toNat) ∧
      (selectTopRows tsValues rows asc count).Pairwise (· < ·) := by
  unfold selectTopRows
  split_ifs with hall
  · have hlength : (sortBy (rowComesBefore asc tsValues) rows).length = rows.length := length_sortBy rows
    rw [take_of_length_le (by omega)]
    exact ⟨(sortBy_perm rows).symm, hrows⟩
  · have hkept : (keepFirst (rowComesBefore asc tsValues) count.toNat rows).Perm _ :=
      keepFirst_perm (ranks_comesBefore asc _ _) (separates_rowComesBefore asc tsValues rows)
    have hperm := (perm_insertionSort (· ≤ ·) _).trans hkept
    have hnodup := hperm.nodup_iff.mpr (nodup_topBy (hrows.imp Nat.ne_of_lt) _)
    refine ⟨hperm, ((pairwise_insertionSort (· ≤ ·) _).and hnodup).imp fun hle ↦ ?_⟩
    exact Nat.lt_of_le_of_ne hle.1 hle.2

theorem selectTopRows_eq_sort_witness : (selectTopRows [5, 7, 5] [0, 1, 2, 4] true 2).Perm
      ((sortBy (rowComesBefore true [5, 7, 5]) [0, 1, 2, 4]).take 2) :=
  (selectTopRows_eq_sort (by decide) (by decide) _ _).1

section Sealed

variable {zstd : Zstd} (chunk : SealedChunk zstd)

variable {row other : ℕ}

section

variable (hrow : row < chunk.columns.rows) (hother : other < chunk.columns.rows)

include hrow hother

theorem id_lt_iff (includeBody includeOther : Bool) :
    (chunk.columns.entry row includeBody).id.toInt < (chunk.columns.entry other includeOther).id.toInt ↔
      (row : ℤ) < other := by
  have hlt : ∀ first second, first < second → second < chunk.columns.rows →
      (chunk.columns.entry first true).id.toInt < (chunk.columns.entry second true).id.toInt :=
    fun first second hfirst hsecond ↦
      Int64.lt_iff_toInt_lt.mp (chunk.ascending first second hfirst hsecond)
  change (chunk.columns.entry row true).id.toInt < (chunk.columns.entry other true).id.toInt ↔ _
  rcases Nat.lt_trichotomy row other with hbefore | rfl | hafter
  · have := hlt row other hbefore hother
    omega
  · omega
  · have := hlt other row hafter hrow
    omega

/-- Rows with the same ID are the same row. -/
theorem row_eq_of_entry_eq {includeBody : Bool}
    (hentry : chunk.columns.entry row includeBody = chunk.columns.entry other includeBody) :
    row = other := by
  have hless := id_lt_iff chunk hrow hother includeBody includeBody
  have hmore := id_lt_iff chunk hother hrow includeBody includeBody
  rw [hentry] at hless hmore
  omega

end

/-- Rows are in the order of their entries. -/
theorem rowComesBefore_eq (asc : Bool) (hrow : row < chunk.columns.rows)
    (hother : other < chunk.columns.rows) (includeBody : Bool) :
    rowComesBefore asc chunk.columns.ts row other =
      entryComesBefore asc (chunk.columns.entry row includeBody)
        (chunk.columns.entry other includeBody) := by
  have hid := id_lt_iff chunk hrow hother includeBody includeBody
  simp only [entryComesBefore, comesBefore]
  rw [decide_eq_decide.mpr hid]
  rfl

section

variable (columns : Columns) (texts : Texts) (params : SearchParams)

/-- The rows whose entry answers the search. -/
def matchingRows : List ℕ :=
  (range columns.rows).filter fun row ↦ matchesParams texts (columns.entry row true) params

/-- The rows of them that reach the page, in the order of `Search`. -/
def pageRows : List ℕ :=
  topBy (fun row other ↦ entryComesBefore params.sortAsc (columns.entry row true)
    (columns.entry other true)) (params.offset + params.limit).toNat (matchingRows columns texts params)

end

theorem matchingRows_lt {columns : Columns} {texts : Texts} {params : SearchParams} {row : ℕ}
    (hrow : row ∈ matchingRows columns texts params) : row < columns.rows :=
  mem_range.mp (mem_of_mem_filter hrow)

/-- A search without metadata and exclusion filters gets every row of its page from a chunk exactly if
the index finds each of them, and fewer than `offset + limit` rows come before it that pass the filters
up to the case of the identifiers. Assumes: an index that can be searched. -/
theorem searchChunk_keeps_page_iff (texts : Texts) (now start stop : ℤ) {params : SearchParams}
    (hstart : params.start = some start) (hstop : params.stop = some stop)
    (hmetadata : params.metadataFilter = []) (hexclude : params.exclude = [])
    {candidates : Option (List ℕ)}
    (hfound : fullTextRows zstd texts params chunk.file = .ok candidates) :
    (∃ entries, searchChunk zstd texts now params chunk.file = .ok entries ∧
        ∀ row ∈ pageRows chunk.columns texts params,
          chunk.columns.entry row (!params.omitBody) ∈ entries) ↔
      ∀ row ∈ pageRows chunk.columns texts params, row ∈ startRows chunk.columns.rows candidates ∧
        (passingRows chunk.columns texts params candidates).countP (fun other ↦
          entryComesBefore params.sortAsc (chunk.columns.entry other true)
            (chunk.columns.entry row true)) < params.offset + params.limit := by
  have hneeds : needsPostReadFilter params = false := by
    simp [needsPostReadFilter, hmetadata, hexclude]
  set columns := chunk.columns with hcolumns
  set passing := passingRows columns texts params candidates with hpassing
  have hanswer : chunkAnswer columns texts params passing =
      ((selectTopRows columns.ts passing params.sortAsc (params.offset + params.limit)).map
        (columns.entry · !params.omitBody)).filter (postKeep texts params) := by
    simp [chunkAnswer, hneeds]
  simp only [searchChunk_eq chunk.holds hstart hstop hfound now, Except.ok.injEq, exists_eq_left',
    ← hcolumns, ← hpassing, hanswer]
  refine forall₂_congr fun row hrow ↦ ?_
  have hpage : row ∈ matchingRows columns texts params := topBy_subset _ _ hrow
  have hbound : row < columns.rows := matchingRows_lt hpage
  have hcount : 0 < params.offset + params.limit := by
    have hlength := length_pos_of_mem hrow
    rw [pageRows, length_topBy] at hlength
    omega
  have hmatches := (mem_filter.mp hpage).2
  simp only [matchesParams_eq, Bool.and_eq_true] at hmatches
  obtain ⟨⟨⟨⟨hkeep, -⟩, hids⟩, -⟩, -⟩ := hmatches
  have hpost : postKeep texts params (columns.entry row !params.omitBody) = true := by
    have hids' : idsMatch params (columns.entry row !params.omitBody) = true := hids
    simp [postKeep, hids', matchesMetadata, matchesExclude, hmetadata, hexclude]
  have hselected : columns.entry row (!params.omitBody) ∈
      ((selectTopRows columns.ts passing params.sortAsc (params.offset + params.limit)).map
        (columns.entry · !params.omitBody)).filter (postKeep texts params) ↔
      row ∈ selectTopRows columns.ts passing params.sortAsc (params.offset + params.limit) := by
    rw [mem_filter, mem_map]
    constructor
    · rintro ⟨⟨other, hother, hentry⟩, -⟩
      have hlt := (mem_passing.mp (selectTopRows_subset _ _ _ _ hother)).2.1
      rwa [← row_eq_of_entry_eq chunk hlt hbound hentry]
    · exact fun hmem ↦ ⟨⟨row, hmem, rfl⟩, hpost⟩
  have horder : passing.countP (rowComesBefore params.sortAsc columns.ts · row) =
      passing.countP fun other ↦ entryComesBefore params.sortAsc (columns.entry other true)
        (columns.entry row true) :=
    countP_congr fun other hother ↦ by
      rw [rowComesBefore_eq chunk params.sortAsc (mem_passing.mp hother).2.1 hbound true]
  rw [hselected, mem_selectTopRows (nodup_passingRows ..) params.sortAsc hcount, horder, mem_passing]
  exact ⟨fun hleft ↦ ⟨hleft.1.1, hleft.2⟩, fun hright ↦ ⟨⟨hright.1, hbound, hkeep⟩, hright.2⟩⟩

end Sealed

/-! ### A row that is lost -/

theorem Columnar.setStr {entry : Entry} (hentry : Columnar entry) (field : StrField) {value : Bytes}
    (hvalue : value.length ≤ maxColumnValueBytes) : Columnar (entry.setStr field value) := by
  refine ⟨fun other ↦ ?_, hentry.int⟩
  by_cases hsame : other = field
  · subst hsame
    simpa [Entry.setStr] using hvalue
  · simpa [Entry.setStr, Function.update_of_ne hsame] using hentry.str other

/-- Entries with ascending IDs make a sealed chunk, with any index. -/
theorem exists_sealedChunk {entries : List Entry} (hcount : entries.length ≤ 1000)
    (hentries : ∀ entry ∈ entries, Columnar entry)
    (hbodies : ∀ entry ∈ entries, entry.body.length ≤ maxColumnValueBytes) (hne : entries ≠ [])
    (hids : entries.Pairwise fun first second ↦ first.id < second.id) (index : Bytes) :
    ∃ chunk : SealedChunk Zstd.stored,
      chunk.columns = writtenColumns entries ∧ chunk.file.index = index := by
  obtain ⟨file, reader, -, hopened, hreads⟩ := exists_reads_stored hcount hentries hbodies hne
  have hid : ∀ row (hrow : row < entries.length),
      ((writtenColumns entries).entry row true).id = entries[row].id := by
    intro row hrow
    simp [Columns.entry, writtenColumns, extractInt64, hrow]
  refine ⟨⟨⟨file, index⟩, writtenColumns entries, ⟨reader, hopened, hreads⟩, ?_⟩, rfl, rfl⟩
  intro row other hlt hother
  rw [hid row (hlt.trans hother), hid other hother]
  exact pairwise_iff_getElem.mp hids row other _ hother hlt

/-- An entry with an ID and a trace. -/
def traced (id : Int64) (trace : Bytes) : Entry := { Entry.zero with id := id }.setStr .traceID trace

/-- Two traces that differ in case. -/
def casedEntries : List Entry := [traced 1 (ascii "A"), traced 2 (ascii "a")]

def casedSearch : SearchParams :=
  { traceID := ascii "a", start := some 0, stop := some 0, limit := 1 }

theorem exists_casedChunk : ∃ chunk : SealedChunk Zstd.stored,
    chunk.columns = writtenColumns casedEntries := by
  obtain ⟨chunk, hcolumns, -⟩ := @exists_sealedChunk casedEntries (by decide) (by
    intro entry hentry
    simp only [casedEntries, mem_cons, not_mem_nil, or_false] at hentry
    rcases hentry with rfl | rfl
    all_goals exact Columnar.setStr ⟨fun _ ↦ Nat.zero_le _, fun _ ↦ Int64.le_refl 0⟩ _ (by decide))
    (by decide) (by decide) (by decide) []
  exact ⟨chunk, hcolumns⟩

/-- The only row of the page is not in the answer: the row before it, whose trace differs in case,
took its place in the cut and was then refused. -/
theorem id_filter_loses_row : ∃ chunk : SealedChunk Zstd.stored,
    pageRows chunk.columns Texts.ascii casedSearch = [1] ∧
      searchChunk Zstd.stored Texts.ascii 0 casedSearch chunk.file = .ok [] := by
  obtain ⟨chunk, hcolumns⟩ := exists_casedChunk
  refine ⟨chunk, ?_, ?_⟩
  · rw [hcolumns]
    decide +kernel
  · rw [searchChunk_eq chunk.holds rfl rfl rfl, hcolumns]
    refine congrArg Except.ok ?_
    decide +kernel

/-- The search for the other trace gets its row. -/
theorem searchChunk_keeps_page_iff_witness : ∃ chunk : SealedChunk Zstd.stored,
    pageRows chunk.columns Texts.ascii { casedSearch with traceID := ascii "A" } = [0] ∧
      ∃ entries, searchChunk Zstd.stored Texts.ascii 0 { casedSearch with traceID := ascii "A" }
          chunk.file = .ok entries ∧
        ∀ row ∈ pageRows chunk.columns Texts.ascii { casedSearch with traceID := ascii "A" },
          chunk.columns.entry row true ∈ entries := by
  obtain ⟨chunk, hcolumns⟩ := exists_casedChunk
  have hpage : pageRows (writtenColumns casedEntries) Texts.ascii
      { casedSearch with traceID := ascii "A" } = [0] := by decide +kernel
  refine ⟨chunk, by rw [hcolumns, hpage], (searchChunk_keeps_page_iff chunk Texts.ascii 0 0 0 rfl rfl
    rfl rfl rfl).mpr ?_⟩
  rw [hcolumns]
  decide +kernel

end OpenTrace.Engine.Query
