import OpenTrace.Engine.Query.Search

/-!
# What Search answers

`reference` is what a search asks for: all entries in view that match, in order, cut to the page. For a
search whose filters the columns decide, `Search` returns it, without the bodies if it was asked to omit
them. The three cuts on the way (the heap over a chunk's rows, the cut of each segment, the heap over the
WAL files) lose no entry of the page.

The total is another matter: it counts what is left of each chunk after the cut.
-/

namespace OpenTrace.Engine.Query

open Library Encoding Chunk List

/-- All entries in view that match, in the order asked for, without the first `offset`, at most
`limit`. -/
def reference {zstd : Zstd} (texts : Texts) (params : SearchParams) (view : View zstd) : List Entry :=
  ((sortBy (entryComesBefore params.sortAsc)
    (view.held.filter fun entry ↦ matchesParams texts entry params)).drop params.offset.toNat).take
      params.limit.toNat

section Chunk

variable {zstd : Zstd} (texts : Texts) {params : SearchParams} (chunk : SealedChunk zstd)

theorem filter_chunkEntries (columns : Columns) :
    (chunkEntries columns).filter (fun entry ↦ matchesParams texts entry params) =
      (matchingRows columns texts params).map (columns.entry · true) := by
  rw [chunkEntries, filter_map]
  rfl

theorem nodup_passingOf : (passingOf texts params chunk).Nodup := nodup_passingRows ..

theorem passingOf_lt {row : ℕ} (hrow : row ∈ passingOf texts params chunk) :
    row < chunk.columns.rows :=
  (mem_passing.mp hrow).2.1

/-- The rows before a row are those whose entries come before its entry. -/
theorem countP_rowComesBefore {row : ℕ} (hrow : row ∈ passingOf texts params chunk) :
    (passingOf texts params chunk).countP (rowComesBefore params.sortAsc chunk.columns.ts · row) =
      (passingOf texts params chunk).countP fun other ↦ entryComesBefore params.sortAsc
        (chunk.columns.entry other true) (chunk.columns.entry row true) :=
  countP_congr fun other hother ↦ by
    rw [rowComesBefore_eq chunk params.sortAsc (passingOf_lt texts chunk hother)
      (passingOf_lt texts chunk hrow) true]

/-- Without a post-read filter, and if the identifiers of the rows that pass are exact, what a chunk
contributes is a cut of the rows that pass. -/
theorem cuts_answerOf (hneeds : needsPostReadFilter params = false)
    (hexact : ∀ row ∈ passingOf texts params chunk,
      idsMatch params (chunk.columns.entry row true) = true) :
    Cuts (entryComesBefore params.sortAsc) (params.offset + params.limit).toNat
      (answerOf texts params chunk)
      ((passingOf texts params chunk).map (chunk.columns.entry · !params.omitBody)) := by
  have hkeep : ∀ row ∈ passingOf texts params chunk,
      postKeep texts params (chunk.columns.entry row !params.omitBody) = true := by
    intro row hrow
    have hids : idsMatch params (chunk.columns.entry row !params.omitBody) = true := hexact row hrow
    simp only [needsPostReadFilter, Bool.or_eq_false_iff, decide_eq_false_iff_not, not_not] at hneeds
    simp [postKeep, hids, matchesMetadata, matchesExclude, hneeds.1, hneeds.2]
  have hanswer : answerOf texts params chunk =
      (selectTopRows chunk.columns.ts (passingOf texts params chunk) params.sortAsc
        (params.offset + params.limit)).map (chunk.columns.entry · !params.omitBody) := by
    simp only [answerOf, chunkAnswer, hneeds]
    refine filter_eq_self.mpr fun entry hentry ↦ ?_
    obtain ⟨row, hrow, rfl⟩ := mem_map.mp hentry
    exact hkeep row (selectTopRows_subset _ _ _ _ hrow)
  rw [hanswer]
  refine (cuts_selectTopRows (nodup_passingOf texts chunk) params.sortAsc _).map ?_ ?_
  · exact fun row hrow other hother ↦ row_eq_of_entry_eq chunk (passingOf_lt texts chunk hrow)
      (passingOf_lt texts chunk hother)
  · exact fun row hrow other hother ↦ (rowComesBefore_eq chunk params.sortAsc
      (passingOf_lt texts chunk hrow) (passingOf_lt texts chunk hother) _).symm

/-- With filters that the columns decide, the rows that pass are the rows that match. -/
theorem passingOf_eq_matchingRows (honly : ColumnsOnly params) :
    passingOf texts params chunk = matchingRows chunk.columns texts params := by
  have hnone : foundRows texts params chunk = none := by
    rw [foundRows, fullTextRows, if_pos honly.query]
  rw [passingOf, hnone]
  refine filter_congr fun row hrow ↦ ?_
  rw [matchesParams_of_columnsOnly texts honly, decide_eq_true (mem_range.mp hrow), Bool.true_and]

end Chunk

theorem ColumnsOnly.needsPostReadFilter {params : SearchParams} (honly : ColumnsOnly params) :
    needsPostReadFilter params = false := by
  simp [Query.needsPostReadFilter, honly.metadataFilter, honly.exclude]

theorem ColumnsOnly.clamp {params : SearchParams} (honly : ColumnsOnly params) (now : ℤ) :
    ColumnsOnly (clampParams now params) :=
  ⟨honly.query, honly.metadataFilter, honly.exclude, honly.traceID, honly.requestID, honly.userID,
    honly.tenantID, honly.errorFingerprint⟩

theorem clampParams_limit_pos (now : ℤ) (params : SearchParams) : 0 < (clampParams now params).limit := by
  simp only [clampParams]
  split_ifs
  · omega
  · omega

theorem ColumnsOnly.idsMatch {params : SearchParams} (honly : ColumnsOnly params) (entry : Entry) :
    idsMatch params entry = true := by
  simp [Query.idsMatch, wants, honly.traceID, honly.requestID, honly.userID, honly.tenantID,
    honly.errorFingerprint]

/-- The entries in view that match, source by source. -/
theorem filter_held {zstd : Zstd} (texts : Texts) (params : SearchParams) (view : View zstd) :
    view.held.filter (fun entry ↦ matchesParams texts entry params) =
      view.segments.flatMap (flatMap fun chunk ↦
        (matchingRows chunk.columns texts params).map (chunk.columns.entry · true)) ++
      view.wals.flatten.filter fun entry ↦ matchesParams texts entry params := by
  rw [View.held, filter_append, filter_flatMap]
  refine congrArg (· ++ _) (flatMap_congr fun chunks _ ↦ ?_)
  rw [filter_flatMap]
  exact flatMap_congr fun chunk _ ↦ filter_chunkEntries texts chunk.columns

/-- A search whose filters the columns decide returns the page it asks for, without the bodies if it
asked to omit them. Assumes: entries with different IDs in view, an offset that is not negative. -/
theorem search_eq_reference {zstd : Zstd} (texts : Texts) (now : ℤ) {params : SearchParams}
    (honly : ColumnsOnly params) (hoffset : 0 ≤ params.offset) (view : View zstd)
    (hids : (view.held.map Entry.id).Nodup) :
    (search zstd texts now params view.files view.wals).entries =
      (reference texts (clampParams now params) view).map (projected params.omitBody) := by
  set clamped := clampParams now params with hclamped
  have hclampedOnly : ColumnsOnly clamped := honly.clamp now
  have hneeds := hclampedOnly.needsPostReadFilter
  have hsources : view.segments.flatMap (flatMap fun chunk ↦
        (passingOf texts clamped chunk).map (chunk.columns.entry · !clamped.omitBody)) ++
      view.walMatches texts clamped =
      (view.held.filter fun entry ↦ matchesParams texts entry clamped).map
        (projected clamped.omitBody) := by
    rw [filter_held, map_append, map_flatMap]
    refine congrArg₂ (· ++ ·) (flatMap_congr fun chunks _ ↦ ?_) ?_
    · rw [map_flatMap]
      refine flatMap_congr fun chunk _ ↦ ?_
      rw [passingOf_eq_matchingRows texts chunk hclampedOnly, map_map]
      exact map_congr_left fun row _ ↦ entry_eq_projected chunk.columns row clamped.omitBody
    · rw [View.walMatches, walCandidate_eq, hneeds, Bool.not_false, Bool.and_true]
  have hpage := pageOf_mergedEntries clamped rfl rfl hoffset
    (clampParams_limit_pos now params) (view.searchable_of_no_query texts hclampedOnly.query) now
    (fun chunk _ ↦ cuts_answerOf texts chunk hneeds fun row _ ↦ hclampedOnly.idsMatch _) (by
      rw [hsources, map_id_projected]
      exact hids.sublist (filter_sublist.map Entry.id))
  rw [hsources, sortBy_map_projected, ← map_drop, ← map_take] at hpage
  exact hpage

theorem search_eq_reference_witness : ∃ view : View Zstd.stored,
    (view.held.map Entry.id).Nodup ∧ view.held.length = 2 ∧
      (search Zstd.stored Texts.ascii 0 { limit := 1, start := some 0 } view.files view.wals).entries =
        (reference Texts.ascii (clampParams 0 { limit := 1, start := some 0 }) view).map
          (projected false) := by
  obtain ⟨chunk, hcolumns⟩ := exists_casedChunk
  have hheld : View.held ⟨[[chunk]], []⟩ = chunkEntries (writtenColumns casedEntries) := by
    simp [View.held, hcolumns]
  have hids : ((View.held ⟨[[chunk]], []⟩).map Entry.id).Nodup := by
    rw [hheld]
    decide +kernel
  exact ⟨⟨[[chunk]], []⟩, hids, by rw [hheld]; decide +kernel,
    search_eq_reference Texts.ascii 0 ⟨rfl, rfl, rfl, rfl, rfl, rfl, rfl, rfl⟩ le_rfl _ hids⟩

/-- An entry with a body. -/
def embodied : Entry := { Entry.zero with id := 1, body := [1] }

/-- A search that omits bodies does not return the entries as they are held. -/
theorem omitted_body_missing :
    (search Zstd.stored Texts.ascii 0 { omitBody := true, limit := 1, start := some 0 } []
        [[embodied]]).entries ≠
      reference Texts.ascii (clampParams 0 { omitBody := true, limit := 1, start := some 0 })
        (⟨[], [[embodied]]⟩ : View Zstd.stored) := by
  decide +kernel

/-! ### The total -/

/-- Sums of parts are at most the sums of the wholes, and equal only if every part is whole. -/
theorem sum_map_le_and_eq_iff {β : Type} {sources : List β} {part whole : β → ℕ}
    (hle : ∀ source ∈ sources, part source ≤ whole source) :
    (sources.map part).sum ≤ (sources.map whole).sum ∧
      ((sources.map part).sum = (sources.map whole).sum ↔
        ∀ source ∈ sources, part source = whole source) := by
  induction sources with
  | nil => simp
  | cons source sources ih =>
    obtain ⟨htail, hrest⟩ := ih fun other hother ↦ hle other (mem_cons_of_mem _ hother)
    have hhead := hle source (mem_cons_self ..)
    rw [forall_mem_cons, ← hrest, map_cons, map_cons, sum_cons, sum_cons]
    omega

/-- The chunks of all segments, counted. -/
theorem sum_length_segments {zstd : Zstd} (view : View zstd) (count : SealedChunk zstd → List Entry) :
    (view.segments.map fun chunks ↦ (chunks.flatMap count).length).sum =
      (view.chunks.map fun chunk ↦ (count chunk).length).sum := by
  simp only [View.chunks, length_flatMap, map_flatten, sum_flatten, map_map]
  rfl

/-- The index of every chunk in view finds only rows that have the full text. -/
def View.IndexSound {zstd : Zstd} (texts : Texts) (params : SearchParams) (view : View zstd) : Prop :=
  ∀ chunk ∈ view.chunks, ∀ row ∈ passingOf texts params chunk,
    wants params.query (Index.messageMatchesQuery texts.unicode
      ((chunk.columns.entry row true).str .message) params.query) = true

/-- The cut leaves a row of a chunk in the answer: the index finds it, and fewer than `offset + limit`
rows come before it that pass the filters up to the case of the identifiers. -/
def Survives {zstd : Zstd} (texts : Texts) (params : SearchParams) (chunk : SealedChunk zstd)
    (row : ℕ) : Prop :=
  row ∈ startRows chunk.columns.rows (foundRows texts params chunk) ∧
    (params.offset + params.limit ≤ 0 ∨
      (passingOf texts params chunk).countP (fun other ↦ entryComesBefore params.sortAsc
        (chunk.columns.entry other true) (chunk.columns.entry row true)) <
          params.offset + params.limit)

section Total

variable {zstd : Zstd} {texts : Texts} {params : SearchParams} {chunk : SealedChunk zstd}

/-- The rows behind what a chunk contributes without a post-read filter. -/
def answerRows (texts : Texts) (params : SearchParams) (chunk : SealedChunk zstd) : List ℕ :=
  (selectTopRows chunk.columns.ts (passingOf texts params chunk) params.sortAsc
    (params.offset + params.limit)).filter fun row ↦ idsMatch params (chunk.columns.entry row true)

theorem mem_answerRows {row : ℕ} : row ∈ answerRows texts params chunk ↔
      (row ∈ passingOf texts params chunk ∧ Survives texts params chunk row) ∧
        idsMatch params (chunk.columns.entry row true) = true := by
  rw [answerRows, mem_filter]
  refine and_congr_left fun _ ↦ ?_
  by_cases hnone : params.offset + params.limit ≤ 0
  · rw [selectTopRows, if_pos (.inl hnone)]
    exact ⟨fun hrow ↦ ⟨hrow, (mem_passing.mp hrow).1, .inl hnone⟩, And.left⟩
  · rw [mem_selectTopRows (nodup_passingOf texts chunk) params.sortAsc (Int.not_le.mp hnone)]
    refine and_congr_right fun hrow ↦ ?_
    rw [countP_rowComesBefore texts chunk hrow]
    exact ⟨fun hlt ↦ ⟨(mem_passing.mp hrow).1, .inr hlt⟩, fun hsurvives ↦
      hsurvives.2.resolve_left hnone⟩

variable (hmetadata : params.metadataFilter = []) (hexclude : params.exclude = [])

include hmetadata hexclude

theorem length_answerOf :
    (answerOf texts params chunk).length = (answerRows texts params chunk).length := by
  have hneeds : needsPostReadFilter params = false := by
    simp [needsPostReadFilter, hmetadata, hexclude]
  have hpost : ∀ row, postKeep texts params (chunk.columns.entry row !params.omitBody) =
      idsMatch params (chunk.columns.entry row true) := by
    intro row
    have hids : idsMatch params (chunk.columns.entry row !params.omitBody) =
        idsMatch params (chunk.columns.entry row true) := rfl
    simp [postKeep, matchesMetadata, matchesExclude, hmetadata, hexclude, hids]
  simp only [answerOf, chunkAnswer, hneeds, Bool.false_eq_true, false_and, if_false]
  rw [filter_map, length_map]
  exact congrArg length (filter_congr fun row _ ↦ hpost row)

/-- A row that passes the columns and has the full text matches if its identifiers are exact. -/
theorem matches_iff_of_passes {row : ℕ}
    (hkeep : columnsKeep texts params (chunk.columns.entry row true) = true)
    (hquery : wants params.query (Index.messageMatchesQuery texts.unicode
      ((chunk.columns.entry row true).str .message) params.query) = true) :
    matchesParams texts (chunk.columns.entry row true) params =
      idsMatch params (chunk.columns.entry row true) := by
  rw [matchesParams_eq, hkeep, hquery]
  simp [matchesMetadata, matchesExclude, hmetadata, hexclude]

/-- A chunk contributes at most its matches, and all of them exactly if the cut leaves them all. -/
theorem length_answerOf_matchingRows (hsound : ∀ row ∈ passingOf texts params chunk,
      wants params.query (Index.messageMatchesQuery texts.unicode
        ((chunk.columns.entry row true).str .message) params.query) = true) :
    (answerOf texts params chunk).length ≤ (matchingRows chunk.columns texts params).length ∧
      ((answerOf texts params chunk).length = (matchingRows chunk.columns texts params).length ↔
        ∀ row ∈ matchingRows chunk.columns texts params, Survives texts params chunk row) := by
  rw [length_answerOf hmetadata hexclude]
  have hnodup : (answerRows texts params chunk).Nodup :=
    ((cuts_selectTopRows (nodup_passingOf texts chunk) _ _).nodup).filter _
  have hsubset : answerRows texts params chunk ⊆ matchingRows chunk.columns texts params := by
    intro row hrow
    obtain ⟨⟨hpasses, -⟩, hids⟩ := mem_answerRows.mp hrow
    refine mem_filter.mpr ⟨mem_range.mpr (passingOf_lt texts chunk hpasses), ?_⟩
    rwa [matches_iff_of_passes hmetadata hexclude (mem_passing.mp hpasses).2.2 (hsound row hpasses)]
  have hsubperm := subperm_of_subset hnodup hsubset
  refine ⟨hsubperm.length_le, fun hlength ↦ ?_, fun hsurvive ↦ ?_⟩
  · intro row hrow
    exact (mem_answerRows.mp ((hsubperm.perm_of_length_le hlength.ge).mem_iff.mpr hrow)).1.2
  · refine Nat.le_antisymm hsubperm.length_le (Subperm.length_le
      (subperm_of_subset (nodup_range.filter _) fun row hrow ↦ ?_))
    have hmatches := (mem_filter.mp hrow).2
    simp only [matchesParams_eq, Bool.and_eq_true] at hmatches
    obtain ⟨⟨⟨⟨hkeep, -⟩, hids⟩, -⟩, -⟩ := hmatches
    exact mem_answerRows.mpr ⟨⟨mem_passing.mpr ⟨(hsurvive row hrow).1, matchingRows_lt hrow, hkeep⟩,
      hsurvive row hrow⟩, hids⟩

end Total

/-- The total: what is left of each chunk, and the matches in the WAL files. -/
theorem total_eq {zstd : Zstd} (texts : Texts) (now : ℤ) (params : SearchParams) (view : View zstd)
    (hsearchable : view.Searchable texts (clampParams now params)) :
    (search zstd texts now params view.files view.wals).total =
      (view.chunks.map fun chunk ↦ (answerOf texts (clampParams now params) chunk).length).sum +
        (view.wals.flatten.filter fun entry ↦
          matchesParams texts entry (clampParams now params)).length := by
  rw [← sum_length_segments]
  simp only [search, View.files, map_map]
  refine congrArg₂ (· + ·) (congrArg sum (map_congr_left fun chunks hchunks ↦ ?_)) rfl
  rw [Function.comp_apply, segmentMatches_eq rfl rfl hsearchable now hchunks]

/-- The total counts every match exactly if the cut of no chunk drops one. Assumes: no metadata and
exclusion filter, an index that can be searched and finds no row without the full text. -/
theorem total_exact_iff {zstd : Zstd} (texts : Texts) (now : ℤ) {params : SearchParams}
    (hmetadata : params.metadataFilter = []) (hexclude : params.exclude = []) (view : View zstd)
    (hsearchable : view.Searchable texts (clampParams now params))
    (hsound : view.IndexSound texts (clampParams now params)) :
    (search zstd texts now params view.files view.wals).total =
        (view.held.filter fun entry ↦ matchesParams texts entry (clampParams now params)).length ↔
      ∀ chunk ∈ view.chunks, ∀ row ∈ matchingRows chunk.columns texts (clampParams now params),
        Survives texts (clampParams now params) chunk row := by
  set clamped := clampParams now params with hclamped
  have hchunk := fun chunk hmem ↦ @length_answerOf_matchingRows zstd texts clamped chunk hmetadata
    hexclude (hsound chunk hmem)
  have htotal := total_eq texts now params view hsearchable
  have hheld : (view.held.filter fun entry ↦ matchesParams texts entry clamped).length =
      (view.chunks.map fun chunk ↦ (matchingRows chunk.columns texts clamped).length).sum +
        (view.wals.flatten.filter fun entry ↦ matchesParams texts entry clamped).length := by
    have hsum := sum_length_segments view fun chunk ↦
      (matchingRows chunk.columns texts clamped).map (chunk.columns.entry · true)
    simp only [length_map] at hsum
    rw [filter_held, length_append, length_flatMap, ← hsum]
  rw [htotal, hheld, Nat.add_right_cancel_iff,
    (sum_map_le_and_eq_iff fun chunk hmem ↦ (hchunk chunk hmem).1).2]
  exact forall₂_congr fun chunk hmem ↦ (hchunk chunk hmem).2

theorem answerOf_eq_of_columns {zstd : Zstd} (texts : Texts) (params : SearchParams)
    (hquery : params.query = []) {chunk : SealedChunk zstd} {columns : Columns}
    (hcolumns : chunk.columns = columns) :
    answerOf texts params chunk =
      chunkAnswer columns texts params (passingRows columns texts params none) := by
  have hnone : foundRows texts params chunk = none := by
    rw [foundRows, fullTextRows, if_pos hquery]
  rw [answerOf, passingOf, hnone, hcolumns]

/-- The search of a single chunk, from its columns. -/
theorem entries_singleChunk {zstd : Zstd} (texts : Texts) (now : ℤ) {params : SearchParams}
    (hquery : params.query = []) {chunk : SealedChunk zstd} {columns : Columns}
    (hcolumns : chunk.columns = columns) :
    (search zstd texts now params (View.files ⟨[[chunk]], []⟩) []).entries =
      pageOf (clampParams now params) (sortBy (entryComesBefore params.sortAsc) (capEntriesByTs
        (chunkAnswer columns texts (clampParams now params)
          (passingRows columns texts (clampParams now params) none)) params.sortAsc
          (params.offset + (clampParams now params).limit))) := by
  have hmerged := @mergedEntries_eq zstd texts (clampParams now params) _ _ rfl rfl ⟨[[chunk]], []⟩
    (View.searchable_of_no_query texts hquery _) now
  rw [search, hmerged]
  simp only [flatMap_cons, flatMap_nil, append_nil, searchWALsTop, flatten_nil, filter_nil, map_nil,
    keepFirst, foldl_nil, answerOf_eq_of_columns texts (clampParams now params) hquery hcolumns]
  rfl

/-- Two entries match, and a search for one of them counts one. -/
theorem total_counts_cut_rows : ∃ view : View Zstd.stored,
    (search Zstd.stored Texts.ascii 0 { limit := 1, start := some 0 } view.files view.wals).total = 1 ∧
      (view.held.filter fun entry ↦ matchesParams Texts.ascii entry
        (clampParams 0 { limit := 1, start := some 0 })).length = 2 := by
  obtain ⟨chunk, hcolumns⟩ := exists_casedChunk
  refine ⟨⟨[[chunk]], []⟩, ?_, ?_⟩
  · rw [total_eq _ _ _ _ (View.searchable_of_no_query _ rfl _)]
    simp only [View.chunks, flatten_cons, flatten_nil, append_nil, map_cons,
      answerOf_eq_of_columns Texts.ascii (clampParams 0 { limit := 1, start := some 0 }) rfl hcolumns]
    decide +kernel
  · simp only [View.held, flatMap_cons, hcolumns]
    decide +kernel

/-- A search for two entries counts two. -/
theorem total_exact_iff_witness : ∃ view : View Zstd.stored,
    (search Zstd.stored Texts.ascii 0 { limit := 2, start := some 0 } view.files view.wals).total =
      (view.held.filter fun entry ↦ matchesParams Texts.ascii entry
        (clampParams 0 { limit := 2, start := some 0 })).length := by
  obtain ⟨chunk, hcolumns⟩ := exists_casedChunk
  refine ⟨⟨[[chunk]], []⟩, (total_exact_iff Texts.ascii 0 rfl rfl _
    (View.searchable_of_no_query _ rfl _) fun _ _ _ _ ↦ rfl).mpr ?_⟩
  intro other hother row hrow
  obtain rfl : other = chunk := by simpa [View.chunks] using hother
  have hnone : foundRows Texts.ascii (clampParams 0 { limit := 2, start := some 0 }) other = none := rfl
  rw [hcolumns] at hrow
  simp only [Survives, passingOf, hnone, hcolumns]
  revert row
  decide +kernel

end OpenTrace.Engine.Query
