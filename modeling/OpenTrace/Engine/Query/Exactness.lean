import OpenTrace.Engine.Query.OmitBody

/-!
# When a page is exact

A chunk contributes only rows that match. Which of its matches it leaves out depends on the path that the
search takes through it (`Contributes`): the cut before the rows are read, the walk that stops at the
end of the page, or the plain reading of all rows.

`pageOf_exact_iff` puts this together for a page: it is the reference page, up to bodies, exactly if it
lies behind all matches or every match up to its end is contributed.
-/

namespace OpenTrace.Engine.Query

open Library Encoding Chunk List

/-! ### What a chunk contributes -/

section Chunk

variable {zstd : Zstd} (texts : Texts) (params : SearchParams) (chunk : SealedChunk zstd)

/-- The rows that a chunk contributes. -/
def contributedRows : List ℕ :=
  let passing := passingOf texts params chunk
  let limit := params.offset + params.limit
  if needsPostReadFilter params ∧ 0 < limit ∧ limit < passing.length then
    topBy (walksBefore params.sortAsc chunk.columns.ts) limit.toNat
      (passing.filter fun row ↦ postKeep texts params (chunk.columns.entry row true))
  else
    (if needsPostReadFilter params then passing
      else selectTopRows chunk.columns.ts passing params.sortAsc limit).filter fun row ↦
        postKeep texts params (chunk.columns.entry row !params.omitBody)

/-- The path that a search takes through a chunk leads it to a row that matches. With a post-read
filter and more candidates than the page needs, the row is among the first of the walk; with fewer
candidates, the metadata filter has the body if it needs it. Without such a filter, the row is among the
first that pass the columns. -/
def Contributes (row : ℕ) : Prop :=
  row ∈ startRows chunk.columns.rows (foundRows texts params chunk) ∧
    if needsPostReadFilter params then
      if params.offset + params.limit < (passingOf texts params chunk).length then
        ((passingOf texts params chunk).filter fun other ↦ postKeep texts params
          (chunk.columns.entry other true)).countP (walksBefore params.sortAsc chunk.columns.ts · row) <
            params.offset + params.limit
      else params.omitBody = false ∨ params.metadataFilter = []
    else
      (passingOf texts params chunk).countP (fun other ↦ entryComesBefore params.sortAsc
        (chunk.columns.entry other true) (chunk.columns.entry row true)) < params.offset + params.limit

theorem ranks_walksBefore (asc : Bool) (tsValues : List Int64) : Ranks (walksBefore asc tsValues) :=
  ranks_comesBefore ..

theorem separates_walksBefore (asc : Bool) (tsValues : List Int64) (rows : List ℕ) :
    Separates (walksBefore asc tsValues) rows :=
  separates_comesBefore asc _ fun first _ second _ hrow ↦ by
    cases asc
    · simpa using hrow
    · simpa using hrow

theorem projected_entry (columns : Columns) (row : ℕ) (bare includeBody : Bool)
    (hbody : includeBody = true ∨ includeBody = !bare) :
    projected bare (columns.entry row includeBody) = columns.entry row (!bare) := by
  cases bare <;> cases includeBody <;> simp_all [projected, Columns.entry]

/-- Bodies apart, a chunk contributes the entries of these rows. -/
theorem answerOf_projected : (answerOf texts params chunk).map (projected params.omitBody) =
      (contributedRows texts params chunk).map (chunk.columns.entry · !params.omitBody) := by
  simp only [answerOf, chunkAnswer, contributedRows]
  split_ifs with hwalk hneeds
  · rw [filter_map, ← map_take, map_map, topBy,
      ← filter_sortBy (ranks_walksBefore _ _) (separates_walksBefore _ _ _)]
    exact map_congr_left fun row _ ↦ projected_entry _ row _ true (.inl rfl)
  · rw [filter_map, map_map]
    exact map_congr_left fun row _ ↦ projected_entry _ row _ _ (.inr rfl)
  · rw [filter_map, map_map]
    exact map_congr_left fun row _ ↦ projected_entry _ row _ _ (.inr rfl)

/-- Without the body, only the metadata filter decides otherwise. -/
theorem postKeep_projected {columns : Columns} (row : ℕ) :
    postKeep texts params (columns.entry row !params.omitBody) = true ↔
      postKeep texts params (columns.entry row true) = true ∧
        (params.omitBody = false ∨ params.metadataFilter = []) := by
  by_cases hmetadata : params.metadataFilter = []
  · simp only [postKeep, hmetadata, or_true, and_true]
    rfl
  · cases hbody : params.omitBody
    · simp
    · simp [postKeep, matchesMetadata_bare texts params hmetadata, hmetadata]

variable {texts params chunk}

/-- A match that the index finds passes the columns and the post-read filter. -/
theorem passes_of_matches {row : ℕ} (hrow : row ∈ matchingRows chunk.columns texts params)
    (hfound : row ∈ startRows chunk.columns.rows (foundRows texts params chunk)) :
    row ∈ passingOf texts params chunk ∧
      postKeep texts params (chunk.columns.entry row true) = true := by
  have hmatches := (mem_filter.mp hrow).2
  simp only [matchesParams_eq, Bool.and_eq_true] at hmatches
  obtain ⟨⟨⟨⟨hkeep, -⟩, hids⟩, hmetadata⟩, hexclude⟩ := hmatches
  refine ⟨mem_passing.mpr ⟨hfound, matchingRows_lt hrow, hkeep⟩, ?_⟩
  rw [postKeep, hids, hmetadata, hexclude]
  rfl

theorem contributedRows_subset : contributedRows texts params chunk ⊆ passingOf texts params chunk := by
  simp only [contributedRows]
  split_ifs
  · exact Subset.trans (topBy_subset _ _) (filter_subset_self _)
  · exact filter_subset_self _
  · exact Subset.trans (filter_subset_self _) (selectTopRows_subset _ _ _ _)

theorem postKeep_of_contributed {row : ℕ} (hrow : row ∈ contributedRows texts params chunk) :
    postKeep texts params (chunk.columns.entry row true) = true := by
  simp only [contributedRows] at hrow
  split_ifs at hrow
  · exact (mem_filter.mp (topBy_subset _ _ hrow)).2
  · exact ((postKeep_projected texts params row).mp (mem_filter.mp hrow).2).1
  · exact ((postKeep_projected texts params row).mp (mem_filter.mp hrow).2).1

/-- Of the matches, the chunk contributes those that the search is led to. -/
theorem mem_contributedRows (hpage : 0 < params.offset + params.limit) {row : ℕ}
    (hrow : row ∈ matchingRows chunk.columns texts params) :
    row ∈ contributedRows texts params chunk ↔ Contributes texts params chunk row := by
  by_cases hfound : row ∈ startRows chunk.columns.rows (foundRows texts params chunk)
  · obtain ⟨hpasses, hkeep⟩ := passes_of_matches hrow hfound
    have hnodup := @nodup_passingOf _ texts params chunk
    simp only [contributedRows, Contributes, hfound, hpage]
    by_cases hneeds : needsPostReadFilter params = true
    · simp only [hneeds, true_and]
      split_ifs with hmany
      · rw [mem_topBy (ranks_walksBefore _ _) (hnodup.filter _) (separates_walksBefore _ _ _),
          mem_filter]
        simp only [hpasses, hkeep, true_and]
        omega
      · rw [mem_filter, postKeep_projected]
        simp only [hpasses, hkeep, true_and]
    · have hbody : postKeep texts params (chunk.columns.entry row !params.omitBody) = true := by
        refine (postKeep_projected texts params row).mpr ⟨hkeep, .inr ?_⟩
        by_contra hmetadata
        exact hneeds (by simp [needsPostReadFilter, hmetadata])
      simp only [hneeds, false_and, Bool.false_eq_true, if_false]
      rw [mem_filter, mem_selectTopRows hnodup params.sortAsc hpage,
        countP_rowComesBefore texts chunk hpasses]
      simp only [hpasses, hbody, and_true]
  · exact iff_of_false (fun hmem ↦ hfound (mem_passing.mp (contributedRows_subset hmem)).1)
      fun hcontributes ↦ hfound hcontributes.1

/-- With a sound index, a chunk contributes only matches. -/
theorem contributedRows_match (hsound : ∀ row ∈ passingOf texts params chunk,
      wants params.query (Index.messageMatchesQuery texts.unicode
        ((chunk.columns.entry row true).str .message) params.query) = true) :
    contributedRows texts params chunk ⊆ matchingRows chunk.columns texts params := by
  intro row hrow
  have hpasses := contributedRows_subset hrow
  have hkeep := postKeep_of_contributed hrow
  simp only [postKeep, Bool.and_eq_true] at hkeep
  refine mem_filter.mpr ⟨mem_range.mpr (passingOf_lt texts chunk hpasses), ?_⟩
  rw [matchesParams_eq, (mem_passing.mp hpasses).2.2, hsound row hpasses, hkeep.1.1, hkeep.1.2,
    hkeep.2]
  rfl

end Chunk

/-! ### The page -/

section Page

variable {zstd : Zstd} {texts : Texts} {params : SearchParams} {view : View zstd}

section

variable (texts : Texts) (params : SearchParams) (view : View zstd)

/-- The entries in view that match. -/
def View.matches : List Entry := view.held.filter fun entry ↦ matchesParams texts entry params

/-- Everything that is contributed before the cuts of the segments and the heap of the WAL files. -/
def View.contributed : List Entry :=
  view.segments.flatMap (flatMap (answerOf texts params)) ++ view.walMatches texts params

end

/-- Bodies apart, an entry is contributed by a row of a chunk or by a WAL file. -/
theorem mem_contributed {entry : Entry} :
    entry ∈ (view.contributed texts params).map (projected params.omitBody) ↔
      (∃ chunk ∈ view.chunks, ∃ row ∈ contributedRows texts params chunk,
        chunk.columns.entry row (!params.omitBody) = entry) ∨
      ∃ held ∈ view.wals.flatten, matchesParams texts held params = true ∧
        projected params.omitBody held = entry := by
  have hwal : (view.walMatches texts params).map (projected params.omitBody) =
      (view.wals.flatten.filter fun entry ↦ matchesParams texts entry params).map
        (projected params.omitBody) := by
    rw [View.walMatches, walCandidate_eq, map_map]
    cases params.omitBody <;> cases needsPostReadFilter params <;> rfl
  have hchunks : (view.segments.flatMap (flatMap (answerOf texts params))).map
      (projected params.omitBody) = view.chunks.flatMap fun chunk ↦
        (contributedRows texts params chunk).map (chunk.columns.entry · !params.omitBody) := by
    rw [View.chunks, ← flatMap_id, flatMap_assoc, map_flatMap]
    refine flatMap_congr fun chunks _ ↦ ?_
    rw [map_flatMap]
    exact flatMap_congr fun chunk _ ↦ answerOf_projected texts params chunk
  rw [View.contributed, map_append, hwal, hchunks, mem_append, mem_flatMap]
  simp only [mem_map, mem_filter, and_assoc]

theorem mem_matches {entry : Entry} : entry ∈ view.matches texts params ↔
      (∃ chunk ∈ view.chunks, ∃ row ∈ matchingRows chunk.columns texts params,
        chunk.columns.entry row true = entry) ∨
      (entry ∈ view.wals.flatten ∧ matchesParams texts entry params = true) := by
  rw [View.matches, filter_held, mem_append, mem_filter]
  refine or_congr_left ⟨fun hentry ↦ ?_, fun hentry ↦ ?_⟩
  · obtain ⟨chunks, hchunks, hentry⟩ := mem_flatMap.mp hentry
    obtain ⟨chunk, hchunk, hentry⟩ := mem_flatMap.mp hentry
    exact ⟨chunk, mem_flatten.mpr ⟨chunks, hchunks, hchunk⟩, mem_map.mp hentry⟩
  · obtain ⟨chunk, hchunk, hentry⟩ := hentry
    obtain ⟨chunks, hchunks, hchunk⟩ := mem_flatten.mp hchunk
    exact mem_flatMap.mpr ⟨chunks, hchunks, mem_flatMap.mpr
      ⟨chunk, hchunk, mem_map.mpr hentry⟩⟩

variable (hids : (view.held.map Entry.id).Nodup)

include hids

theorem nodup_ids_matches : ((view.matches texts params).map Entry.id).Nodup :=
  hids.sublist (filter_sublist.map _)

theorem nodup_ids_contributed : ((view.contributed texts params).map Entry.id).Nodup := by
  have hanswers : (view.segments.flatMap (flatMap (answerOf texts params))).map Entry.id =
      view.chunks.flatMap fun chunk ↦ (answerOf texts params chunk).map Entry.id := by
    rw [View.chunks, ← flatMap_id, flatMap_assoc, map_flatMap]
    exact flatMap_congr fun chunks _ ↦ map_flatMap ..
  have hwal : (view.walMatches texts params).map Entry.id =
      (view.wals.flatten.filter fun entry ↦ matchesParams texts entry params).map Entry.id := by
    rw [View.walMatches, walCandidate_eq, map_id_projected]
  rw [View.contributed, map_append, hanswers, hwal]
  exact nodup_answers_append texts params view hids (filter_sublist.map _).subset
    ((nodup_wal_ids view hids).sublist (filter_sublist.map _))

omit hids in
/-- Bodies apart, what is contributed matches. -/
theorem contributed_subset (hsound : view.IndexSound texts params) :
    (view.contributed texts params).map (projected params.omitBody) ⊆
      (view.matches texts params).map (projected params.omitBody) := by
  intro entry hentry
  refine mem_map.mpr ?_
  rcases mem_contributed.mp hentry with ⟨chunk, hchunk, row, hrow, rfl⟩ | ⟨held, hheld, hmatches, rfl⟩
  · exact ⟨chunk.columns.entry row true, mem_matches.mpr (.inl ⟨chunk, hchunk, row,
      contributedRows_match (hsound chunk hchunk) hrow, rfl⟩),
      projected_entry _ row _ true (.inl rfl)⟩
  · exact ⟨held, mem_matches.mpr (.inr ⟨hheld, hmatches⟩), rfl⟩

/-- A match in a chunk is contributed exactly if the search is led to it. -/
theorem match_contributed_iff (hpage : 0 < params.offset + params.limit) {chunk : SealedChunk zstd}
    (hchunk : chunk ∈ view.chunks) {row : ℕ} (hrow : row ∈ matchingRows chunk.columns texts params) :
    projected params.omitBody (chunk.columns.entry row true) ∈
        (view.contributed texts params).map (projected params.omitBody) ↔
      Contributes texts params chunk row := by
  have hid : ∀ {chunk : SealedChunk zstd} {row : ℕ} (includeBody : Bool), row < chunk.columns.rows →
      (chunk.columns.entry row includeBody).id ∈ (chunkEntries chunk.columns).map Entry.id := by
    intro chunk row includeBody hbound
    exact mem_map.mpr ⟨chunk.columns.entry row true, mem_map.mpr
      ⟨row, mem_range.mpr hbound, rfl⟩, rfl⟩
  rw [mem_contributed, ← mem_contributedRows hpage hrow, projected_entry _ row _ true (.inl rfl)]
  constructor
  · rintro (⟨other, hother, place, hplace, hsame⟩ | ⟨held, hheld, -, hsame⟩)
    · have hbound := passingOf_lt texts other (contributedRows_subset hplace)
      obtain rfl := chunk_eq_of_id view hids hchunk hother (hid (!params.omitBody)
        (matchingRows_lt hrow)) (hsame ▸ hid (!params.omitBody) hbound)
      rwa [← row_eq_of_entry_eq other hbound (matchingRows_lt hrow) hsame]
    · refine (not_mem_wals_of_id view hids hchunk (hid (!params.omitBody) (matchingRows_lt hrow)) ?_).elim
      rw [← hsame, id_projected]
      exact mem_map_of_mem hheld
  · exact fun hcontributed ↦ .inl ⟨chunk, hchunk, row, hcontributed, rfl⟩

variable {start stop : ℤ} (hstart : params.start = some start) (hstop : params.stop = some stop)
  (hoffset : 0 ≤ params.offset) (hlimit : 0 < params.limit)
  (hsearchable : view.Searchable texts params)

include hstart hstop hoffset hlimit hsearchable

/-- The page is a piece of everything that is contributed. -/
theorem pageOf_contributed (now : ℤ) : pageOf params (sortBy (entryComesBefore params.sortAsc)
        (mergedEntries zstd texts now params view.files view.wals)) =
      ((sortBy (entryComesBefore params.sortAsc) (view.contributed texts params)).drop
        params.offset.toNat).take params.limit.toNat :=
  pageOf_mergedEntries params hstart hstop hoffset hlimit hsearchable now
    (fun chunk _ ↦ Cuts.refl (Nodup.of_map _ (ids_answerOf texts params chunk).1))
    (nodup_ids_contributed hids)

/-- The page is the reference page, up to bodies, exactly if it lies behind all matches or the search is
led to every match up to its end. Assumes: an index that finds no row without the full text. -/
theorem pageOf_exact_iff (hsound : view.IndexSound texts params) (now : ℤ) :
    (pageOf params (sortBy (entryComesBefore params.sortAsc)
        (mergedEntries zstd texts now params view.files view.wals))).map (projected params.omitBody) =
      (reference texts params view).map (projected params.omitBody) ↔
    (view.matches texts params).length ≤ params.offset.toNat ∨
      ∀ chunk ∈ view.chunks, ∀ row ∈ matchingRows chunk.columns texts params,
        (view.matches texts params).countP (entryComesBefore params.sortAsc ·
          (chunk.columns.entry row true)) < params.offset + params.limit →
        Contributes texts params chunk row := by
  have hranks := ranks_entryComesBefore params.sortAsc
  have hmatchIds := @nodup_ids_matches _ texts params view hids
  have hprojectedIds : (((view.matches texts params).map (projected params.omitBody)).map
      Entry.id).Nodup := by rwa [map_id_projected]
  have hcontributedIds : (((view.contributed texts params).map (projected params.omitBody)).map
      Entry.id).Nodup := by
    rw [map_id_projected]
    exact nodup_ids_contributed hids
  have hsubset := contributed_subset hsound
  have hpiece : ∀ entries : List Entry,
      (((sortBy (entryComesBefore params.sortAsc) entries).drop params.offset.toNat).take
        params.limit.toNat).map (projected params.omitBody) =
      ((sortBy (entryComesBefore params.sortAsc) (entries.map (projected params.omitBody))).drop
        params.offset.toNat).take params.limit.toNat := by
    intro entries
    rw [sortBy_map_projected, map_take, map_drop]
  rw [pageOf_contributed hids hstart hstop hoffset hlimit hsearchable now, reference, hpiece, hpiece,
    eq_comm, ← View.matches, piece_eq_iff_of_lost hranks (Nodup.of_map _ hprojectedIds)
      (Nodup.of_map _ hcontributedIds) (separates_entryComesBefore _ hprojectedIds)
      (separates_entryComesBefore _ hcontributedIds) (by omega)
      (subperm_of_subset (Nodup.of_map _ hcontributedIds) hsubset).length_le
      (fun entry hentry hnew ↦ absurd (hsubset hentry) hnew), length_map]
  refine or_congr_right ?_
  rw [topBy, sortBy_map_projected, ← map_take]
  have hcount : params.offset.toNat + params.limit.toNat = (params.offset + params.limit).toNat := by
    omega
  have hpage : 0 < params.offset + params.limit := by omega
  have hmemTop := fun entry : Entry ↦ @mem_topBy Entry _ hranks _
    (params.offset + params.limit).toNat (Nodup.of_map _ hmatchIds)
    (separates_entryComesBefore params.sortAsc hmatchIds) entry
  rw [hcount]
  constructor
  · intro hall chunk hchunk row hrow hrank
    refine (match_contributed_iff hids hpage hchunk hrow).mp (hall (mem_map_of_mem ?_))
    refine (hmemTop _).mpr ⟨mem_matches.mpr (.inl ⟨chunk, hchunk, row, hrow, rfl⟩), ?_⟩
    omega
  · intro hall entry hentry
    obtain ⟨held, hheld, rfl⟩ := mem_map.mp hentry
    obtain ⟨hmem, hrank⟩ := (hmemTop held).mp hheld
    rcases mem_matches.mp hmem with ⟨chunk, hchunk, row, hrow, rfl⟩ | ⟨hwal, hmatches⟩
    · exact (match_contributed_iff hids hpage hchunk hrow).mpr
        (hall chunk hchunk row hrow (by omega))
    · exact mem_contributed.mpr (.inr ⟨held, hwal, hmatches, rfl⟩)

end Page

end OpenTrace.Engine.Query
