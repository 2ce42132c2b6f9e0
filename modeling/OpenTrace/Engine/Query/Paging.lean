import OpenTrace.Engine.Query.Exactness
import OpenTrace.Library.Paging

/-!
# Reading a search page by page

A caller reads a result page by page, with offsets that go up by the page's size, until a page is empty.
With a metadata or exclusion filter each page is computed with a cut of its own: a chunk with more
candidates than the page needs is walked in the order of time, and the walk stops when it has enough.

Where the walk orders rows of one time by descending row, the search orders them by ascending ID. The
pages then fit together exactly if no such stop separates rows that the search would have shown
(`paging_covers_iff`).
-/

namespace OpenTrace.Engine.Query

open Library Encoding Chunk List Texts

/-- The search for the page at a place, counted from zero. -/
def SearchParams.page (params : SearchParams) (size place : ℕ) : SearchParams :=
  { params with limit := size, offset := (place * size : ℕ) }

section Pages

variable {zstd : Zstd} (texts : Texts) (now : ℤ) (params : SearchParams) (size : ℕ) (view : View zstd)

/-- A page as it is returned, without bodies if the search omits them. -/
def searchPage (place : ℕ) : List Entry :=
  (search zstd texts now (params.page size place) view.files view.wals).entries.map
    (projected params.omitBody)

/-- All matches in order, without bodies if the search omits them. -/
def orderedMatches : List Entry :=
  (sortBy (entryComesBefore params.sortAsc) (view.matches texts (clampParams now params))).map
    (projected params.omitBody)

variable {size}

theorem clampParams_page_limit (hsize : 0 < size) (hmax : size ≤ 500) (place : ℕ) :
    (clampParams now (params.page size place)).limit = size := by
  simp only [clampParams, SearchParams.page]
  split_ifs
  · omega
  · omega

variable {view} (hids : (view.held.map Entry.id).Nodup) (hsize : 0 < size) (hmax : size ≤ 500)
  (hsearchable : view.Searchable texts params)

include hids hsize hmax hsearchable

/-- A page is a piece of what is contributed to it. -/
theorem searchPage_eq (place : ℕ) : searchPage texts now params size view place =
      ((sortBy (entryComesBefore params.sortAsc) ((view.contributed texts (clampParams now
        (params.page size place))).map (projected params.omitBody))).drop (place * size)).take size := by
  have hlimit := clampParams_page_limit now params hsize hmax place
  have hpage := @pageOf_contributed zstd texts (clampParams now (params.page size place)) view hids
    _ _ rfl rfl (Int.natCast_nonneg _) (by omega) hsearchable now
  rw [hlimit] at hpage
  rw [sortBy_map_projected, ← map_drop, ← map_take]
  exact congrArg (map (projected params.omitBody)) hpage

theorem length_searchPage (place : ℕ) : (searchPage texts now params size view place).length ≤ size := by
  rw [searchPage_eq texts now params hids hsize hmax hsearchable]
  exact length_take_le ..

variable (hsound : view.IndexSound texts (clampParams now params))

include hsound

/-- A page holds no entry from before its offset. -/
theorem searchPage_subset (place : ℕ) : searchPage texts now params size view place ⊆
      (orderedMatches texts now params view).drop (place * size) := by
  have hmatchIds := @nodup_ids_matches _ texts (clampParams now params) view hids
  have hmatches : (((view.matches texts (clampParams now params)).map
      (projected params.omitBody)).map Entry.id).Nodup := by rwa [map_id_projected]
  have hcontributed : (((view.contributed texts (clampParams now (params.page size place))).map
      (projected params.omitBody)).map Entry.id).Nodup := by
    rw [map_id_projected]
    exact nodup_ids_contributed hids
  have hsubset := @contributed_subset _ texts (clampParams now (params.page size place)) view hsound
  rw [searchPage_eq texts now params hids hsize hmax hsearchable, orderedMatches,
    ← sortBy_map_projected, sortBy_eq_filter (ranks_entryComesBefore _) (Nodup.of_map _ hmatches)
      (separates_entryComesBefore _ hmatches) (Nodup.of_map _ hcontributed) hsubset]
  exact ((take_sublist ..).trans (filter_sublist.drop _)).subset

end Pages

/-- The pages make up all matches, in order and each once, exactly if for each page that does not lie
behind them the search is led to every match up to its end. Assumes: no two entries in view have the same
ID, the indexes can be searched, and they find no row without the full text. -/
theorem paging_covers_iff {zstd : Zstd} (texts : Texts) (now : ℤ) (params : SearchParams)
    {size : ℕ} (hsize : 0 < size) (hmax : size ≤ 500)
    (view : View zstd) (hids : (view.held.map Entry.id).Nodup)
    (hsearchable : view.Searchable texts params)
    (hsound : view.IndexSound texts (clampParams now params)) :
    PagesCover (searchPage texts now params size view) (orderedMatches texts now params view) ↔
      ∀ place, place * size < (view.matches texts (clampParams now params)).length →
        ∀ chunk ∈ view.chunks, ∀ row ∈ matchingRows chunk.columns texts (clampParams now params),
          (view.matches texts (clampParams now params)).countP (entryComesBefore params.sortAsc ·
            (chunk.columns.entry row true)) < (place + 1) * size →
          Contributes texts (clampParams now (params.page size place)) chunk row := by
  have hmatchIds := @nodup_ids_matches _ texts (clampParams now params) view hids
  have hnodup : (orderedMatches texts now params view).Nodup := by
    refine Nodup.of_map Entry.id ?_
    rw [orderedMatches, map_id_projected]
    exact ((sortBy_perm _).map _).nodup_iff.mpr hmatchIds
  rw [pages_cover_iff hnodup hsize (searchPage_subset texts now params hids hsize hmax hsearchable hsound)
    (length_searchPage texts now params hids hsize hmax hsearchable)]
  refine forall_congr' fun place ↦ ?_
  have hlimit := clampParams_page_limit now params hsize hmax place
  have hexact := @pageOf_exact_iff zstd texts (clampParams now (params.page size place)) view hids
    _ _ rfl rfl (Int.natCast_nonneg _) (by omega) hsearchable hsound now
  have hend : (clampParams now (params.page size place)).offset +
      (clampParams now (params.page size place)).limit = ((place + 1) * size : ℕ) := by
    rw [hlimit, Nat.succ_mul]
    rfl
  have hreference : (reference texts (clampParams now (params.page size place)) view).map
      (projected params.omitBody) =
        ((orderedMatches texts now params view).drop (place * size)).take size := by
    rw [reference, hlimit, map_take, map_drop]
    rfl
  rw [← hreference]
  refine hexact.trans ?_
  rw [hend]
  refine ⟨fun hcases hshort ↦ ?_, fun hall ↦ ?_⟩
  · intro chunk hchunk row hrow hrank
    exact hcases.resolve_left (Nat.not_le.mpr hshort) chunk hchunk row hrow (Int.ofNat_lt.mpr hrank)
  · refine (Nat.lt_or_ge (place * size)
      (view.matches texts (clampParams now params)).length).symm.imp id fun hshort ↦ ?_
    intro chunk hchunk row hrow hrank
    exact hall hshort chunk hchunk row hrow (Int.ofNat_lt.mp hrank)

/-- Two entries of one time are on two pages. -/
def tiedSearch : SearchParams :=
  { exclude := [(ascii "service", ascii "a")], start := some 0, stop := some 0 }

/-- Both pages show the second entry, and the first is on none. -/
theorem tied_entry_lost : ∃ view : View Zstd.stored,
    (orderedMatches ascii 0 tiedSearch view).map Entry.id = [1, 2] ∧
      (searchPage ascii 0 tiedSearch 1 view 0).map Entry.id = [2] ∧
      (searchPage ascii 0 tiedSearch 1 view 1).map Entry.id = [2] ∧
      searchPage ascii 0 tiedSearch 1 view 2 = [] ∧
      ¬ PagesCover (searchPage ascii 0 tiedSearch 1 view)
        (orderedMatches ascii 0 tiedSearch view) := by
  obtain ⟨chunk, hcolumns⟩ := exists_casedChunk
  have hpage : ∀ place, searchPage ascii 0 tiedSearch 1 ⟨[[chunk]], []⟩ place =
      (pageOf (clampParams 0 (tiedSearch.page 1 place)) (sortBy (entryComesBefore false)
        (capEntriesByTs (chunkAnswer (writtenColumns casedEntries) ascii
          (clampParams 0 (tiedSearch.page 1 place)) (passingRows (writtenColumns casedEntries)
            ascii (clampParams 0 (tiedSearch.page 1 place)) none)) false
          ((place * 1 : ℕ) + 1)))).map (projected false) := by
    intro place
    rw [searchPage, entries_singleChunk ascii 0 rfl hcolumns]
    rfl
  have hmatches : orderedMatches ascii 0 tiedSearch ⟨[[chunk]], []⟩ =
      (sortBy (entryComesBefore false) ((chunkEntries (writtenColumns casedEntries)).filter fun entry ↦
        matchesParams ascii entry (clampParams 0 tiedSearch))).map (projected false) := by
    simp [orderedMatches, View.matches, View.held, hcolumns, tiedSearch]
  have hordered : (orderedMatches ascii 0 tiedSearch ⟨[[chunk]], []⟩).map Entry.id = [1, 2] := by
    rw [hmatches]
    decide +kernel
  have hfirst : (searchPage ascii 0 tiedSearch 1 ⟨[[chunk]], []⟩ 0).map Entry.id = [2] := by
    rw [hpage]
    decide +kernel
  refine ⟨⟨[[chunk]], []⟩, hordered, hfirst, ?_, ?_, ?_⟩
  · rw [hpage]
    decide +kernel
  · rw [hpage]
    decide +kernel
  · rintro ⟨count, -, hempty, hcover⟩
    cases count with
    | zero =>
      rw [hempty] at hfirst
      cases hfirst
    | succ count =>
      rw [range_succ_eq_map, flatMap_cons] at hcover
      rw [← hcover, map_append, hfirst] at hordered
      cases hordered

/-- Both entries on one page are not separated. -/
theorem paging_covers_iff_witness : ∃ view : View Zstd.stored, view.held.length = 2 ∧
    PagesCover (searchPage ascii 0 tiedSearch 2 view) (orderedMatches ascii 0 tiedSearch view) := by
  obtain ⟨chunk, hcolumns⟩ := exists_casedChunk
  have hheld : View.held ⟨[[chunk]], []⟩ = chunkEntries (writtenColumns casedEntries) := by
    simp [View.held, hcolumns]
  have hids : ((View.held ⟨[[chunk]], []⟩).map Entry.id).Nodup := by
    rw [hheld]
    decide +kernel
  have hlength : (View.matches ascii (clampParams 0 tiedSearch) ⟨[[chunk]], []⟩).length = 2 := by
    rw [View.matches, hheld]
    decide +kernel
  refine ⟨⟨[[chunk]], []⟩, by rw [hheld]; decide +kernel,
    (paging_covers_iff ascii 0 tiedSearch (by decide) (by decide) _ hids
      (View.searchable_of_no_query _ rfl _) fun _ _ _ _ ↦ rfl).mpr ?_⟩
  intro place hplace other hother row hrow _
  obtain rfl : other = chunk := by simpa [View.chunks] using hother
  obtain rfl : place = 0 := by omega
  have hnone : foundRows ascii (clampParams 0 (tiedSearch.page 2 0)) other = none := rfl
  refine ⟨mem_range.mpr (matchingRows_lt hrow), ?_⟩
  have hfew : ¬ (clampParams 0 (tiedSearch.page 2 0)).offset +
      (clampParams 0 (tiedSearch.page 2 0)).limit < (passingOf ascii
        (clampParams 0 (tiedSearch.page 2 0)) other).length := by
    rw [passingOf, hnone, hcolumns]
    decide +kernel
  rw [if_neg hfew]
  exact .inl rfl

end OpenTrace.Engine.Query
