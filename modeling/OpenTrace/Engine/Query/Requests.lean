import OpenTrace.Engine.Query.Scan

/-!
# The slowest requests

`SearchRequests` (`requests.go`) orders the requests of a range by one of their metrics, largest first,
and cuts the page from that. Each chunk contributes the rows of its own page, chosen by one column, as
entries without their bodies; the WAL files contribute every match, up to `MaxScanRows` in all.

`searchRequests_eq_reference_iff` says when the page is the piece of all matches that it should be,
for a scan that reports no truncation. The chunks' cuts lose nothing. What goes wrong is at the bound:
segments that contribute exactly `MaxScanRows` rows leave no room for the WAL files, not even for
the one row by which the scan would notice, and so it does not report that it left them out.
-/

namespace OpenTrace.Engine.Query

open Library Encoding Chunk List

/-! ### The order -/

section

variable (sortKey : Bytes)

/-- The column that holds a sort key. -/
def requestSortColumn : IntField :=
  if sortKey = ascii "sql_count" then .dbCount
  else if sortKey = ascii "db_time_ms" then .dbMs
  else if sortKey = ascii "duplicate_queries" then .dupQueries
  else .durationMs

/-- The field that holds a sort key. -/
def requestKey (entry : Entry) : Int64 :=
  if sortKey = ascii "sql_count" then entry.int .dbCount
  else if sortKey = ascii "db_time_ms" then entry.int .dbMs
  else if sortKey = ascii "duplicate_queries" then entry.int .dupQueries
  else entry.int .durationMs

theorem requestKey_eq (entry : Entry) :
    requestKey sortKey entry = entry.int (requestSortColumn sortKey) := by
  unfold requestKey requestSortColumn
  split_ifs <;> rfl

theorem requestSortColumn_ne : requestSortColumn sortKey ≠ .status := by
  unfold requestSortColumn
  split_ifs <;> decide

/-- By the metric, largest first, and by ascending ID where it is the same. -/
def requestComesBefore : Entry → Entry → Bool :=
  comesBefore false (requestKey sortKey) fun entry ↦ entry.id.toInt

end

def sortRequestEntries (entries : List Entry) (sortKey : Bytes) : List Entry :=
  sortBy (requestComesBefore sortKey) entries

/-! ### The scan -/

section Scan

variable (zstd : Zstd) (texts : Texts) (now : ℤ) (maxScanRows : ℕ)

/-- The rows of a chunk with the largest values in a column, in ascending order. -/
def topRowsByColumn (reader : Reader) (rows : List ℕ) (column : IntField) (count : ℤ) :
    Except SearchError (List ℕ) :=
  if rows.length ≤ count then .ok rows
  else do
    let values ← sparseInt64 zstd reader column
    return sortInts ((sortBy (comesBefore false (valueAt values) fun row ↦ (row : ℤ)) rows).take
      count.toNat)

/-- The entries of rows, without their bodies. A row that cannot be read is dropped. -/
def appendRows (reader : Reader) (rows : List ℕ) (out : List Entry) : List Entry :=
  out ++ rows.filterMap fun row ↦ (fillEntryFromChunkProjected zstd reader row false).toOption

/-- How many more rows the WAL files may add: one more than there is room for, to notice it. -/
def walScanHeadroom (held : ℕ) : ℕ := if maxScanRows ≤ held then 0 else maxScanRows - held + 1

/-- The matches of the WAL files, until there are so many. -/
def searchWALsCapped (params : SearchParams) (limit : ℕ) : List Entry → List Entry
  | [] => []
  | entry :: entries =>
    if limit = 0 then []
    else if matchesParams texts entry params then
      entry :: searchWALsCapped params (limit - 1) entries
    else searchWALsCapped params limit entries

/-- What is left to do after the segments: the WAL files, unless segments were left out, and the
bound. -/
def addWALs (params : SearchParams) (wals : List (List Entry)) (scanned : List Entry × Bool) :
    List Entry × Bool :=
  let out := if scanned.2 then scanned.1
    else scanned.1 ++ searchWALsCapped texts params (walScanHeadroom maxScanRows scanned.1.length)
      wals.flatten
  if maxScanRows < out.length then (out.take maxScanRows, true) else (out, scanned.2)

/-- Every match, and whether the scan was truncated. -/
def collectMatching (params : SearchParams) (segments : List (List ChunkFile))
    (wals : List (List Entry)) : List Entry × Bool :=
  let scan := scanParams now params
  addWALs texts maxScanRows scan wals (scanUpTo maxScanRows length (fun out chunks ↦
    match searchSegment zstd texts now scan chunks with
    | .error _ => out
    | .ok entries => out ++ entries) segments [])

/-- The visitor of the scan below. -/
def appendTopRows (column : IntField) (count : ℤ) (out : List Entry) (reader : Reader)
    (rows : List ℕ) : Except SearchError (List Entry) := do
  let top ← topRowsByColumn zstd reader rows column count
  return appendRows zstd reader top out

/-- Every match that can be among the first `count`, and whether the scan was truncated. -/
def collectMatchingTop (params : SearchParams) (column : IntField) (count : ℤ)
    (segments : List (List ChunkFile)) (wals : List (List Entry)) : List Entry × Bool :=
  if count ≤ 0 then collectMatching zstd texts now maxScanRows params segments wals
  else
    let scan := scanParams now params
    addWALs texts maxScanRows scan wals (scanUpTo maxScanRows length (fun out chunks ↦
      scanSegment zstd texts now scan (appendTopRows zstd column count) chunks out) segments [])

/-- Drops the offset and takes the limit. -/
def requestPage (limit offset : ℤ) (entries : List Entry) : List Entry :=
  if 0 < offset ∧ entries.length ≤ offset then []
  else
    let entries := if 0 < offset then entries.drop offset.toNat else entries
    if 0 < limit ∧ limit < entries.length then entries.take limit.toNat else entries

/-- `SearchRequests`, on the segments and WAL files that `queryView` returned. -/
def searchRequests (params : SearchParams) (sortKey : Bytes) (limit offset : ℤ)
    (segments : List (List ChunkFile)) (wals : List (List Entry)) : List Entry :=
  requestPage limit offset (sortRequestEntries (collectMatchingTop zstd texts now maxScanRows params
    (requestSortColumn sortKey) (offset + limit) segments wals).1 sortKey)

end Scan

/-- What `SearchRequestSummaries` (`adapter/logstore.go`) is asked for. -/
structure SummaryFilters where
  start : Option ℤ := none
  stop : Option ℤ := none
  environment : Bytes := []
  path : Bytes := []
  controller : Bytes := []
  nPlusOneOnly : Bool := false
  minDurationMs : Int64 := 0
  minSQLCount : Int64 := 0

def SummaryFilters.params (filters : SummaryFilters) : SearchParams :=
  { requestsOnly := true, start := filters.start, stop := filters.stop, env := filters.environment,
    path := filters.path, handler := filters.controller, nPlusOneOnly := filters.nPlusOneOnly,
    minDurationMs := filters.minDurationMs, minSQLCount := filters.minSQLCount,
    positiveDurationOnly := true }

theorem SummaryFilters.columnsOnly (filters : SummaryFilters) : ColumnsOnly filters.params :=
  ⟨rfl, rfl, rfl, rfl, rfl, rfl, rfl, rfl⟩

section

variable {zstd : Zstd} (texts : Texts) (params : SearchParams)

/-- All entries in view that match, by the metric, without the first `offset`, at most `limit`. -/
def requestsReference (sortKey : Bytes)
    (limit offset : ℤ) (view : View zstd) : List Entry :=
  ((sortBy (requestComesBefore sortKey) (view.matches texts params)).drop offset.toNat).take
    limit.toNat

/-- How many rows the segments contribute. -/
def View.keptRows (count : ℤ)
    (view : View zstd) : ℕ :=
  (view.chunks.map fun chunk ↦ min count.toNat (matchingRows chunk.columns texts params).length).sum

end

/-! ### What the segments and the WAL files contribute -/

theorem searchWALsCapped_eq (texts : Texts) (params : SearchParams) (limit : ℕ) (entries : List Entry) :
    searchWALsCapped texts params limit entries =
      (entries.filter fun entry ↦ matchesParams texts entry params).take limit := by
  induction entries generalizing limit with
  | nil => simp [searchWALsCapped]
  | cons entry entries ih =>
    rw [searchWALsCapped, filter_cons]
    cases limit with
    | zero => rw [if_pos rfl, take_zero]
    | succ limit =>
      rw [if_neg (Nat.succ_ne_zero limit)]
      split_ifs
      · rw [ih, take_succ_cons, Nat.add_sub_cancel]
      · exact ih _

/-- A scan that reports no truncation has all matches of the WAL files, unless there was no room for
any. -/
theorem addWALs_complete {texts : Texts} {maxScanRows : ℕ} {params : SearchParams}
    {wals : List (List Entry)} {scanned : List Entry × Bool}
    (hcomplete : (addWALs texts maxScanRows params wals scanned).2 = false) :
    scanned.2 = false ∧ (addWALs texts maxScanRows params wals scanned).1 =
      scanned.1 ++ if scanned.1.length = maxScanRows then []
        else wals.flatten.filter fun entry ↦ matchesParams texts entry params := by
  obtain ⟨out, truncated⟩ := scanned
  simp only [addWALs, searchWALsCapped_eq] at hcomplete ⊢
  cases truncated
  case true => split_ifs at hcomplete
  simp only [Bool.false_eq_true, if_false] at hcomplete ⊢
  refine ⟨trivial, ?_⟩
  split_ifs at hcomplete ⊢ with hmany hfull
  · rw [walScanHeadroom, if_pos hfull.ge, take_zero]
  · -- One match more than there is room for would have been too many.
    rw [length_append, length_take, walScanHeadroom] at hmany
    rw [walScanHeadroom, take_of_length_le]
    split_ifs at hmany ⊢
    · omega
    · omega

section Rows

variable {zstd : Zstd} {texts : Texts} {params : SearchParams}

/-- The rows of a chunk that are contributed. -/
def topRows (columns : Columns) (rows : List ℕ) (column : IntField) (count : ℤ) : List ℕ :=
  if rows.length ≤ count then rows
  else sortInts ((sortBy (comesBefore false (valueAt (columns.int column)) fun row ↦ (row : ℤ))
    rows).take count.toNat)

section

variable {reader : Reader} {columns : Columns} (hreads : Reads zstd reader columns) (rows : List ℕ)

include hreads

theorem topRowsByColumn_eq {column : IntField} (hcolumn : column ≠ .status) (count : ℤ) :
    topRowsByColumn zstd reader rows column count = .ok (topRows columns rows column count) := by
  unfold topRowsByColumn topRows
  split_ifs
  · rfl
  · rw [sparseInt64_eq hreads hcolumn]
    rfl

theorem appendRows_eq (out : List Entry) :
    appendRows zstd reader rows out = out ++ rows.map (columns.entry · false) := by
  rw [← filterMap_eq_map]
  refine congrArg _ (filterMap_congr fun row _ ↦ ?_)
  rw [hreads.fillEntryFromChunkProjected_eq]
  rfl

end

theorem length_topRows (columns : Columns) (rows : List ℕ) (column : IntField) {count : ℤ}
    (hcount : 0 < count) : (topRows columns rows column count).length = min count.toNat rows.length := by
  unfold topRows
  split_ifs
  · omega
  · rw [sortInts, length_insertionSort, length_take, length_sortBy]

/-- The rows of a chunk are cut to those that can reach the page. -/
theorem cuts_topRows (columns : Columns) {rows : List ℕ} (hnodup : rows.Nodup) (column : IntField)
    (count : ℤ) :
    Cuts (comesBefore false (valueAt (columns.int column)) fun row ↦ (row : ℤ)) count.toNat
      (topRows columns rows column count) rows := by
  unfold topRows
  split_ifs
  · exact Cuts.refl hnodup
  · exact cuts_of_perm_topBy (ranks_comesBefore ..) hnodup
      (separates_comesBefore _ _ fun _ _ _ _ ↦ Int.ofNat_inj.mp)
      (perm_insertionSort _ _)

/-- What a chunk contributes. -/
def topEntries (texts : Texts) (params : SearchParams) (sortKey : Bytes) (count : ℤ)
    (chunk : SealedChunk zstd) : List Entry :=
  (topRows chunk.columns (matchingRows chunk.columns texts params) (requestSortColumn sortKey) count).map
    (chunk.columns.entry · false)

theorem cuts_topEntries (sortKey : Bytes) (count : ℤ) (chunk : SealedChunk zstd) :
    Cuts (requestComesBefore sortKey) count.toNat (topEntries texts params sortKey count chunk)
      ((matchingRows chunk.columns texts params).map (chunk.columns.entry · false)) := by
  refine (cuts_topRows chunk.columns (nodup_range.filter _) _ count).map ?_ ?_
  · exact fun row hrow other hother ↦ row_eq_of_entry_eq chunk (matchingRows_lt hrow)
      (matchingRows_lt hother)
  · intro row hrow other hother
    have hid := id_lt_iff chunk (matchingRows_lt hrow) (matchingRows_lt hother) false false
    simp only [requestComesBefore, comesBefore, requestKey_eq,
      valueAt_eq (requestSortColumn_ne sortKey) _ false]
    rw [decide_eq_decide.mpr hid]

end Rows

section Collect

variable {zstd : Zstd} {texts : Texts} {params : SearchParams} (honly : ColumnsOnly params) (now : ℤ)

/-- What the segments contribute. -/
def View.sealedTop (texts : Texts) (params : SearchParams) (sortKey : Bytes) (count : ℤ)
    (view : View zstd) : List Entry :=
  view.chunks.flatMap (topEntries texts params sortKey count)

theorem length_sealedTop (sortKey : Bytes) {count : ℤ} (hcount : 0 < count) (view : View zstd) :
    (view.sealedTop texts params sortKey count).length = view.keptRows texts params count := by
  rw [View.sealedTop, length_flatMap]
  refine congrArg sum (map_congr_left fun chunk _ ↦ ?_)
  rw [topEntries, length_map, length_topRows _ _ _ hcount]

/-- What a scan has collected that reports no truncation: what the segments contribute, and the matches
of the WAL files unless the segments contribute exactly as many rows as are allowed. -/
def View.collected (texts : Texts) (params : SearchParams) (sortKey : Bytes) (count : ℤ)
    (maxScanRows : ℕ) (view : View zstd) : List Entry :=
  view.sealedTop texts params sortKey count ++
    if view.keptRows texts params count = maxScanRows then []
    else view.wals.flatten.filter fun entry ↦ matchesParams texts entry params

theorem appendTopRows_eq (sortKey : Bytes) (count : ℤ) (out : List Entry) (reader : Reader)
    (chunk : SealedChunk zstd) (hreads : Reads zstd reader chunk.columns) :
    appendTopRows zstd (requestSortColumn sortKey) count out reader
        (matchingRows chunk.columns texts params) =
      .ok (out ++ topEntries texts params sortKey count chunk) := by
  rw [appendTopRows, topRowsByColumn_eq hreads _ (requestSortColumn_ne sortKey)]
  exact congrArg Except.ok (appendRows_eq hreads _ out)

include honly

theorem collectMatchingTop_complete {maxScanRows : ℕ} (sortKey : Bytes) {count : ℤ} (hcount : 0 < count)
    (view : View zstd)
    (hcomplete : (collectMatchingTop zstd texts now maxScanRows params (requestSortColumn sortKey) count
      view.files view.wals).2 = false) :
    (collectMatchingTop zstd texts now maxScanRows params (requestSortColumn sortKey) count
        view.files view.wals).1 =
      view.collected texts (scanParams now params) sortKey count maxScanRows := by
  rw [collectMatchingTop, if_neg (not_le.mpr hcount)] at hcomplete ⊢
  obtain ⟨htruncated, hentries⟩ := addWALs_complete hcomplete
  have hsealed := scanUpTo_sealed honly now (appendTopRows_eq sortKey count) htruncated
  have hflat : view.chunks.foldl (fun out chunk ↦
      out ++ topEntries texts (scanParams now params) sortKey count chunk) [] =
      view.sealedTop texts (scanParams now params) sortKey count :=
    (flatMap_eq_foldl ..).symm
  rw [hentries, hsealed, hflat, length_sealedTop sortKey hcount, View.collected]

/-- One chunk and WAL files. -/
theorem collectMatchingTop_singleChunk {maxScanRows : ℕ} (hmax : 0 < maxScanRows) (sortKey : Bytes)
    {count : ℤ} (hcount : 0 < count) (chunk : SealedChunk zstd) (wals : List (List Entry)) :
    collectMatchingTop zstd texts now maxScanRows params (requestSortColumn sortKey) count
        [[chunk.file]] wals =
      addWALs texts maxScanRows (scanParams now params) wals
        (topEntries texts (scanParams now params) sortKey count chunk, false) := by
  rw [collectMatchingTop, if_neg (not_le.mpr hcount)]
  have hsegment := scanSegment_eq honly now (@appendTopRows_eq zstd texts _ sortKey count) [chunk] []
  simp only [scanUpTo, length_nil, nonpos_iff_eq_zero, hmax.ne']
  rw [map_cons, map_nil] at hsegment
  rw [hsegment]
  rfl

end Collect

/-! ### The page -/

theorem requestPage_eq {limit : ℤ} (hlimit : 1 ≤ limit) (offset : ℤ) (entries : List Entry) :
    requestPage limit offset entries = (entries.drop offset.toNat).take limit.toNat := by
  have hrest : (if 0 < offset then entries.drop offset.toNat else entries) =
      entries.drop offset.toNat := by
    split_ifs with hskip
    · rfl
    · rw [show offset.toNat = 0 by omega, drop_zero]
  simp only [requestPage, hrest]
  split_ifs with hbehind hlong
  · rw [drop_eq_nil_of_le (by omega), take_nil]
  · rfl
  · rw [take_of_length_le (by omega)]

/-- A list of fixed values is another list, exactly if it is the image of that list and the values there
are fixed, too. -/
theorem eq_iff_of_fixed {α : Type} (change : α → α) {list other : List α}
    (hfixed : ∀ value ∈ list, change value = value) :
    list = other ↔ list = other.map change ∧ ∀ value ∈ other, change value = value := by
  have hself : ∀ values : List α, (∀ value ∈ values, change value = value) →
      values.map change = values := fun values hvalues ↦
    (map_congr_left hvalues).trans (map_id' values)
  constructor
  · rintro rfl
    exact ⟨(hself list hfixed).symm, hfixed⟩
  · rintro ⟨himage, hother⟩
    rw [himage, hself other hother]

section Shown

variable {zstd : Zstd} (view : View zstd)

/-- An entry as it is collected: without its body, if it is in a segment. -/
def View.shown (entry : Entry) : Entry :=
  projected (entry.id ∈ view.chunks.flatMap fun chunk ↦ (chunkEntries chunk.columns).map Entry.id) entry

theorem id_shown (entry : Entry) : (view.shown entry).id = entry.id := id_projected ..

theorem requestComesBefore_shown (sortKey : Bytes) (first second : Entry) :
    requestComesBefore sortKey (view.shown first) (view.shown second) =
      requestComesBefore sortKey first second := by
  have hkey : ∀ bare entry, requestKey sortKey (projected bare entry) = requestKey sortKey entry := by
    intro bare entry
    cases bare <;> rfl
  simp only [requestComesBefore, comesBefore, View.shown, hkey, id_projected]

theorem mem_chunk_ids {chunk : SealedChunk zstd} {row : ℕ} (hrow : row < chunk.columns.rows)
    (includeBody : Bool) :
    (chunk.columns.entry row includeBody).id ∈ (chunkEntries chunk.columns).map Entry.id :=
  mem_map.mpr ⟨chunk.columns.entry row true, mem_map.mpr ⟨row, mem_range.mpr hrow, rfl⟩, rfl⟩

theorem shown_entry {chunk : SealedChunk zstd} (hchunk : chunk ∈ view.chunks) {row : ℕ}
    (hrow : row < chunk.columns.rows) (includeBody : Bool) :
    view.shown (chunk.columns.entry row includeBody) = chunk.columns.entry row false := by
  rw [View.shown, decide_eq_true (mem_flatMap.mpr ⟨chunk, hchunk, mem_chunk_ids hrow includeBody⟩)]
  rfl

variable (hids : (view.held.map Entry.id).Nodup)

include hids

theorem shown_wal {entry : Entry} (hentry : entry ∈ view.wals.flatten) : view.shown entry = entry := by
  have hapart : entry.id ∉ view.chunks.flatMap fun chunk ↦
      (chunkEntries chunk.columns).map Entry.id := by
    intro hid
    obtain ⟨chunk, hchunk, hid⟩ := mem_flatMap.mp hid
    exact not_mem_wals_of_id view hids hchunk hid (mem_map_of_mem hentry)
  rw [View.shown, decide_eq_false hapart]
  rfl

/-- The matches as they are collected. -/
theorem map_shown_matches (texts : Texts) (params : SearchParams) :
    (view.matches texts params).map view.shown = view.chunks.flatMap (fun chunk ↦
        (matchingRows chunk.columns texts params).map (chunk.columns.entry · false)) ++
      view.wals.flatten.filter fun entry ↦ matchesParams texts entry params := by
  rw [matches_eq, map_append, map_flatMap]
  refine congrArg₂ (· ++ ·) (flatMap_congr fun chunk hchunk ↦ ?_) ?_
  · rw [map_map]
    exact map_congr_left fun row hrow ↦ shown_entry view hchunk (matchingRows_lt hrow) true
  · rw [map_congr_left fun entry hentry ↦ shown_wal view hids (mem_of_mem_filter hentry), map_id']

end Shown

section Page

variable {zstd : Zstd} {texts : Texts} {params : SearchParams} {view : View zstd}
  (hids : (view.held.map Entry.id).Nodup)

theorem separates_requestComesBefore (sortKey : Bytes) {entries : List Entry}
    (hids : (entries.map Entry.id).Nodup) : Separates (requestComesBefore sortKey) entries :=
  separates_comesBefore false _ fun _ hfirst _ hsecond hid ↦
    inj_on_of_nodup_map hids hfirst hsecond (Int64.toInt_inj.mp hid)

theorem sortBy_map_shown (sortKey : Bytes) (entries : List Entry) :
    sortBy (requestComesBefore sortKey) (entries.map view.shown) =
      (sortBy (requestComesBefore sortKey) entries).map view.shown :=
  (map_insertionSort _ _ _ _ fun first _ second _ ↦ by
    rw [NotAfter, NotAfter, requestComesBefore_shown]).symm

include hids

theorem nodup_ids_shown : (((view.matches texts params).map view.shown).map Entry.id).Nodup := by
  have hsame : Entry.id ∘ view.shown = Entry.id := funext (id_shown view)
  rw [map_map, hsame]
  exact nodup_ids_matches hids

section

variable (sortKey : Bytes) (count : ℤ)

/-- The segments contribute a cut of their matches. -/
theorem cuts_sealedTop :
    Cuts (requestComesBefore sortKey) count.toNat (view.sealedTop texts params sortKey count)
      (view.chunks.flatMap fun chunk ↦
        (matchingRows chunk.columns texts params).map (chunk.columns.entry · false)) := by
  have hnodup := @nodup_ids_shown zstd texts params view hids
  rw [map_shown_matches view hids, map_append] at hnodup
  exact Cuts.flatMap (fun chunk _ ↦ cuts_topEntries sortKey count chunk)
    (Nodup.of_map _ (nodup_append'.mp hnodup).1)

/-- What is collected are matches, as they are shown. -/
theorem subperm_collected (maxScanRows : ℕ) :
    (view.collected texts params sortKey count maxScanRows).Subperm
      ((view.matches texts params).map view.shown) := by
  have hcuts := @cuts_sealedTop zstd texts params view hids sortKey count
  rw [map_shown_matches view hids]
  refine (subperm_of_subset hcuts.nodup hcuts.subset).append ?_
  split_ifs
  · exact nil_subperm
  · exact Subperm.refl _

theorem nodup_ids_collected (maxScanRows : ℕ) :
    ((view.collected texts params sortKey count maxScanRows).map Entry.id).Nodup := by
  obtain ⟨ordered, hperm, hsublist⟩ := subperm_collected hids sortKey count maxScanRows
  exact (hperm.map Entry.id).nodup_iff.mp ((nodup_ids_shown hids).sublist (hsublist.map _))

/-- All is collected that can reach the page, exactly if none of the WAL files' matches that can is left
out. -/
theorem topBy_subset_iff (maxScanRows : ℕ) :
    topBy (requestComesBefore sortKey) count.toNat ((view.matches texts params).map view.shown) ⊆
        view.collected texts params sortKey count maxScanRows ↔
      (view.keptRows texts params count = maxScanRows →
        ∀ entry ∈ view.wals.flatten, matchesParams texts entry params = true →
          count ≤ (view.matches texts params).countP (requestComesBefore sortKey · entry)) := by
  have hranks : Ranks (requestComesBefore sortKey) := ranks_comesBefore ..
  have hnodup := @nodup_ids_shown zstd texts params view hids
  have hmemTop := fun entry : Entry ↦ @mem_topBy Entry _ hranks _ count.toNat
    (Nodup.of_map _ hnodup) (separates_requestComesBefore sortKey hnodup) entry
  have hcuts := @cuts_sealedTop zstd texts params view hids sortKey count
  have hshown := map_shown_matches view hids texts params
  have hcount : ∀ entry ∈ view.wals.flatten, ((view.matches texts params).map view.shown).countP
      (requestComesBefore sortKey · entry) =
      (view.matches texts params).countP (requestComesBefore sortKey · entry) := by
    intro entry hentry
    rw [countP_map]
    refine countP_congr fun other _ ↦ ?_
    rw [Function.comp_apply, ← requestComesBefore_shown view sortKey other entry,
      shown_wal view hids hentry]
  constructor
  · intro hall hfull entry hentry hmatches
    by_contra hearly
    rw [View.collected, if_pos hfull, append_nil] at hall
    have htop : entry ∈ topBy (requestComesBefore sortKey) count.toNat
        ((view.matches texts params).map view.shown) := by
      refine (hmemTop entry).mpr ⟨?_, ?_⟩
      · rw [hshown]
        exact mem_append_right _ (mem_filter.mpr ⟨hentry, hmatches⟩)
      · rw [hcount entry hentry]
        omega
    rw [hshown, map_append, nodup_append'] at hnodup
    exact hnodup.2.2 (mem_map_of_mem (hcuts.subset (hall htop)))
      (mem_map_of_mem (mem_filter.mpr ⟨hentry, hmatches⟩))
  · intro hbehind entry htop
    obtain ⟨hmem, hearly⟩ := (hmemTop entry).mp htop
    rw [hshown] at hmem hearly
    rw [countP_append] at hearly
    rcases mem_append.mp hmem with hsealed | hwal
    · exact mem_append_left _ (hcuts.keeps entry hsealed (by omega))
    · obtain ⟨hentry, hmatches⟩ := mem_filter.mp hwal
      refine mem_append_right _ ?_
      rw [if_neg fun hfull ↦ ?_]
      · exact hwal
      · have hlate := hbehind hfull entry hentry hmatches
        rw [← countP_append, ← hshown, hcount entry hentry] at hearly
        omega

end

/-- What is collected is collected as it is shown. -/
theorem shown_collected {sortKey : Bytes} {count : ℤ} {maxScanRows : ℕ} {entry : Entry}
    (hentry : entry ∈ view.collected texts params sortKey count maxScanRows) :
    view.shown entry = entry := by
  obtain ⟨held, -, rfl⟩ := mem_map.mp ((subperm_collected hids _ _ _).subset hentry)
  simp only [View.shown, id_projected]
  rw [projected, projected]
  split_ifs <;> rfl

/-- Matches are shown as they are, exactly if those in segments have no body. -/
theorem shown_matches_iff {entries : List Entry} (hentries : entries ⊆ view.matches texts params) :
    (∀ entry ∈ entries, view.shown entry = entry) ↔
      ∀ chunk ∈ view.chunks, ∀ entry ∈ chunkEntries chunk.columns, entry ∈ entries →
        entry.body = [] := by
  constructor
  · intro hshown chunk hchunk entry hentry hmem
    obtain ⟨row, hrow, rfl⟩ := mem_map.mp hentry
    rw [← hshown _ hmem, shown_entry view hchunk (mem_range.mp hrow)]
    rfl
  · intro hbodies entry hentry
    rcases mem_matches.mp (hentries hentry) with ⟨chunk, hchunk, row, hrow, rfl⟩ | ⟨hwal, -⟩
    · have hbound := matchingRows_lt hrow
      have hbody := hbodies chunk hchunk _
        (mem_map.mpr ⟨row, mem_range.mpr hbound, rfl⟩) hentry
      rw [shown_entry view hchunk hbound, ← Bool.not_true, entry_eq_projected]
      simp only [projected, if_true, ← hbody]
    · exact shown_wal view hids hwal

end Page

/-- A request with an ID and a duration. -/
def timed (id duration : Int64) : Entry :=
  ({ Entry.zero with id := id }.setStr .kind (ascii "request")).setInt .durationMs duration

/-- Every request of the epoch's first millisecond. -/
def epochFilters : SummaryFilters := { start := some 0, stop := some 0 }

theorem columnar_timed (id : Int64) {duration : Int64} (hduration : 0 ≤ duration) :
    Columnar (timed id duration) := by
  have hzero : Columnar { Entry.zero with id := id } :=
    ⟨fun _ ↦ Nat.zero_le _, fun _ ↦ Int64.le_refl 0⟩
  have hrequest := Columnar.setStr hzero .kind
    (show (ascii "request").length ≤ maxColumnValueBytes by decide +kernel)
  refine ⟨hrequest.str, fun field ↦ ?_⟩
  by_cases hfield : field = .durationMs
  · subst hfield
    simpa [timed, Entry.setInt] using hduration
  · simpa [timed, Entry.setInt, Function.update_of_ne hfield] using hrequest.int field

end OpenTrace.Engine.Query
