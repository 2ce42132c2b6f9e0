import OpenTrace.Engine.Query.SearchChunk

/-!
# Search

`Search` (`store.go`) merges what the sealed segments and the WAL files in view contribute: each segment
is cut to the entries that can reach the page, the WAL files go through a heap of that size, and the
merged entries are sorted and cut to the page. The segments are searched in parallel, each on its own,
so their order does not matter.

A `View` holds what `queryView` returned: sealed chunks that can be read, and the entries of the WAL
files. `View.held` is everything in it.
-/

namespace OpenTrace.Engine.Query

open Library Encoding Chunk List

structure SearchResult where
  entries : List Entry
  total : ℕ

/-- The defaults and bounds that `Search` puts on its parameters: at most 500 entries, 50 if nothing
is said, of the last hour. -/
def clampParams (now : ℤ) (params : SearchParams) : SearchParams :=
  { params with
    limit := if params.limit ≤ 0 then 50 else min params.limit 500
    start := some (params.start.getD (now - 3600 * 1000000000))
    stop := some (params.stop.getD now) }

/-- At most `count` entries of a segment, the first in order. -/
def capEntriesByTs (entries : List Entry) (asc : Bool) (count : ℤ) : List Entry :=
  if count ≤ 0 ∨ entries.length ≤ count then entries
  else (sortBy (entryComesBefore asc) entries).take count.toNat

/-- Drops the offset and takes the limit. -/
def pageOf (params : SearchParams) (entries : List Entry) : List Entry :=
  let rest :=
    if 0 < params.offset ∧ params.offset < entries.length then entries.drop params.offset.toNat
    else if entries.length ≤ params.offset then []
    else entries
  if params.limit < rest.length then rest.take params.limit.toNat else rest

section Search

variable (zstd : Zstd) (texts : Texts) (now : ℤ)

/-- The chunks of a segment one after another; a chunk that fails fails the segment. -/
def searchSegment (params : SearchParams) : List ChunkFile → Except SearchError (List Entry)
  | [] => .ok []
  | chunk :: chunks => do
    let entries ← searchChunk zstd texts now params chunk
    let others ← searchSegment params chunks
    return entries ++ others

/-- What a segment contributes, with the number it counts. One that fails contributes nothing. -/
def segmentMatches (params : SearchParams) (chunks : List ChunkFile) : List Entry × ℕ :=
  match searchSegment zstd texts now params chunks with
  | .error _ => ([], 0)
  | .ok entries =>
    (capEntriesByTs entries params.sortAsc (params.offset + params.limit), entries.length)

/-- An entry of a WAL as it goes into the heap. -/
def walCandidate (params : SearchParams) (entry : Entry) : Entry :=
  if params.omitBody && !needsPostReadFilter params then { entry with body := [] } else entry

/-- The first entries of the WAL files, and how many match. -/
def searchWALsTop (params : SearchParams) (entries : List Entry) (limit : ℤ) : List Entry × ℕ :=
  let limit := if limit ≤ 0 then params.limit else limit
  let matching := entries.filter fun entry ↦ matchesParams texts entry params
  (keepFirst (entryComesBefore params.sortAsc) limit.toNat (matching.map (walCandidate params)),
    matching.length)

/-- What is merged before it is sorted. -/
def mergedEntries (params : SearchParams) (segments : List (List ChunkFile))
    (wals : List (List Entry)) : List Entry :=
  segments.flatMap (fun chunks ↦ (segmentMatches zstd texts now params chunks).1) ++
    (searchWALsTop texts params wals.flatten (params.offset + params.limit)).1

/-- `Search`, on the segments and WAL files that `queryView` returned. -/
def search (params : SearchParams) (segments : List (List ChunkFile)) (wals : List (List Entry)) :
    SearchResult :=
  let params := clampParams now params
  ⟨pageOf params (sortBy (entryComesBefore params.sortAsc)
      (mergedEntries zstd texts now params segments wals)),
    (segments.map fun chunks ↦ (segmentMatches zstd texts now params chunks).2).sum +
      (searchWALsTop texts params wals.flatten (params.offset + params.limit)).2⟩

end Search

/-! ### What is in view -/

/-- The segments and WAL files in view, of which every chunk can be read. -/
structure View (zstd : Zstd) where
  segments : List (List (SealedChunk zstd))
  wals : List (List Entry)

section

variable {zstd : Zstd}

def View.files (view : View zstd) : List (List ChunkFile) :=
  view.segments.map (map SealedChunk.file)

/-- Every entry in view. -/
def View.held (view : View zstd) : List Entry :=
  view.segments.flatMap (flatMap fun chunk ↦ chunkEntries chunk.columns) ++ view.wals.flatten

/-- Every chunk in view, with all segments together. -/
def View.chunks (view : View zstd) : List (SealedChunk zstd) := view.segments.flatten

section

variable (texts : Texts)

/-- The rows that the index of a chunk finds, if it can be searched. -/
def foundRows (params : SearchParams) (chunk : SealedChunk zstd) : Option (List ℕ) :=
  match fullTextRows zstd texts params chunk.file with
  | .error _ => none
  | .ok candidates => candidates

/-- The index of every chunk in view can be searched for the full text. -/
def View.Searchable (params : SearchParams) (view : View zstd) : Prop :=
  ∀ chunk ∈ view.chunks, fullTextRows zstd texts params chunk.file = .ok (foundRows texts params chunk)

/-- Without a full text there is nothing to search an index for. -/
theorem View.searchable_of_no_query {params : SearchParams}
    (hquery : params.query = []) (view : View zstd) : view.Searchable texts params := by
  intro chunk _
  have hnone : fullTextRows zstd texts params chunk.file = .ok none := if_pos hquery
  rw [foundRows, hnone]

section

variable (params : SearchParams) (chunk : SealedChunk zstd)

/-- The rows of a chunk that pass the index and the columns. -/
def passingOf : List ℕ := passingRows chunk.columns texts params (foundRows texts params chunk)

/-- What a chunk contributes. -/
def answerOf : List Entry := chunkAnswer chunk.columns texts params (passingOf texts params chunk)

end

end

end

section Eval

variable {zstd : Zstd} {texts : Texts} {params : SearchParams} {start stop : ℤ}
  (hstart : params.start = some start) (hstop : params.stop = some stop)

include hstart hstop

theorem searchSegment_eq {chunks : List (SealedChunk zstd)}
    (hsearchable : ∀ chunk ∈ chunks,
      fullTextRows zstd texts params chunk.file = .ok (foundRows texts params chunk)) (now : ℤ) :
    searchSegment zstd texts now params (chunks.map SealedChunk.file) =
      .ok (chunks.flatMap (answerOf texts params)) := by
  induction chunks with
  | nil => rfl
  | cons chunk chunks ih =>
    rw [map_cons, searchSegment, searchChunk_eq chunk.holds hstart hstop
      (hsearchable chunk mem_cons_self) now,
      ih fun other hother ↦ hsearchable other (mem_cons_of_mem _ hother)]
    rfl

section

variable {view : View zstd} (hsearchable : view.Searchable texts params) (now : ℤ)

include hsearchable

theorem segmentMatches_eq {chunks : List (SealedChunk zstd)} (hchunks : chunks ∈ view.segments) :
    segmentMatches zstd texts now params (chunks.map SealedChunk.file) =
      (capEntriesByTs (chunks.flatMap (answerOf texts params)) params.sortAsc
        (params.offset + params.limit), (chunks.flatMap (answerOf texts params)).length) := by
  have hsegment := searchSegment_eq hstart hstop
    (fun chunk hchunk ↦ hsearchable chunk (mem_flatten.mpr ⟨chunks, hchunks, hchunk⟩)) now
  rw [segmentMatches, hsegment]

/-- What is merged, in terms of what the chunks contribute. -/
theorem mergedEntries_eq : mergedEntries zstd texts now params view.files view.wals =
      view.segments.flatMap (fun chunks ↦ capEntriesByTs (chunks.flatMap (answerOf texts params))
        params.sortAsc (params.offset + params.limit)) ++
      (searchWALsTop texts params view.wals.flatten (params.offset + params.limit)).1 := by
  rw [mergedEntries, View.files, flatMap_map]
  refine congrArg (· ++ _) (flatMap_congr fun chunks hchunks ↦ ?_)
  rw [segmentMatches_eq hstart hstop hsearchable now hchunks]

end

end Eval

/-! ### Bodies -/

/-- An entry as a search returns it, without its body if it asks for none. -/
def projected (bare : Bool) (entry : Entry) : Entry := if bare then { entry with body := [] } else entry

@[simp]
theorem id_projected (bare : Bool) (entry : Entry) : (projected bare entry).id = entry.id := by
  cases bare <;> rfl

theorem entry_eq_projected (columns : Columns) (row : ℕ) (bare : Bool) :
    columns.entry row (!bare) = projected bare (columns.entry row true) := by
  cases bare <;> rfl

theorem walCandidate_eq (params : SearchParams) :
    walCandidate params = projected (params.omitBody && !needsPostReadFilter params) := rfl

/-- Bodies play no part in the order. -/
theorem entryComesBefore_projected (asc bare : Bool) (first second : Entry) :
    entryComesBefore asc (projected bare first) (projected bare second) =
      entryComesBefore asc first second := by
  cases bare <;> rfl

theorem sortBy_map_projected (asc bare : Bool) (entries : List Entry) :
    sortBy (entryComesBefore asc) (entries.map (projected bare)) =
      (sortBy (entryComesBefore asc) entries).map (projected bare) :=
  (map_insertionSort _ _ _ _ fun first _ second _ ↦ by
    rw [NotAfter, NotAfter, entryComesBefore_projected]).symm

theorem map_id_projected (bare : Bool) (entries : List Entry) :
    (entries.map (projected bare)).map Entry.id = entries.map Entry.id := by
  rw [map_map]
  exact map_congr_left fun entry _ ↦ id_projected bare entry

/-! ### The page -/

/-- A page is a piece of the list; a negative offset drops nothing. -/
theorem pageOf_eq {params : SearchParams} (hlimit : 0 ≤ params.limit) (entries : List Entry) :
    pageOf params entries = (entries.drop params.offset.toNat).take params.limit.toNat := by
  have hrest : (if 0 < params.offset ∧ params.offset < entries.length then
        entries.drop params.offset.toNat
      else if entries.length ≤ params.offset then [] else entries) =
      entries.drop params.offset.toNat := by
    split_ifs with hmiddle hall
    · rfl
    · rw [drop_eq_nil_of_le (by omega)]
    · rw [show params.offset.toNat = 0 by omega, drop_zero]
  rw [pageOf, hrest]
  split_ifs with hlong
  · rfl
  · rw [take_of_length_le (by omega)]

theorem cuts_capEntriesByTs {entries : List Entry} (hids : (entries.map Entry.id).Nodup) (asc : Bool)
    (count : ℤ) :
    Cuts (entryComesBefore asc) count.toNat (capEntriesByTs entries asc count) entries := by
  have hnodup : entries.Nodup := Nodup.of_map _ hids
  unfold capEntriesByTs
  split_ifs
  · exact Cuts.refl hnodup
  · exact cuts_of_perm_topBy (ranks_comesBefore ..) hnodup (separates_entryComesBefore asc hids)
      (Perm.refl _)

/-- The entries of the WAL files that match, as they go into the heap. -/
def View.walMatches {zstd : Zstd} (texts : Texts) (params : SearchParams) (view : View zstd) :
    List Entry :=
  (view.wals.flatten.filter fun entry ↦ matchesParams texts entry params).map (walCandidate params)

/-- The page is the right piece of all matches, if what each chunk contributes is a cut of its own
matches. Assumes: the matches have different IDs, and neither offset nor limit is negative. -/
theorem pageOf_mergedEntries {zstd : Zstd} {texts : Texts} (params : SearchParams) {start stop : ℤ}
    (hstart : params.start = some start) (hstop : params.stop = some stop)
    (hoffset : 0 ≤ params.offset) (hlimit : 0 < params.limit) {view : View zstd}
    (hsearchable : view.Searchable texts params) (now : ℤ) {found : SealedChunk zstd → List Entry}
    (hcuts : ∀ chunk ∈ view.chunks, Cuts (entryComesBefore params.sortAsc)
      (params.offset + params.limit).toNat (answerOf texts params chunk) (found chunk))
    (hids : ((view.segments.flatMap (flatMap found) ++
      view.walMatches texts params).map Entry.id).Nodup) :
    pageOf params (sortBy (entryComesBefore params.sortAsc)
        (mergedEntries zstd texts now params view.files view.wals)) =
      ((sortBy (entryComesBefore params.sortAsc) (view.segments.flatMap (flatMap found) ++
        view.walMatches texts params)).drop params.offset.toNat).take params.limit.toNat := by
  set before := entryComesBefore params.sortAsc with hbefore
  set count := (params.offset + params.limit).toNat with hcount
  have hranks : Ranks before := ranks_comesBefore ..
  have hnodup := Nodup.of_map _ hids
  have hseparates := separates_entryComesBefore params.sortAsc hids
  rw [map_append, nodup_append'] at hids
  have hnodup' := hnodup
  rw [nodup_append'] at hnodup'
  have hsegments : Cuts before count (view.segments.flatMap fun chunks ↦ capEntriesByTs
      (chunks.flatMap (answerOf texts params)) params.sortAsc (params.offset + params.limit))
      (view.segments.flatMap (flatMap found)) := by
    refine Cuts.flatMap (fun chunks hchunks ↦ ?_) hnodup'.1
    have hsegment : (chunks.flatMap found).Sublist (view.segments.flatMap (flatMap found)) :=
      sublist_flatten_of_mem (mem_map_of_mem hchunks)
    have hanswers : Cuts before count (chunks.flatMap (answerOf texts params))
        (chunks.flatMap found) :=
      Cuts.flatMap (fun chunk hchunk ↦ hcuts chunk (mem_flatten.mpr ⟨chunks, hchunks, hchunk⟩))
        (hnodup'.1.sublist hsegment)
    refine Cuts.trans (cuts_capEntriesByTs ?_ params.sortAsc _) hanswers
    have hsegmentIds := hids.1.sublist (hsegment.map Entry.id)
    exact hanswers.nodup.map_on fun first hfirst second hsecond ↦
      inj_on_of_nodup_map hsegmentIds (hanswers.subset hfirst) (hanswers.subset hsecond)
  have hwals : Cuts before count
      (searchWALsTop texts params view.wals.flatten (params.offset + params.limit)).1
      (view.walMatches texts params) := by
    have hsome : ¬ params.offset + params.limit ≤ 0 := by omega
    have hwalSeparates := separates_entryComesBefore params.sortAsc hids.2.1
    simp only [searchWALsTop, if_neg hsome]
    exact cuts_of_perm_topBy hranks hnodup'.2.1 hwalSeparates (keepFirst_perm hranks hwalSeparates)
  have hmerged := hsegments.append hwals hnodup'.2.2
  rw [pageOf_eq hlimit.le, mergedEntries_eq hstart hstop hsearchable now]
  -- Both pieces lie within the first `offset + limit` entries.
  have hpiece : ∀ list : List Entry, (list.drop params.offset.toNat).take params.limit.toNat =
      (list.take count).drop params.offset.toNat := by
    intro list
    rw [drop_take, show count - params.offset.toNat = params.limit.toNat by omega]
  rw [hpiece, hpiece, ← topBy, ← topBy, hmerged.topBy_eq hranks hnodup hseparates]

end OpenTrace.Engine.Query
