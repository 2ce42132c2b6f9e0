import Mathlib.Data.List.Pairwise
import OpenTrace.Engine.Query.SearchReference

/-!
# Searching without bodies

A search can ask for entries without their bodies. Where a metadata filter needs the body and a chunk has
more candidates than the page, `searchChunk` reads it nevertheless. In a smaller chunk it does not, and the
metadata filter then refuses every row (`Drops`).

`omitBody_same_ids_iff` says when that shows: some entry of such a chunk would have been among the entries
up to the end of the page.
-/

namespace OpenTrace.Engine.Query

open Library Encoding Chunk List Bool

/-! ### Cutting segments that lose entries -/

section Cap

variable {asc : Bool} {count : ℤ} {entries : List Entry}

theorem ranks_entryComesBefore (asc : Bool) : Ranks (entryComesBefore asc) := ranks_comesBefore ..

theorem mem_capEntriesByTs (hids : (entries.map Entry.id).Nodup) {entry : Entry} :
    entry ∈ capEntriesByTs entries asc count ↔
      entry ∈ entries ∧ (count ≤ 0 ∨ entries.countP (entryComesBefore asc · entry) < count) := by
  have hranks := ranks_entryComesBefore asc
  unfold capEntriesByTs
  split_ifs with hall
  · refine ⟨fun hentry ↦ ⟨hentry, ?_⟩, And.left⟩
    have hshort : entries.countP (entryComesBefore asc · entry) < entries.length := by
      refine countP_lt_length_iff.mpr ⟨entry, hentry, ?_⟩
      rw [eq_false_iff]
      exact fun hself ↦ hranks.asymm hself hself
    omega
  · rw [← topBy, mem_topBy hranks (Nodup.of_map _ hids) (separates_entryComesBefore asc hids)]
    refine and_congr_right fun _ ↦ ?_
    omega

theorem length_capEntriesByTs_le {other : List Entry} (hlength : other.length ≤ entries.length) :
    (capEntriesByTs other asc count).length ≤ (capEntriesByTs entries asc count).length := by
  unfold capEntriesByTs
  split_ifs
  · exact hlength
  · rw [length_take, length_sortBy]
    omega
  · rw [length_take]
    omega
  · rw [length_take, length_take, length_sortBy, length_sortBy]
    omega

variable (hids : (entries.map Entry.id).Nodup) {stays : Entry → Bool} {entry : Entry}

include hids

/-- An entry that stays does not fall out of the cut. -/
theorem mem_cap_filter (hentry : entry ∈ capEntriesByTs entries asc count)
    (hstays : stays entry = true) : entry ∈ capEntriesByTs (entries.filter stays) asc count := by
  obtain ⟨hmem, hcount⟩ := (mem_capEntriesByTs hids).mp hentry
  refine (mem_capEntriesByTs (hids.sublist (filter_sublist.map _))).mpr
    ⟨mem_filter.mpr ⟨hmem, hstays⟩, hcount.imp_right fun hlt ↦ lt_of_le_of_lt ?_ hlt⟩
  exact_mod_cast Sublist.countP_le filter_sublist

/-- An entry that moves up into the cut lies behind a whole cut, with an entry in it that was lost. -/
theorem new_in_cap_filter (hentry : entry ∈ capEntriesByTs (entries.filter stays) asc count)
    (hnew : entry ∉ capEntriesByTs entries asc count) :
    0 < count ∧ (∃ lost ∈ capEntriesByTs entries asc count, stays lost = false ∧
        entryComesBefore asc lost entry) ∧
      count ≤ (capEntriesByTs entries asc count).countP (entryComesBefore asc · entry) := by
  have hranks := ranks_entryComesBefore asc
  have hkeptIds := hids.sublist ((@filter_sublist _ stays entries).map Entry.id)
  obtain ⟨hmem, hearly⟩ := (mem_capEntriesByTs hkeptIds).mp hentry
  obtain ⟨hmem, hstays⟩ := mem_filter.mp hmem
  rw [mem_capEntriesByTs hids] at hnew
  obtain ⟨hcut, hlate⟩ : 0 < count ∧ count ≤ entries.countP (entryComesBefore asc · entry) := by
    have hnot : ¬ (count ≤ 0 ∨ entries.countP (entryComesBefore asc · entry) < count) :=
      fun hcount ↦ hnew ⟨hmem, hcount⟩
    omega
  -- Everything in the cut comes before the entry.
  have hahead : ∀ other ∈ capEntriesByTs entries asc count, entryComesBefore asc other entry := by
    intro other hother
    obtain ⟨-, hrank⟩ := (mem_capEntriesByTs hids).mp hother
    by_contra hbehind
    have hmono : entries.countP (entryComesBefore asc · entry) ≤
        entries.countP (entryComesBefore asc · other) :=
      countP_mono_left fun another _ hanother ↦ hranks.before_of_before hanother hbehind
    omega
  have hnodup : (capEntriesByTs entries asc count).Nodup := (cuts_capEntriesByTs hids asc count).nodup
  have hsize : count ≤ (capEntriesByTs entries asc count).length := by
    have hlong : entries.countP (entryComesBefore asc · entry) ≤ entries.length := countP_le_length
    unfold capEntriesByTs
    split_ifs
    · omega
    · rw [length_take, length_sortBy]
      omega
  refine ⟨hcut, ?_, ?_⟩
  · by_contra hnone
    have hall : capEntriesByTs entries asc count ⊆
        (entries.filter stays).filter (entryComesBefore asc · entry) := by
      intro other hother
      refine mem_filter.mpr ⟨mem_filter.mpr
        ⟨((mem_capEntriesByTs hids).mp hother).1, ?_⟩, hahead other hother⟩
      by_contra hlost
      exact hnone ⟨other, hother, not_eq_true _ ▸ hlost, hahead other hother⟩
    have hlength := (subperm_of_subset hnodup hall).length_le
    rw [← countP_eq_length_filter] at hlength
    omega
  · rw [countP_eq_length.mpr hahead]
    exact hsize

end Cap

/-! ### Pages of what is merged -/

section Merged

variable {asc : Bool} {count : ℤ} {parts : List (List Entry)} {wal : List Entry} {stays : Entry → Bool}
  (hids : ((parts.flatten ++ wal).map Entry.id).Nodup) (hwal : ∀ entry ∈ wal, stays entry = true)

/-- What is merged of several parts, each cut, and of the WAL files. -/
def mergedParts (asc : Bool) (count : ℤ) (parts : List (List Entry)) (wal : List Entry) : List Entry :=
  parts.flatMap (fun part ↦ capEntriesByTs part asc count) ++ wal

theorem nodup_ids_of_mem {part : List Entry} (hids : ((parts.flatten ++ wal).map Entry.id).Nodup)
    (hpart : part ∈ parts) : (part.map Entry.id).Nodup := by
  rw [map_append, nodup_append'] at hids
  exact hids.1.sublist ((sublist_flatten_of_mem hpart).map _)

include hids

theorem cuts_mergedParts : Cuts (entryComesBefore asc) count.toNat (mergedParts asc count parts wal)
    (parts.flatten ++ wal) := by
  have hnodup := Nodup.of_map _ hids
  rw [nodup_append'] at hnodup
  have hflatten : parts.flatten = parts.flatMap id := flatMap_id.symm
  refine Cuts.append ?_ (Cuts.refl hnodup.2.1) hnodup.2.2
  rw [hflatten] at hnodup ⊢
  exact Cuts.flatMap (fun part hpart ↦ cuts_capEntriesByTs (nodup_ids_of_mem hids hpart) asc count)
    hnodup.1

theorem nodup_ids_mergedParts : ((mergedParts asc count parts wal).map Entry.id).Nodup := by
  have hcuts := @cuts_mergedParts asc count parts wal hids
  exact hcuts.nodup.map_on fun first hfirst second hsecond ↦
    inj_on_of_nodup_map hids (hcuts.subset hfirst) (hcuts.subset hsecond)

omit hids in
theorem flatten_map_filter (parts : List (List Entry)) (stays : Entry → Bool) :
    (parts.map (filter stays)).flatten = parts.flatten.filter stays := by
  rw [filter_flatten]

theorem nodup_ids_filter : (((parts.map (filter stays)).flatten ++ wal).map Entry.id).Nodup := by
  refine hids.sublist (Sublist.map _ (Sublist.append_right ?_ wal))
  rw [flatten_map_filter]
  exact filter_sublist

include hwal

omit hids in
/-- Everything that is merged of the entries that stay stays. -/
theorem stays_of_mem {entry : Entry}
    (hentry : entry ∈ mergedParts asc count (parts.map (filter stays)) wal) :
    stays entry = true := by
  rcases mem_append.mp hentry with hpart | hrest
  · rw [flatMap_map] at hpart
    obtain ⟨part, -, hentry⟩ := mem_flatMap.mp hpart
    have hmem : entry ∈ part.filter stays := by
      unfold capEntriesByTs at hentry
      split_ifs at hentry
      · exact hentry
      · exact mem_sortBy.mp (mem_of_mem_take hentry)
    exact (mem_filter.mp hmem).2
  · exact hwal entry hrest

omit hwal in
theorem mergedParts_filter_subset :
    mergedParts asc count (parts.map (filter stays)) wal ⊆ parts.flatten ++ wal := by
  refine Subset.trans (cuts_mergedParts (nodup_ids_filter hids)).subset ?_
  rw [flatten_map_filter]
  exact (Sublist.append_right filter_sublist wal).subset

/-- A page of what is merged is the same without the entries that do not stay, exactly if it is empty
or none of them is among the entries up to its end. -/
theorem piece_mergedParts_iff {offset limit : ℤ} (hlimit : 0 < limit) :
    ((sortBy (entryComesBefore asc) (mergedParts asc (offset + limit) parts wal)).drop
          offset.toNat).take limit.toNat =
        ((sortBy (entryComesBefore asc) (mergedParts asc (offset + limit)
          (parts.map (filter stays)) wal)).drop offset.toNat).take limit.toNat ↔
      (mergedParts asc (offset + limit) parts wal).length ≤ offset.toNat ∨
        ∀ entry ∈ topBy (entryComesBefore asc) (offset.toNat + limit.toNat)
          (mergedParts asc (offset + limit) parts wal), stays entry = true := by
  have hkeptIds := @nodup_ids_filter parts wal stays hids
  have hmergedIds := @nodup_ids_mergedParts asc (offset + limit) parts wal hids
  have hotherIds := @nodup_ids_mergedParts asc (offset + limit) _ wal hkeptIds
  have hlength : (mergedParts asc (offset + limit) (parts.map (filter stays)) wal).length ≤
      (mergedParts asc (offset + limit) parts wal).length := by
    rw [mergedParts, mergedParts, length_append, length_append, flatMap_map,
      length_flatMap, length_flatMap]
    refine Nat.add_le_add_right (sum_map_le_and_eq_iff fun part _ ↦ ?_).1 _
    exact length_capEntriesByTs_le (length_filter_le ..)
  have hback : ∀ entry ∈ mergedParts asc (offset + limit) parts wal, stays entry = true →
      entry ∈ mergedParts asc (offset + limit) (parts.map (filter stays)) wal := by
    intro entry hentry hstays
    rcases mem_append.mp hentry with hpart | hrest
    · obtain ⟨part, hpart, hentry⟩ := mem_flatMap.mp hpart
      refine mem_append_left _ ?_
      rw [flatMap_map]
      exact mem_flatMap.mpr ⟨part, hpart,
        mem_cap_filter (nodup_ids_of_mem hids hpart) hentry hstays⟩
    · exact mem_append_right _ hrest
  have hnew : ∀ entry ∈ mergedParts asc (offset + limit) (parts.map (filter stays)) wal,
      entry ∉ mergedParts asc (offset + limit) parts wal →
      (∃ lost ∈ mergedParts asc (offset + limit) parts wal,
        lost ∉ mergedParts asc (offset + limit) (parts.map (filter stays)) wal ∧
          entryComesBefore asc lost entry) ∧
      (offset.toNat = 0 ∨ offset.toNat < (mergedParts asc (offset + limit) parts wal).countP
        (entryComesBefore asc · entry)) := by
    intro entry hentry hfresh
    rcases mem_append.mp hentry with hpart | hrest
    · rw [flatMap_map] at hpart
      obtain ⟨part, hpart, hentry⟩ := mem_flatMap.mp hpart
      have hcapped : ∀ other ∈ capEntriesByTs part asc (offset + limit),
          other ∈ mergedParts asc (offset + limit) parts wal := fun other hother ↦
        mem_append_left _ (mem_flatMap.mpr ⟨part, hpart, hother⟩)
      obtain ⟨hcut, ⟨lost, hlost, hgone, hahead⟩, hcount⟩ := new_in_cap_filter
        (nodup_ids_of_mem hids hpart) hentry fun hold ↦ hfresh (hcapped entry hold)
      refine ⟨⟨lost, hcapped lost hlost, fun hthere ↦ ?_, hahead⟩, ?_⟩
      · rw [stays_of_mem hwal hthere] at hgone
        cases hgone
      · have hsub := (subperm_of_subset (cuts_capEntriesByTs (nodup_ids_of_mem hids hpart) asc
          (offset + limit)).nodup hcapped).countP_le (entryComesBefore asc · entry)
        omega
    · exact absurd (mem_append_right _ hrest) hfresh
  rw [piece_eq_iff_of_lost (ranks_entryComesBefore asc) (Nodup.of_map _ hmergedIds)
    (Nodup.of_map _ hotherIds) (separates_entryComesBefore asc hmergedIds)
    (separates_entryComesBefore asc hotherIds) (by omega) hlength hnew]
  refine or_congr_right ⟨fun hsubset entry hentry ↦ stays_of_mem hwal (hsubset hentry),
    fun hstays entry hentry ↦ hback entry (topBy_subset _ _ hentry) (hstays entry hentry)⟩

end Merged

/-! ### Chunks that are dropped -/

section Chunk

variable {zstd : Zstd} (texts : Texts) (params : SearchParams) (chunk : SealedChunk zstd)

/-- The metadata filter needs bodies, and the chunk has no more candidates than the page needs. -/
def drops : Bool :=
  params.metadataFilter ≠ [] && !(0 < params.offset + params.limit &&
    params.offset + params.limit < (passingOf texts params chunk).length)

/-- The rows behind what a chunk contributes, and whether they come with bodies. -/
theorem answerOf_rows : ∃ (rows : List ℕ) (includeBody : Bool), rows.Nodup ∧
    rows ⊆ passingOf texts params chunk ∧
    answerOf texts params chunk = rows.map (chunk.columns.entry · includeBody) := by
  have hnodup := @nodup_passingOf _ texts params chunk
  simp only [answerOf, chunkAnswer]
  split_ifs with hwalk hneeds
  · refine ⟨((sortBy (walksBefore params.sortAsc chunk.columns.ts) (passingOf texts params
      chunk)).filter fun row ↦ postKeep texts params (chunk.columns.entry row true)).take
        (params.offset + params.limit).toNat, true, ((nodup_sortBy hnodup).filter _).take, ?_, ?_⟩
    · exact fun row hrow ↦ mem_sortBy.mp (mem_of_mem_filter (mem_of_mem_take hrow))
    · rw [filter_map, map_take]
      rfl
  · refine ⟨(passingOf texts params chunk).filter fun row ↦
      postKeep texts params (chunk.columns.entry row !params.omitBody), !params.omitBody,
      hnodup.filter _, filter_subset_self _, ?_⟩
    rw [filter_map]
    rfl
  · refine ⟨(selectTopRows chunk.columns.ts (passingOf texts params chunk) params.sortAsc
      (params.offset + params.limit)).filter fun row ↦
        postKeep texts params (chunk.columns.entry row !params.omitBody), !params.omitBody,
      (cuts_selectTopRows hnodup _ _).nodup.filter _, ?_, ?_⟩
    · exact Subset.trans (filter_subset_self _) (selectTopRows_subset _ _ _ _)
    · rw [filter_map]
      rfl

/-- A chunk contributes each of its IDs at most once. -/
theorem ids_answerOf : ((answerOf texts params chunk).map Entry.id).Nodup ∧
    (answerOf texts params chunk).map Entry.id ⊆ (chunkEntries chunk.columns).map Entry.id := by
  obtain ⟨rows, includeBody, hnodup, hsubset, hanswer⟩ := answerOf_rows texts params chunk
  rw [hanswer, map_map]
  refine ⟨hnodup.map_on fun row hrow other hother hid ↦ ?_, fun id hid ↦ ?_⟩
  · have hrow := passingOf_lt texts chunk (hsubset hrow)
    have hother := passingOf_lt texts chunk (hsubset hother)
    have hless := id_lt_iff chunk hrow hother includeBody includeBody
    have hmore := id_lt_iff chunk hother hrow includeBody includeBody
    simp only [Function.comp_apply] at hid
    rw [hid] at hless hmore
    omega
  · obtain ⟨row, hrow, rfl⟩ := mem_map.mp hid
    refine mem_map.mpr ⟨chunk.columns.entry row true, mem_map.mpr
      ⟨row, mem_range.mpr (passingOf_lt texts chunk (hsubset hrow)), rfl⟩, rfl⟩

/-- Without its body no entry has metadata. -/
theorem matchesMetadata_bare {columns : Columns} {row : ℕ} (hmetadata : params.metadataFilter ≠ []) :
    matchesMetadata texts (columns.entry row false) params.metadataFilter = false := by
  simp [matchesMetadata, entryMetadata, Columns.entry, hmetadata]

/-- A search without bodies gets the same rows from a chunk, or none if the chunk is dropped. -/
theorem answerOf_omitBody :
    (answerOf texts { params with omitBody := true } chunk).map (projected true) =
      if drops texts params chunk then []
      else (answerOf texts { params with omitBody := false } chunk).map (projected true) := by
  have hpassing : ∀ bare, passingOf texts { params with omitBody := bare } chunk =
      passingOf texts params chunk := fun _ ↦ rfl
  have hneeds : ∀ bare, needsPostReadFilter { params with omitBody := bare } =
      needsPostReadFilter params := fun _ ↦ rfl
  have hpost : ∀ bare, postKeep texts { params with omitBody := bare } = postKeep texts params :=
    fun _ ↦ rfl
  simp only [answerOf, chunkAnswer, hpassing, hneeds, hpost, drops]
  by_cases hwalk : needsPostReadFilter params = true ∧ 0 < params.offset + params.limit ∧
      params.offset + params.limit < (passingOf texts params chunk).length
  · simp [hwalk]
  · rw [if_neg hwalk, if_neg hwalk]
    by_cases hmetadata : params.metadataFilter = []
    · -- Nothing looks at the body.
      have hkeep : ∀ row, postKeep texts params (chunk.columns.entry row false) =
          postKeep texts params (chunk.columns.entry row true) := by
        intro row
        simp only [postKeep, hmetadata]
        rfl
      simp only [hmetadata, filter_map, map_map]
      exact congrArg (map _) (filter_congr fun row _ ↦ hkeep row)
    · have hcut : ¬ (0 < params.offset + params.limit ∧
          params.offset + params.limit < (passingOf texts params chunk).length) :=
        fun hcut ↦ hwalk ⟨by simp [needsPostReadFilter, hmetadata], hcut⟩
      have hcut : params.offset + params.limit ≤ 0 ∨
          ((passingOf texts params chunk).length : ℤ) ≤ params.offset + params.limit := by omega
      have hdrops : (decide (params.metadataFilter ≠ []) && !(decide (0 < params.offset +
          params.limit) && decide (params.offset + params.limit <
            ((passingOf texts params chunk).length : ℤ)))) = true := by
        simpa [hmetadata] using hcut
      rw [hdrops, if_pos rfl, map_eq_nil_iff]
      refine filter_eq_nil_iff.mpr fun entry hentry ↦ ?_
      obtain ⟨row, -, rfl⟩ := mem_map.mp hentry
      rw [Bool.not_true, postKeep, matchesMetadata_bare texts params hmetadata, Bool.and_false]
      exact Bool.false_ne_true

end Chunk

/-! ### The two searches -/

/-- Lists of the same keys are the same, if no two of their values share a key. -/
theorem eq_of_map_eq {α β : Type} {key : α → β} {list other : List α}
    (hkeys : ∀ first ∈ list, ∀ second ∈ other, key first = key second → first = second)
    (hsame : list.map key = other.map key) : list = other := by
  have hlength : list.length = other.length := by
    simpa using congrArg length hsame
  refine ext_getElem hlength fun place hplace hother ↦
    hkeys _ (getElem_mem hplace) _ (getElem_mem hother) ?_
  have hat := getElem_of_eq hsame (by rwa [length_map] : place < (list.map key).length)
  simpa using hat

section View

variable {zstd : Zstd} (texts : Texts) (params : SearchParams) (view : View zstd)

/-- The entry is in a chunk that is dropped. -/
def isDropped (entry : Entry) : Bool :=
  view.chunks.any fun chunk ↦
    drops texts params chunk && (chunkEntries chunk.columns).any (·.id = entry.id)

/-- What a segment contributes, without bodies. -/
def bareAnswers (chunks : List (SealedChunk zstd)) : List Entry :=
  (chunks.flatMap (answerOf texts { params with omitBody := false })).map (projected true)

/-- What the WAL files contribute, without bodies. -/
def bareWal : List Entry :=
  (searchWALsTop texts { params with omitBody := false } view.wals.flatten
    (params.offset + params.limit)).1.map (projected true)

variable (hids : (view.held.map Entry.id).Nodup)

include hids

theorem nodup_chunk_ids :
    (view.chunks.flatMap fun chunk ↦ (chunkEntries chunk.columns).map Entry.id).Nodup := by
  rw [View.held, map_append, nodup_append'] at hids
  have hflat : (view.segments.flatMap (flatMap fun chunk ↦ chunkEntries chunk.columns)).map
      Entry.id = view.chunks.flatMap fun chunk ↦ (chunkEntries chunk.columns).map Entry.id := by
    rw [View.chunks, map_flatMap, ← flatMap_id, flatMap_assoc]
    exact flatMap_congr fun chunks _ ↦ map_flatMap ..
  exact hflat ▸ hids.1

/-- No two chunks in view share an ID. -/
theorem chunk_eq_of_id {chunk other : SealedChunk zstd} (hchunk : chunk ∈ view.chunks)
    (hother : other ∈ view.chunks) {id : Int64} (hid : id ∈ (chunkEntries chunk.columns).map Entry.id)
    (hid' : id ∈ (chunkEntries other.columns).map Entry.id) : other = chunk := by
  by_contra hne
  have hdisjoint := (nodup_flatMap.mp (nodup_chunk_ids view hids)).2
  have hsymm : Std.Symm (Function.onFun Disjoint fun chunk : SealedChunk zstd ↦
    (chunkEntries chunk.columns).map Entry.id) := ⟨fun _ _ hapart ↦ hapart.symm⟩
  exact hdisjoint.forall hother hchunk hne hid' hid

/-- No WAL file has an ID of a chunk. -/
theorem not_mem_wals_of_id {chunk : SealedChunk zstd} (hchunk : chunk ∈ view.chunks) {id : Int64}
    (hid : id ∈ (chunkEntries chunk.columns).map Entry.id) :
    id ∉ view.wals.flatten.map Entry.id := by
  intro hwal
  rw [View.held, map_append, nodup_append'] at hids
  obtain ⟨chunks, hchunks, hchunk⟩ := mem_flatten.mp hchunk
  obtain ⟨entry, hentry, rfl⟩ := mem_map.mp hid
  exact hids.2.2 (mem_map_of_mem (mem_flatMap.mpr
    ⟨chunks, hchunks, mem_flatMap.mpr ⟨chunk, hchunk, hentry⟩⟩)) hwal

theorem nodup_wal_ids : (view.wals.flatten.map Entry.id).Nodup := by
  rw [View.held, map_append, nodup_append'] at hids
  exact hids.2.1

/-- What the chunks contribute shares no ID, and none with the WAL files. -/
theorem nodup_answers_append {walIDs : List Int64} (hwal : walIDs ⊆ view.wals.flatten.map Entry.id)
    (hnodup : walIDs.Nodup) :
    ((view.chunks.flatMap fun chunk ↦ (answerOf texts params chunk).map Entry.id) ++
      walIDs).Nodup := by
  have hchunks := nodup_flatMap.mp (nodup_chunk_ids view hids)
  have hsubset := fun chunk : SealedChunk zstd ↦ (ids_answerOf texts params chunk).2
  refine nodup_append'.mpr ⟨nodup_flatMap.mpr ⟨fun chunk _ ↦ (ids_answerOf ..).1,
    hchunks.2.imp fun hapart id hid hother ↦ hapart (hsubset _ hid) (hsubset _ hother)⟩, hnodup,
    fun id hid hother ↦ ?_⟩
  obtain ⟨chunk, hchunk, hid⟩ := mem_flatMap.mp hid
  exact not_mem_wals_of_id view hids hchunk (hsubset chunk hid) (hwal hother)

/-- Of a chunk's entries, all are dropped or none. -/
theorem isDropped_eq {chunk : SealedChunk zstd} (hchunk : chunk ∈ view.chunks) {entry : Entry}
    (hentry : entry.id ∈ (chunkEntries chunk.columns).map Entry.id) :
    isDropped texts params view entry = drops texts params chunk := by
  rw [Bool.eq_iff_iff, isDropped, any_eq_true]
  constructor
  · rintro ⟨other, hother, hdrops⟩
    rw [and_eq_true, any_eq_true] at hdrops
    obtain ⟨hdrops, held, hheld, hid⟩ := hdrops
    have hsame := chunk_eq_of_id view hids hchunk hother hentry
      (of_decide_eq_true hid ▸ mem_map_of_mem hheld)
    exact hsame ▸ hdrops
  · intro hdrops
    obtain ⟨held, hheld, hid⟩ := mem_map.mp hentry
    refine ⟨chunk, hchunk, ?_⟩
    rw [hdrops, Bool.true_and, any_eq_true]
    exact ⟨held, hheld, decide_eq_true hid⟩

/-- The entries that stay are what the search without bodies gets from a segment. -/
theorem filter_bareAnswers {chunks : List (SealedChunk zstd)} (hchunks : chunks ∈ view.segments) :
    (bareAnswers texts params chunks).filter (fun entry ↦ !isDropped texts params view entry) =
      (chunks.flatMap (answerOf texts { params with omitBody := true })).map (projected true) := by
  rw [bareAnswers, map_flatMap, map_flatMap, filter_flatMap]
  refine flatMap_congr fun chunk hchunk ↦ ?_
  have hmem : chunk ∈ view.chunks := mem_flatten.mpr ⟨chunks, hchunks, hchunk⟩
  have hsame : ∀ entry ∈ (answerOf texts { params with omitBody := false } chunk).map
      (projected true), isDropped texts params view entry = drops texts params chunk := by
    intro entry hentry
    obtain ⟨held, hheld, rfl⟩ := mem_map.mp hentry
    refine isDropped_eq texts params view hids hmem ?_
    rw [id_projected]
    exact (ids_answerOf texts _ chunk).2 (mem_map_of_mem hheld)
  rw [answerOf_omitBody, filter_congr fun entry hentry ↦ congrArg (!·) (hsame entry hentry)]
  cases drops texts params chunk
  · exact filter_true _
  · exact filter_false _

omit hids in
theorem map_capEntriesByTs (entries : List Entry) (asc : Bool) (count : ℤ) :
    (capEntriesByTs entries asc count).map (projected true) =
      capEntriesByTs (entries.map (projected true)) asc count := by
  unfold capEntriesByTs
  rw [length_map, sortBy_map_projected, apply_ite (map (projected true)), map_take]

omit hids in
/-- Without bodies, the WAL files contribute the same to both searches. -/
theorem bareWal_eq (bare : Bool) :
    (searchWALsTop texts { params with omitBody := bare } view.wals.flatten
      (params.offset + params.limit)).1.map (projected true) = bareWal texts params view := by
  have hmatches : ∀ bare entry, matchesParams texts entry { params with omitBody := bare } =
      matchesParams texts entry params := fun _ _ ↦ rfl
  have htwice : ∀ other : Bool, projected true ∘ projected other = projected true := by
    intro other
    cases other <;> rfl
  simp only [bareWal, searchWALsTop, hmatches, walCandidate_eq]
  rw [map_keepFirst _ _ _ (entryComesBefore_projected _ true),
    map_keepFirst _ _ _ (entryComesBefore_projected _ true), map_map, map_map, htwice, htwice]

omit hids in
/-- The WAL files contribute their own IDs, each at most once if the files have it only once. -/
theorem ids_bareWal : (bareWal texts params view).map Entry.id ⊆ view.wals.flatten.map Entry.id ∧
    ((view.wals.flatten.map Entry.id).Nodup → ((bareWal texts params view).map Entry.id).Nodup) := by
  have hranks := ranks_entryComesBefore params.sortAsc
  rw [bareWal, map_id_projected, searchWALsTop, walCandidate_eq]
  constructor
  · refine Subset.trans (map_subset _ (keepFirst_subset hranks _)) ?_
    rw [map_id_projected]
    exact (filter_sublist.map _).subset
  · intro hnodup
    refine nodup_map_keepFirst hranks ?_
    rw [map_id_projected]
    exact hnodup.sublist (filter_sublist.map _)

/-- No entry of a WAL file is dropped. -/
theorem isDropped_bareWal {entry : Entry} (hentry : entry ∈ bareWal texts params view) :
    isDropped texts params view entry = false := by
  rw [isDropped, any_eq_false]
  intro chunk hchunk hdrops
  rw [and_eq_true, any_eq_true] at hdrops
  obtain ⟨-, held, hheld, hid⟩ := hdrops
  refine not_mem_wals_of_id view hids hchunk (mem_map_of_mem hheld) ?_
  rw [of_decide_eq_true hid]
  exact (ids_bareWal texts params view).1 (mem_map_of_mem hentry)

theorem nodup_ids_bare : (((view.segments.map (bareAnswers texts params)).flatten ++
    bareWal texts params view).map Entry.id).Nodup := by
  have hanswers : ((view.segments.map (bareAnswers texts params)).flatten).map Entry.id =
      view.chunks.flatMap fun chunk ↦
        (answerOf texts { params with omitBody := false } chunk).map Entry.id := by
    rw [← flatMap_def, map_flatMap, View.chunks, ← flatMap_id, flatMap_assoc]
    refine flatMap_congr fun chunks _ ↦ ?_
    rw [bareAnswers, map_id_projected, map_flatMap]
    rfl
  have hwal := ids_bareWal texts params view
  rw [map_append, hanswers]
  exact nodup_answers_append texts _ view hids hwal.1 (hwal.2 (nodup_wal_ids view hids))

variable {start stop : ℤ} (hstart : params.start = some start) (hstop : params.stop = some stop)
  (hsearchable : view.Searchable texts params)

include hstart hstop hsearchable

omit hids in
/-- What is merged, without bodies, in terms of what the segments contribute. -/
theorem bare_mergedEntries (now : ℤ) (bare : Bool) :
    (mergedEntries zstd texts now { params with omitBody := bare } view.files view.wals).map
        (projected true) =
      mergedParts params.sortAsc (params.offset + params.limit)
        (view.segments.map fun chunks ↦
          (chunks.flatMap (answerOf texts { params with omitBody := bare })).map (projected true))
        (bareWal texts params view) := by
  rw [@mergedEntries_eq zstd texts { params with omitBody := bare } start stop hstart hstop view
    hsearchable now, map_append, bareWal_eq, mergedParts, flatMap_map, map_flatMap]
  refine congrArg (· ++ _) (flatMap_congr fun chunks _ ↦ ?_)
  exact map_capEntriesByTs ..

/-- The pages of both searches have the same IDs exactly if no entry up to the end of the page is in a
chunk that is dropped, or the page is empty. -/
theorem pageOf_same_ids_iff (now : ℤ) (hlimit : 0 < params.limit) :
    (pageOf params (sortBy (entryComesBefore params.sortAsc) (mergedEntries zstd texts now
          { params with omitBody := true } view.files view.wals))).map Entry.id =
        (pageOf params (sortBy (entryComesBefore params.sortAsc) (mergedEntries zstd texts now
          { params with omitBody := false } view.files view.wals))).map Entry.id ↔
      (mergedEntries zstd texts now { params with omitBody := false } view.files view.wals).length ≤
          params.offset.toNat ∨
        ∀ entry ∈ topBy (entryComesBefore params.sortAsc) (params.offset.toNat + params.limit.toNat)
          (mergedEntries zstd texts now { params with omitBody := false } view.files view.wals),
          isDropped texts params view entry = false := by
  have hmerged := bare_mergedEntries texts params view hstart hstop hsearchable now
  have hpage : ∀ entries : List Entry,
      (pageOf params (sortBy (entryComesBefore params.sortAsc) entries)).map Entry.id =
      (((sortBy (entryComesBefore params.sortAsc) (entries.map (projected true))).drop
        params.offset.toNat).take params.limit.toNat).map Entry.id := by
    intro entries
    rw [sortBy_map_projected, ← map_drop, ← map_take, map_id_projected, pageOf_eq hlimit.le]
  have hparts : view.segments.map (fun chunks ↦ (chunks.flatMap (answerOf texts
      { params with omitBody := true })).map (projected true)) =
      (view.segments.map (bareAnswers texts params)).map
        (filter fun entry ↦ !isDropped texts params view entry) := by
    rw [map_map]
    exact map_congr_left fun chunks hchunks ↦
      (filter_bareAnswers texts params view hids hchunks).symm
  have hbare := nodup_ids_bare texts params view hids
  have hpiece := @piece_mergedParts_iff params.sortAsc _ _
    (fun entry ↦ !isDropped texts params view entry) hbare
    (fun entry hentry ↦ by rw [isDropped_bareWal texts params view hids hentry, Bool.not_false])
    params.offset _ hlimit
  have hends : (∀ entry ∈ topBy (entryComesBefore params.sortAsc) (params.offset.toNat +
      params.limit.toNat) ((mergedEntries zstd texts now { params with omitBody := false } view.files
        view.wals).map (projected true)), (!isDropped texts params view entry) = true) ↔
      ∀ entry ∈ topBy (entryComesBefore params.sortAsc) (params.offset.toNat +
        params.limit.toNat) (mergedEntries zstd texts now { params with omitBody := false }
          view.files view.wals), isDropped texts params view entry = false := by
    rw [topBy, sortBy_map_projected, ← map_take, forall_mem_map]
    refine forall₂_congr fun entry _ ↦ ?_
    rw [not_eq_true']
    simp only [isDropped, id_projected]
  have hsame : (mergedEntries zstd texts now { params with omitBody := false } view.files
      view.wals).map (projected true) = mergedParts params.sortAsc (params.offset + params.limit)
        (view.segments.map (bareAnswers texts params)) (bareWal texts params view) := hmerged false
  rw [hpage, hpage, hmerged true, hparts]
  rw [← length_map (projected true), ← hends, hsame, ← hpiece]
  refine ⟨fun hsameIds ↦ (eq_of_map_eq (fun first hfirst second hsecond ↦ ?_) hsameIds).symm,
    fun hsamePage ↦ congrArg _ hsamePage.symm⟩
  refine inj_on_of_nodup_map hbare ?_ ?_
  · exact mergedParts_filter_subset hbare (mem_sortBy.mp (mem_of_mem_drop
      (mem_of_mem_take hfirst)))
  · exact (cuts_mergedParts hbare).subset (mem_sortBy.mp (mem_of_mem_drop
      (mem_of_mem_take hsecond)))

end View

/-- A body with metadata. -/
def taggedBody : Bytes := ascii "\x7b\"metadata\":\x7b\"tag\":\"a\"\x7d\x7d"

/-- ASCII texts, and a reading of this one body. -/
def taggedTexts : Texts :=
  { Texts.ascii with
    metadata := fun body ↦
      if body = taggedBody then some fun key ↦ if key = ascii "tag" then some (ascii "a") else none
      else none }

def taggedEntry : Entry := { Entry.zero with id := 1, body := taggedBody }

def taggedSearch : SearchParams := { metadataFilter := [(ascii "tag", ascii "a")], start := some 0 }

theorem exists_taggedChunk : ∃ chunk : SealedChunk Zstd.stored,
    chunk.columns = writtenColumns [taggedEntry] := by
  obtain ⟨chunk, hcolumns, -⟩ := @exists_sealedChunk [taggedEntry] (by decide) (by
    intro entry hentry
    obtain rfl := mem_singleton.mp hentry
    exact ⟨fun _ ↦ Nat.zero_le _, fun _ ↦ Int64.le_refl 0⟩)
    (by decide) (by decide) (pairwise_singleton ..) []
  exact ⟨chunk, hcolumns⟩

end OpenTrace.Engine.Query
