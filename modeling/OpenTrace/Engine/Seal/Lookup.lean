import OpenTrace.Engine.ChunkRow
import OpenTrace.Engine.Seal.CrashAtomic

/-!
# Rows of a sealed segment by ID

`locatePhysicalChunk` computes a row from the distance of an ID to the first ID of a chunk. That is
the right row because no chunk crosses a boundary of the ID layout: within a chunk the IDs follow each
other (`consecutive_rowGroups`). Hence an ID that is found is the ID of the row it is found at
(`find_chunk_sound`), whatever the size of the chunks, and an ID that nobody has is not found.

`locate_after_seal` states this for the directory that `Seal` leaves, down to the ID column of the chunk
file.
-/

namespace OpenTrace.Engine.Seal

open Library Encoding Chunk Wal Engine.Store List Option Script

/-! ### Consecutive IDs -/

/-- The IDs of the rows follow each other. -/
def Consecutive (rows : List Entry) : Prop :=
  ∀ (row : ℕ) (entry : Entry), rows[row]? = some entry →
    entry.id.toInt = (rows.head?.getD Entry.zero).id.toInt + row

variable {rows : List Entry} {physical hour : ℕ} {zstd : Zstd} (dir : SegmentDir) (name : Name)

/-- Rows of one logical chunk have consecutive IDs, in every hour. -/
theorem consecutive_of_positioned {hour start : ℕ} (hrows : Positioned hour start rows)
    (hchunk : start % chunkSize + rows.length ≤ chunkSize) :
    Consecutive rows := by
  intro row entry hentry
  have hrow : row < rows.length := (List.getElem?_eq_some_iff.mp hentry).choose
  have hbound := hrows.length_le
  have hnil : rows ≠ [] := fun hnil ↦ by simp [hnil] at hrow
  have hdistance : packedID 0 (start + row) = packedID 0 start + row := by
    unfold packedID chunkSize
    unfold chunkSize at hchunk
    omega
  rw [hrows.id row entry hentry, hrows.head_id hnil,
    toInt_idForPosition_shift _ (show start + row < maxEntriesPerSegment by omega),
    toInt_idForPosition_shift _ (show start < maxEntriesPerSegment by omega), hdistance]
  push_cast
  ring

theorem consecutive_rowGroupsLoop (hphysical : 0 < physical) {fuel start : ℕ}
    (hrows : Positioned hour start rows) :
    ∀ group ∈ rowGroupsLoop physical fuel start rows, group.length ≤ chunkSize ∧ Consecutive group := by
  induction fuel generalizing start rows with
  | zero => simp [rowGroupsLoop]
  | succ fuel ih =>
    by_cases hnil : rows = []
    · simp [hnil, rowGroupsLoop]
    · obtain ⟨limit, -, -, hboundary, hstep⟩ := rowGroupsLoop_succ hphysical hnil
      have hlength : (rows.take limit).length ≤ limit := length_take_le _ _
      rw [hstep, forall_mem_cons]
      refine ⟨⟨by omega, consecutive_of_positioned (hrows.take limit) (by omega)⟩, ?_⟩
      by_cases hcount : limit ≤ rows.length
      · rw [length_take_of_le hcount]
        exact ih (hrows.drop hcount)
      · -- the batch was the last one
        rw [drop_of_length_le (by omega)]
        cases fuel <;> simp [rowGroupsLoop]

theorem consecutive_rowGroups (hphysical : 0 < physical) (hrows : Positioned hour 0 rows) :
    ∀ group ∈ rowGroups physical rows, group ≠ [] ∧ group.length ≤ chunkSize ∧ Consecutive group :=
  fun group hgroup ↦ ⟨rowGroupsLoop_ne_nil group hgroup,
    consecutive_rowGroupsLoop hphysical hrows group hgroup⟩

/-! ### Lookup -/

/-- Among consecutive IDs the distance to the first one is the row. -/
theorem Consecutive.row_of_id (hrows : Consecutive rows) (hlength : rows.length ≤ chunkSize)
    {chunk : ChunkMeta} (hchunk : Describes rows chunk) {id : Int64} (hfirst : ¬ id < chunk.firstID)
    (hlast : ¬ chunk.lastID < id) :
    ∃ entry, rows[(id - chunk.firstID).toInt.toNat]? = some entry ∧ entry.id = id := by
  obtain ⟨head, hhead, hheadID⟩ := map_eq_some_iff.mp hchunk.firstID
  obtain ⟨last, hgetLast, hlastID⟩ := map_eq_some_iff.mp hchunk.lastID
  have hlastRow := hrows (rows.length - 1) last (by rw [← getLast?_eq_getElem?, hgetLast])
  rw [hhead, getD_some, hheadID, hlastID] at hlastRow
  rw [Int64.not_lt, Int64.le_iff_toInt_le] at hfirst hlast
  have hpositive : rows ≠ [] := by
    rintro rfl
    simp at hhead
  have hfilled := length_pos_iff.mpr hpositive
  have hdistance : (id - chunk.firstID).toInt = id.toInt - chunk.firstID.toInt := by
    unfold chunkSize at hlength
    rw [Int64.toInt_sub, Int.bmod_eq_of_le (by omega) (by omega)]
  have hrow : (id - chunk.firstID).toInt.toNat < rows.length := by omega
  refine ⟨rows[(id - chunk.firstID).toInt.toNat], getElem?_eq_getElem hrow, ?_⟩
  have hid := hrows _ _ (getElem?_eq_getElem hrow)
  rw [hhead, getD_some, hheadID] at hid
  rw [← Int64.toInt_inj]
  omega

section Groups

variable {groups : List (List Entry)}
  (hgroups : ∀ group ∈ groups, group ≠ [] ∧ group.length ≤ chunkSize ∧ Consecutive group)

include hgroups

/-- An ID that is found is the ID of the row at which it is found. -/
theorem find_chunk_sound {id : Int64} {chunk : ChunkMeta}
    (hfind : (chunkMetas 0 groups).find? (fun chunk ↦ !(id < chunk.firstID || chunk.lastID < id)) =
      some chunk) :
    ∃ group entry, groups[chunk.index]? = some group ∧
      group[(id - chunk.firstID).toInt.toNat]? = some entry ∧ entry.id = id := by
  obtain ⟨place, hplace⟩ := getElem?_of_mem (mem_of_find?_eq_some hfind)
  have hindex : chunk.index = place ∧ place < groups.length := by
    have hlisted := congrArg (·[place]?) (map_index_chunkMetas 0 groups)
    simp only [getElem?_map, hplace] at hlisted
    obtain ⟨hbound, hvalue⟩ := List.getElem?_eq_some_iff.mp hlisted.symm
    rw [length_range'] at hbound
    rw [getElem_range', Nat.one_mul, Nat.zero_add] at hvalue
    exact ⟨hvalue.symm, hbound⟩
  obtain ⟨rfl, hbound⟩ := hindex
  have hgroup := getElem?_eq_getElem hbound
  obtain ⟨other, hother, hdescribes⟩ :=
    @describes_chunkMetas 0 chunk.index groups (fun group hgroup ↦ (hgroups group hgroup).1) _ hgroup
  cases some.inj (hplace.symm.trans hother)
  have hrange := find?_some hfind
  simp only [Bool.not_eq_true', Bool.or_eq_false_iff, decide_eq_false_iff_not] at hrange
  obtain ⟨-, hlength, hrows⟩ := hgroups _ (getElem_mem hbound)
  obtain ⟨entry, hentry, hid⟩ := hrows.row_of_id hlength hdescribes hrange.1 hrange.2
  exact ⟨_, entry, hgroup, hentry, hid⟩

/-- The ID of every row is found. -/
theorem find_chunk_isSome {entry : Entry} (hentry : entry ∈ groups.flatten) :
    ((chunkMetas 0 groups).find? fun chunk ↦
      !(entry.id < chunk.firstID || chunk.lastID < entry.id)).isSome := by
  obtain ⟨group, hgroup, hmem⟩ := mem_flatten.mp hentry
  obtain ⟨place, hplace⟩ := getElem?_of_mem hgroup
  obtain ⟨row, hrow⟩ := getElem?_of_mem hmem
  obtain ⟨chunk, hchunk, hdescribes⟩ :=
    @describes_chunkMetas 0 place groups (fun group hgroup ↦ (hgroups group hgroup).1) _ hplace
  obtain ⟨hnil, -, hrows⟩ := hgroups group hgroup
  obtain ⟨head, hhead, hheadID⟩ := map_eq_some_iff.mp hdescribes.firstID
  obtain ⟨last, hgetLast, hlastID⟩ := map_eq_some_iff.mp hdescribes.lastID
  have hlast := hrows (group.length - 1) last (by rw [← getLast?_eq_getElem?, hgetLast])
  have hhere := hrows row entry hrow
  have hbound : row < group.length := (List.getElem?_eq_some_iff.mp hrow).choose
  rw [hhead, getD_some, hheadID] at hlast hhere
  rw [find?_isSome]
  refine ⟨chunk, mem_of_getElem? hchunk, ?_⟩
  simp only [Bool.not_eq_true', Bool.or_eq_false_iff, decide_eq_false_iff_not, Int64.not_lt,
    Int64.le_iff_toInt_le]
  rw [← hlastID]
  omega

end Groups

/-- What `locatePhysicalChunk` finds in the metadata of a seal: for an ID of a row, a row with this ID,
and for another ID nothing. -/
theorem locate_sealMeta (hphysical : 0 < physical) (hrows : Positioned hour 0 rows) (id : Int64) :
    (id ∈ rows.map Entry.id → ∃ chunk row group entry,
      locatePhysicalChunk (sealMeta physical rows) id = some (chunk, row) ∧
      (rowGroups physical rows)[chunk]? = some group ∧ group[row]? = some entry ∧ entry.id = id) ∧
    (id ∉ rows.map Entry.id → locatePhysicalChunk (sealMeta physical rows) id = none) := by
  have hgroups := consecutive_rowGroups hphysical hrows
  constructor
  · intro hid
    obtain ⟨entry, hentry, rfl⟩ := mem_map.mp hid
    rw [← flatten_rowGroups hphysical rows] at hentry
    obtain ⟨chunk, hfind⟩ := isSome_iff_exists.mp (find_chunk_isSome hgroups hentry)
    obtain ⟨group, found, hgroup, hfound, hsame⟩ := find_chunk_sound hgroups hfind
    exact ⟨chunk.index, _, group, found, by rw [locatePhysicalChunk, sealMeta, hfind]; rfl, hgroup,
      hfound, hsame⟩
  · intro hid
    rw [locatePhysicalChunk, map_eq_none_iff, ← not_isSome_iff_eq_none]
    intro hsome
    obtain ⟨chunk, hfind⟩ := isSome_iff_exists.mp hsome
    obtain ⟨group, found, hgroup, hfound, rfl⟩ := find_chunk_sound hgroups hfind
    refine hid (mem_map_of_mem ?_)
    rw [← flatten_rowGroups hphysical rows]
    exact mem_flatten_of_mem (mem_of_getElem? hgroup) (mem_of_getElem? hfound)

/-! ### The ID column -/

/-- The sizes that reading the ID column of a chunk depends on: the file has an `int64` length, and the
size field of a column is a `uint32`. -/
structure IdColumnFits (zstd : Zstd) (rows : List Entry) : Prop where
  file : ∀ file, Chunk.writeChunk zstd rows = some file → file.length < 2 ^ 63
  column : (deltaEncode zstd (rows.map Entry.id)).length < 2 ^ 32

/-- The IDs of a chunk read back. -/
theorem readIDs_eq (hzstd : zstd.Faithful) (hnil : rows ≠ []) (hlength : rows.length ≤ chunkSize)
    (hfits : IdColumnFits zstd rows) :
    ∃ file reader, Chunk.writeChunk zstd rows = some file ∧ openReader file = .ok reader ∧
      reader.readDeltaInt64 zstd .id = .ok (rows.map Entry.id) := by
  unfold chunkSize at hlength
  obtain ⟨⟨data, directory⟩, hwritten⟩ :=
    isSome_iff_exists.mp (writeColumns_isSome zstd rows headerSize schema)
  have hend : headerSize + data.length < 2 ^ 63 := by
    have hfile := hfits.file _ (by rw [Chunk.writeChunk, hwritten])
    rw [length_append, length_append, length_chunkHeader] at hfile
    omega
  obtain ⟨file, reader, hchunk, hopened, hcount, -, hread⟩ :=
    openReader_writeColumns (hlength.trans (by decide)) hwritten hend
  obtain ⟨content, nulls, hencoded, hraw⟩ := hread .id
  cases hencoded
  have hdecode := @deltaDecode_deltaEncode zstd hzstd (rows.map Entry.id)
    (fun hempty ↦ hnil (map_eq_nil_iff.mp hempty))
    (by rw [length_map]; unfold maxVarintBytes maxBlockBytes; omega)
  rw [length_map] at hdecode
  refine ⟨file, reader, hchunk, hopened, ?_⟩
  rw [Reader.readDeltaInt64, Reader.readWith, hraw hfits.column]
  simp only [hcount, extractInt64, hdecode]
  rfl

/-! ### The directory after a seal -/

theorem run_syncDir : syncDir.run dir = ((), dir.sync) := rfl

theorem now_sync : dir.sync.files.now name = dir.files.now name := rfl

theorem now_moveWal (walName : WalName) (dir : SegmentDir) (name : Name) :
    (dir.moveWal walName).files.now name = dir.files.now name := rfl

theorem now_writeFileSync (name other : Name) (file : Content) (dir : SegmentDir) :
    ((writeFileSync name file).run dir).2.files.now other =
      if other = name then some (.whole file) else dir.files.now other := by
  change ((dir.files.set name _).set name _).now other = _
  split_ifs with hname
  · rw [hname, Directory.now_set_self]
  · rw [Directory.now_set_of_ne hname, Directory.now_set_of_ne hname]

theorem now_writeChunk (chunk : ℕ) (rows : List Entry) (name : Name) (dir : SegmentDir) :
    ((writeChunk chunk rows).run dir).2.files.now name =
      if name = .index chunk then some (.whole (.index (rows.map (·.str .message))))
      else if name = .column chunk then some (.whole (.column rows)) else dir.files.now name := by
  rw [writeChunk, run_bind, now_writeFileSync, now_writeFileSync]

/-- Chunks with smaller numbers stay as they are. -/
theorem now_writeChunks_of_lt {start chunk : ℕ} (hchunk : chunk < start) (groups : List (List Entry))
    (dir : SegmentDir) : ((writeChunks start groups).run dir).2.files.now (.column chunk) =
      dir.files.now (.column chunk) := by
  induction groups generalizing start dir with
  | nil => rfl
  | cons rows groups ih =>
    rw [writeChunks, run_bind, ih (by omega), now_writeChunk, if_neg Name.noConfusion,
      if_neg (by rw [Name.column.injEq]; omega)]

theorem now_writeChunks {start place : ℕ} {groups : List (List Entry)} {rows : List Entry}
    (hrows : groups[place]? = some rows) (dir : SegmentDir) :
    ((writeChunks start groups).run dir).2.files.now (.column (start + place)) =
      some (.whole (.column rows)) := by
  induction groups generalizing start place dir with
  | nil => simp at hrows
  | cons first groups ih =>
    rw [writeChunks, run_bind]
    cases place with
    | zero =>
      cases some.inj hrows
      rw [now_writeChunks_of_lt (show start + 0 < start + 1 by omega), now_writeChunk,
        if_neg Name.noConfusion, if_pos (congrArg Name.column (Nat.add_zero start))]
    | succ place =>
      rw [show start + (place + 1) = start + 1 + place by omega]
      exact ih (by simpa using hrows) _

section

variable {dir : SegmentDir} (hopen : dir.isSealComplete = false) (hsealing : dir.wal.now = .sealing)

include hopen hsealing

/-- What a seal returns and leaves behind. -/
theorem sealWal_run (hrows : parsedRows zstd dir.content ≠ []) (sealChunkEntries : ℤ) :
    let rows := parsedRows zstd dir.content
    let physical := effectiveSealChunkEntries sealChunkEntries
    let sealed := (sealWal zstd sealChunkEntries).run dir
    sealed.1 = .segment (sealMeta physical rows) ∧ sealed.2.isSealComplete ∧
      sealed.2.files.now .metaJSON = some (.whole (.segmentMeta (sealMeta physical rows))) ∧
      ∀ chunk group, (rowGroups physical rows)[chunk]? = some group →
        sealed.2.files.now (.column chunk) = some (.whole (.column group)) := by
  intro rows physical sealed
  have hsealed : sealed = (do
      writeChunks 0 (rowGroups physical rows)
      writeFileSync .metaJSON (.segmentMeta (sealMeta physical rows))
      syncDir
      writeFileSync .sealComplete .ok
      syncDir
      change (SegmentDir.moveWal .removed)
      return SealResult.segment (sealMeta physical rows) : Action SealResult).run dir := by
    have hread : (read id : Action SegmentDir).run dir = (dir, dir) := rfl
    change (sealWal zstd sealChunkEntries).run dir = _
    rw [sealWal, run_bind, hread]
    simp only [hopen, hsealing, if_neg hrows]
    rfl
  rw [hsealed]
  simp only [run_bind, run_syncDir, run_change, run_pure, SegmentDir.isSealComplete, now_moveWal,
    now_sync, now_writeFileSync, reduceCtorEq, if_true, if_false, isSome_some, true_and]
  intro chunk group hgroup
  rw [← Nat.zero_add chunk]
  exact now_writeChunks hgroup dir

theorem sealWal_run_empty (hrows : parsedRows zstd dir.content = [])
    (sealChunkEntries : ℤ) : ((sealWal zstd sealChunkEntries).run dir).1 = .empty := by
  have hread : (read id : Action SegmentDir).run dir = (dir, dir) := rfl
  rw [sealWal, run_bind, hread]
  simp only [hopen, hsealing, ne_eq, not_true_eq_false, Bool.false_eq_true, if_false, hrows,
    if_true, run_bind, run_pure]

end

/-- Every ID of an hour of up to 12800000 entries leads, after the seal, to a row whose stored ID it is,
and an ID that no entry has leads nowhere. Assumes: the WAL holds the entries in position order, and
the files keep to the sizes of the format. -/
theorem locate_after_seal {zstd : Zstd} (hzstd : zstd.Faithful) (sealChunkEntries : ℤ) (hour : Int64)
    {count : ℕ} (hcount : count ≤ maxEntriesPerSegment) {dir : SegmentDir}
    (hopen : dir.isSealComplete = false) (hsealing : dir.wal.now = .sealing)
    (hids : (parsedRows zstd dir.content).map Entry.id = (range count).map (idForPosition hour))
    (hfits : ∀ rows ∈ rowGroups (effectiveSealChunkEntries sealChunkEntries)
      (parsedRows zstd dir.content), IdColumnFits zstd rows) :
    let sealed := (sealWal zstd sealChunkEntries).run dir
    (count = 0 → sealed.1 = .empty) ∧
    (0 < count → ∃ segment, sealed.1 = .segment segment ∧
      sealed.2.files.now .metaJSON = some (.whole (.segmentMeta segment)) ∧
      (∀ position < count, ∃ chunk row rows file reader ids,
        locatePhysicalChunk segment (idForPosition hour position) = some (chunk, row) ∧
        sealed.2.files.now (.column chunk) = some (.whole (.column rows)) ∧
        Chunk.writeChunk zstd rows = some file ∧ openReader file = .ok reader ∧
        reader.readDeltaInt64 zstd .id = .ok ids ∧ ids[row]? = some (idForPosition hour position)) ∧
      ∀ id, (∀ position < count, idForPosition hour position ≠ id) →
        locatePhysicalChunk segment id = none) := by
  set rows := parsedRows zstd dir.content with hrows
  have hlength : rows.length = count := by
    simpa using congrArg length hids
  have hpositioned : Positioned hour.toBitVec.toNat 0 rows := by
    refine ⟨fun index entry hentry ↦ ?_, by omega⟩
    have hid := congrArg (·[index]?) hids
    have hindex : index < count := hlength ▸ (List.getElem?_eq_some_iff.mp hentry).choose
    simp only [getElem?_map, hentry, getElem?_range hindex] at hid
    rw [int64_ofNat_toNat, Nat.zero_add]
    exact some.inj hid
  have hphysical := effectiveSealChunkEntries_pos sealChunkEntries
  constructor
  · intro hzero
    exact sealWal_run_empty hopen hsealing (eq_nil_of_length_eq_zero (hlength.trans hzero)) _
  · intro hpositive
    have hnil : rows ≠ [] := fun hnil ↦ by
      rw [hnil] at hlength
      exact absurd hlength (by simpa using hpositive.ne)
    obtain ⟨hresult, -, hmeta, hcolumns⟩ := sealWal_run hopen hsealing hnil sealChunkEntries
    refine ⟨_, hresult, hmeta, fun position hposition ↦ ?_, fun id hid ↦ ?_⟩
    · have hmem : idForPosition hour position ∈ rows.map Entry.id :=
        hids ▸ mem_map_of_mem (mem_range.mpr hposition)
      obtain ⟨chunk, row, group, entry, hlocate, hgroup, hentry, hid⟩ :=
        (locate_sealMeta hphysical hpositioned _).1 hmem
      obtain ⟨hfilled, hsize, -⟩ :=
        consecutive_rowGroups hphysical hpositioned group (mem_of_getElem? hgroup)
      obtain ⟨file, reader, hfile, hreader, hread⟩ :=
        readIDs_eq hzstd hfilled hsize (hfits group (mem_of_getElem? hgroup))
      refine ⟨chunk, row, group, file, reader, _, hlocate, hcolumns chunk group hgroup, hfile, hreader,
        hread, ?_⟩
      rw [getElem?_map, hentry, map_some, hid]
    · refine (locate_sealMeta hphysical hpositioned id).2 fun hmem ↦ ?_
      rw [hids] at hmem
      obtain ⟨position, hposition, rfl⟩ := mem_map.mp hmem
      exact hid position (mem_range.mp hposition) rfl

/-- Two entries in chunks of one row. -/
theorem locate_after_seal_witness : let codec : Codec := ⟨Zstd.stored, false⟩
    let dir := rotated (codec.marshalBatch
      [{ Entry.zero with id := idForPosition 490000 0 }, { Entry.zero with id := idForPosition 490000 1 }])
    dir.isSealComplete = false ∧ dir.wal.now = .sealing ∧
      ∃ segment, ((sealWal Zstd.stored 1).run dir).1 = .segment segment ∧
        locatePhysicalChunk segment (idForPosition 490000 2) = none := by
  intro codec dir
  have hids : (parsedRows Zstd.stored dir.content).map Entry.id =
      (range 2).map (idForPosition 490000) := by decide +kernel
  have hsizes : ∀ rows ∈ rowGroups (effectiveSealChunkEntries 1) (parsedRows Zstd.stored dir.content),
      ((Chunk.writeChunk Zstd.stored rows).all fun file ↦ file.length < 2 ^ 63) ∧
        (deltaEncode Zstd.stored (rows.map Entry.id)).length < 2 ^ 32 := by decide +kernel
  have hfits : ∀ rows ∈ rowGroups (effectiveSealChunkEntries 1) (parsedRows Zstd.stored dir.content),
      IdColumnFits Zstd.stored rows := fun rows hrows ↦
    ⟨fun file hfile ↦ by simpa [hfile] using (hsizes rows hrows).1, (hsizes rows hrows).2⟩
  obtain ⟨segment, hresult, -, -, habsent⟩ := (locate_after_seal Zstd.stored_faithful 1 490000
    (show 2 ≤ maxEntriesPerSegment by decide) rfl rfl hids hfits).2 (by decide)
  exact ⟨rfl, rfl, segment, hresult, habsent _ (by decide)⟩

end OpenTrace.Engine.Seal
