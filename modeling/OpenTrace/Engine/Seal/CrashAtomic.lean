import OpenTrace.Engine.Seal.Model

/-!
# A seal is atomic

Wherever a crash finds a seal, and however often the recovery of the directory crashes as well, the
recovery that runs to its end leaves the directory sealed, with the rows that the WAL parses to:
`recoverDir_seals`. The WAL must hold a row, since a seal of nothing leaves no segment behind,
and the directory name must be one that `parseSegmentHour` reads back.

The argument is an invariant with three cases (`Safe`). Until the first `syncDir` no crash can leave
the marker, and none can take the WAL (`Unsealed`). From then on the chunks and the metadata are
durable, and the WAL is still there (`Committed`). Once the marker is durable as well, the WAL is not
needed any more (`Complete`).
-/

namespace OpenTrace.Engine.Seal

open Library Encoding Chunk Wal Engine.Store List Script Directory

/-! ### Sealed directories -/

/-- An entry of `meta.json` says what is in the chunk file of its number. -/
structure Describes (rows : List Entry) (chunk : ChunkMeta) : Prop where
  entryCount : chunk.entryCount = rows.length
  firstID : rows.head?.map (·.id) = some chunk.firstID
  lastID : rows.getLast?.map (·.id) = some chunk.lastID

/-- The directory is a sealed segment of these rows: the marker is there, `meta.json` lists the chunk
files by their numbers, the column files hold the rows, each once and in order, every index is that
of its column file, and the metadata is right about every chunk. -/
structure Sealed (rows : List Entry) (dir : SegmentDir) : Prop where
  complete : dir.isSealComplete
  segment : ∃ (chunks : List (List Entry)) (segment : SegmentMeta),
    dir.files.now .metaJSON = some (.whole (.segmentMeta segment)) ∧
    segment.chunks.map ChunkMeta.index = range chunks.length ∧
    chunks.flatten = rows ∧
    ∀ (index : ℕ) (chunkRows : List Entry), chunks[index]? = some chunkRows →
      dir.files.now (.column index) = some (.whole (.column chunkRows)) ∧
      dir.files.now (.index index) = some (.whole (.index (chunkRows.map (·.str .message)))) ∧
      ∃ chunk, segment.chunks[index]? = some chunk ∧ Describes chunkRows chunk

theorem map_index_chunkMetas (start : ℕ) (groups : List (List Entry)) :
    (chunkMetas start groups).map ChunkMeta.index = range' start groups.length := by
  induction groups generalizing start with
  | nil => rfl
  | cons group groups ih => rw [chunkMetas, map_cons, ih, length_cons, range'_succ]

theorem describes_chunkMetas {start index : ℕ} {groups : List (List Entry)}
    (hgroups : ∀ group ∈ groups, group ≠ []) {rows : List Entry} (hrows : groups[index]? = some rows) :
    ∃ chunk, (chunkMetas start groups)[index]? = some chunk ∧ Describes rows chunk := by
  induction groups generalizing start index with
  | nil => simp at hrows
  | cons group groups ih =>
    obtain ⟨hgroup, hothers⟩ := forall_mem_cons.mp hgroups
    cases index with
    | zero =>
      rw [getElem?_cons_zero, Option.some.injEq] at hrows
      subst hrows
      refine ⟨_, getElem?_cons_zero, rfl, ?_, ?_⟩
      · rw [head?_eq_some_head hgroup]
        rfl
      · rw [getLast?_eq_some_getLast hgroup]
        rfl
    | succ index =>
      exact ih hothers hrows

theorem rowGroupsLoop_ne_nil {physical fuel total : ℕ} {rows : List Entry} :
    ∀ group ∈ rowGroupsLoop physical fuel total rows, group ≠ [] := by
  induction fuel generalizing total rows with
  | zero => simp [rowGroupsLoop]
  | succ fuel ih =>
    rw [rowGroupsLoop]
    split_ifs with hempty
    · simp
    · exact forall_mem_cons.mpr ⟨hempty, ih⟩

theorem effectiveSealChunkEntries_pos (sealChunkEntries : ℤ) :
    0 < effectiveSealChunkEntries sealChunkEntries := by
  unfold effectiveSealChunkEntries
  split_ifs
  · decide
  · omega

/-! ### What a crash may find -/

section Invariant

variable (pending : Prop) (content : Bytes) (rows : List Entry)

/-- The names under which recovery looks for the WAL; `active.wal` if a rename may be undone. -/
def Reachable (name : WalName) : Prop := name = .sealing ∨ pending ∧ name = .active

/-- No crash leaves the marker, and none takes the WAL. -/
structure Unsealed (dir : SegmentDir) : Prop where
  marker : (dir.files.cell .sealComplete).All (· = none)
  wal : dir.wal.All (Reachable pending)
  content : dir.content = content

/-- A directory in which a seal may start. -/
structure Ready (dir : SegmentDir) : Prop extends Unsealed pending content dir where
  sealing : dir.wal.now = .sealing

/-- The chunks and the metadata of a seal are durable. -/
structure Stored (physical : ℕ) (dir : SegmentDir) : Prop where
  positive : 0 < physical
  column : ∀ (chunk : ℕ) (group : List Entry), (rowGroups physical rows)[chunk]? = some group →
    (dir.files.cell (.column chunk)).All (· = some (.whole (.column group)))
  index : ∀ (chunk : ℕ) (group : List Entry), (rowGroups physical rows)[chunk]? = some group →
    (dir.files.cell (.index chunk)).All (· = some (.whole (.index (group.map (·.str .message)))))
  segmentMeta : (dir.files.cell .metaJSON).All
    (· = some (.whole (.segmentMeta (sealMeta physical rows))))

/-- A crash may leave the marker, and does not take the WAL. -/
structure Committed (dir : SegmentDir) : Prop where
  stored : ∃ physical, Stored rows physical dir
  wal : dir.wal.All (Reachable pending)
  content : dir.content = content

/-- Every crash leaves the marker. -/
structure Complete (dir : SegmentDir) : Prop where
  stored : ∃ physical, Stored rows physical dir
  marker : (dir.files.cell .sealComplete).All (·.isSome)

/-- What holds between any two steps of a seal or of a recovery. -/
inductive Safe (dir : SegmentDir) : Prop
  | unsealed (hdir : Unsealed pending content dir)
  | committed (hdir : Committed pending content rows dir)
  | complete (hdir : Complete rows dir)

/-- What a recovery may find. -/
def Recoverable (dir : SegmentDir) : Prop := Unsealed pending content dir ∨ Complete rows dir

end Invariant

section Invariant

variable {pending : Prop} {content : Bytes} {rows : List Entry} {dir : SegmentDir}

theorem Stored.crash {physical : ℕ} (hdir : Stored rows physical dir) (outcome : Outcome) :
    Stored rows physical (dir.crash outcome) where
  positive := hdir.positive
  column := fun chunk group hgroup ↦ (hdir.column chunk group hgroup).crash _
  index := fun chunk group hgroup ↦ (hdir.index chunk group hgroup).crash _
  segmentMeta := hdir.segmentMeta.crash _

/-- What recovery finds after a crash. -/
theorem Safe.crash (hdir : Safe pending content rows dir) (outcome : Outcome) :
    Recoverable pending content rows (dir.crash outcome) := by
  cases hdir with
  | unsealed hdir =>
    exact .inl ⟨hdir.marker.crash _, hdir.wal.crash _, hdir.content⟩
  | committed hdir =>
    obtain ⟨physical, hstored⟩ := hdir.stored
    -- the marker survives or not; either way the crash has settled it
    cases hmarker : ((dir.crash outcome).files.cell .sealComplete).now with
    | none => exact .inl ⟨Cell.all_durable.mpr hmarker, hdir.wal.crash _, hdir.content⟩
    | some file =>
      exact .inr ⟨⟨physical, hstored.crash outcome⟩,
        Cell.all_durable.mpr (Option.isSome_iff_exists.mpr ⟨file, hmarker⟩)⟩
  | complete hdir =>
    obtain ⟨physical, hstored⟩ := hdir.stored
    exact .inr ⟨⟨physical, hstored.crash outcome⟩, hdir.marker.crash _⟩

theorem Complete.sealed (hdir : Complete rows dir) : Sealed rows dir := by
  obtain ⟨physical, hstored⟩ := hdir.stored
  refine ⟨hdir.marker.now, rowGroups physical rows, sealMeta physical rows, hstored.segmentMeta.now,
    ?_, flatten_rowGroups hstored.positive rows, fun index group hgroup ↦ ?_⟩
  · rw [sealMeta, map_index_chunkMetas, range_eq_range']
  · exact ⟨(hstored.column index group hgroup).now, (hstored.index index group hgroup).now,
      describes_chunkMetas rowGroupsLoop_ne_nil hgroup⟩

/-! ### Steps -/

/-- Changes to the other files concern the marker and the WAL as little as the metadata. -/
theorem Unsealed.set (hdir : Unsealed pending content dir) {name : Name} (hname : name ≠ .sealComplete)
    (file : Option (File Content)) :
    Unsealed pending content (dir.mapFiles (set name file)) :=
  ⟨all_set_of_ne hname.symm hdir.marker, hdir.wal, hdir.content⟩

theorem Unsealed.remove (hdir : Unsealed pending content dir) (name : Name) :
    Unsealed pending content (dir.mapFiles (remove name)) := by
  refine ⟨?_, hdir.wal, hdir.content⟩
  change ((Directory.remove name dir.files).cell .sealComplete).All _
  by_cases hname : name = .sealComplete
  · subst hname
    have habsent : dir.files.now .sealComplete = none := hdir.marker.now
    rw [Directory.remove, if_pos habsent]
    exact hdir.marker
  · rw [Directory.cell_remove_of_ne (Ne.symm hname)]
    exact hdir.marker

theorem writeFileSync_survives {safe pre : SegmentDir → Prop} {post : Unit → SegmentDir → Prop}
    {name : Name} {file : Content} (hsafe : ∀ dir, pre dir → safe dir)
    (hcreate : ∀ dir, pre dir → safe (dir.mapFiles (create name)))
    (hflush : ∀ dir, pre dir → safe ((dir.mapFiles (create name)).mapFiles (flush name file)) ∧
      post () ((dir.mapFiles (create name)).mapFiles (flush name file))) :
    Survives safe pre (writeFileSync name file) post := by
  have hcreated : Survives safe pre (change (SegmentDir.mapFiles (create name)))
      fun _ after ↦ ∃ before, pre before ∧ after = before.mapFiles (create name) :=
    Survives.change hsafe hcreate fun dir hdir ↦ ⟨dir, hdir, rfl⟩
  refine hcreated.bind fun _ ↦ Survives.change ?_ ?_ ?_
  · rintro _ ⟨dir, hdir, rfl⟩
    exact hcreate dir hdir
  · rintro _ ⟨dir, hdir, rfl⟩
    exact (hflush dir hdir).1
  · rintro _ ⟨dir, hdir, rfl⟩
    exact (hflush dir hdir).2

/-- A directory whose WAL is being sealed, with so many of its chunks visible. -/
structure Writing (pending : Prop) (content : Bytes) (groups : List (List Entry)) (count : ℕ)
    (dir : SegmentDir) : Prop extends Ready pending content dir where
  visible : ∀ (chunk : ℕ) (group : List Entry), chunk < count → groups[chunk]? = some group →
    dir.files.now (.column chunk) = some (.whole (.column group)) ∧
    dir.files.now (.index chunk) = some (.whole (.index (group.map (·.str .message))))

/-- A file that is not among the visible ones is written. -/
theorem writeOther_survives {groups : List (List Entry)} {count : ℕ} {name : Name} {file : Content}
    (hmarker : name ≠ .sealComplete)
    (hother : ∀ chunk < count, name ≠ .column chunk ∧ name ≠ .index chunk)
    {extra : SegmentDir → Prop}
    (hextra : ∀ dir, extra dir → extra ((dir.mapFiles (create name)).mapFiles (flush name file))) :
    Survives (Safe pending content rows)
      (fun dir ↦ Writing pending content groups count dir ∧ extra dir) (writeFileSync name file)
      fun _ dir ↦ Writing pending content groups count dir ∧ extra dir ∧
        dir.files.now name = some (.whole file) := by
  refine writeFileSync_survives (fun dir hdir ↦ .unsealed hdir.1.toUnsealed)
    (fun dir hdir ↦ .unsealed (hdir.1.toUnsealed.set hmarker _)) fun dir hdir ↦ ?_
  obtain ⟨hwriting, hholds⟩ := hdir
  have hunsealed := (hwriting.toUnsealed.set hmarker (some .torn)).set hmarker (some (.whole file))
  refine ⟨.unsealed hunsealed, ⟨⟨hunsealed, hwriting.sealing⟩, fun chunk group hchunk hgroup ↦ ?_⟩,
    hextra dir hholds, now_set_self⟩
  obtain ⟨hcolumn, hindex⟩ := hother chunk hchunk
  have hkept : ∀ other : Name, other ≠ name →
      ((dir.mapFiles (create name)).mapFiles (flush name file)).files.now other =
        dir.files.now other := fun other hne ↦ by
    rw [SegmentDir.mapFiles, SegmentDir.mapFiles, flush, create,
      now_set_of_ne hne, now_set_of_ne hne]
  rw [hkept _ hcolumn.symm, hkept _ hindex.symm]
  exact hwriting.visible chunk group hchunk hgroup

theorem writeChunk_survives {groups : List (List Entry)} {count : ℕ} {group : List Entry}
    (hgroup : groups[count]? = some group) :
    Survives (Safe pending content rows) (Writing pending content groups count)
      (writeChunk count group) fun _ ↦ Writing pending content groups (count + 1) := by
  have hcolumn := @writeOther_survives pending content rows groups count (.column count)
    (.column group) (by simp) (fun chunk hchunk ↦ ⟨by simp; omega, by simp⟩) (fun _ ↦ True)
    (fun _ _ ↦ trivial)
  have hindex := @writeOther_survives pending content rows groups count (.index count)
    (.index (group.map (·.str .message))) (by simp) (fun chunk hchunk ↦ ⟨by simp, by simp; omega⟩)
    (fun dir ↦ dir.files.now (.column count) = some (.whole (.column group))) (fun dir hdir ↦ by
      rw [SegmentDir.mapFiles, SegmentDir.mapFiles, flush, create,
        now_set_of_ne (by simp), now_set_of_ne (by simp), hdir])
  refine (hcolumn.weaken fun dir hdir ↦ ⟨hdir, trivial⟩).bind fun _ ↦ ?_
  refine (hindex.weaken fun dir hdir ↦ ⟨hdir.1, hdir.2.2⟩).imp fun _ dir hdir ↦ ?_
  obtain ⟨hwriting, hwritten, hindexed⟩ := hdir
  refine ⟨hwriting.toReady, fun chunk other hchunk hother ↦ ?_⟩
  rcases Nat.lt_succ_iff_lt_or_eq.mp hchunk with hbefore | rfl
  · exact hwriting.visible chunk other hbefore hother
  · rw [hgroup, Option.some.injEq] at hother
    subst hother
    exact ⟨hwritten, hindexed⟩

theorem writeChunks_survives {groups rest : List (List Entry)} {count : ℕ}
    (hrest : groups.drop count = rest) :
    Survives (Safe pending content rows) (Writing pending content groups count)
      (writeChunks count rest) fun _ ↦ Writing pending content groups groups.length := by
  induction rest generalizing count with
  | nil =>
    refine Survives.ret (fun dir hdir ↦ .unsealed hdir.toUnsealed) fun dir hdir ↦ ?_
    refine ⟨hdir.toReady, fun chunk group hchunk hgroup ↦ ?_⟩
    exact hdir.visible chunk group (hchunk.trans_le (drop_eq_nil_iff.mp hrest)) hgroup
  | cons group rest ih =>
    have hgroup : groups[count]? = some group := by
      rw [← Nat.add_zero count, ← getElem?_drop, hrest, getElem?_cons_zero]
    have htail : groups.drop (count + 1) = rest := by
      rw [← drop_drop, hrest, drop_succ_cons, drop_zero]
    exact (writeChunk_survives hgroup).bind fun _ ↦ ih htail

/-- Everything that was written becomes durable at the first `syncDir`. -/
theorem Writing.stored {physical : ℕ} (hphysical : 0 < physical)
    (hdir : Writing pending content (rowGroups physical rows) (rowGroups physical rows).length dir)
    (hmeta : dir.files.now .metaJSON = some (.whole (.segmentMeta (sealMeta physical rows)))) :
    Stored rows physical dir.sync where
  positive := hphysical
  column := fun chunk group hgroup ↦ Cell.all_sync.mpr
    (hdir.visible chunk group (List.getElem?_eq_some_iff.mp hgroup).choose hgroup).1
  index := fun chunk group hgroup ↦ Cell.all_sync.mpr
    (hdir.visible chunk group (List.getElem?_eq_some_iff.mp hgroup).choose hgroup).2
  segmentMeta := Cell.all_sync.mpr hmeta

theorem Stored.setMarker {physical : ℕ} (hdir : Stored rows physical dir) (file : Option (File Content)) :
    Stored rows physical (dir.mapFiles (set .sealComplete file)) where
  positive := hdir.positive
  column := fun chunk group hgroup ↦ all_set_of_ne Name.noConfusion (hdir.column chunk group hgroup)
  index := fun chunk group hgroup ↦ all_set_of_ne Name.noConfusion (hdir.index chunk group hgroup)
  segmentMeta := all_set_of_ne Name.noConfusion hdir.segmentMeta

theorem Committed.setMarker (hdir : Committed pending content rows dir) (file : Option (File Content)) :
    Committed pending content rows (dir.mapFiles (set .sealComplete file)) where
  stored := hdir.stored.imp fun _ hstored ↦ hstored.setMarker file
  wal := hdir.wal
  content := hdir.content

theorem Stored.sync {physical : ℕ} (hdir : Stored rows physical dir) : Stored rows physical dir.sync where
  positive := hdir.positive
  column := fun chunk group hgroup ↦ Cell.all_sync.mpr (hdir.column chunk group hgroup).now
  index := fun chunk group hgroup ↦ Cell.all_sync.mpr (hdir.index chunk group hgroup).now
  segmentMeta := Cell.all_sync.mpr hdir.segmentMeta.now

/-! ### Seal and recovery -/

/-- From the metadata on, a seal ends in a complete segment. -/
theorem commit_survives {physical : ℕ} (hphysical : 0 < physical) :
    Survives (Safe pending content rows)
      (Writing pending content (rowGroups physical rows) (rowGroups physical rows).length)
      (do
        writeFileSync .metaJSON (.segmentMeta (sealMeta physical rows))
        syncDir
        writeFileSync .sealComplete .ok
        syncDir
        change (SegmentDir.moveWal .removed)
        return SealResult.segment (sealMeta physical rows)) fun _ ↦ Complete rows := by
  have hmeta := @writeOther_survives pending content rows (rowGroups physical rows)
    (rowGroups physical rows).length .metaJSON (.segmentMeta (sealMeta physical rows)) (by simp)
    (fun chunk hchunk ↦ by simp) (fun _ ↦ True) (fun _ _ ↦ trivial)
  have hsync : Survives (Safe pending content rows)
      (fun dir ↦ Writing pending content (rowGroups physical rows) (rowGroups physical rows).length
        dir ∧ True ∧ dir.files.now .metaJSON = some (.whole (.segmentMeta (sealMeta physical rows))))
      syncDir fun _ ↦ Committed pending content rows := by
    have hcommitted : ∀ dir, Writing pending content (rowGroups physical rows)
        (rowGroups physical rows).length dir ∧ True ∧
          dir.files.now .metaJSON = some (.whole (.segmentMeta (sealMeta physical rows))) →
        Committed pending content rows dir.sync := fun dir hdir ↦
      ⟨⟨physical, hdir.1.stored hphysical hdir.2.2⟩, Cell.all_sync.mpr hdir.1.wal.now,
        hdir.1.content⟩
    exact Survives.change (fun dir hdir ↦ .unsealed hdir.1.toUnsealed)
      (fun dir hdir ↦ .committed (hcommitted dir hdir)) hcommitted
  have hmarker : Survives (Safe pending content rows) (Committed pending content rows)
      (writeFileSync .sealComplete .ok) fun _ dir ↦
        Committed pending content rows dir ∧ dir.isSealComplete := by
    refine writeFileSync_survives (fun dir ↦ .committed)
      (fun dir hdir ↦ .committed (hdir.setMarker _)) fun dir hdir ↦ ?_
    have hwritten := (hdir.setMarker (some .torn)).setMarker (some (.whole .ok))
    refine ⟨.committed hwritten, hwritten, ?_⟩
    rfl
  have hfinal : Survives (Safe pending content rows)
      (fun dir ↦ Committed pending content rows dir ∧ dir.isSealComplete) syncDir
      fun _ ↦ Complete rows := by
    have hcomplete : ∀ dir, Committed pending content rows dir ∧ dir.isSealComplete →
        Complete rows dir.sync := fun dir hdir ↦
      ⟨hdir.1.stored.imp fun _ hstored ↦ hstored.sync, Cell.all_sync.mpr hdir.2⟩
    exact Survives.change (fun dir hdir ↦ .committed hdir.1)
      (fun dir hdir ↦ .complete (hcomplete dir hdir)) hcomplete
  have hremove : Survives (Safe pending content rows) (Complete rows)
      (change (SegmentDir.moveWal .removed)) fun _ ↦ Complete rows := by
    have hkept : ∀ dir, Complete rows dir → Complete rows (dir.moveWal .removed) := fun dir hdir ↦
      ⟨hdir.stored.imp fun _ hstored ↦
        ⟨hstored.positive, hstored.column, hstored.index, hstored.segmentMeta⟩, hdir.marker⟩
    exact Survives.change (fun dir ↦ .complete)
      (fun dir hdir ↦ .complete (hkept dir hdir)) hkept
  exact (hmeta.weaken fun dir hdir ↦ ⟨hdir, trivial⟩).bind fun _ ↦ hsync.bind fun _ ↦
    hmarker.bind fun _ ↦ hfinal.bind fun _ ↦ hremove.bind fun _ ↦
      Survives.ret (fun dir ↦ .complete) fun dir hdir ↦ hdir

end Invariant

section Recovery

variable {pending : Prop} {content : Bytes} {zstd : Zstd} {dir : SegmentDir}

theorem Unsealed.not_isSealComplete (hdir : Unsealed pending content dir) : ¬ dir.isSealComplete := by
  have habsent : dir.files.now .sealComplete = none := hdir.marker.now
  rw [SegmentDir.isSealComplete, habsent]
  exact Bool.false_ne_true

theorem Complete.isSealComplete {rows : List Entry} (hdir : Complete rows dir) : dir.isSealComplete :=
  hdir.marker.now

/-- A seal of a WAL with rows ends in a complete segment, and is safe on the way. -/
theorem sealWal_survives (hrows : parsedRows zstd content ≠ []) (sealChunkEntries : ℤ) :
    Survives (Safe pending content (parsedRows zstd content)) (Ready pending content)
      (sealWal zstd sealChunkEntries) fun _ ↦ Complete (parsedRows zstd content) := by
  have hread : Survives (Safe pending content (parsedRows zstd content))
      (Ready pending content) (read id) fun found dir ↦ dir = found ∧ Ready pending content found :=
    Survives.read (fun dir hdir ↦ .unsealed hdir.toUnsealed) fun dir hdir ↦ ⟨rfl, hdir⟩
  refine hread.bind fun found ↦ Survives.assume (fun dir hdir ↦ hdir.2) fun hfound ↦ ?_
  rw [if_neg hfound.not_isSealComplete, if_neg (not_not_intro hfound.sealing)]
  simp only [hfound.content, if_neg hrows]
  have hphysical := effectiveSealChunkEntries_pos sealChunkEntries
  refine ((writeChunks_survives drop_zero).weaken ?_).bind fun _ ↦ commit_survives hphysical
  rintro dir ⟨rfl, -⟩
  exact ⟨hfound, fun chunk group hchunk ↦ absurd hchunk (Nat.not_lt_zero chunk)⟩

theorem removeFile_survives (name : Name) {rows : List Entry} :
    Survives (Safe pending content rows) (Ready pending content) (removeFile name)
      fun _ ↦ Ready pending content :=
  Survives.change (fun _ hdir ↦ .unsealed hdir.toUnsealed)
    (fun _ hdir ↦ .unsealed (hdir.remove name)) fun _ hdir ↦ ⟨hdir.remove name, hdir.sealing⟩

theorem removeFiles_survives (names : List Name) {rows : List Entry} :
    Survives (Safe pending content rows) (Ready pending content) (removeFiles names)
      fun _ ↦ Ready pending content := by
  induction names with
  | nil => exact Survives.ret (fun _ hdir ↦ .unsealed hdir.toUnsealed) fun _ hdir ↦ hdir
  | cons name names ih => exact (removeFile_survives name).bind fun _ ↦ ih

theorem cleanIncompleteSeal_survives {rows : List Entry} :
    Survives (Safe pending content rows) (Ready pending content) cleanIncompleteSeal
      fun _ ↦ Ready pending content := by
  have hglob : ∀ pattern : Name → Bool, Survives (Safe pending content rows)
      (Ready pending content) (read fun dir ↦ dir.files.glob pattern)
      fun _ ↦ Ready pending content := fun pattern ↦
    Survives.read (fun _ hdir ↦ .unsealed hdir.toUnsealed) fun _ hdir ↦ hdir
  exact (hglob _).bind fun columns ↦ (removeFiles_survives columns).bind fun _ ↦
    (hglob _).bind fun indexes ↦ (removeFiles_survives indexes).bind fun _ ↦
      (removeFile_survives _).bind fun _ ↦ removeFile_survives _

section

variable (hrows : parsedRows zstd content ≠ []) {hour : ℕ} (hhour : nameable hour)

include hrows hhour

/-- A recovery ends in a complete segment, unless the WAL is an `active.wal` that still belongs to the
live writer. -/
theorem recoverDir_survives (start : Start) :
    Survives (Safe pending content (parsedRows zstd content))
      (Recoverable pending content (parsedRows zstd content)) (start.recoverDir zstd hour)
      fun _ dir ↦ Complete (parsedRows zstd content) dir ∨ pending ∧ start.currentHour ≤ hour := by
  have hparsed : ¬ parseSegmentHour hour ≤ 0 := by
    have hpositive : 0 < hour := by
      simp only [nameable, Bool.and_eq_true, decide_eq_true_eq] at hhour
      exact hhour.1
    rw [parseSegmentHour, if_pos hhour]
    omega
  have hread : Survives (Safe pending content (parsedRows zstd content))
      (Recoverable pending content (parsedRows zstd content)) (read id) fun found dir ↦
        dir = found ∧ Recoverable pending content (parsedRows zstd content) found :=
    Survives.read (fun dir hdir ↦ hdir.elim .unsealed .complete) fun dir hdir ↦ ⟨rfl, hdir⟩
  have hsealed : Survives (Safe pending content (parsedRows zstd content))
      (Ready pending content) (sealWal zstd start.sealChunkEntries >>= fun _ ↦ pure ())
      fun _ dir ↦ Complete (parsedRows zstd content) dir ∨ pending ∧ start.currentHour ≤ hour :=
    (sealWal_survives hrows start.sealChunkEntries).bind fun _ ↦
      Survives.ret (fun _ ↦ .complete) fun _ ↦ .inl
  refine hread.bind fun found ↦ Survives.assume (fun dir hdir ↦ hdir.2) fun hfound ↦ ?_
  rcases hfound with hunsealed | hcomplete
  · rw [if_neg hunsealed.not_isSealComplete, if_neg hparsed]
    by_cases hsealing : found.wal.now = .sealing
    · rw [if_pos hsealing]
      refine (cleanIncompleteSeal_survives.weaken ?_).bind fun _ ↦ hsealed
      rintro dir ⟨rfl, -⟩
      exact ⟨hunsealed, hsealing⟩
    · -- a crash has undone the rename of the WAL
      obtain ⟨hpending, hactive⟩ := hunsealed.wal.now.resolve_left hsealing
      rw [if_neg hsealing, if_neg (not_not_intro hactive)]
      refine Survives.ite (fun hlive ↦ ?_) fun _ ↦ ?_
      · refine Survives.ret ?_ fun _ _ ↦ .inr ⟨hpending, hlive⟩
        rintro dir ⟨rfl, -⟩
        exact .unsealed hunsealed
      · have hrenamed : Unsealed pending content (found.moveWal .sealing) :=
          ⟨hunsealed.marker, hunsealed.wal.set (.inl rfl), hunsealed.content⟩
        have hrename : Survives (Safe pending content (parsedRows zstd content))
            (fun dir ↦ dir = found ∧ Recoverable pending content (parsedRows zstd content) found)
            (change (SegmentDir.moveWal .sealing)) fun _ ↦ Ready pending content := by
          refine Survives.change ?_ ?_ ?_ <;> rintro dir ⟨rfl, -⟩
          · exact .unsealed hunsealed
          · exact .unsealed hrenamed
          · exact ⟨hrenamed, rfl⟩
        exact hrename.bind fun _ ↦ hsealed
  · rw [if_pos hcomplete.isSealComplete]
    refine Survives.ret ?_ ?_ <;> rintro dir ⟨rfl, -⟩
    · exact .complete hcomplete
    · exact .inl hcomplete

/-- Recoveries that crash leave a directory that recovery can deal with. -/
theorem afterAttempts_recoverable (attempts : List Attempt)
    (hdir : Recoverable pending content (parsedRows zstd content) dir) :
    Recoverable pending content (parsedRows zstd content) (afterAttempts zstd hour attempts dir) := by
  induction attempts generalizing dir with
  | nil => exact hdir
  | cons attempt attempts ih =>
    have hsafe := (recoverDir_survives hrows hhour attempt.toStart dir hdir).1 attempt.steps
    exact ih (hsafe.crash attempt.outcome)

end

end Recovery

/-- A crash anywhere in a seal, any number of crashes during recoveries, and then a recovery that
runs to its end: the directory is a sealed segment of the rows of the WAL. The WAL holds a row. Its
name in the directory is durable, or else the rename from `active.wal` may be undone, and then the
last recovery runs in a later hour. -/
theorem recoverDir_seals {zstd : Zstd} {dir : SegmentDir} {hour : ℕ} (hhour : nameable hour)
    (hrows : parsedRows zstd dir.content ≠ []) {pending : Prop} (hdir : Ready pending dir.content dir)
    (sealChunkEntries : ℤ) (steps : ℕ) (outcome : Outcome) (attempts : List Attempt) (last : Start)
    (hlast : pending → hour < last.currentHour) :
    let crashed := ((sealWal zstd sealChunkEntries).after steps dir).crash outcome
    let recovered := ((last.recoverDir zstd hour).run (afterAttempts zstd hour attempts crashed)).2
    Sealed (parsedRows zstd dir.content) recovered := by
  have hsafe := (sealWal_survives hrows sealChunkEntries dir hdir).1 steps
  have hcrashed := afterAttempts_recoverable hrows hhour attempts (hsafe.crash outcome)
  rcases (recoverDir_survives hrows hhour last _ hcrashed).2 with hcomplete | ⟨hpending, hlive⟩
  · exact hcomplete.sealed
  · exact absurd (hlast hpending) (not_lt.mpr hlive)

/-- A directory that holds nothing but a WAL that was renamed for sealing. -/
def rotated (content : Bytes) : SegmentDir :=
  ⟨⟨[], fun _ ↦ .durable none⟩, ⟨.sealing, [.active, .sealing]⟩, content⟩

theorem ready_rotated (content : Bytes) : Ready True content (rotated content) where
  marker := Cell.all_durable.mpr rfl
  wal := ⟨.inl rfl, fun name hname ↦ by
    rcases mem_cons.mp hname with rfl | hname
    · exact .inr ⟨trivial, rfl⟩
    · exact .inl (mem_singleton.mp hname)⟩
  content := rfl
  sealing := rfl

/-- Two records and a torn one. The seal crashes behind the first column file, the first recovery
finds the WAL under its old name and crashes behind the metadata. -/
theorem recoverDir_seals_witness : let codec : Codec := ⟨Zstd.stored, false⟩
    let records := codec.marshalBatch [{ Entry.zero with id := 1 }, { Entry.zero with id := 2 }]
    let dir := rotated (records ++ [7])
    let crashed := ((sealWal Zstd.stored 50000).after 3 dir).crash ⟨fun _ ↦ 1, 0⟩
    let attempts := [⟨⟨512, 490001⟩, 8, ⟨fun _ ↦ 0, 1⟩⟩]
    let recovered :=
      ((Start.recoverDir Zstd.stored 490000 ⟨512, 490001⟩).run
        (afterAttempts Zstd.stored 490000 attempts crashed)).2
    (parsedRows Zstd.stored dir.content).length = 2 ∧
      Sealed (parsedRows Zstd.stored dir.content) recovered :=
  ⟨by decide +kernel, recoverDir_seals (by decide) (by decide +kernel) (ready_rotated _) 50000 3 _ _ _
    fun _ ↦ by decide⟩

/-- A seal of an empty WAL removes it; no recovery makes a segment of the directory. -/
theorem empty_wal_not_sealed :
    let crashed := ((sealWal Zstd.stored 50000).after 0 (rotated [])).crash ⟨fun _ ↦ 0, 1⟩
    let recovered := ((Start.recoverDir Zstd.stored 490000 ⟨50000, 490001⟩).run crashed).2
    recovered.wal.now = .removed ∧ recovered.isSealComplete = false := by
  decide +kernel

end OpenTrace.Engine.Seal
