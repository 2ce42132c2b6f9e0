import OpenTrace.Engine.Id

/-!
# Sealed segments

The pure part of `engine/seal.go` and `engine/segment.go`: how `Seal` cuts the rows of an hour into
physical chunks, the metadata it records about them, the sorted list of loaded segments, and the
lookup of a row by its ID.

`flatten_rowGroups` says that cutting loses and reorders nothing. `locate_rowGroups` says that
`locatePhysicalChunk` leads the ID of every position to the row that was written there: a physical
chunk never crosses the boundary of a logical one, so IDs are contiguous within it.
-/

namespace OpenTrace.Engine

open Library Chunk List Int64

/-! ### Physical chunks -/

/-- `effectiveSealChunkEntries`: a setting out of range counts as the logical chunk size. -/
def effectiveSealChunkEntries (sealChunkEntries : ℤ) : ℕ :=
  if sealChunkEntries < 1 ∨ chunkSize < sealChunkEntries then chunkSize
  else sealChunkEntries.toNat

/-- The batching loop of `Seal`, after `total` rows, for at most `fuel` chunks. -/
def rowGroupsLoop (physical : ℕ) : ℕ → ℕ → List Entry → List (List Entry)
  | 0, _, _ => []
  | fuel + 1, total, rows =>
    let limit := min physical (chunkSize - total % chunkSize)
    if rows.take limit = [] then []
    else
      rows.take limit ::
        rowGroupsLoop physical fuel (total + (rows.take limit).length) (rows.drop limit)

/-- The rows of the chunk files `Seal` writes. -/
def rowGroups (physical : ℕ) (rows : List Entry) : List (List Entry) :=
  rowGroupsLoop physical rows.length 0 rows

structure ChunkMeta where
  index : ℕ
  entryCount : ℕ
  firstID : Int64
  lastID : Int64
  deriving DecidableEq, Repr

/-- What `meta.json` holds of the chunks and of the receive times of the first and the last row. -/
structure SegmentMeta where
  chunks : List ChunkMeta
  firstReceived : Int64
  lastReceived : Int64
  deriving DecidableEq, Repr

/-- The chunk list that `writeChunk` builds, from a chunk number on. -/
def chunkMetas : ℕ → List (List Entry) → List ChunkMeta
  | _, [] => []
  | index, rows :: groups =>
    ⟨index, rows.length, (rows.head?.getD Entry.zero).id, (rows.getLast?.getD Entry.zero).id⟩ ::
      chunkMetas (index + 1) groups

def sealMeta (physical : ℕ) (rows : List Entry) : SegmentMeta where
  chunks := chunkMetas 0 (rowGroups physical rows)
  firstReceived := (rows.head?.getD Entry.zero).receivedAt
  lastReceived := (rows.getLast?.getD Entry.zero).receivedAt

/-- The rows of a segment: its chunk files, as the metadata lists them. -/
def segmentRows (chunks : List (List Entry)) (segment : SegmentMeta) : List Entry :=
  segment.chunks.flatMap fun chunk ↦ (chunks[chunk.index]?).getD []

/-- The chunk number and the row of an ID. -/
def locatePhysicalChunk (segment : SegmentMeta) (id : Int64) : Option (ℕ × ℕ) :=
  (segment.chunks.find? fun chunk ↦ !(id < chunk.firstID || chunk.lastID < id)).map fun chunk ↦
    (chunk.index, (id - chunk.firstID).toInt.toNat)

section Groups

variable {physical : ℕ} (hphysical : 0 < physical)

include hphysical

theorem rowGroupsLoop_succ {fuel total : ℕ} {rows : List Entry} (hrows : rows ≠ []) :
    ∃ limit, 0 < limit ∧ limit ≤ physical ∧ total % chunkSize + limit ≤ chunkSize ∧
      rowGroupsLoop physical (fuel + 1) total rows = rows.take limit ::
        rowGroupsLoop physical fuel (total + (rows.take limit).length) (rows.drop limit) := by
  have hrow : total % chunkSize < chunkSize := Nat.mod_lt _ (by decide)
  refine ⟨min physical (chunkSize - total % chunkSize), lt_min hphysical (Nat.sub_pos_of_lt hrow),
    min_le_left _ _, ?_, ?_⟩
  · have hright := min_le_right physical (chunkSize - total % chunkSize)
    omega
  · rw [rowGroupsLoop, if_neg]
    rw [take_eq_nil_iff]
    rintro (hzero | hnil)
    · exact absurd hzero (lt_min hphysical (Nat.sub_pos_of_lt hrow)).ne'
    · exact hrows hnil

theorem flatten_rowGroupsLoop {fuel : ℕ} {rows : List Entry} (total : ℕ)
    (hfuel : rows.length ≤ fuel) : (rowGroupsLoop physical fuel total rows).flatten = rows := by
  induction fuel generalizing rows total with
  | zero =>
    rw [eq_nil_of_length_eq_zero (Nat.le_zero.mp hfuel)]
    rfl
  | succ fuel ih =>
    by_cases hrows : rows = []
    · simp [hrows, rowGroupsLoop]
    · obtain ⟨limit, hpos, -, -, hstep⟩ := rowGroupsLoop_succ hphysical hrows
      have hshorter : (rows.drop limit).length ≤ fuel := by
        rw [length_drop]
        omega
      rw [hstep, flatten_cons, ih _ hshorter, take_append_drop]

/-- Cutting an hour into chunks loses and reorders no row. -/
theorem flatten_rowGroups (rows : List Entry) : (rowGroups physical rows).flatten = rows :=
  flatten_rowGroupsLoop hphysical 0 le_rfl

end Groups

/-! ### Rows by ID -/

/-- The rows of an hour in position order, from a position on: their IDs name their positions. -/
structure Positioned (hour start : ℕ) (rows : List Entry) : Prop where
  id : ∀ (index : ℕ) (entry : Entry), rows[index]? = some entry →
    entry.id = idForPosition (ofNat hour) (start + index)
  length_le : start + rows.length ≤ maxEntriesPerSegment

namespace Positioned

variable {hour start : ℕ} {rows : List Entry}

section

variable (hrows : Positioned hour start rows)

include hrows

theorem take (count : ℕ) : Positioned hour start (rows.take count) where
  id := fun index entry hentry ↦ by
    rw [getElem?_take] at hentry
    split_ifs at hentry
    exact hrows.id index entry hentry
  length_le := by
    have hlength := hrows.length_le
    rw [length_take]
    omega

theorem drop {count : ℕ} (hcount : count ≤ rows.length) :
    Positioned hour (start + count) (rows.drop count) where
  id := fun index entry hentry ↦ by
    rw [getElem?_drop] at hentry
    rw [hrows.id _ entry hentry, Nat.add_assoc]
  length_le := by
    have hlength := hrows.length_le
    rw [length_drop]
    omega

theorem head_id (hnil : rows ≠ []) :
    (rows.head?.getD Entry.zero).id = idForPosition (ofNat hour) start := by
  cases rows with
  | nil => exact absurd rfl hnil
  | cons entry rest => simpa using hrows.id 0 entry rfl

theorem last_id (hnil : rows ≠ []) : (rows.getLast?.getD Entry.zero).id =
      idForPosition (ofNat hour) (start + (rows.length - 1)) := by
  have hlast : rows[rows.length - 1]? = some (rows.getLast hnil) := by
    rw [← getLast?_eq_getElem?, getLast?_eq_getLast_of_ne_nil hnil]
  rw [getLast?_eq_getLast_of_ne_nil hnil]
  exact hrows.id _ _ hlast

theorem append {more : List Entry} (hmore : Positioned hour (start + rows.length) more) :
    Positioned hour start (rows ++ more) where
  id := fun index entry hentry ↦ by
    rcases lt_or_ge index rows.length with hbefore | hafter
    · rw [getElem?_append_left hbefore] at hentry
      exact hrows.id index entry hentry
    · rw [getElem?_append_right hafter] at hentry
      rw [hmore.id _ entry hentry]
      congr 1
      omega
  length_le := by
    have hlength := hmore.length_le
    rw [length_append]
    omega

end

end Positioned

/-- Within a logical chunk the distance of two IDs is the distance of their positions. -/
theorem idForPosition_sub {hour index index' : ℕ} (hhour : hour < 2 ^ 32) (hle : index ≤ index')
    (hindex' : index' < maxEntriesPerSegment) (hchunk : index' / chunkSize = index / chunkSize) :
    (idForPosition (ofNat hour) index' - idForPosition (ofNat hour) index).toInt.toNat =
      index' - index := by
  have hlow := toInt_idForPosition hhour (hle.trans_lt hindex')
  have hhigh := toInt_idForPosition hhour hindex'
  have hbounds := @packedID_bounds hour index' hindex'
  have hdistance : packedID hour index' = packedID hour index + (index' - index) := by
    have hrow := Nat.div_add_mod index chunkSize
    have hrow' := Nat.div_add_mod index' chunkSize
    rw [hchunk] at hrow'
    unfold packedID
    omega
  rw [toInt_sub, hhigh, hlow, hdistance]
  have hsmall : ((packedID hour index + (index' - index) : ℕ) : ℤ) - (packedID hour index : ℤ) =
      ((index' - index : ℕ) : ℤ) := by push_cast; ring
  rw [hsmall]
  rw [Int.bmod_eq_of_le (by omega) (by omega), Int.toNat_natCast]

theorem idForPosition_lt_iff {hour index index' : ℕ} (hhour : hour < 2 ^ 32)
    (hindex : index < maxEntriesPerSegment) (hindex' : index' < maxEntriesPerSegment) :
    idForPosition (ofNat hour) index < idForPosition (ofNat hour) index' ↔ index < index' := by
  refine ⟨fun hlt ↦ ?_, fun hlt ↦ idForPosition_lt hhour hlt hindex'⟩
  by_contra hge
  rcases Nat.lt_or_eq_of_le (not_lt.mp hge) with hgreater | rfl
  · exact absurd (Int64.lt_trans hlt (idForPosition_lt hhour hgreater hindex)) (Int64.lt_irrefl)
  · exact absurd hlt (Int64.lt_irrefl)

/-- Finding a chunk by ID, among the chunks that were cut from rows in position order. -/
theorem locate_rowGroupsLoop {physical hour : ℕ} (hphysical : 0 < physical)
    (hhour : hour < 2 ^ 32) {fuel start index position : ℕ} {rows : List Entry}
    (hrows : Positioned hour start rows) (hfuel : rows.length ≤ fuel) (hstart : start ≤ position)
    (hposition : position < start + rows.length) :
    ∃ chunk ∈ chunkMetas index (rowGroupsLoop physical fuel start rows), ∃ low group,
      (chunkMetas index (rowGroupsLoop physical fuel start rows)).find? (fun chunk ↦
        !(idForPosition (ofNat hour) position < chunk.firstID ||
          chunk.lastID < idForPosition (ofNat hour) position)) = some chunk ∧
      index ≤ chunk.index ∧
      (rowGroupsLoop physical fuel start rows)[chunk.index - index]? = some group ∧
      chunk.firstID = idForPosition (ofNat hour) low ∧ low ≤ position ∧
      position / chunkSize = low / chunkSize ∧ group[position - low]? = rows[position - start]? := by
  induction fuel generalizing start index rows with
  | zero => omega
  | succ fuel ih =>
    have hnil : rows ≠ [] := by
      rintro rfl
      simp at hposition
      omega
    have hbound := hrows.length_le
    obtain ⟨limit, hpos, -, hboundary, hstep⟩ := rowGroupsLoop_succ hphysical hnil
    have hbatch : rows.take limit ≠ [] := by
      rw [Ne, take_eq_nil_iff]
      rintro (hzero | hempty)
      · omega
      · exact hnil hempty
    have hfirst := (hrows.take limit).head_id hbatch
    have hlast := (hrows.take limit).last_id hbatch
    have hlength : (rows.take limit).length = min limit rows.length := length_take
    rw [hstep, chunkMetas]
    by_cases hhere : position < start + (rows.take limit).length
    · refine ⟨_, mem_cons_self, start, rows.take limit, ?_, le_rfl, by simp, hfirst, hstart, ?_, ?_⟩
      · rw [find?_cons_of_pos]
        simp only [hfirst, hlast, Bool.not_eq_true', Bool.or_eq_false_iff, decide_eq_false_iff_not]
        rw [idForPosition_lt_iff hhour (by omega) (by omega),
          idForPosition_lt_iff hhour (by omega) (by omega)]
        omega
      · unfold chunkSize at hboundary ⊢
        omega
      · rw [getElem?_take_of_lt (by omega)]
    · have hcount : limit ≤ rows.length := by omega
      have hshift : (rows.take limit).length = limit := by omega
      have hrest := hrows.drop hcount
      obtain ⟨chunk, hmem, low, group, hfind, hindex, hgroup, hid, hlow, hsame, hrow⟩ :=
        @ih (start + limit) (index + 1) (rows.drop limit) hrest
          (by rw [length_drop]; omega) (by omega) (by rw [length_drop]; omega)
      rw [hshift]
      refine ⟨chunk, mem_cons_of_mem _ hmem, low, group, ?_, by omega, ?_, hid, hlow, hsame, ?_⟩
      · rw [find?_cons_of_neg, hfind]
        simp only [hlast, Bool.not_eq_true', Bool.not_eq_false, Bool.or_eq_true, decide_eq_true_eq]
        rw [idForPosition_lt_iff hhour (by omega) (by omega)]
        omega
      · rw [show chunk.index - index = chunk.index - (index + 1) + 1 by omega,
          getElem?_cons_succ, hgroup]
      · rw [hrow, getElem?_drop]
        congr 1
        omega

/-- The ID of every position leads to the row that was written there. -/
theorem locate_rowGroups {physical hour position : ℕ} (hphysical : 0 < physical)
    (hhour : hour < 2 ^ 32) {rows : List Entry} (hrows : Positioned hour 0 rows)
    (hposition : position < rows.length) :
    ∃ index row group, locatePhysicalChunk (sealMeta physical rows)
        (idForPosition (ofNat hour) position) = some (index, row) ∧
      (rowGroups physical rows)[index]? = some group ∧ group[row]? = rows[position]? := by
  have hbound := hrows.length_le
  obtain ⟨chunk, -, low, group, hfind, -, hgroup, hid, hlow, hsame, hrow⟩ :=
    @locate_rowGroupsLoop physical hour hphysical hhour rows.length 0 0 position rows hrows le_rfl
      (Nat.zero_le _) (by omega)
  refine ⟨chunk.index, position - low, group, ?_, hgroup, hrow⟩
  rw [locatePhysicalChunk, sealMeta, rowGroups, hfind, Option.map_some, hid,
    idForPosition_sub hhour hlow (by omega) hsame]

theorem flatMap_chunkMetas {chunks groups : List (List Entry)} {index : ℕ}
    (hchunks : ∀ (offset : ℕ) (group : List Entry), groups[offset]? = some group →
      chunks[index + offset]? = some group) :
    (chunkMetas index groups).flatMap (fun chunk ↦ (chunks[chunk.index]?).getD []) =
      groups.flatten := by
  induction groups generalizing index with
  | nil => rfl
  | cons group groups ih =>
    have hhere : chunks[index]? = some group := hchunks 0 group rfl
    rw [chunkMetas, flatMap_cons, hhere, Option.getD_some, flatten_cons, ih]
    intro offset other hother
    rw [Nat.add_right_comm]
    exact hchunks (offset + 1) other hother

/-- Chunk files that start with the chunks of the rows hold the rows, as the metadata lists them. -/
theorem segmentRows_eq {physical : ℕ} (hphysical : 0 < physical) {chunks : List (List Entry)}
    {rows : List Entry} (hchunks : rowGroups physical rows <+: chunks) :
    segmentRows chunks (sealMeta physical rows) = rows := by
  rw [segmentRows, sealMeta, flatMap_chunkMetas, flatten_rowGroups hphysical]
  intro offset group hgroup
  obtain ⟨rest, rfl⟩ := hchunks
  rw [Nat.zero_add, List.getElem?_append_left (List.getElem?_eq_some_iff.mp hgroup).choose, hgroup]

/-! ### Loaded segments -/

/-- A segment that queries know. -/
structure LoadedSegment where
  hour : ℕ
  segment : SegmentMeta
  deriving DecidableEq, Repr

/-- `Register`: the list stays sorted, and an hour that is there is replaced. -/
def register (loaded : LoadedSegment) : List LoadedSegment → List LoadedSegment
  | [] => [loaded]
  | other :: rest =>
    if other.hour < loaded.hour then other :: register loaded rest
    else if other.hour = loaded.hour then loaded :: rest
    else loaded :: other :: rest

/-- `FindSegmentByID`: the first segment that is not before the hour of the ID, if it is that hour. -/
def findSegmentByID (segments : List LoadedSegment) (id : Int64) : Option LoadedSegment :=
  (segments.find? fun loaded ↦ (decodeID id).1 ≤ ofNat loaded.hour).filter fun loaded ↦
    ofNat loaded.hour = (decodeID id).1

/-- The list is strictly increasing by hour. -/
def SortedByHour (segments : List LoadedSegment) : Prop :=
  segments.Pairwise fun earlier later ↦ earlier.hour < later.hour

theorem mem_register {loaded other : LoadedSegment} {segments : List LoadedSegment}
    (hsorted : SortedByHour segments) :
    other ∈ register loaded segments ↔
      other = loaded ∨ other ∈ segments ∧ other.hour ≠ loaded.hour := by
  induction segments with
  | nil => simp [register]
  | cons first rest ih =>
    have htail := (pairwise_cons.mp hsorted).2
    have hfirst := (pairwise_cons.mp hsorted).1
    rw [register]
    split_ifs with hbefore hsame
    · rw [mem_cons, ih htail, mem_cons]
      constructor
      · rintro (rfl | rfl | ⟨hmem, hne⟩)
        · exact .inr ⟨.inl rfl, hbefore.ne⟩
        · exact .inl rfl
        · exact .inr ⟨.inr hmem, hne⟩
      · rintro (rfl | ⟨rfl | hmem, hne⟩)
        · exact .inr (.inl rfl)
        · exact .inl rfl
        · exact .inr (.inr ⟨hmem, hne⟩)
    · rw [mem_cons, mem_cons]
      constructor
      · rintro (rfl | hmem)
        · exact .inl rfl
        · exact .inr ⟨.inr hmem, (hsame ▸ hfirst other hmem).ne'⟩
      · rintro (rfl | ⟨rfl | hmem, hne⟩)
        · exact .inl rfl
        · exact absurd hsame hne
        · exact .inr hmem
    · have hafter : loaded.hour < first.hour := by omega
      rw [mem_cons]
      constructor
      · rintro (rfl | hmem)
        · exact .inl rfl
        · rcases mem_cons.mp hmem with rfl | hrest
          · exact .inr ⟨hmem, hafter.ne'⟩
          · exact .inr ⟨hmem, (hafter.trans (hfirst other hrest)).ne'⟩
      · rintro (rfl | ⟨hmem, -⟩)
        · exact .inl rfl
        · exact .inr hmem

theorem sortedByHour_register {loaded : LoadedSegment} {segments : List LoadedSegment}
    (hsorted : SortedByHour segments) : SortedByHour (register loaded segments) := by
  induction segments with
  | nil => exact pairwise_singleton _ _
  | cons first rest ih =>
    obtain ⟨hfirst, htail⟩ := pairwise_cons.mp hsorted
    rw [register]
    split_ifs with hbefore hsame
    · refine pairwise_cons.mpr ⟨fun other hother ↦ ?_, ih htail⟩
      rcases (mem_register htail).mp hother with rfl | ⟨hmem, -⟩
      · exact hbefore
      · exact hfirst other hmem
    · exact pairwise_cons.mpr ⟨fun other hmem ↦ hsame ▸ hfirst other hmem, htail⟩
    · refine pairwise_cons.mpr ⟨fun other hmem ↦ ?_, hsorted⟩
      rcases mem_cons.mp hmem with rfl | hrest
      · omega
      · have hlater := hfirst other hrest
        omega

theorem int64_ofNat_le_iff {low high : ℕ} (hlow : low < 2 ^ 32) (hhigh : high < 2 ^ 32) :
    ofNat low ≤ ofNat high ↔ low ≤ high := by
  rw [le_iff_toInt_le, toInt_ofNat_of_lt (by omega), toInt_ofNat_of_lt (by omega)]
  omega

/-- Looking up an ID finds the segment of its hour, if there is one. -/
theorem findSegmentByID_eq_some {segments : List LoadedSegment} {hour index : ℕ}
    {loaded : LoadedSegment} (hsorted : SortedByHour segments)
    (hhours : ∀ loaded ∈ segments, loaded.hour < 2 ^ 32) (hhour : hour < 2 ^ 32)
    (hindex : index < maxEntriesPerSegment) :
    findSegmentByID segments (idForPosition (ofNat hour) index) = some loaded ↔
      loaded ∈ segments ∧ loaded.hour = hour := by
  rw [findSegmentByID, decodeID_idForPosition_hour hhour hindex]
  induction segments with
  | nil => simp
  | cons first rest ih =>
    obtain ⟨hfirst, htail⟩ := pairwise_cons.mp hsorted
    have hbound := hhours first mem_cons_self
    have hrest := ih htail fun other hother ↦ hhours other (mem_cons_of_mem _ hother)
    by_cases hbefore : first.hour < hour
    · have hskip : ¬ ofNat hour ≤ ofNat first.hour := by
        rw [int64_ofNat_le_iff hhour hbound]
        omega
      rw [find?_cons_of_neg (by simpa using hskip), hrest, mem_cons]
      constructor
      · exact fun hfound ↦ ⟨.inr hfound.1, hfound.2⟩
      · rintro ⟨rfl | hmem, hsame⟩
        · omega
        · exact ⟨hmem, hsame⟩
    · have hstop : ofNat hour ≤ ofNat first.hour := by
        rw [int64_ofNat_le_iff hhour hbound]
        omega
      rw [find?_cons_of_pos (by simpa using hstop), Option.filter_some]
      by_cases hsame : first.hour = hour
      · simp only [hsame, decide_true, if_true, Option.some.injEq, mem_cons]
        constructor
        · rintro rfl
          exact ⟨.inl rfl, hsame⟩
        · rintro ⟨rfl | hmem, hother⟩
          · rfl
          · have hlater := hfirst loaded hmem
            omega
      · have hdiffers : Int64.ofNat first.hour ≠ Int64.ofNat hour := fun heq ↦ hsame <|
          le_antisymm ((int64_ofNat_le_iff hbound hhour).mp (heq ▸ Int64.le_refl _))
            ((int64_ofNat_le_iff hhour hbound).mp (heq ▸ Int64.le_refl _))
        simp only [hdiffers, decide_false, if_false, reduceCtorEq, false_iff, mem_cons, not_and]
        rintro (rfl | hmem) hother
        · exact hsame hother
        · have hlater := hfirst loaded hmem
          omega

/-! ### Time ranges -/

/-- Seconds since the epoch of a time in nanoseconds. -/
def unixSeconds (nanos : ℤ) : ℤ := nanos.fdiv 1000000000

/-- `SegmentHourFromTime`; Go's division rounds toward zero. -/
def segmentHourFromTime (nanos : ℤ) : ℤ := (unixSeconds nanos).tdiv 3600

/-- A bound of the recorded time range in nanoseconds, if `RFC3339` can be parsed back: the year has
four digits. -/
def recordedTime (received : Int64) : Option ℤ :=
  let seconds := received.toInt.fdiv 1000
  if -62167219200 ≤ seconds ∧ seconds < 253402300800 then some (seconds * 1000000000) else none

/-- `segmentRangeBuffer`, in nanoseconds. -/
def segmentRangeBuffer : ℤ := 3600 * 1000000000

/-- `overlaps`: the recorded time range, widened by an hour on both sides, meets the queried one. -/
def LoadedSegment.overlaps (loaded : LoadedSegment) (start finish : ℤ) : Bool :=
  match recordedTime loaded.segment.firstReceived, recordedTime loaded.segment.lastReceived with
  | some first, some last =>
    min first last - segmentRangeBuffer ≤ finish && start ≤ max first last + segmentRangeBuffer
  | _, _ => false

/-- Whether `SegmentsInRange` returns a segment: its hour slot is in range or its recorded times
are. -/
def LoadedSegment.inRange (loaded : LoadedSegment) (start finish : ℤ) : Bool :=
  (segmentHourFromTime start - 1 ≤ loaded.hour && loaded.hour ≤ segmentHourFromTime finish + 1) ||
    loaded.overlaps start finish

def segmentsInRange (segments : List LoadedSegment) (start finish : ℤ) : List LoadedSegment :=
  segments.filter fun loaded ↦ loaded.inRange start finish

end OpenTrace.Engine
