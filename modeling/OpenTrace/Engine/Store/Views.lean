import OpenTrace.Engine.Store.Invariant

/-!
# Rows put together from several hours

A query reads the rows of several directories, each once. A row's ID names its hour and its position,
so in what is put together from different hours every ID occurs once (`heldOnce_blocks`).
-/

namespace OpenTrace.Engine.Store

open Library Encoding Chunk Wal List

theorem lt_of_nameable {hour : ℕ} (hnamed : nameable hour = true) : hour < 2 ^ 32 := by
  simp only [nameable, Bool.and_eq_true, decide_eq_true_eq] at hnamed
  omega

theorem nodup_ids {hour start : ℕ} {rows : List Entry} (hhour : hour < 2 ^ 32)
    (hrows : Positioned hour start rows) : (rows.map Entry.id).Nodup := by
  have hbound := hrows.length_le
  refine pairwise_iff_getElem.mpr fun first second hfirst hsecond hlt hsame ↦ ?_
  rw [length_map] at hfirst hsecond
  rw [getElem_map, getElem_map, hrows.id first _ (getElem?_eq_getElem hfirst),
    hrows.id second _ (getElem?_eq_getElem hsecond)] at hsame
  have hindex := (idForPosition_inj hhour hhour (by omega) (by omega) hsame).2
  omega

/-- The hour that an entry's ID names. -/
def home (entry : Entry) : ℕ := (decodeID entry.id).1.toInt.toNat

/-- Rows of one hour, in position order from the first. -/
structure BlockOf (hour : ℕ) (rows : List Entry) : Prop where
  positioned : Positioned hour 0 rows
  bound : rows ≠ [] → hour < 2 ^ 32

section Blocks

variable {hour : ℕ} {rows : List Entry}

theorem BlockOf.position (hblock : BlockOf hour rows) {row : Entry} (hrow : row ∈ rows) :
    hour < 2 ^ 32 ∧ ∃ index, rows[index]? = some row ∧ index < rows.length ∧
      index < maxEntriesPerSegment ∧ row.id = idForPosition (Int64.ofNat hour) index := by
  obtain ⟨index, hindex⟩ := mem_iff_getElem?.mp hrow
  have hlength := (List.getElem?_eq_some_iff.mp hindex).choose
  have hbound := hblock.positioned.length_le
  have hid := hblock.positioned.id index row hindex
  rw [Nat.zero_add] at hid hbound
  exact ⟨hblock.bound (ne_nil_of_mem hrow), index, hindex, hlength, by omega, hid⟩

theorem BlockOf.home_eq (hblock : BlockOf hour rows) {row : Entry} (hrow : row ∈ rows) :
    home row = hour := by
  obtain ⟨hhour, index, -, -, hindex, hid⟩ := hblock.position hrow
  rw [home, hid, decodeID_idForPosition_hour hhour hindex, Int64.toInt_ofNat_of_lt (by omega),
    Int.toNat_natCast]

theorem DirOk.blockOf {config : Config} (hzstd : config.zstd.Faithful) {dir : Dir}
    (hdir : DirOk config hour dir) : BlockOf hour (dir.rows config.zstd) := by
  refine ⟨hdir.positioned hzstd, fun hrows ↦ ?_⟩
  obtain ⟨row, hrow⟩ := exists_mem_of_ne_nil _ hrows
  exact lt_of_nameable (hdir.nameable_of_mem hrow)

theorem filter_id_eq_singleton {row : Entry} (hids : (rows.map Entry.id).Nodup) (hrow : row ∈ rows) :
    rows.filter (fun other ↦ other.id = row.id) = [row] := by
  induction rows with
  | nil => cases hrow
  | cons first rest ih =>
    rw [map_cons, nodup_cons] at hids
    rcases mem_cons.mp hrow with rfl | hrest
    · rw [filter_cons_of_pos (by simp), filter_eq_nil_iff.mpr]
      intro other hother
      simp only [decide_eq_true_eq]
      exact fun hsame ↦ hids.1 (hsame ▸ mem_map_of_mem hother)
    · have hfirst : first.id ≠ row.id := fun hsame ↦ hids.1 (hsame ▸ mem_map_of_mem hrest)
      rw [filter_cons_of_neg (by simpa using hfirst)]
      exact ih hids.2 hrest

/-- An entry that is in one of several blocks of different hours is there once. -/
theorem heldOnce_blocks {codec : Codec} {blocks : List (ℕ × List Entry)}
    (hnodup : (blocks.map Prod.fst).Nodup) (hblocks : ∀ block ∈ blocks, BlockOf block.1 block.2)
    {entry : Entry} {block : ℕ × List Entry} (hblock : block ∈ blocks)
    (hentry : codec.persisted entry ∈ block.2) :
    HeldOnce codec (blocks.flatMap Prod.snd) entry := by
  have hhome : home (codec.persisted entry) = block.1 := (hblocks block hblock).home_eq hentry
  have hhere : block.2.filter (fun row ↦ row.id = entry.id) = [codec.persisted entry] :=
    filter_id_eq_singleton
      (nodup_ids ((hblocks block hblock).position hentry).1 (hblocks block hblock).positioned) hentry
  -- A block of another hour has no row with this ID.
  have hothers : ∀ other ∈ blocks, other.1 ≠ block.1 →
      other.2.filter (fun row ↦ row.id = entry.id) = [] := by
    intro other hother hhour
    refine filter_eq_nil_iff.mpr fun row hrow ↦ ?_
    simp only [decide_eq_true_eq]
    intro hsame
    have hrowHome := (hblocks other hother).home_eq hrow
    rw [home, hsame] at hrowHome
    exact hhour (hrowHome.symm.trans hhome)
  obtain ⟨before, after, rfl⟩ := mem_iff_append.mp hblock
  rw [map_append, map_cons, nodup_append, nodup_cons] at hnodup
  obtain ⟨-, ⟨hafter, -⟩, hbefore⟩ := hnodup
  have hempty : ∀ others : List (ℕ × List Entry),
      (∀ other ∈ others, other ∈ before ++ block :: after ∧ other.1 ≠ block.1) →
      (others.flatMap Prod.snd).filter (fun row ↦ row.id = entry.id) = [] := by
    intro others hdifferent
    rw [filter_flatMap, flatMap_eq_nil_iff]
    exact fun other hother ↦ hothers other (hdifferent other hother).1 (hdifferent other hother).2
  rw [HeldOnce, flatMap_append, flatMap_cons, filter_append, filter_append, hhere,
    hempty before, hempty after]
  · rfl
  · exact fun other hother ↦ ⟨by simp [hother], fun hsame ↦ hafter (hsame ▸ mem_map_of_mem hother)⟩
  · exact fun other hother ↦ ⟨by simp [hother], fun hsame ↦
      hbefore other.1 (mem_map_of_mem hother) block.1 mem_cons_self hsame⟩

end Blocks

end OpenTrace.Engine.Store
