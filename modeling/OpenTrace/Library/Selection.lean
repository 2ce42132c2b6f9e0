import Mathlib.Data.List.Sort
import Mathlib.Data.Finset.Max

/-!
# Selecting the first of many

A scan that has to deliver the first `count` values of a list in some order keeps a bounded heap, cuts
each part before it merges the parts, and sorts only what is left. `before` is the order, given as the
comparison a program uses; values that neither comes before are level. `topBy` is what such a scan has
to deliver: the list sorted, cut after `count`.

`mem_topBy` says which values are delivered by counting the values before them. `topBy_eq_of_keeps`
is the rule for every early cut: dropping values that are not delivered changes nothing.
-/

namespace OpenTrace.Library

open List

variable {α : Type}

/-- The comparison orders the values by some rank. -/
structure Ranks (before : α → α → Bool) : Prop where
  asymm : ∀ {first second}, before first second → ¬ before second first
  trans : ∀ {first second third}, ¬ before second first → ¬ before third second →
    ¬ before third first

/-- The second value does not come before the first. -/
def NotAfter (before : α → α → Bool) (first second : α) : Prop := ¬ before second first

instance (before : α → α → Bool) : DecidableRel (NotAfter before) :=
  fun _ _ ↦ inferInstanceAs (Decidable (¬ _))

section

variable (before : α → α → Bool)

/-- No two values of the list are level. -/
def Separates (list : List α) : Prop :=
  ∀ first ∈ list, ∀ second ∈ list, ¬ before first second → ¬ before second first → first = second

/-- The list in order. -/
def sortBy (list : List α) : List α := list.insertionSort (NotAfter before)

/-- The first values of the list in order. -/
def topBy (count : ℕ) (list : List α) : List α := (sortBy before list).take count

end

section Order

variable {before : α → α → Bool}

theorem Separates.mono {list part : List α} (hseparates : Separates before list)
    (hpart : part ⊆ list) : Separates before part :=
  fun first hfirst second hsecond ↦ hseparates first (hpart hfirst) second (hpart hsecond)

theorem Ranks.before_of_before (hranks : Ranks before) {first second third : α}
    (hfirst : before first second) (hsecond : ¬ before third second) : before first third := by
  by_contra hlate
  exact hranks.trans hsecond hlate hfirst

theorem sortBy_perm (list : List α) : (sortBy before list).Perm list := perm_insertionSort _ list

theorem mem_sortBy {list : List α} {value : α} : value ∈ sortBy before list ↔ value ∈ list :=
  (sortBy_perm list).mem_iff

theorem length_sortBy (list : List α) : (sortBy before list).length = list.length :=
  (sortBy_perm list).length_eq

theorem nodup_sortBy {list : List α} (hnodup : list.Nodup) : (sortBy before list).Nodup :=
  (sortBy_perm list).nodup_iff.mpr hnodup

theorem topBy_subset (count : ℕ) (list : List α) : topBy before count list ⊆ list :=
  fun _ hvalue ↦ mem_sortBy.mp (mem_of_mem_take hvalue)

theorem length_topBy (count : ℕ) (list : List α) :
    (topBy before count list).length = min count list.length := by
  rw [topBy, length_take, length_sortBy]

theorem nodup_topBy {list : List α} (hnodup : list.Nodup) (count : ℕ) :
    (topBy before count list).Nodup :=
  (nodup_sortBy hnodup).take

/-- Two lists in order with the same values are the same, if no two values are level. -/
theorem eq_of_perm_of_pairwise {list other : List α} (hperm : list.Perm other)
    (hseparates : Separates before list) (hlist : list.Pairwise (NotAfter before))
    (hother : other.Pairwise (NotAfter before)) : list = other :=
  hperm.eq_of_pairwise (fun first second hfirst hsecond hle hge ↦
    hseparates first hfirst second (hperm.mem_iff.mpr hsecond) hge hle) hlist hother

variable (hranks : Ranks before)

include hranks

theorem Ranks.total : Std.Total (NotAfter before) where
  total first second := by
    by_cases hafter : before second first
    · exact .inr (hranks.asymm hafter)
    · exact .inl hafter

theorem Ranks.isTrans : IsTrans α (NotAfter before) where
  trans _ _ _ := hranks.trans

theorem pairwise_sortBy (list : List α) : (sortBy before list).Pairwise (NotAfter before) := by
  have := hranks.total
  have := hranks.isTrans
  exact pairwise_insertionSort _ list

/-- A filter can be applied before or after sorting. -/
theorem filter_sortBy {list : List α} (hseparates : Separates before list) (keep : α → Bool) :
    (sortBy before list).filter keep = sortBy before (list.filter keep) :=
  eq_of_perm_of_pairwise (((sortBy_perm list).filter keep).trans (sortBy_perm _).symm)
    (hseparates.mono fun _ hvalue ↦ mem_sortBy.mp (mem_of_mem_filter hvalue))
    ((pairwise_sortBy hranks list).filter keep) (pairwise_sortBy hranks _)

end Order

section Keep

variable {before : α → α → Bool} (hranks : Ranks before)

/-- A cut that the filter does not reach into is the same cut. -/
theorem take_filter {keep : α → Bool} {list : List α} {count : ℕ}
    (hkeep : ∀ value ∈ list.take count, keep value = true) :
    (list.filter keep).take count = list.take count := by
  have hfront : (list.take count).filter keep = list.take count := filter_eq_self.mpr hkeep
  have hsplit : list.filter keep = list.take count ++ (list.drop count).filter keep := by
    rw [← hfront, ← filter_append, take_append_drop]
  by_cases hshort : list.length ≤ count
  · rw [hsplit, drop_eq_nil_of_le hshort, filter_nil, append_nil, take_take, Nat.min_self]
  · have hlength : (list.take count).length = count := by
      rw [length_take]
      omega
    rw [hsplit, take_append_of_le_length hlength.ge, take_take, Nat.min_self]

include hranks

/-- The values of a part stand in the order of the whole list. Assumes: no value occurs twice and no two
are level. -/
theorem sortBy_eq_filter [DecidableEq α] {list part : List α} (hnodup : list.Nodup)
    (hseparates : Separates before list) (hpartNodup : part.Nodup) (hpart : part ⊆ list) :
    sortBy before part = (sortBy before list).filter (· ∈ part) := by
  refine eq_of_perm_of_pairwise ?_ (hseparates.mono fun _ hvalue ↦
    hpart (mem_sortBy.mp hvalue)) (pairwise_sortBy hranks part)
    ((pairwise_sortBy hranks list).filter _)
  refine (perm_ext_iff_of_nodup (nodup_sortBy hpartNodup)
    ((nodup_sortBy hnodup).filter _)).mpr fun value ↦ ?_
  rw [mem_sortBy, mem_filter, mem_sortBy, decide_eq_true_eq]
  exact ⟨fun hvalue ↦ ⟨hpart hvalue, hvalue⟩, And.right⟩

/-- Values can be dropped before the cut, as long as those that are delivered stay. Assumes: no value
occurs twice and no two are level. -/
theorem topBy_eq_of_keeps [DecidableEq α] {list part : List α} {count : ℕ} (hnodup : list.Nodup)
    (hseparates : Separates before list) (hpartNodup : part.Nodup) (hpart : part ⊆ list)
    (hkeeps : topBy before count list ⊆ part) : topBy before count part = topBy before count list := by
  rw [topBy, sortBy_eq_filter hranks hnodup hseparates hpartNodup hpart]
  exact take_filter fun value hvalue ↦ decide_eq_true (hkeeps hvalue)

/-- The place of a value in the sorted list is the number of values before it. -/
theorem countP_before_getElem {list : List α} (hnodup : list.Nodup)
    (hseparates : Separates before list) (hsorted : list.Pairwise (NotAfter before)) {place : ℕ}
    (hplace : place < list.length) : list.countP (before · list[place]) = place := by
  have hsplit : list = list.take place ++ list[place] :: list.drop (place + 1) := by
    rw [getElem_cons_drop, take_append_drop]
  have hmem : list[place] ∈ list := getElem_mem hplace
  generalize list[place] = value at hsplit hmem ⊢
  rw [hsplit, pairwise_append, pairwise_cons] at hsorted
  rw [hsplit, nodup_append] at hnodup
  obtain ⟨-, ⟨hlater, -⟩, hearlier⟩ := hsorted
  have hfront : (list.take place).countP (before · value) = place := by
    rw [countP_eq_length.mpr fun early hearly ↦ ?_, length_take, Nat.min_eq_left hplace.le]
    by_contra hlate
    have hlevel := hearlier early hearly value (mem_cons_self ..)
    exact hnodup.2.2 early hearly value (mem_cons_self ..)
      (hseparates early (mem_of_mem_take hearly) value hmem hlate hlevel)
  have hback : (value :: list.drop (place + 1)).countP (before · value) = 0 := by
    rw [countP_eq_zero]
    intro late hlate
    rcases mem_cons.mp hlate with rfl | hbehind
    · exact fun hself ↦ hranks.asymm hself hself
    · exact hlater late hbehind
  conv_lhs => rw [hsplit]
  rw [countP_append, hfront, hback, Nat.add_zero]

theorem countP_before_of_getElem? {list : List α} (hnodup : list.Nodup)
    (hseparates : Separates before list) {place : ℕ} {value : α}
    (hvalue : (sortBy before list)[place]? = some value) : list.countP (before · value) = place := by
  obtain ⟨hplace, rfl⟩ := List.getElem?_eq_some_iff.mp hvalue
  rw [← (@sortBy_perm α before list).countP_eq]
  exact countP_before_getElem hranks (nodup_sortBy hnodup) (hseparates.mono fun _ ↦ mem_sortBy.mp)
    (pairwise_sortBy hranks list) hplace

/-- A value is delivered exactly if fewer than `count` values come before it. -/
theorem mem_topBy {list : List α} {count : ℕ} (hnodup : list.Nodup)
    (hseparates : Separates before list) {value : α} :
    value ∈ topBy before count list ↔ value ∈ list ∧ list.countP (before · value) < count := by
  have hplace := fun place (hplace : place < (sortBy before list).length) ↦
    countP_before_of_getElem? hranks hnodup hseparates (getElem?_eq_getElem hplace)
  rw [topBy, mem_take_iff_getElem]
  constructor
  · rintro ⟨place, hbound, rfl⟩
    rw [Nat.lt_min] at hbound
    rw [hplace place hbound.2]
    exact ⟨mem_sortBy.mp (getElem_mem hbound.2), hbound.1⟩
  · rintro ⟨hmem, hcount⟩
    obtain ⟨place, hbound, rfl⟩ := getElem_of_mem ((@mem_sortBy α before _ _).mpr hmem)
    rw [hplace place hbound] at hcount
    exact ⟨place, Nat.lt_min.mpr ⟨hcount, hbound⟩, rfl⟩

/-- Two lists that deliver only values they share deliver the same. -/
theorem topBy_eq_of_shared [DecidableEq α] {list other : List α} {count : ℕ} (hnodup : list.Nodup)
    (hother : other.Nodup) (hseparates : Separates before list)
    (hseparatesOther : Separates before other) (hlist : topBy before count list ⊆ other)
    (hback : topBy before count other ⊆ list) :
    topBy before count list = topBy before count other := by
  have hshared : (list.filter (· ∈ other)).Nodup := hnodup.filter _
  have hleft := @topBy_eq_of_keeps α before hranks _ list (list.filter (· ∈ other)) count hnodup
    hseparates hshared (filter_subset_self _) fun value hvalue ↦
      mem_filter.mpr ⟨topBy_subset _ _ hvalue, decide_eq_true (hlist hvalue)⟩
  have hright := @topBy_eq_of_keeps α before hranks _ other (list.filter (· ∈ other)) count hother
    hseparatesOther hshared (fun value hvalue ↦ of_decide_eq_true (mem_filter.mp hvalue).2)
    fun value hvalue ↦ mem_filter.mpr ⟨hback hvalue, decide_eq_true (topBy_subset _ _ hvalue)⟩
  exact hleft.symm.trans hright

end Keep

/-! ### Cutting before merging -/

/-- A part of a list that holds every value with fewer than `count` values before it. -/
structure Cuts (before : α → α → Bool) (count : ℕ) (cut list : List α) : Prop where
  nodup : cut.Nodup
  subset : cut ⊆ list
  keeps : ∀ value ∈ list, list.countP (before · value) < count → value ∈ cut

section Cuts

variable {before : α → α → Bool} {count : ℕ} {cut list : List α}

/-- Cutting nothing is a cut. -/
theorem Cuts.refl (hnodup : list.Nodup) : Cuts before count list list :=
  ⟨hnodup, Subset.refl _, fun _ hvalue _ ↦ hvalue⟩

section

variable (hcut : Cuts before count cut list)

include hcut

theorem Cuts.append {cut' list' : List α}
    (hcut' : Cuts before count cut' list') (hdisjoint : Disjoint list list') :
    Cuts before count (cut ++ cut') (list ++ list') where
  nodup := nodup_append.mpr ⟨hcut.nodup, hcut'.nodup, fun _ hfirst _ hsecond heq ↦
    hdisjoint (hcut.subset hfirst) (heq ▸ hcut'.subset hsecond)⟩
  subset := by
    intro value hvalue
    rcases mem_append.mp hvalue with hleft | hright
    · exact mem_append_left _ (hcut.subset hleft)
    · exact mem_append_right _ (hcut'.subset hright)
  keeps := by
    intro value hvalue hcount
    rw [countP_append] at hcount
    rcases mem_append.mp hvalue with hleft | hright
    · exact mem_append_left _ (hcut.keeps value hleft (by omega))
    · exact mem_append_right _ (hcut'.keeps value hright (by omega))

/-- A list can be cut twice. -/
theorem Cuts.trans {whole : List α}
    (hlist : Cuts before count list whole) : Cuts before count cut whole where
  nodup := hcut.nodup
  subset := Subset.trans hcut.subset hlist.subset
  keeps value hvalue hcount := hcut.keeps value (hlist.keeps value hvalue hcount)
    (lt_of_le_of_lt ((subperm_of_subset hlist.nodup hlist.subset).countP_le _) hcount)

/-- A cut carries over to values that are in the same order. -/
theorem Cuts.map {β : Type} {beforeOther : β → β → Bool}
    {value : α → β} (hinj : ∀ first ∈ list, ∀ second ∈ list, value first = value second → first = second)
    (horder : ∀ first ∈ list, ∀ second ∈ list,
      beforeOther (value first) (value second) = before first second) :
    Cuts beforeOther count (cut.map value) (list.map value) where
  nodup := hcut.nodup.map_on fun first hfirst second hsecond ↦
    hinj first (hcut.subset hfirst) second (hcut.subset hsecond)
  subset := map_subset _ hcut.subset
  keeps := by
    intro image himage hcount
    obtain ⟨original, horiginal, rfl⟩ := mem_map.mp himage
    refine mem_map_of_mem (hcut.keeps original horiginal ?_)
    rw [countP_map] at hcount
    refine lt_of_eq_of_lt (countP_congr fun other hother ↦ ?_) hcount
    rw [Function.comp_apply, horder other hother original horiginal]

end

/-- Each of several lists can be cut before they are merged. -/
theorem Cuts.flatMap {β : Type} {sources : List β} {cuts lists : β → List α}
    (hcuts : ∀ source ∈ sources, Cuts before count (cuts source) (lists source))
    (hnodup : (sources.flatMap lists).Nodup) :
    Cuts before count (sources.flatMap cuts) (sources.flatMap lists) := by
  induction sources with
  | nil => exact Cuts.refl nodup_nil
  | cons source sources ih =>
    rw [flatMap_cons, nodup_append'] at hnodup
    exact (hcuts source (mem_cons_self ..)).append
      (ih (fun other hother ↦ hcuts other (mem_cons_of_mem _ hother)) hnodup.2.1) hnodup.2.2

variable (hranks : Ranks before) (hnodup : list.Nodup) (hseparates : Separates before list)

include hranks hnodup hseparates

/-- A list cut after its first values is cut. -/
theorem cuts_of_perm_topBy (hperm : cut.Perm (topBy before count list)) :
    Cuts before count cut list where
  nodup := hperm.nodup_iff.mpr (nodup_topBy hnodup count)
  subset _ hvalue := topBy_subset _ _ (hperm.mem_iff.mp hvalue)
  keeps _ hvalue hcount :=
    hperm.mem_iff.mpr ((mem_topBy hranks hnodup hseparates).mpr ⟨hvalue, hcount⟩)

/-- What a cut list delivers is what the whole list delivers. -/
theorem Cuts.topBy_eq [DecidableEq α] (hcut : Cuts before count cut list) :
    topBy before count cut = topBy before count list :=
  topBy_eq_of_keeps hranks hnodup hseparates hcut.nodup hcut.subset fun value hvalue ↦
    hcut.keeps value (topBy_subset _ _ hvalue) ((mem_topBy hranks hnodup hseparates).mp hvalue).2

end Cuts

/-! ### Pages of a list that has lost values -/

section Pages

variable {before : α → α → Bool}

/-- A piece of the sorted list lies within its first values. -/
theorem drop_take_sortBy (list : List α) (skip size : ℕ) :
    ((sortBy before list).drop skip).take size = (topBy before (skip + size) list).drop skip := by
  rw [topBy, drop_take, Nat.add_sub_cancel_left]

variable (hranks : Ranks before)

include hranks in
/-- A value has more values before it than one that comes before it. -/
theorem countP_before_lt {list : List α} {earlier later : α} (hmem : earlier ∈ list)
    (hbefore : before earlier later) :
    list.countP (before · earlier) < list.countP (before · later) := by
  have hmono : ∀ part : List α, part.countP (before · earlier) ≤ part.countP (before · later) :=
    fun part ↦ countP_mono_left fun value _ hvalue ↦
      hranks.before_of_before hvalue (hranks.asymm hbefore)
  have hself : ¬ before earlier earlier := fun hself ↦ hranks.asymm hself hself
  obtain ⟨front, back, rfl⟩ := append_of_mem hmem
  rw [countP_append, countP_append, countP_cons, countP_cons, if_pos hbefore, if_neg hself]
  have hfront := hmono front
  have hback := hmono back
  omega

variable [DecidableEq α] {list other : List α} {skip size : ℕ}

variable (hnodup : list.Nodup) (hother : other.Nodup) (hseparates : Separates before list)
  (hseparatesOther : Separates before other)

include hranks hnodup hother hseparates hseparatesOther

/-- As long as no lost value is delivered, nothing that replaces one is. -/
theorem topBy_eq_of_lost {count : ℕ}
    (hnew : ∀ value ∈ other, value ∉ list → ∃ lost ∈ list, lost ∉ other ∧ before lost value)
    (hkept : topBy before count list ⊆ other) :
    topBy before count list = topBy before count other := by
  refine topBy_eq_of_shared hranks hnodup hother hseparates hseparatesOther hkept ?_
  intro value hvalue
  obtain ⟨hmem, hcount⟩ := (mem_topBy hranks hother hseparatesOther).mp hvalue
  by_contra hfresh
  obtain ⟨lost, hlost, hbefore⟩ := hnew value hmem hfresh
  -- Of the lost values before it, take the one that comes first.
  obtain ⟨first, hfirst, hleast⟩ := Finset.exists_min_image
    (list.filter fun lost ↦ lost ∉ other ∧ before lost value).toFinset
    (fun lost ↦ list.countP (before · lost))
    ⟨lost, by simpa using ⟨hlost, hbefore⟩⟩
  simp only [mem_toFinset, mem_filter, decide_eq_true_eq] at hfirst hleast
  obtain ⟨hfirst, hgone, hahead⟩ := hfirst
  have hlate : count ≤ list.countP (before · first) := by
    by_contra hearly
    exact hgone (hkept ((mem_topBy hranks hnodup hseparates).mpr ⟨hfirst, Nat.lt_of_not_le hearly⟩))
  have hstay : (list.filter (before · first)) ⊆ other.filter (before · value) := by
    intro earlier hearlier
    obtain ⟨hearlier, hprecedes⟩ := mem_filter.mp hearlier
    have hvalueBefore : before earlier value :=
      hranks.before_of_before hprecedes (hranks.asymm hahead)
    refine mem_filter.mpr ⟨?_, hvalueBefore⟩
    by_contra hlostToo
    have hlate := hleast earlier ⟨hearlier, hlostToo, hvalueBefore⟩
    have hearly := countP_before_lt hranks hearlier hprecedes
    omega
  have hlength := (subperm_of_subset (hnodup.filter _) hstay).length_le
  rw [← countP_eq_length_filter, ← countP_eq_length_filter] at hlength
  omega

/-- A piece of a sorted list stays the same when values are lost and others replace them, exactly if
the list ends before the piece or no value up to its end is lost. Assumes: at least one value in the
piece, no longer list in the end, and each new value behind a lost one and behind the start of the
piece. -/
theorem piece_eq_iff_of_lost (hsize : 0 < size) (hlength : other.length ≤ list.length)
    (hnew : ∀ value ∈ other, value ∉ list → (∃ lost ∈ list, lost ∉ other ∧ before lost value) ∧
      (skip = 0 ∨ skip < list.countP (before · value))) :
    ((sortBy before list).drop skip).take size = ((sortBy before other).drop skip).take size ↔
      list.length ≤ skip ∨ topBy before (skip + size) list ⊆ other := by
  have hfirst : ∀ values : List α, ((values.drop skip).take size)[0]? = values[skip]? := by
    intro values
    rw [getElem?_take_of_lt hsize, getElem?_drop, Nat.add_zero]
  constructor
  · intro hpage
    refine or_iff_not_imp_left.mpr fun hlong lost hlost ↦ ?_
    by_contra hgone
    obtain ⟨place, hbound, hthere⟩ := mem_take_iff_getElem.mp hlost
    rw [Nat.lt_min] at hbound
    have hrank := countP_before_of_getElem? hranks hnodup hseparates (List.getElem?_eq_some_iff.mpr ⟨hbound.2, hthere⟩)
    by_cases hshown : skip ≤ place
    · -- The lost value is in the piece itself.
      have hmem : lost ∈ ((sortBy before list).drop skip).take size := by
        rw [mem_take_iff_getElem]
        refine ⟨place - skip, by rw [length_drop]; omega, ?_⟩
        simpa [Nat.add_sub_cancel' hshown] using hthere
      rw [hpage] at hmem
      exact hgone (mem_sortBy.mp (mem_of_mem_drop (mem_of_mem_take hmem)))
    · -- It lies before the piece, which then starts one value later.
      have hstart : skip < (sortBy before list).length := by
        rw [length_sortBy]
        omega
      obtain ⟨start, hstartAt⟩ : ∃ start, (sortBy before list)[skip]? = some start :=
        ⟨_, getElem?_eq_getElem hstart⟩
      have hstartOther : (sortBy before other)[skip]? = some start := by
        rw [← hfirst, ← hpage, hfirst, hstartAt]
      have hrankList := countP_before_of_getElem? hranks hnodup hseparates hstartAt
      have hrankOther := countP_before_of_getElem? hranks hother hseparatesOther hstartOther
      have hahead : before lost start := by
        by_contra hbehind
        have hlevel : ¬ before start lost := fun hprecedes ↦ by
          have hless := countP_before_lt hranks
            (mem_sortBy.mp (mem_of_getElem? hstartAt)) hprecedes
          omega
        have hsame := hseparates lost (topBy_subset _ _ hlost) start
          (mem_sortBy.mp (mem_of_getElem? hstartAt)) hbehind hlevel
        rw [hsame] at hrank
        omega
      have hsubset : other.filter (before · start) ⊆ (list.filter (before · start)).erase lost := by
        intro value hvalue
        obtain ⟨hvalue, hprecedes⟩ := mem_filter.mp hvalue
        have hold : value ∈ list := by
          by_contra hfresh
          have hbehind := (hnew value hvalue hfresh).2
          have hmono : list.countP (before · value) ≤ list.countP (before · start) :=
            countP_mono_left fun earlier _ hearlier ↦
              hranks.before_of_before hearlier (hranks.asymm hprecedes)
          omega
        have hne : value ≠ lost := by
          rintro rfl
          exact hgone hvalue
        exact (mem_erase_of_ne hne).mpr (mem_filter.mpr ⟨hold, hprecedes⟩)
      have hcount := (subperm_of_subset (hother.filter _) hsubset).length_le
      have hmemLost : lost ∈ list.filter (before · start) :=
        mem_filter.mpr ⟨topBy_subset _ _ hlost, hahead⟩
      rw [length_erase_of_mem hmemLost, ← countP_eq_length_filter, ← countP_eq_length_filter] at hcount
      omega
  · rintro (hshort | hkept)
    · rw [drop_eq_nil_of_le (by rw [length_sortBy]; omega),
        drop_eq_nil_of_le (by rw [length_sortBy]; omega)]
    · rw [drop_take_sortBy, drop_take_sortBy, topBy_eq_of_lost hranks hnodup hother hseparates
        hseparatesOther (fun value hvalue hfresh ↦ (hnew value hvalue hfresh).1) hkept]

end Pages

/-! ### A bounded heap -/

section Heap

variable (before : α → α → Bool) (count : ℕ)

/-- One round over a heap that has its worst value in front: a value is taken while there is room, and
then only in place of the worst one. -/
def heapStep (heap : List α) (value : α) : List α :=
  if heap.length < count then heap.orderedInsert (NotAfter (flip before)) value
  else
    match heap with
    | [] => []
    | worst :: rest =>
      if before value worst then rest.orderedInsert (NotAfter (flip before)) value
      else worst :: rest

/-- The values that a heap of bounded size is left with. -/
def keepFirst (values : List α) : List α := values.foldl (heapStep before count) []

/-- A change of the values that keeps their order goes through the heap. -/
theorem map_keepFirst {change : α → α} (values : List α)
    (hbefore : ∀ first second, before (change first) (change second) = before first second) :
    (keepFirst before count values).map change = keepFirst before count (values.map change) := by
  have hinsert : ∀ (heap : List α) (value : α),
      (heap.orderedInsert (NotAfter (flip before)) value).map change =
        (heap.map change).orderedInsert (NotAfter (flip before)) (change value) := by
    intro heap value
    refine map_orderedInsert _ _ change heap value (fun other _ ↦ ?_) fun other _ ↦ ?_
    · rw [NotAfter, NotAfter, flip, flip, hbefore]
    · rw [NotAfter, NotAfter, flip, flip, hbefore]
  have hstep : ∀ (heap : List α) (value : α), (heapStep before count heap value).map change =
      heapStep before count (heap.map change) (change value) := by
    intro heap value
    rw [heapStep.eq_def, heapStep.eq_def, length_map]
    split_ifs
    · exact hinsert heap value
    · cases heap with
      | nil => rfl
      | cons worst rest =>
        simp only [map_cons, hbefore]
        split_ifs
        · exact hinsert rest value
        · rfl
  rw [keepFirst, keepFirst, foldl_map]
  exact (foldl_hom _ fun heap value ↦ (hstep heap value).symm).symm

/-- What a heap holds of the values it has met, and what it has dropped. -/
structure Kept (heap dropped values : List α) : Prop where
  perm : (heap ++ dropped).Perm values
  room : heap.length ≤ count
  full : dropped ≠ [] → heap.length = count
  best : ∀ kept ∈ heap, ∀ other ∈ dropped, ¬ before other kept
  worstFirst : heap.Pairwise (NotAfter (flip before))

end Heap

section Heap

variable {before : α → α → Bool} {count : ℕ}

theorem Ranks.flip (hranks : Ranks before) : Ranks (flip before) where
  asymm := hranks.asymm
  trans hfirst hsecond := hranks.trans hsecond hfirst

variable (hranks : Ranks before)

include hranks

theorem pairwise_orderedInsert {heap : List α} (hheap : heap.Pairwise (NotAfter (flip before)))
    (value : α) :
    (heap.orderedInsert (NotAfter (flip before)) value).Pairwise (NotAfter (flip before)) := by
  have := hranks.flip.total
  have := hranks.flip.isTrans
  exact Pairwise.orderedInsert value heap hheap

theorem Kept.step {heap dropped values : List α} (hkept : Kept before count heap dropped values)
    (value : α) : ∃ rest, Kept before count (heapStep before count heap value) rest
      (values ++ [value]) := by
  have hperm : ∀ list : List α,
      (list.orderedInsert (NotAfter (flip before)) value).Perm (value :: list) :=
    (perm_orderedInsert _ value)
  have hvalues : (value :: (heap ++ dropped)).Perm (values ++ [value]) :=
    (hkept.perm.cons value).trans (perm_append_singleton value values).symm
  by_cases hroom : heap.length < count
  · rw [heapStep.eq_def, if_pos hroom]
    have hnone : dropped = [] := by
      by_contra hsome
      exact absurd (hkept.full hsome) hroom.ne
    refine ⟨[], ?_, ?_, (absurd rfl), fun _ _ _ hother ↦ (not_mem_nil hother).elim,
      pairwise_orderedInsert hranks hkept.worstFirst value⟩
    · rw [hnone, append_nil] at hvalues
      rw [append_nil]
      exact (hperm heap).trans hvalues
    · rw [(hperm heap).length_eq, length_cons]
      omega
  · rw [heapStep.eq_def, if_neg hroom]
    cases heap with
    | nil =>
      refine ⟨value :: dropped, hvalues, Nat.zero_le _, fun _ ↦ ?_,
        fun _ hmem ↦ (not_mem_nil hmem).elim, Pairwise.nil⟩
      rw [length_nil] at hroom ⊢
      omega
    | cons worst rest =>
      obtain ⟨hworst, hrest⟩ := pairwise_cons.mp hkept.worstFirst
      have hfull : (worst :: rest).length = count :=
        Nat.le_antisymm hkept.room (Nat.le_of_not_lt hroom)
      by_cases hbefore : before value worst
      · refine ⟨worst :: dropped, ?_, ?_, fun _ ↦ ?_, ?_, ?_⟩ <;> simp only [if_pos hbefore]
        · refine ((hperm rest).append_right _).trans (Perm.trans ?_ hvalues)
          exact (perm_middle.cons value)
        · exact ((hperm rest).length_eq.trans hfull).le
        · exact (hperm rest).length_eq.trans hfull
        · intro kept hmem other hother
          have hbehind : ¬ before other worst := by
            rcases mem_cons.mp hother with rfl | hdropped
            · exact fun hself ↦ hranks.asymm hself hself
            · exact hkept.best worst (mem_cons_self ..) other hdropped
          have hahead : ¬ before worst kept := by
            rcases mem_cons.mp ((hperm rest).mem_iff.mp hmem) with rfl | hold
            · exact hranks.asymm hbefore
            · exact hworst kept hold
          exact hranks.trans hahead hbehind
        · exact pairwise_orderedInsert hranks hrest value
      · refine ⟨value :: dropped, ?_, ?_, fun _ ↦ ?_, ?_, ?_⟩ <;> simp only [if_neg hbefore]
        · exact perm_middle.trans hvalues
        · exact hkept.room
        · exact hfull
        · intro kept hmem other hother
          rcases mem_cons.mp hother with rfl | hdropped
          · rcases mem_cons.mp hmem with rfl | hold
            · exact hbefore
            · exact hranks.trans (hworst kept hold) hbefore
          · exact hkept.best kept hmem other hdropped
        · exact hkept.worstFirst

theorem Kept.foldl (values : List α) {heap dropped met : List α}
    (hkept : Kept before count heap dropped met) :
    ∃ rest, Kept before count (values.foldl (heapStep before count) heap) rest (met ++ values) := by
  induction values generalizing heap dropped met with
  | nil => exact ⟨dropped, by rwa [append_nil]⟩
  | cons value values ih =>
    obtain ⟨rest, hnext⟩ := hkept.step hranks value
    rw [append_cons]
    exact ih hnext

theorem exists_kept (values : List α) :
    ∃ dropped, Kept before count (keepFirst before count values) dropped values :=
  Kept.foldl hranks values ⟨Perm.refl _, Nat.zero_le _, (absurd rfl),
    fun _ hmem ↦ (not_mem_nil hmem).elim, Pairwise.nil⟩

/-- What is different for all values is different for those that the heap is left with. -/
theorem nodup_map_keepFirst {β : Type} {key : α → β} {values : List α}
    (hkeys : (values.map key).Nodup) : ((keepFirst before count values).map key).Nodup := by
  obtain ⟨dropped, hkept⟩ := @exists_kept α before count hranks values
  exact ((hkept.perm.map key).nodup_iff.mpr hkeys).sublist
    ((sublist_append_left _ dropped).map key)

theorem keepFirst_subset (values : List α) : keepFirst before count values ⊆ values := by
  obtain ⟨dropped, hkept⟩ := @exists_kept α before count hranks values
  exact Subset.trans (subset_append_left _ dropped) hkept.perm.subset

/-- The heap is left with the values that come first, if no two are level. -/
theorem keepFirst_perm {values : List α} (hseparates : Separates before values) :
    (keepFirst before count values).Perm (topBy before count values) := by
  obtain ⟨dropped, hkept⟩ := @exists_kept α before count hranks values
  generalize keepFirst before count values = heap at hkept
  have hsorted : sortBy before values = sortBy before heap ++ sortBy before dropped := by
    refine eq_of_perm_of_pairwise ?_ (hseparates.mono fun _ ↦ mem_sortBy.mp)
      (pairwise_sortBy hranks values) (pairwise_append.mpr ⟨pairwise_sortBy hranks heap,
        pairwise_sortBy hranks dropped, fun kept hmem other hother ↦
          hkept.best kept (mem_sortBy.mp hmem) other (mem_sortBy.mp hother)⟩)
    exact ((sortBy_perm values).trans hkept.perm.symm).trans
      ((sortBy_perm heap).symm.append (sortBy_perm dropped).symm)
  have hlength := @length_sortBy α before heap
  rw [topBy, hsorted]
  by_cases hnone : dropped = []
  · rw [hnone, show sortBy before ([] : List α) = [] from rfl, append_nil,
      take_of_length_le (hlength ▸ hkept.room)]
    exact (sortBy_perm heap).symm
  · rw [take_left' (hlength.trans (hkept.full hnone))]
    exact (sortBy_perm heap).symm

end Heap

/-! ### Filtering in place -/

/-- The loop `for _, v := range s { if keep(v) { out = append(out, v) } }` over a slice whose front `out`
shares: so many rounds are left, so many values were read and so many of them kept. -/
def compactFrom (keep : α → Bool) : ℕ → ℕ → ℕ → List α → List α
  | 0, _, kept, slice => slice.take kept
  | rounds + 1, read, kept, slice =>
    match slice[read]? with
    | none => slice.take kept
    | some value =>
      if keep value then compactFrom keep rounds (read + 1) (kept + 1) (slice.set kept value)
      else compactFrom keep rounds (read + 1) kept slice

/-- The slice after it was filtered in place. -/
def compact (keep : α → Bool) (slice : List α) : List α := compactFrom keep slice.length 0 0 slice

theorem compactFrom_eq (keep : α → Bool) {rounds read kept : ℕ} {slice : List α}
    (hkept : kept ≤ read) (hrounds : read + rounds = slice.length) :
    compactFrom keep rounds read kept slice = slice.take kept ++ (slice.drop read).filter keep := by
  induction rounds generalizing read kept slice with
  | zero =>
    rw [compactFrom, drop_eq_nil_of_le (by omega), filter_nil, append_nil]
  | succ rounds ih =>
    have hread : read < slice.length := by omega
    rw [compactFrom, getElem?_eq_getElem hread, drop_eq_getElem_cons hread]
    by_cases hkeep : keep slice[read]
    · have hset : (slice.set kept slice[read]).length = slice.length := length_set
      -- The write lands at or behind the value just read, so nothing unread changes.
      simp only [if_pos hkeep]
      rw [ih (by omega) (by omega), filter_cons_of_pos hkeep, drop_set_of_lt (by omega), take_set,
        take_succ_eq_append_getElem (by omega), set_append_right _ _ (by rw [length_take]; omega),
        length_take, Nat.min_eq_left (by omega), Nat.sub_self, set_cons_zero, append_assoc,
        singleton_append]
    · simp only [if_neg hkeep]
      rw [ih (by omega) (by omega), filter_cons_of_neg hkeep]

theorem compact_eq_filter (keep : α → Bool) (slice : List α) :
    compact keep slice = slice.filter keep := by
  rw [compact, compactFrom_eq keep le_rfl (Nat.zero_add _), take_zero, nil_append, drop_zero]

end OpenTrace.Library
