import Mathlib.Order.Lattice
import Mathlib.Order.Nat
import Mathlib.Data.List.Basic

/-!
# Binary search and intersection of ascending lists

`search` is Go's `sort.Search`: the least index below a bound at which a monotone predicate holds,
found by halving (`search_spec`). `intersectSorted` walks two strictly ascending lists side by side
and keeps what both of them hold; it is the filter of one list by the other
(`intersectSorted_eq_filter`).
-/

namespace OpenTrace.Library

open List

/-! ### Binary search -/

/-- The loop of `sort.Search` on the half-open range from `low` to `high`, in at most `fuel`
rounds. -/
def searchIn (holds : ℕ → Bool) : ℕ → ℕ → ℕ → ℕ
  | 0, low, _ => low
  | fuel + 1, low, high =>
    if low < high then
      let mid := (low + high) / 2
      if holds mid then searchIn holds fuel low mid else searchIn holds fuel (mid + 1) high
    else low

def search (count : ℕ) (holds : ℕ → Bool) : ℕ := searchIn holds count 0 count

/-- The loop keeps what it is looking for inside its range. Assumes: the predicate fails below the
range, holds from its end on, and there is a round for every index of the range. -/
theorem searchIn_spec {holds : ℕ → Bool} {fuel low high count : ℕ}
    (hmono : ∀ index other, index ≤ other → other < count → holds index → holds other)
    (hbelow : ∀ index < low, ¬ holds index)
    (habove : ∀ index, high ≤ index → index < count → holds index)
    (horder : low ≤ high) (hhigh : high ≤ count) (hfuel : high - low ≤ fuel) :
    searchIn holds fuel low high ≤ count ∧ (∀ index < searchIn holds fuel low high, ¬ holds index) ∧
      ∀ index, searchIn holds fuel low high ≤ index → index < count → holds index := by
  induction fuel generalizing low high with
  | zero =>
    have hempty : low = high := by omega
    exact ⟨by rw [searchIn]; omega, hbelow, fun index hindex ↦ habove index (hempty ▸ hindex)⟩
  | succ fuel ih =>
    rw [searchIn]
    split_ifs with hrange
    · simp only
      split_ifs with hmid
      · exact ih hbelow (fun index hindex hbound ↦ hmono _ index hindex hbound hmid) (by omega)
          (by omega) (by omega)
      · refine ih (fun index hindex hholds ↦ hmid ?_) habove (by omega) hhigh (by omega)
        exact hmono index _ (by omega) (by omega) hholds
    · have hempty : low = high := by omega
      exact ⟨by omega, hbelow, fun index hindex ↦ habove index (hempty ▸ hindex)⟩

/-- Binary search finds the boundary of a monotone predicate. -/
theorem search_spec {holds : ℕ → Bool} {count : ℕ}
    (hmono : ∀ index other, index ≤ other → other < count → holds index → holds other) :
    search count holds ≤ count ∧ (∀ index < search count holds, ¬ holds index) ∧
      ∀ index, search count holds ≤ index → index < count → holds index :=
  searchIn_spec hmono (fun index hindex ↦ absurd hindex (Nat.not_lt_zero index))
    (fun _ hindex hbound ↦ absurd hbound (not_lt.mpr hindex)) (Nat.zero_le _) le_rfl le_rfl

/-! ### Ascending lists -/

section Intersection

variable {α : Type} [LinearOrder α]

/-- The walk over two lists, in at most `fuel` steps. -/
def intersectIn : ℕ → List α → List α → List α
  | fuel + 1, first :: firsts, second :: seconds =>
    if first = second then first :: intersectIn fuel firsts seconds
    else if first < second then intersectIn fuel firsts (second :: seconds)
    else intersectIn fuel (first :: firsts) seconds
  | _, _, _ => []

def intersectSorted (firsts seconds : List α) : List α :=
  intersectIn (firsts.length + seconds.length) firsts seconds

theorem intersectIn_eq_filter {fuel : ℕ} {firsts seconds : List α}
    (hfirsts : firsts.Pairwise (· < ·)) (hseconds : seconds.Pairwise (· < ·))
    (hfuel : firsts.length + seconds.length ≤ fuel) :
    intersectIn fuel firsts seconds = firsts.filter (· ∈ seconds) := by
  induction fuel generalizing firsts seconds with
  | zero =>
    have hempty : firsts = [] := eq_nil_of_length_eq_zero (by omega)
    rw [hempty]
    rfl
  | succ fuel ih =>
    cases firsts with
    | nil => rfl
    | cons first firsts =>
      cases seconds with
      | nil => simp [intersectIn]
      | cons second seconds =>
        obtain ⟨hfirst, hlater⟩ := pairwise_cons.mp hfirsts
        obtain ⟨hsecond, hothers⟩ := pairwise_cons.mp hseconds
        simp only [length_cons] at hfuel
        rw [intersectIn]
        split_ifs with hequal hbefore
        · -- the other elements of the first list are all past the common head
          subst hequal
          have hskip : firsts.filter (· ∈ first :: seconds) = firsts.filter (· ∈ seconds) :=
            filter_congr fun other hother ↦ by
              have hne : other ≠ first := ne_of_gt (hfirst other hother)
              simp [hne]
          rw [ih hlater hothers (by omega), filter_cons, if_pos (by simp), hskip]
        · have habsent : first ∉ second :: seconds := by
            intro hmem
            rcases mem_cons.mp hmem with rfl | hrest
            · exact hequal rfl
            · exact lt_asymm hbefore (hsecond first hrest)
          rw [ih hlater hseconds (by rw [length_cons]; omega), filter_cons,
            if_neg (by simpa using habsent)]
        · have hafter : second < first := lt_of_le_of_ne (not_lt.mp hbefore) (Ne.symm hequal)
          rw [ih hfirsts hothers (by rw [length_cons]; omega)]
          refine filter_congr fun other hother ↦ ?_
          have hne : other ≠ second := by
            rcases mem_cons.mp hother with rfl | hrest
            · exact hequal
            · exact ne_of_gt (hafter.trans (hfirst other hrest))
          simp [hne]

theorem intersectSorted_eq_filter {firsts seconds : List α} (hfirsts : firsts.Pairwise (· < ·))
    (hseconds : seconds.Pairwise (· < ·)) :
    intersectSorted firsts seconds = firsts.filter (· ∈ seconds) :=
  intersectIn_eq_filter hfirsts hseconds le_rfl

end Intersection

end OpenTrace.Library
