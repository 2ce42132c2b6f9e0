import Mathlib.Data.List.Sort

/-!
# The first entries of a sorted list

A query that sorts and limits keeps the first `n` entries. If at most `n` entries pass a test that an
entry passes whenever a later one does, all of them are kept.
-/

namespace OpenTrace.Library

open List

variable {α : Type}

/-- No entry that passes the test is cut off. -/
theorem mem_take_of_countP_le {before : α → α → Prop} {test : α → Bool} {list : List α} {n : ℕ}
    (hsorted : list.Pairwise before)
    (htest : ∀ first second, before first second → test second = true → test first = true)
    (hcount : list.countP test ≤ n) {entry : α} (hmem : entry ∈ list) (hentry : test entry = true) :
    entry ∈ list.take n := by
  by_contra hcut
  have hlate : entry ∈ list.drop n := by
    rw [← take_append_drop n list, mem_append] at hmem
    exact hmem.resolve_left hcut
  have hlength : n < list.length := by
    by_contra hshort
    rw [drop_eq_nil_of_le (Nat.le_of_not_lt hshort)] at hlate
    cases hlate
  rw [← take_append_drop n list, pairwise_append] at hsorted
  have hearly : (list.take n).countP test = n := by
    rw [countP_eq_length.mpr fun first hfirst ↦
      htest first entry (hsorted.2.2 first hfirst entry hlate) hentry, length_take]
    exact Nat.min_eq_left (Nat.le_of_lt hlength)
  have hrest : 0 < (list.drop n).countP test := countP_pos_iff.mpr ⟨entry, hlate, hentry⟩
  rw [← take_append_drop n list, countP_append] at hcount
  omega

/-- A limit that is not reached cuts nothing off. -/
theorem take_eq_self_of_length_lt {list : List α} {n : ℕ} (hlength : (list.take n).length < n) :
    list.take n = list := by
  rw [length_take] at hlength
  exact take_of_length_le (by omega)

end OpenTrace.Library
