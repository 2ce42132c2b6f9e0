import Mathlib.Data.List.Basic
import Mathlib.Data.Nat.Find

/-!
# Pages

A list is read page by page, with offsets that go up by the page's size, until a page is empty. Each page
is computed on its own. If what it can hold lies behind its offset, then the pages together are the list
only if each of them is the piece of the list at its place (`pages_cover_iff`).
-/

namespace OpenTrace.Library

open List

variable {α : Type}

/-- The pages up to the first empty one make up the list. -/
def PagesCover (page : ℕ → List α) (list : List α) : Prop :=
  ∃ count, (∀ place < count, page place ≠ []) ∧ page count = [] ∧ (range count).flatMap page = list

section Cover

variable {list : List α} {size : ℕ} {page : ℕ → List α}

/-- Pieces of one size make up the front of the list. -/
theorem flatMap_pieces (hpieces : ∀ place, page place = (list.drop (place * size)).take size)
    (count : ℕ) : (range count).flatMap page = list.take (count * size) := by
  induction count with
  | zero => simp
  | succ count ih =>
    rw [range_succ, flatMap_append, ih, flatMap_singleton, hpieces, Nat.succ_mul, take_add]

/-- A front part is the whole piece, if the rest of the list has nothing of the piece. -/
theorem eq_take_of_append {whole front rest : List α} (hnodup : whole.Nodup)
    (hwhole : front ++ rest = whole) (hfront : front.length ≤ size)
    (hrest : ∀ value ∈ rest, value ∈ whole.drop size) : front = whole.take size := by
  have htake : whole.take size = front ++ rest.take (size - front.length) := by
    rw [← hwhole, take_append, take_of_length_le hfront]
  have hnone : rest.take (size - front.length) = [] := by
    rw [eq_nil_iff_forall_not_mem]
    intro value hvalue
    have hdisjoint : Disjoint (whole.take size) (whole.drop size) :=
      disjoint_take_drop hnodup le_rfl
    refine hdisjoint ?_ (hrest value (mem_of_mem_take hvalue))
    rw [htake]
    exact mem_append_right _ hvalue
  rw [htake, hnone, append_nil]

variable (hnodup : list.Nodup) (hsize : 0 < size)
  (hbehind : ∀ place, page place ⊆ list.drop (place * size))
  (hlength : ∀ place, (page place).length ≤ size)

include hnodup hbehind hlength

/-- The pages that make up the list are its pieces, one after the other. -/
theorem flatMap_eq_take {count : ℕ} (hcover : (range count).flatMap page = list) :
    ∀ place ≤ count, (range place).flatMap page = list.take (place * size) := by
  intro place
  induction place with
  | zero => simp
  | succ place ih =>
    intro hplace
    have hsplit : (range place).flatMap page ++ (page place ++
        (range' (place + 1) (count - (place + 1))).flatMap page) = list := by
      have hrange : range count =
          range place ++ place :: range' (place + 1) (count - (place + 1)) := by
        have happend := @range'_append_1 0 place (count - (place + 1) + 1)
        rw [Nat.zero_add, show place + (count - (place + 1) + 1) = count by omega,
          range'_succ] at happend
        rw [range_eq_range', range_eq_range', happend]
      rw [← hcover, hrange, flatMap_append, flatMap_cons]
    rw [ih (by omega)] at hsplit
    have hrest : page place ++ (range' (place + 1) (count - (place + 1))).flatMap page =
        list.drop (place * size) :=
      append_cancel_left (hsplit.trans (take_append_drop _ list).symm)
    have hpiece := eq_take_of_append (hnodup.sublist (drop_sublist ..)) hrest (hlength place) (by
      intro value hvalue
      obtain ⟨later, hlater, hvalue⟩ := mem_flatMap.mp hvalue
      rw [drop_drop]
      have hfar : place * size + size ≤ later * size := by
        rw [← Nat.succ_mul]
        exact Nat.mul_le_mul_right _ (mem_range'_1.mp hlater).1
      exact drop_subset_drop_left _ hfar (hbehind later hvalue))
    rw [range_succ, flatMap_append, ih (by omega), flatMap_singleton, hpiece,
      Nat.succ_mul, take_add]

include hsize

/-- The pages make up the list exactly if each of them is its piece. Assumes: no value occurs twice, and
no page holds more than `size` values or one that lies before its offset. -/
theorem pages_cover_iff :
    PagesCover page list ↔ ∀ place, page place = (list.drop (place * size)).take size := by
  constructor
  · rintro ⟨count, hfull, -, hcover⟩ place
    have hfronts := flatMap_eq_take hnodup hbehind hlength hcover
    by_cases hplace : place < count
    · have hnext := hfronts (place + 1) hplace
      rw [range_succ, flatMap_append, hfronts place (Nat.le_of_lt hplace), flatMap_singleton,
        Nat.succ_mul, take_add] at hnext
      exact append_cancel_left hnext
    · have hall := hfronts count le_rfl
      rw [hcover] at hall
      have hshort : list.length ≤ place * size := by
        have hlist : list.length ≤ count * size := by
          rw [hall, length_take]
          exact Nat.min_le_left ..
        exact Nat.le_trans hlist (Nat.mul_le_mul_right _ (Nat.le_of_not_lt hplace))
      rw [drop_eq_nil_of_le hshort, take_nil]
      exact subset_nil.mp (drop_eq_nil_of_le hshort ▸ hbehind place)
  · intro hpieces
    have hends : ∃ place, page place = [] := by
      refine ⟨list.length, ?_⟩
      rw [hpieces, drop_eq_nil_of_le (Nat.le_mul_of_pos_right _ hsize), take_nil]
    refine ⟨Nat.find hends, fun place ↦ Nat.find_min hends, Nat.find_spec hends, ?_⟩
    have hlast := Nat.find_spec hends
    rw [hpieces, take_eq_nil_iff] at hlast
    rw [flatMap_pieces hpieces]
    exact take_of_length_le (drop_eq_nil_iff.mp (hlast.resolve_left (by omega)))

end Cover

end OpenTrace.Library
