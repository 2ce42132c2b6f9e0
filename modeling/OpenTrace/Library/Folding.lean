import OpenTrace.Library.Strings

/-!
# Comparing strings without regard to case

`equalFold` is `strings.EqualFold`: the strings have the same number of runes, and each pair is the
same rune, an ASCII letter in its two cases, or connected by `unicode.SimpleFold`. The last is a table
and a parameter here. `contains` is `strings.Contains`.
-/

namespace OpenTrace.Library

/-- The runes differ at most in case. `folds` connects two runes, the smaller one first, of which
the second is not ASCII. -/
def equalFoldRune (folds : ℕ → ℕ → Bool) (rune other : ℕ) : Bool :=
  rune = other ||
    let low := min rune other
    let high := max rune other
    if high < 0x80 then 65 ≤ low && low ≤ 90 && high = low + 32 else folds low high

def equalFoldRunes (folds : ℕ → ℕ → Bool) : List (ℕ × Bytes) → List (ℕ × Bytes) → Bool
  | [], [] => true
  | (rune, _) :: rest, (other, _) :: others =>
    equalFoldRune folds rune other && equalFoldRunes folds rest others
  | _, _ => false

/-- `strings.EqualFold` -/
def equalFold (folds : ℕ → ℕ → Bool) (text other : Bytes) : Bool :=
  equalFoldRunes folds (runes text) (runes other)

/-- `strings.Contains` -/
def contains (text pattern : Bytes) : Bool := (index pattern text).isSome

section Fold

variable (folds : ℕ → ℕ → Bool)

theorem equalFoldRunes_self (text : List (ℕ × Bytes)) : equalFoldRunes folds text text = true := by
  induction text with
  | nil => rfl
  | cons rune rest ih => simp [equalFoldRunes, equalFoldRune, ih]

/-- A string equals itself. -/
@[simp]
theorem equalFold_self (text : Bytes) : equalFold folds text text = true :=
  equalFoldRunes_self folds _

/-- A string that is not empty is not equal to the empty one. -/
theorem equalFold_nil_left {text : Bytes} (htext : text ≠ []) : equalFold folds [] text = false := by
  cases text with
  | nil => exact absurd rfl htext
  | cons byte text => rfl

end Fold

theorem contains_nil {pattern : Bytes} (hpattern : pattern ≠ []) : contains [] pattern = false := by
  simp [contains, index, hpattern]

theorem encodeRune_ne_nil (rune : ℕ) : encodeRune rune ≠ [] := by
  unfold encodeRune
  split_ifs <;> simp

/-- Lower-casing drops no rune. -/
theorem toLower_ne_nil (unicode : Unicode) {text : Bytes} (htext : text ≠ []) :
    toLower unicode text ≠ [] := by
  obtain ⟨byte, rest, rfl⟩ := List.exists_cons_of_ne_nil htext
  unfold toLower
  split_ifs
  · simp
  · intro hnil
    have hfirst : (decodeRune byte rest).1 ∈ (runes (byte :: rest)).map Prod.fst := by
      simp [runes, runesIn]
    obtain ⟨rune, hrune, -⟩ := List.mem_map.mp hfirst
    exact encodeRune_ne_nil _ (List.flatMap_eq_nil_iff.mp hnil rune hrune)

end OpenTrace.Library
