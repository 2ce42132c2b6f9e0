import Mathlib.Data.List.TakeWhile
import OpenTrace.Library.Utf8

/-!
# Searching, trimming and upper-casing strings

The functions of Go's `strings` package that work on the text of a query: `index` (`strings.Index`),
`trimSpace`, `toUpper`, and `isSpace` (`unicode.IsSpace`). On ASCII they work byte by byte, which is
what the lemmas say.
-/

namespace OpenTrace.Library

open List

/-- `unicode.IsSpace` -/
def isSpace (rune : ℕ) : Bool :=
  (9 ≤ rune && rune ≤ 13) || rune == 32 || rune == 0x85 || rune == 0xA0 || rune == 0x1680 ||
    (0x2000 ≤ rune && rune ≤ 0x200A) || rune == 0x2028 || rune == 0x2029 || rune == 0x202F ||
    rune == 0x205F || rune == 0x3000

/-- `strings.Index`: where a pattern is first found. -/
def index (pattern : Bytes) : Bytes → Option ℕ
  | [] => if pattern = [] then some 0 else none
  | byte :: rest =>
    if pattern.isPrefixOf (byte :: rest) then some 0 else (index pattern rest).map (· + 1)

/-- `strings.TrimSpace` -/
def trimSpace (text : Bytes) : Bytes :=
  let spaces : ℕ × Bytes → Bool := fun rune ↦ isSpace rune.1
  ((((runes text).dropWhile spaces).reverse.dropWhile spaces).reverse).flatMap Prod.snd

def upperByte (byte : UInt8) : UInt8 :=
  if 97 ≤ byte.toNat ∧ byte.toNat ≤ 122 then byte - 32 else byte

theorem toNat_upperByte {byte : UInt8} (hlower : 97 ≤ byte.toNat) :
    (byte - 32).toNat = byte.toNat - 32 :=
  UInt8.toNat_sub_of_le byte 32 (UInt8.le_iff_toNat_le.mpr (by simp; omega))

def isAscii (text : Bytes) : Bool := text.all (·.toNat < 0x80)

/-- `strings.ToUpper`, given the table of `unicode.ToUpper`. -/
def toUpper (upper : ℕ → ℕ) (text : Bytes) : Bytes :=
  if isAscii text then text.map upperByte
  else (runes text).flatMap fun (rune, _) ↦ encodeRune (upper rune)

/-! ### Places in a text -/

section

variable {pattern text : Bytes} {count : ℕ} (hindex : index pattern text = some count)

include hindex

/-- A pattern is found where it first stands. -/
theorem index_eq_some :
    ∃ rest, text = text.take count ++ pattern ++ rest ∧ count + pattern.length ≤ text.length := by
  induction text generalizing count with
  | nil =>
    rw [index] at hindex
    split_ifs at hindex with hempty
    cases hindex
    exact ⟨[], by simp [hempty], by simp [hempty]⟩
  | cons byte text ih =>
    rw [index] at hindex
    split_ifs at hindex with hhere
    · cases hindex
      obtain ⟨rest, hrest⟩ := isPrefixOf_iff_prefix.mp hhere
      refine ⟨rest, by rw [take_zero, nil_append, hrest], ?_⟩
      rw [Nat.zero_add]
      exact ( isPrefixOf_iff_prefix.mp hhere).length_le
    · obtain ⟨earlier, hearlier, rfl⟩ := Option.map_eq_some_iff.mp hindex
      obtain ⟨rest, hrest, hlength⟩ := ih hearlier
      refine ⟨rest, ?_, by rw [length_cons]; omega⟩
      rw [take_succ_cons, cons_append, cons_append, ← hrest]

/-- A pattern is found at the same place from any place before it. -/
theorem index_drop
    {skip : ℕ} (hskip : skip ≤ count) : index pattern (text.drop skip) = some (count - skip) := by
  induction skip generalizing text count with
  | zero => exact hindex
  | succ skip ih =>
    cases text with
    | nil =>
      rw [index] at hindex
      split_ifs at hindex
      cases hindex
      omega
    | cons byte text =>
      rw [index] at hindex
      split_ifs at hindex with hhere
      · cases hindex
        omega
      · obtain ⟨earlier, hearlier, rfl⟩ := Option.map_eq_some_iff.mp hindex
        rw [drop_succ_cons, ih hearlier (by omega), Nat.succ_sub_succ]

end

/-! ### ASCII -/

theorem decodeRune_ascii {first : UInt8} (hfirst : first.toNat < 0x80) (rest : Bytes) :
    decodeRune first rest = (first.toNat, 1) := if_pos hfirst

theorem runesIn_ascii {text : Bytes} (htext : isAscii text) :
    runesIn text.length text = text.map fun byte ↦ (byte.toNat, [byte]) := by
  induction text with
  | nil => rfl
  | cons byte text ih =>
    simp only [isAscii, all_cons, Bool.and_eq_true, decide_eq_true_eq] at htext
    rw [length_cons, runesIn, decodeRune_ascii htext.1]
    simp only [take_succ_cons, take_zero, drop_succ_cons, drop_zero, map_cons]
    rw [ih htext.2]

/-- On ASCII, blanks are cut off byte by byte. -/
theorem trimSpace_ascii {text : Bytes} (htext : isAscii text) :
    ∃ before after, text = before ++ trimSpace text ++ after ∧
      (∀ byte ∈ before, isSpace byte.toNat) ∧ (∀ byte ∈ after, isSpace byte.toNat) ∧
      (∀ byte ∈ (trimSpace text).head?, ¬ isSpace byte.toNat) := by
  have hspaces : ∀ bytes : Bytes,
      (bytes.map fun byte ↦ (byte.toNat, [byte])).dropWhile (fun rune ↦ isSpace rune.1) =
        (bytes.dropWhile fun byte ↦ isSpace byte.toNat).map fun byte ↦ (byte.toNat, [byte]) := by
    intro bytes
    induction bytes with
    | nil => rfl
    | cons byte bytes ih =>
      rw [map_cons, dropWhile_cons, dropWhile_cons]
      split_ifs
      · exact ih
      · rfl
  have hflat : ∀ bytes : Bytes, (bytes.map fun byte ↦ (byte.toNat, [byte])).flatMap Prod.snd = bytes := by
    intro bytes
    induction bytes with
    | nil => rfl
    | cons byte bytes ih => rw [map_cons, flatMap_cons, ih]; rfl
  set inner := text.dropWhile fun byte ↦ isSpace byte.toNat with hinner
  have htrim : trimSpace text =
      ((inner.reverse.dropWhile fun byte ↦ isSpace byte.toNat)).reverse := by
    rw [trimSpace, runes, runesIn_ascii htext]
    simp only [hspaces, ← map_reverse, hflat, hinner]
  have hleft := takeWhile_append_dropWhile (p := fun byte : UInt8 ↦ isSpace byte.toNat) (l := text)
  have hright := takeWhile_append_dropWhile (p := fun byte : UInt8 ↦ isSpace byte.toNat)
    (l := inner.reverse)
  have hsplit : inner = trimSpace text ++
      (inner.reverse.takeWhile fun byte ↦ isSpace byte.toNat).reverse := by
    rw [htrim, ← reverse_append, hright, reverse_reverse]
  refine ⟨text.takeWhile fun byte ↦ isSpace byte.toNat,
    (inner.reverse.takeWhile fun byte ↦ isSpace byte.toNat).reverse, ?_, ?_, ?_, ?_⟩
  · rw [append_assoc, ← hsplit, hleft]
  · exact fun byte hbyte ↦ mem_takeWhile_imp (p := fun byte : UInt8 ↦ isSpace byte.toNat) hbyte
  · exact fun byte hbyte ↦
      mem_takeWhile_imp (p := fun byte : UInt8 ↦ isSpace byte.toNat) (mem_reverse.mp hbyte)
  · intro byte hbyte hspace
    have hhead : inner.head? = some byte := by
      rw [hsplit, head?_append, Option.mem_def.mp hbyte]
      rfl
    have hstop := head?_dropWhile_not (fun byte : UInt8 ↦ isSpace byte.toNat) text
    rw [hhead] at hstop
    simp [hspace] at hstop

end OpenTrace.Library
