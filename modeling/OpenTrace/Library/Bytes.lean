import Mathlib.Data.List.Basic
import Mathlib.Tactic.Ring

/-!
# Little-endian integers and base-128 varints on byte strings

A byte string is a list of bytes, read from the front: a reader takes the bytes it has not consumed
yet and gives back what it decoded together with the rest. The fixed-width integers are
little-endian (`leBytes`, `ofLe`), the variable-width ones are base-128 groups, least significant
first, with the top bit of every byte but the last set (`putUvarint`, `uvarint`). Each encoder is
inverted by its reader on every continuation (`takeLe_leBytes_append`, `takeUvarint_putUvarint_append`).
-/

namespace OpenTrace.Library

open List

/-- A byte string. -/
abbrev Bytes := List UInt8

instance : LawfulBEq Bytes := inferInstanceAs (LawfulBEq (List UInt8))

/-- The bytes of a text whose characters are all ASCII. -/
def ascii (text : String) : Bytes := text.toList.map fun char ↦ UInt8.ofNat char.toNat

/-! ### Fixed width -/

/-- The `width` low-order bytes of a number, least significant first. -/
def leBytes : ℕ → ℕ → Bytes
  | 0, _ => []
  | width + 1, n => UInt8.ofNat n :: leBytes width (n / 256)

/-- The number a little-endian byte string stands for. -/
def ofLe : Bytes → ℕ
  | [] => 0
  | byte :: rest => byte.toNat + 256 * ofLe rest

/-- Reads a little-endian integer of a fixed width off the front, or nothing when too few bytes are
left. -/
def takeLe (width : ℕ) (input : Bytes) : Option (ℕ × Bytes) :=
  if input.length < width then none else some (ofLe (input.take width), input.drop width)

@[simp] theorem length_leBytes (width n : ℕ) : (leBytes width n).length = width := by
  induction width generalizing n with
  | zero => rfl
  | succ width ih => simp [leBytes, ih]

theorem ofLe_leBytes (width n : ℕ) : ofLe (leBytes width n) = n % 256 ^ width := by
  induction width generalizing n with
  | zero => simp [leBytes, ofLe, Nat.mod_one]
  | succ width ih =>
    have hbyte : (UInt8.ofNat n).toNat = n % 256 := by
      rw [UInt8.toNat_ofNat']
    rw [leBytes, ofLe, ih, hbyte, pow_succ, mul_comm (256 ^ width) 256, Nat.mod_mul]

theorem ofLe_leBytes_of_lt {width n : ℕ} (hn : n < 256 ^ width) : ofLe (leBytes width n) = n := by
  rw [ofLe_leBytes, Nat.mod_eq_of_lt hn]

theorem ofLe_lt (bytes : Bytes) : ofLe bytes < 256 ^ bytes.length := by
  induction bytes with
  | nil => simp [ofLe]
  | cons byte bytes ih =>
    have hbyte := byte.toNat_lt
    rw [ofLe, length_cons]
    omega

@[simp] theorem take_leBytes_append (width n : ℕ) (rest : Bytes) :
    (leBytes width n ++ rest).take width = leBytes width n := by
  rw [take_append_of_le_length (by simp), take_of_length_le (by simp)]

@[simp] theorem drop_leBytes_append (width n : ℕ) (rest : Bytes) :
    (leBytes width n ++ rest).drop width = rest := by
  rw [drop_append_of_le_length (by simp), drop_of_length_le (by simp), nil_append]

/-- Reading an integer that was just written gives it back. Assumes: the integer fits the width. -/
theorem takeLe_leBytes_append {width n : ℕ} (hn : n < 256 ^ width) (rest : Bytes) :
    takeLe width (leBytes width n ++ rest) = some (n, rest) := by
  have hlong : ¬ (leBytes width n ++ rest).length < width := by
    rw [length_append, length_leBytes]
    omega
  rw [takeLe, if_neg hlong, take_leBytes_append, drop_leBytes_append, ofLe_leBytes_of_lt hn]

theorem takeLe_eq_some {width value : ℕ} {input rest : Bytes} :
    takeLe width input = some (value, rest) ↔
      width ≤ input.length ∧ value = ofLe (input.take width) ∧ rest = input.drop width := by
  unfold takeLe
  split_ifs with hshort
  · simp [not_le.mpr hshort]
  · simp [not_lt.mp hshort, eq_comm]

/-! ### Variable width -/

/-- The groups of a number, with room for at most `room` bytes. -/
def putUvarintIn : ℕ → ℕ → Bytes
  | 0, _ => []
  | room + 1, n =>
    if n < 128 then [UInt8.ofNat n] else UInt8.ofNat (n % 128 + 128) :: putUvarintIn room (n / 128)

/-- `binary.PutUvarint` on a `uint64`, which needs at most ten bytes. -/
def putUvarint (n : ℕ) : Bytes := putUvarintIn 10 n

/-- The loop of `binary.Uvarint` from its byte number `index` on: the value of the remaining groups
and how many bytes they take. It fails at the end of the input, on an eleventh byte, and on a tenth
byte above one, which would overflow a `uint64`. -/
def uvarintFrom : ℕ → Bytes → Option (ℕ × ℕ)
  | _, [] => none
  | index, byte :: rest =>
    if index = 10 then none
    else if byte.toNat < 128 then
      if index = 9 ∧ 1 < byte.toNat then none else some (byte.toNat, 1)
    else
      (uvarintFrom (index + 1) rest).map fun decoded ↦
        (byte.toNat % 128 + 128 * decoded.1, decoded.2 + 1)

/-- `binary.Uvarint`: the decoded value and the number of bytes read, or nothing where the source
reports a byte count that is not positive. -/
def uvarint (input : Bytes) : Option (ℕ × ℕ) := uvarintFrom 0 input

/-- Reads a varint off the front. -/
def takeUvarint (input : Bytes) : Option (ℕ × Bytes) :=
  (uvarint input).map fun decoded ↦ (decoded.1, input.drop decoded.2)

theorem length_putUvarintIn_le (room n : ℕ) : (putUvarintIn room n).length ≤ room := by
  induction room generalizing n with
  | zero => simp [putUvarintIn]
  | succ room ih =>
    rw [putUvarintIn]
    split_ifs with hsmall
    · simp
    · simpa using ih (n / 128)

theorem length_putUvarint_le (n : ℕ) : (putUvarint n).length ≤ 10 := length_putUvarintIn_le 10 n

theorem length_putUvarint_pos (n : ℕ) : 0 < (putUvarint n).length := by
  rw [putUvarint, putUvarintIn]
  split_ifs <;> simp

/-- The loop of the reader inverts the loop of the writer at every position. Assumes: the value
left at byte `index` still fits a `uint64`. -/
theorem uvarintFrom_putUvarintIn_append {room index n : ℕ} (hroom : index + room = 10)
    (hpositive : 0 < room) (hn : n * 128 ^ index < 2 ^ 64) (rest : Bytes) :
    uvarintFrom index (putUvarintIn room n ++ rest) = some (n, (putUvarintIn room n).length) := by
  induction room generalizing index n with
  | zero => omega
  | succ room ih =>
    have hindex : index ≠ 10 := by omega
    by_cases hsmall : n < 128
    · have hbyte : (UInt8.ofNat n).toNat = n := by
        rw [UInt8.toNat_ofNat']
        omega
      have hlast : ¬ (index = 9 ∧ 1 < n) := by
        rintro ⟨rfl, hbig⟩
        omega
      simp only [putUvarintIn, if_pos hsmall, singleton_append, uvarintFrom, if_neg hindex,
        hbyte, if_neg hlast, length_singleton]
    · have hbyte : (UInt8.ofNat (n % 128 + 128)).toNat = n % 128 + 128 := by
        rw [UInt8.toNat_ofNat']
        omega
      have hnext : n / 128 * 128 ^ (index + 1) < 2 ^ 64 := by
        have hle : n / 128 * 128 ≤ n := Nat.div_mul_le_self n 128
        calc n / 128 * 128 ^ (index + 1) = n / 128 * 128 * 128 ^ index := by ring
          _ ≤ n * 128 ^ index := Nat.mul_le_mul_right _ hle
          _ < 2 ^ 64 := hn
      have hmore : 0 < room := by
        by_contra hnone
        have hnine : index = 9 := by omega
        subst hnine
        omega
      have hbig : ¬ n % 128 + 128 < 128 := by omega
      have hvalue : (n % 128 + 128) % 128 + 128 * (n / 128) = n := by omega
      simp only [putUvarintIn, if_neg hsmall, cons_append, uvarintFrom, if_neg hindex, hbyte,
        if_neg hbig, ih (by omega) hmore hnext, Option.map_some, length_cons, hvalue]

/-- Reading a varint that was just written gives it back. Assumes: the value fits a `uint64`. -/
theorem takeUvarint_putUvarint_append {n : ℕ} (hn : n < 2 ^ 64) (rest : Bytes) :
    takeUvarint (putUvarint n ++ rest) = some (n, rest) := by
  have hloop := @uvarintFrom_putUvarintIn_append 10 0 n rfl (by omega) (by simpa using hn) rest
  have hdrop : (putUvarint n ++ rest).drop (putUvarintIn 10 n).length = rest := by
    rw [putUvarint, drop_append_of_le_length le_rfl, drop_length, nil_append]
  change (uvarintFrom 0 (putUvarintIn 10 n ++ rest)).map _ = _
  rw [hloop]
  exact congrArg (fun tail ↦ some (n, tail)) hdrop

end OpenTrace.Library
