import Mathlib.Data.Nat.Bitwise
import OpenTrace.Library.Bytes

/-!
# Bits of byte strings

A byte string read as a string of bits, the least significant bit of each byte first. A field of at
most eight bits can lie across two bytes: `putField` or-s a value into a field and `getField` reads
it back. `packFields` writes a list of values into adjacent fields of one width
(`getField_packFields`), and `bitmap` has one bit for each element of a list (`getBit_bitmap`).
-/

namespace OpenTrace.Library

open List

/-- The bit at a position; there are only zeros past the end. -/
def bitAt (bytes : Bytes) (position : ℕ) : Bool :=
  (bytes.getD (position / 8) 0).toNat.testBit (position % 8)

/-- A value is or-ed into one of the bytes. -/
def orByte (bytes : Bytes) (index : ℕ) (value : UInt8) : Bytes := bytes.modify index (· ||| value)

@[simp] theorem length_orByte (bytes : Bytes) (index : ℕ) (value : UInt8) :
    (orByte bytes index value).length = bytes.length := by
  simp [orByte]

theorem bitAt_orByte {bytes : Bytes} {index : ℕ} (hindex : index < bytes.length) (value : UInt8)
    (position : ℕ) :
    bitAt (orByte bytes index value) position = (bitAt bytes position ||
        decide (position / 8 = index) && value.toNat.testBit (position % 8)) := by
  unfold bitAt orByte
  by_cases hsame : position / 8 = index
  · subst hsame
    simp [getElem?_eq_getElem hindex]
  · have hne : index ≠ position / 8 := fun heq ↦ hsame heq.symm
    simp [hne, hsame]

@[simp] theorem bitAt_replicate_zero (count position : ℕ) :
    bitAt (replicate count 0) position = false := by
  unfold bitAt
  rw [getD_eq_getElem?_getD, getElem?_replicate]
  split_ifs <;> simp

theorem testBit_uint8_of_le (byte : UInt8) {bit : ℕ} (hbit : 8 ≤ bit) :
    byte.toNat.testBit bit = false :=
  Nat.testBit_eq_false_of_lt
    (byte.toNat_lt.trans_le (Nat.pow_le_pow_right (by omega) hbit))

/-- Bytes are equal if their bits are. -/
theorem eq_of_testBit_uint8 {byte other : UInt8}
    (hbits : ∀ bit, byte.toNat.testBit bit = other.toNat.testBit bit) : byte = other :=
  UInt8.toNat_inj.mp (Nat.eq_of_testBit_eq hbits)

theorem testBit_shiftLeft_uint8 (byte : UInt8) {shift : ℕ} (hshift : shift < 8) (bit : ℕ) :
    (byte <<< UInt8.ofNat shift).toNat.testBit bit =
      (decide (bit < 8) && decide (shift ≤ bit) && byte.toNat.testBit (bit - shift)) := by
  have hvalue : (UInt8.ofNat shift).toNat % 8 = shift := by
    rw [UInt8.toNat_ofNat']
    omega
  rw [UInt8.toNat_shiftLeft, hvalue, Nat.testBit_mod_two_pow, Nat.testBit_shiftLeft, Bool.and_assoc]

theorem testBit_shiftRight_uint8 (byte : UInt8) {shift : ℕ} (hshift : shift < 8) (bit : ℕ) :
    (byte >>> UInt8.ofNat shift).toNat.testBit bit = byte.toNat.testBit (shift + bit) := by
  have hvalue : (UInt8.ofNat shift).toNat % 8 = shift := by
    rw [UInt8.toNat_ofNat']
    omega
  rw [UInt8.toNat_shiftRight, hvalue, Nat.testBit_shiftRight]

/-! ### Fields -/

/-- The low bits of a byte. -/
def lowMask (width : ℕ) : UInt8 := UInt8.ofNat (2 ^ width - 1)

theorem testBit_lowMask {width : ℕ} (hwidth : width ≤ 8) (bit : ℕ) :
    (lowMask width).toNat.testBit bit = decide (bit < width) := by
  have hsmall : 2 ^ width - 1 < 256 := by
    have hpower : 2 ^ width ≤ 2 ^ 8 := Nat.pow_le_pow_right (by omega) hwidth
    omega
  rw [lowMask, UInt8.toNat_ofNat', Nat.mod_eq_of_lt hsmall, Nat.testBit_two_pow_sub_one]

/-- A value is or-ed into the field of a width at a position. -/
def putField (width : ℕ) (bytes : Bytes) (position : ℕ) (value : UInt8) : Bytes :=
  let index := position / 8
  let offset := position % 8
  let low := value &&& lowMask width
  let written := orByte bytes index (low <<< UInt8.ofNat offset)
  if 8 < offset + width ∧ index + 1 < bytes.length then
    orByte written (index + 1) (low >>> UInt8.ofNat (8 - offset))
  else written

/-- The value in the field of a width at a position. -/
def getField (width : ℕ) (bytes : Bytes) (position : ℕ) : UInt8 :=
  let index := position / 8
  let offset := position % 8
  let value := bytes.getD index 0 >>> UInt8.ofNat offset
  if 8 < offset + width ∧ index + 1 < bytes.length then
    (value ||| bytes.getD (index + 1) 0 <<< UInt8.ofNat (8 - offset)) &&& lowMask width
  else value &&& lowMask width

@[simp] theorem length_putField (width : ℕ) (bytes : Bytes) (position : ℕ) (value : UInt8) :
    (putField width bytes position value).length = bytes.length := by
  unfold putField
  simp only
  split_ifs <;> simp

section Fields

variable {width : ℕ} {bytes : Bytes} {position : ℕ}

/-- Writing a field sets the bits of the value there, and leaves all others. Assumes: the field lies
inside the byte string. -/
theorem bitAt_putField (hwidth : width ≤ 8) (hpositive : 0 < width)
    (hfits : position + width ≤ 8 * bytes.length) (value : UInt8) (other : ℕ) :
    bitAt (putField width bytes position value) other = (bitAt bytes other ||
        decide (position ≤ other ∧ other < position + width) &&
          value.toNat.testBit (other - position)) := by
  have hoffset : position % 8 < 8 := Nat.mod_lt _ (by omega)
  have hindex : position / 8 < bytes.length := by omega
  have hbit : other % 8 < 8 := Nat.mod_lt _ (by omega)
  have hrange (hle : position ≤ other) :
      position ≤ other ∧ other < position + width ↔ other - position < width := by omega
  have hsame (hhere : other / 8 = position / 8) (hafter : position % 8 ≤ other % 8) :
      other % 8 - position % 8 = other - position := by omega
  have hlow : ∀ bit, (value &&& lowMask width).toNat.testBit bit =
      (value.toNat.testBit bit && decide (bit < width)) := by
    intro bit
    rw [UInt8.toNat_and, Nat.testBit_and, testBit_lowMask hwidth]
  unfold putField
  simp only
  split_ifs with hacross
  · have hnext : 8 - position % 8 < 8 := by omega
    rw [bitAt_orByte (by simpa using hacross.2), bitAt_orByte hindex,
      testBit_shiftLeft_uint8 _ hoffset, testBit_shiftRight_uint8 _ hnext, hlow, hlow]
    by_cases hhere : other / 8 = position / 8
    · by_cases hafter : position % 8 ≤ other % 8
      · simp [hhere, hbit, hafter, hsame hhere hafter, hrange (by omega), Bool.and_comm]
      · simp [hhere, hafter, show ¬position ≤ other by omega]
    · by_cases hthere : other / 8 = position / 8 + 1
      · have hposition : 8 - position % 8 + other % 8 = other - position := by omega
        simp [hthere, hposition, hrange (by omega), Bool.and_comm]
      · simp [hhere, hthere, show ¬(position ≤ other ∧ other < position + width) by omega]
  · rw [bitAt_orByte hindex, testBit_shiftLeft_uint8 _ hoffset, hlow]
    by_cases hhere : other / 8 = position / 8
    · by_cases hafter : position % 8 ≤ other % 8
      · simp [hhere, hbit, hafter, hsame hhere hafter, hrange (by omega), Bool.and_comm]
      · simp [hafter, show ¬position ≤ other by omega]
    · simp [hhere, show ¬(position ≤ other ∧ other < position + width) by omega]

/-- A field holds the bits from its position on. Assumes: it lies inside the byte string. -/
theorem testBit_getField (hwidth : width ≤ 8) (hfits : position + width ≤ 8 * bytes.length)
    (bit : ℕ) :
    (getField width bytes position).toNat.testBit bit =
      (bitAt bytes (position + bit) && decide (bit < width)) := by
  have hoffset : position % 8 < 8 := Nat.mod_lt _ (by omega)
  unfold getField bitAt
  simp only
  split_ifs with hacross
  · have hnext : 8 - position % 8 < 8 := by omega
    rw [UInt8.toNat_and, Nat.testBit_and, testBit_lowMask hwidth, UInt8.toNat_or, Nat.testBit_or,
      testBit_shiftRight_uint8 _ hoffset, testBit_shiftLeft_uint8 _ hnext]
    by_cases hbit : bit < width
    · by_cases hhere : position % 8 + bit < 8
      · have hindex : (position + bit) / 8 = position / 8 := by omega
        have hposition : (position + bit) % 8 = position % 8 + bit := by omega
        have hbefore : ¬ 8 - position % 8 ≤ bit := by omega
        simp [hindex, hposition, hbefore]
      · have hindex : (position + bit) / 8 = position / 8 + 1 := by omega
        have hposition : (position + bit) % 8 = bit - (8 - position % 8) := by omega
        have hafter : 8 - position % 8 ≤ bit := by omega
        have hsmall : bit < 8 := by omega
        rw [testBit_uint8_of_le _ (not_lt.mp hhere)]
        simp only [hindex, hposition, hafter, hsmall, decide_true, Bool.true_and, Bool.false_or]
    · simp [hbit]
  · rw [UInt8.toNat_and, Nat.testBit_and, testBit_lowMask hwidth]
    by_cases hbit : bit < width
    · have hindex : (position + bit) / 8 = position / 8 := by omega
      have hposition : (position + bit) % 8 = position % 8 + bit := by omega
      simp [hindex, hposition]
    · simp [hbit]

end Fields

/-! ### Adjacent fields -/

/-- The values are written into adjacent fields from a position on. -/
def packFrom (width : ℕ) : Bytes → ℕ → List UInt8 → Bytes
  | bytes, _, [] => bytes
  | bytes, position, value :: values =>
    packFrom width (putField width bytes position value) (position + width) values

/-- The values in adjacent fields of as few bytes as hold them. -/
def packFields (width : ℕ) (values : List UInt8) : Bytes :=
  packFrom width (replicate ((values.length * width + 7) / 8) 0) 0 values

@[simp] theorem length_packFrom (width : ℕ) (bytes : Bytes) (position : ℕ) (values : List UInt8) :
    (packFrom width bytes position values).length = bytes.length := by
  induction values generalizing bytes position with
  | nil => rfl
  | cons value values ih => rw [packFrom, ih, length_putField]

@[simp] theorem length_packFields (width : ℕ) (values : List UInt8) :
    (packFields width values).length = (values.length * width + 7) / 8 := by
  rw [packFields, length_packFrom, length_replicate]

section Packing

variable {width : ℕ} (hwidth : width ≤ 8) (hpositive : 0 < width)

include hwidth hpositive

/-- Bits before the position stay, and behind it are the bits of the values. -/
theorem bitAt_packFrom {bytes : Bytes} {position : ℕ} {values : List UInt8}
    (hfits : position + values.length * width ≤ 8 * bytes.length)
    (hblank : ∀ other, position ≤ other → bitAt bytes other = false) {index bit : ℕ}
    (hindex : index < values.length) (hbit : bit < width) :
    bitAt (packFrom width bytes position values) (position + index * width + bit) =
        (values.getD index 0).toNat.testBit bit := by
  suffices hgeneral : ∀ (values : List UInt8) (bytes : Bytes) (position : ℕ),
      position + values.length * width ≤ 8 * bytes.length →
      (∀ other, position ≤ other → bitAt bytes other = false) →
      (∀ other, other < position →
        bitAt (packFrom width bytes position values) other = bitAt bytes other) ∧
      ∀ index, index < values.length →
        bitAt (packFrom width bytes position values) (position + index * width + bit) =
          (values.getD index 0).toNat.testBit bit from
    (hgeneral values bytes position hfits hblank).2 index hindex
  intro values
  induction values with
  | nil => exact fun _ _ _ _ ↦ ⟨fun _ _ ↦ rfl, fun _ hindex ↦ absurd hindex (Nat.not_lt_zero _)⟩
  | cons value values ih =>
    intro bytes position hfits hblank
    rw [length_cons, Nat.add_one_mul] at hfits
    have hwritten := fun other ↦
      @bitAt_putField width bytes position hwidth hpositive (by omega) value other
    obtain ⟨hbefore, hafter⟩ := ih (putField width bytes position value) (position + width)
      (by rw [length_putField]; omega) fun other hother ↦ by
        have hrange : ¬ (position ≤ other ∧ other < position + width) := by omega
        rw [hwritten, hblank other (by omega)]
        simp [hrange]
    refine ⟨fun other hother ↦ ?_, fun index hindex ↦ ?_⟩
    · have hrange : ¬ (position ≤ other ∧ other < position + width) := by omega
      rw [packFrom, hbefore other (by omega), hwritten]
      simp [hrange]
    · cases index with
      | zero =>
        have hrange : position ≤ position + bit ∧ position + bit < position + width := by omega
        rw [Nat.zero_mul, Nat.add_zero, packFrom, hbefore _ hrange.2, hwritten, hblank _ hrange.1]
        simp [hbit]
      | succ index =>
        have hposition : position + (index + 1) * width + bit =
            position + width + index * width + bit := by
          rw [Nat.add_one_mul]
          omega
        rw [hposition, packFrom, hafter index (by simpa using hindex)]
        rfl

/-- Every field gives back its value. Assumes: the value fits the width. -/
theorem getField_packFields {values : List UInt8} {index : ℕ} (hindex : index < values.length)
    (hvalue : (values.getD index 0).toNat < 2 ^ width) :
    getField width (packFields width values) (index * width) = values.getD index 0 := by
  have hfield : index * width + width ≤ values.length * width := by
    rw [← Nat.add_one_mul]
    exact Nat.mul_le_mul_right _ hindex
  refine eq_of_testBit_uint8 fun bit ↦ ?_
  rw [testBit_getField hwidth (by rw [length_packFields]; omega)]
  by_cases hbit : bit < width
  · have hpacked := @bitAt_packFrom width hwidth hpositive
      (replicate ((values.length * width + 7) / 8) 0) 0 values
      (by rw [length_replicate]; omega) (fun other _ ↦ bitAt_replicate_zero _ other)
      index bit hindex hbit
    rw [Nat.zero_add] at hpacked
    rw [packFields, hpacked]
    simp [hbit]
  · have hhigh : (values.getD index 0).toNat.testBit bit = false :=
      Nat.testBit_eq_false_of_lt
        (hvalue.trans_le (Nat.pow_le_pow_right (by omega) (not_lt.mp hbit)))
    rw [hhigh]
    simp [hbit]

end Packing

/-! ### Bitmaps -/

section Bitmaps

variable {α : Type} (present : α → Bool)

/-- The bits of the elements from an index on are set in a bitmap. -/
def markFrom : Bytes → ℕ → List α → Bytes
  | bytes, _, [] => bytes
  | bytes, index, value :: values =>
    markFrom (if present value then orByte bytes (index / 8) (1 <<< UInt8.ofNat (index % 8)) else bytes)
      (index + 1) values

/-- One bit for each element of a list. -/
def bitmap (values : List α) : Bytes :=
  markFrom present (replicate ((values.length + 7) / 8) 0) 0 values

/-- The bit of an element; there are no elements past the end. -/
def getBit (bytes : Bytes) (index : ℕ) : Bool :=
  if bytes.length ≤ index / 8 then false
  else bytes.getD (index / 8) 0 &&& (1 <<< UInt8.ofNat (index % 8)) ≠ 0

theorem length_markFrom (bytes : Bytes) (index : ℕ) (values : List α) :
    (markFrom present bytes index values).length = bytes.length := by
  induction values generalizing bytes index with
  | nil => rfl
  | cons value values ih =>
    rw [markFrom, ih]
    split_ifs
    · exact length_orByte _ _ _
    · rfl

@[simp] theorem length_bitmap (values : List α) :
    (bitmap present values).length = (values.length + 7) / 8 := by
  rw [bitmap, length_markFrom, length_replicate]

theorem testBit_one_shiftLeft (index bit : ℕ) :
    ((1 : UInt8) <<< UInt8.ofNat (index % 8)).toNat.testBit bit = decide (bit = index % 8) := by
  have hshift : index % 8 < 8 := Nat.mod_lt _ (by omega)
  have hone : ∀ position, (1 : UInt8).toNat.testBit position = decide (position = 0) := by
    intro position
    cases position with
    | zero => rfl
    | succ position => simp [Nat.testBit_succ]
  rw [testBit_shiftLeft_uint8 _ hshift, hone]
  rw [Bool.eq_iff_iff]
  simp only [Bool.and_eq_true, decide_eq_true_eq]
  omega

theorem getBit_eq_bitAt (bytes : Bytes) (index : ℕ) : getBit bytes index = bitAt bytes index := by
  unfold getBit bitAt
  split_ifs with hpast
  · rw [getD_eq_getElem?_getD, getElem?_eq_none hpast]
    simp
  · rw [Bool.eq_iff_iff, decide_eq_true_eq]
    generalize bytes.getD (index / 8) 0 = byte
    constructor
    · intro hset
      by_contra hclear
      refine hset (eq_of_testBit_uint8 fun bit ↦ ?_)
      rw [UInt8.toNat_and, Nat.testBit_and, testBit_one_shiftLeft]
      by_cases hbit : bit = index % 8
      · rw [hbit]
        simp [Bool.eq_false_iff.mpr hclear]
      · simp [hbit]
    · intro hbit hzero
      have hclear : (byte &&& (1 <<< UInt8.ofNat (index % 8))).toNat.testBit (index % 8) = false := by
        rw [hzero]
        simp
      rw [UInt8.toNat_and, Nat.testBit_and, testBit_one_shiftLeft, hbit] at hclear
      simp at hclear

theorem bitAt_markFrom {bytes : Bytes} {index : ℕ} {values : List α}
    (hfits : index + values.length ≤ 8 * bytes.length) (position : ℕ) :
    bitAt (markFrom present bytes index values) position = (bitAt bytes position ||
        decide (index ≤ position) && (values[position - index]?).any present) := by
  induction values generalizing bytes index with
  | nil => simp [markFrom]
  | cons value values ih =>
    rw [length_cons] at hfits
    have hlength : (if present value then
        orByte bytes (index / 8) (1 <<< UInt8.ofNat (index % 8)) else bytes).length =
        bytes.length := by
      split_ifs
      · exact length_orByte _ _ _
      · rfl
    have hmarked : bitAt (if present value then
        orByte bytes (index / 8) (1 <<< UInt8.ofNat (index % 8)) else bytes) position =
        (bitAt bytes position || decide (position = index) && present value) := by
      split_ifs with hpresent
      · rw [bitAt_orByte (by omega), testBit_one_shiftLeft, hpresent, Bool.and_true,
          ← Bool.decide_and]
        congr 2
        rw [eq_iff_iff]
        omega
      · simp [hpresent]
    rw [markFrom, ih (by rw [hlength]; omega), hmarked]
    rcases Nat.lt_trichotomy position index with hbefore | rfl | hafter
    · have hnot : ¬ index ≤ position := by omega
      have hnot' : ¬ index + 1 ≤ position := by omega
      simp [hnot, hnot', hbefore.ne]
    · simp
    · have hle : index ≤ position := by omega
      have hle' : index + 1 ≤ position := by omega
      have hindex : position - index = position - (index + 1) + 1 := by omega
      simp [hle, hle', hafter.ne', hindex]

/-- The bits of a bitmap are those of the list. -/
theorem getBit_bitmap (values : List α) (index : ℕ) :
    getBit (bitmap present values) index = (values[index]?).any present := by
  rw [getBit_eq_bitAt, bitmap, bitAt_markFrom present (by rw [length_replicate]; omega)]
  simp

end Bitmaps

end OpenTrace.Library
