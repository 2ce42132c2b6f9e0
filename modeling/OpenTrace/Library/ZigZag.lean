import Mathlib.Data.Nat.Bitwise
import OpenTrace.Library.Bytes

/-!
# Signed varints

The zigzag order of the 64-bit integers, in which small negative numbers become small unsigned ones,
in its two usual spellings: with shifts (`zigZagEncode`), and with a case split on the sign, as Go's
`binary.PutVarint` has it (`signedToUnsigned`). Both are inverted by their decoders, and a signed
varint reads back on every continuation (`takeVarint_putVarint_append`).
-/

namespace OpenTrace.Library

def zigZagEncode (value : Int64) : UInt64 := ((value <<< 1) ^^^ (value >>> 63)).toUInt64

def zigZagDecode (code : UInt64) : Int64 := (code >>> 1).toInt64 ^^^ -(code &&& 1).toInt64

theorem and_one_eq (word : BitVec 64) : word &&& 1#64 = if word.getLsbD 0 then 1#64 else 0#64 := by
  refine BitVec.eq_of_getLsbD_eq fun bit hbit ↦ ?_
  rw [BitVec.getLsbD_and]
  cases bit with
  | zero => cases hword : word.getLsbD 0 <;> simp
  | succ bit => cases hword : word.getLsbD 0 <;> simp

theorem getLsbD_neg_and_one (word : BitVec 64) {bit : ℕ} (hbit : bit < 64) :
    (-(word &&& 1#64)).getLsbD bit = word.getLsbD 0 := by
  rw [and_one_eq]
  split_ifs with hword
  · rw [hword, show -(1#64) = BitVec.allOnes 64 by decide, BitVec.getLsbD_allOnes]
    simpa using hbit
  · rw [Bool.eq_false_iff.mpr hword, BitVec.neg_zero, BitVec.getLsbD_zero]

theorem getLsbD_sshiftRight_last (word : BitVec 64) {bit : ℕ} (hbit : bit < 64) :
    (word.sshiftRight 63).getLsbD bit = word.getLsbD 63 := by
  rw [BitVec.getLsbD_sshiftRight, BitVec.msb_eq_getLsbD_last]
  have hrange : ¬ 64 ≤ bit := by omega
  by_cases hfirst : bit = 0
  · subst hfirst
    simp
  · have hlast : ¬ 63 + bit < 64 := by omega
    simp [hrange, hlast]

theorem zigZagDecode_zigZagEncode (value : Int64) : zigZagDecode (zigZagEncode value) = value := by
  refine Int64.toBitVec_inj.mp ?_
  have hbits : (zigZagDecode (zigZagEncode value)).toBitVec =
      (value.toBitVec <<< 1 ^^^ value.toBitVec.sshiftRight 63) >>> 1 ^^^
        -((value.toBitVec <<< 1 ^^^ value.toBitVec.sshiftRight 63) &&& 1#64) := by
    simp [zigZagDecode, zigZagEncode]
  rw [hbits]
  generalize value.toBitVec = word
  refine BitVec.eq_of_getLsbD_eq fun bit hbit ↦ ?_
  have hsign : (word.sshiftRight 63).getLsbD 0 = word.getLsbD 63 :=
    getLsbD_sshiftRight_last word (by decide)
  rw [BitVec.getLsbD_xor, getLsbD_neg_and_one _ hbit, BitVec.getLsbD_ushiftRight,
    BitVec.getLsbD_xor, BitVec.getLsbD_xor, hsign, BitVec.getLsbD_shiftLeft]
  by_cases hlast : bit = 63
  · subst hlast
    simp
  · have hin : 1 + bit < 64 := by omega
    rw [getLsbD_sshiftRight_last word hin]
    simp [hin]

/-! ### Varints -/

/-- The unsigned number that `binary.PutVarint` writes. -/
def signedToUnsigned (value : Int64) : UInt64 :=
  if value < 0 then ~~~(value.toUInt64 <<< 1) else value.toUInt64 <<< 1

/-- The signed number that `binary.Varint` makes of an unsigned one. -/
def unsignedToSigned (code : UInt64) : Int64 :=
  if code &&& 1 ≠ 0 then ~~~(code >>> 1).toInt64 else (code >>> 1).toInt64

theorem signedToUnsigned_eq (value : Int64) : signedToUnsigned value = zigZagEncode value := by
  have hsign : value < 0 ↔ value.toBitVec.getLsbD 63 = true := by
    exact BitVec.slt_zero_iff_msb_cond
  refine UInt64.toBitVec_inj.mp (BitVec.eq_of_getLsbD_eq fun bit hbit ↦ ?_)
  have hcode : (zigZagEncode value).toBitVec.getLsbD bit =
      ((value.toBitVec <<< 1).getLsbD bit ^^ value.toBitVec.getLsbD 63) := by
    rw [← getLsbD_sshiftRight_last _ hbit]
    simp [zigZagEncode]
  have hshift : (value.toUInt64 <<< 1).toBitVec = value.toBitVec <<< 1 := by simp
  rw [hcode, signedToUnsigned]
  split_ifs with hnegative
  · rw [hsign.mp hnegative, UInt64.toBitVec_not, hshift, BitVec.getLsbD_not, decide_eq_true hbit,
      Bool.true_and, Bool.xor_true]
  · rw [Bool.eq_false_iff.mpr (mt hsign.mpr hnegative), hshift, Bool.xor_false]

theorem unsignedToSigned_eq (code : UInt64) : unsignedToSigned code = zigZagDecode code := by
  refine Int64.toBitVec_inj.mp (BitVec.eq_of_getLsbD_eq fun bit hbit ↦ ?_)
  have hvalue : (zigZagDecode code).toBitVec.getLsbD bit =
      ((code.toBitVec >>> 1).getLsbD bit ^^ code.toBitVec.getLsbD 0) := by
    rw [← getLsbD_neg_and_one _ hbit]
    simp [zigZagDecode]
  have hodd : code &&& 1 ≠ 0 ↔ code.toBitVec.getLsbD 0 = true := by
    have hbits : (code &&& 1).toBitVec = if code.toBitVec.getLsbD 0 then 1#64 else 0#64 :=
      and_one_eq code.toBitVec
    rw [← not_iff_not, not_not, ← UInt64.toBitVec_inj, hbits]
    cases code.toBitVec.getLsbD 0 <;> simp
  have hshift : (code >>> 1).toInt64.toBitVec = code.toBitVec >>> 1 := by simp
  rw [hvalue, unsignedToSigned]
  split_ifs with hset
  · rw [hodd.mp hset, Int64.toBitVec_not, hshift, BitVec.getLsbD_not, decide_eq_true hbit,
      Bool.true_and, Bool.xor_true]
  · rw [Bool.eq_false_iff.mpr (mt hodd.mpr hset), hshift, Bool.xor_false]

/-- `binary.PutVarint`. -/
def putVarint (value : Int64) : Bytes := putUvarint (signedToUnsigned value).toNat

/-- Reads a signed varint off the front: `binary.Varint`. -/
def takeVarint (input : Bytes) : Option (Int64 × Bytes) :=
  (takeUvarint input).map fun decoded ↦ (unsignedToSigned (UInt64.ofNat decoded.1), decoded.2)

theorem takeVarint_putVarint_append (value : Int64) (rest : Bytes) :
    takeVarint (putVarint value ++ rest) = some (value, rest) := by
  rw [takeVarint, putVarint, takeUvarint_putUvarint_append (UInt64.toNat_lt _), Option.map_some,
    UInt64.ofNat_toNat, unsignedToSigned_eq, signedToUnsigned_eq, zigZagDecode_zigZagEncode]

end OpenTrace.Library
