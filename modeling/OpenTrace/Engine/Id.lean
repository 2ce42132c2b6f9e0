import Mathlib.Data.Nat.Bitwise
import OpenTrace.Chunk.Entry

/-!
# Composite IDs

`engine/id.go`: an ID packs the segment hour, the number of a 50000-entry chunk within the hour and
a row within the chunk. `toNat_idForPosition` gives the number an in-range position packs to, from
which positions of one hour are ordered by their IDs, IDs of different hours differ, and decoding
finds the position again.
-/

namespace OpenTrace.Engine

open Int64

/-- `chunkSize`: the entries of a logical chunk. -/
def chunkSize : ℕ := 50000

/-- `MaxEntriesPerSegment`: chunk numbers take eight bits. -/
def maxEntriesPerSegment : ℕ := chunkSize * 256

def encodeID (segmentHour chunkNum row : Int64) : Int64 :=
  (segmentHour <<< 31) ||| ((chunkNum &&& 0xFF) <<< 23) ||| (row &&& 0x7FFFFF)

/-- The segment hour, the chunk number and the row of an ID. -/
def decodeID (id : Int64) : Int64 × Int64 × Int64 :=
  (id >>> 31, (id >>> 23) &&& 0xFF, id &&& 0x7FFFFF)

def idForPosition (segmentHour : Int64) (entryIndex : ℕ) : Int64 :=
  encodeID segmentHour (ofNat (entryIndex / chunkSize)) (ofNat (entryIndex % chunkSize))

def segmentHasRoom (present count : ℤ) : Bool :=
  0 ≤ present && 0 ≤ count && present + count ≤ maxEntriesPerSegment

theorem segmentHasRoom_natCast (present count : ℕ) :
    segmentHasRoom present count ↔ present + count ≤ maxEntriesPerSegment := by
  simp only [segmentHasRoom, Int.natCast_nonneg, decide_true, Bool.true_and, decide_eq_true_eq]
  omega

/-- The number that an ID's fields pack to. -/
def packedID (segmentHour entryIndex : ℕ) : ℕ :=
  segmentHour * 2 ^ 31 + entryIndex / chunkSize * 2 ^ 23 + entryIndex % chunkSize

theorem toNat_encodeID {segmentHour chunkNum row : ℕ} (hhour : segmentHour < 2 ^ 32)
    (hchunk : chunkNum < 2 ^ 8) (hrow : row < 2 ^ 23) :
    (encodeID (ofNat segmentHour) (ofNat chunkNum) (ofNat row)).toBitVec.toNat =
      segmentHour * 2 ^ 31 + chunkNum * 2 ^ 23 + row := by
  have hchunkMask : chunkNum &&& 255 = chunkNum := by
    rw [show 255 = 2 ^ 8 - 1 from rfl, Nat.and_two_pow_sub_one_eq_mod, Nat.mod_eq_of_lt hchunk]
  have hrowMask : row &&& 8388607 = row := by
    rw [show 8388607 = 2 ^ 23 - 1 from rfl, Nat.and_two_pow_sub_one_eq_mod, Nat.mod_eq_of_lt hrow]
  have hlow : chunkNum <<< 23 ||| row = chunkNum * 2 ^ 23 + row := by
    rw [← Nat.shiftLeft_add_eq_or_of_lt hrow, Nat.shiftLeft_eq]
  have hpacked : segmentHour <<< 31 ||| (chunkNum * 2 ^ 23 + row) =
      segmentHour * 2 ^ 31 + chunkNum * 2 ^ 23 + row := by
    rw [← Nat.shiftLeft_add_eq_or_of_lt (by omega), Nat.shiftLeft_eq, Nat.add_assoc]
  have hword : ∀ {value : ℕ}, value < 2 ^ 63 → value % 18446744073709551616 = value :=
    fun hvalue ↦ Nat.mod_eq_of_lt (hvalue.trans (by decide))
  have hhourBits : (ofNat segmentHour <<< 31).toBitVec.toNat = segmentHour <<< 31 := by
    have hshift : segmentHour <<< 31 < 2 ^ 63 := by
      omega
    simp [hword (show segmentHour < 2 ^ 63 by omega), hword hshift]
  have hchunkBits : ((ofNat chunkNum &&& 0xFF) <<< 23).toBitVec.toNat = chunkNum <<< 23 := by
    have hshift : chunkNum <<< 23 < 2 ^ 63 := by
      omega
    simp [hword (show chunkNum < 2 ^ 63 by omega), hchunkMask, hword hshift]
  have hrowBits : (ofNat row &&& 0x7FFFFF).toBitVec.toNat = row := by
    simp [hword (show row < 2 ^ 63 by omega), hrowMask]
  rw [encodeID, Int64.toBitVec_or, Int64.toBitVec_or, BitVec.toNat_or, BitVec.toNat_or, hhourBits,
    hchunkBits, hrowBits, Nat.or_assoc, hlow, hpacked]

section Position

variable {hour index : ℕ} (hhour : hour < 2 ^ 32) (hindex : index < maxEntriesPerSegment)

include hindex in
theorem packedID_bounds : hour * 2 ^ 31 ≤ packedID hour index ∧
    packedID hour index < (hour + 1) * 2 ^ 31 := by
  unfold packedID chunkSize
  unfold maxEntriesPerSegment chunkSize at hindex
  omega

include hhour hindex

theorem toNat_idForPosition :
    (idForPosition (ofNat hour) index).toBitVec.toNat = packedID hour index := by
  unfold maxEntriesPerSegment chunkSize at hindex
  have hchunk : index / chunkSize < 2 ^ 8 := by
    unfold chunkSize
    omega
  have hrow : index % chunkSize < 2 ^ 23 := by
    unfold chunkSize
    omega
  rw [idForPosition, toNat_encodeID hhour hchunk hrow, packedID]

theorem toInt_idForPosition : (idForPosition (ofNat hour) index).toInt = packedID hour index := by
  have hbound := (@packedID_bounds hour index hindex).2
  rw [← toInt_toBitVec, BitVec.toInt_eq_toNat_of_lt, toNat_idForPosition hhour hindex]
  rw [toNat_idForPosition hhour hindex]
  omega

/-- An ID decodes to its segment hour. -/
theorem decodeID_idForPosition_hour :
    (decodeID (idForPosition (ofNat hour) index)).1 = ofNat hour := by
  have hbound := @packedID_bounds hour index hindex
  have hpacked := toNat_idForPosition hhour hindex
  have hpositive : (idForPosition (ofNat hour) index).toBitVec.msb = false := by
    rw [BitVec.msb_eq_false_iff_two_mul_lt]
    omega
  rw [← toBitVec_inj]
  change (idForPosition (ofNat hour) index).toBitVec.sshiftRight 31 = _
  rw [BitVec.sshiftRight_eq_of_msb_false hpositive]
  apply BitVec.eq_of_toNat_eq
  rw [BitVec.toNat_ushiftRight, toBitVec_ofNat', BitVec.toNat_ofNat]
  omega

end Position

/-- Positions have distinct IDs, within an hour and across hours. -/
theorem idForPosition_inj {hour hour' index index' : ℕ} (hhour : hour < 2 ^ 32)
    (hhour' : hour' < 2 ^ 32) (hindex : index < maxEntriesPerSegment)
    (hindex' : index' < maxEntriesPerSegment)
    (hid : idForPosition (ofNat hour) index = idForPosition (ofNat hour') index') :
    hour = hour' ∧ index = index' := by
  have hpacked : packedID hour index = packedID hour' index' := by
    rw [← toNat_idForPosition hhour hindex, hid, toNat_idForPosition hhour' hindex']
  unfold packedID chunkSize at hpacked
  unfold maxEntriesPerSegment chunkSize at hindex hindex'
  omega

/-- Later positions of an hour have larger IDs. -/
theorem idForPosition_lt {hour index index' : ℕ} (hhour : hour < 2 ^ 32) (hlt : index < index')
    (hindex' : index' < maxEntriesPerSegment) :
    idForPosition (ofNat hour) index < idForPosition (ofNat hour) index' := by
  rw [lt_iff_toInt_lt, toInt_idForPosition hhour (hlt.trans hindex'),
    toInt_idForPosition hhour hindex']
  unfold packedID chunkSize
  omega

/-! ### Hours beyond the layout -/

theorem toNat_hour_shiftLeft (hour : Int64) :
    (hour <<< 31).toBitVec.toNat = hour.toBitVec.toNat % 2 ^ 33 * 2 ^ 31 := by
  have hshift : (hour <<< 31).toBitVec = hour.toBitVec <<< 31 := by
    rfl
  rw [hshift, BitVec.toNat_shiftLeft]
  omega

theorem idForPosition_eq_or (hour : Int64) (index : ℕ) : (idForPosition hour index).toBitVec =
      (hour <<< 31).toBitVec ||| (idForPosition (Int64.ofNat 0) index).toBitVec := by
  have hzero : (ofNat 0 <<< 31) = 0 := by decide
  simp only [idForPosition, encodeID, Int64.toBitVec_or, hzero, Int64.toBitVec_zero, BitVec.zero_or,
    BitVec.or_assoc]

/-- The IDs of an hour are those of the first hour, moved. -/
theorem toInt_idForPosition_shift (hour : Int64) {index : ℕ} (hindex : index < maxEntriesPerSegment) :
    (idForPosition hour index).toInt = (hour <<< 31).toInt + packedID 0 index := by
  have hbound := (@packedID_bounds 0 index hindex).2
  have hbase := toNat_hour_shiftLeft hour
  have hnumber : (idForPosition hour index).toBitVec.toNat =
      (hour <<< 31).toBitVec.toNat + packedID 0 index := by
    rw [idForPosition_eq_or, BitVec.toNat_or, toNat_idForPosition (by decide) hindex, hbase,
      ← Nat.shiftLeft_eq, Nat.shiftLeft_add_eq_or_of_lt (by omega)]
  rw [← toInt_toBitVec, ← toInt_toBitVec, BitVec.toInt_eq_toNat_cond, BitVec.toInt_eq_toNat_cond]
  split_ifs <;> omega

theorem int64_ofNat_toNat (hour : Int64) : ofNat hour.toBitVec.toNat = hour := by
  simp

end OpenTrace.Engine
