import OpenTrace.Encoding.Dictionary
import OpenTrace.Encoding.Sparse

/-!
# The column codecs

Each codec gives back the values it was given, as long as every block stays within 2 GiB (`codecs_invert`).
A dictionary that is full folds new values onto the empty string; `kept_iff` says which values that are.

Two limits of the formats show beyond: the number of bitpacked values is a `uint32`, and no value of a
dictionary is read that is longer than 1 GiB (`codec_limits`).
-/

namespace OpenTrace.Encoding

open Library List

/-! ### Full dictionaries -/

/-- The number of different non-empty values before the value is first seen. -/
def distinctBefore (values : List Bytes) (value : Bytes) : ℕ :=
  ((values.take (values.idxOf value)).filter (· ≠ [])).eraseDups.length

/-- What a dictionary of so many entries, the empty string included, gives back for a value. -/
def keptValue (limit : ℕ) (values : List Bytes) (value : Bytes) : Bytes :=
  if value ≠ [] ∧ limit - 1 ≤ distinctBefore values value then [] else value

/-- A value is among the first different values exactly if few different values come before it. -/
theorem mem_take_eraseDups {front rest : List Bytes} {value : Bytes} (hfirst : value ∉ front)
    (limit : ℕ) :
    value ∈ ((front ++ value :: rest).eraseDups).take limit ↔ front.eraseDups.length < limit := by
  have hkeep : (value :: rest).removeAll front = value :: rest.removeAll front := by
    rw [cons_removeAll, if_pos (by simpa using hfirst)]
  have hfront : value ∉ front.eraseDups := fun hvalue ↦ hfirst (mem_eraseDups.mp hvalue)
  rw [eraseDups_append, hkeep, eraseDups_cons, take_append]
  constructor
  · intro hvalue
    rcases mem_append.mp hvalue with hearly | hlate
    · exact absurd (mem_of_mem_take hearly) hfront
    · by_contra hfull
      rw [Nat.sub_eq_zero_of_le (Nat.le_of_not_lt hfull), take_zero] at hlate
      exact not_mem_nil hlate
  · intro hroom
    refine mem_append_right _ ?_
    rw [show limit - front.eraseDups.length = (limit - front.eraseDups.length - 1) + 1 by omega,
      take_succ_cons]
    exact mem_cons_self

/-- The values that a full dictionary keeps. -/
theorem kept_iff {limit : ℕ} (hlimit : 1 ≤ limit) {values : List Bytes} {value : Bytes}
    (hvalue : value ∈ values) :
    value ∈ (([] :: values).eraseDups).take limit ↔
      ¬ (value ≠ [] ∧ limit - 1 ≤ distinctBefore values value) := by
  by_cases hempty : value = []
  · subst hempty
    have hfirst := @mem_take_eraseDups [] values [] (not_mem_nil) limit
    rw [nil_append] at hfirst
    simp only [hfirst, ne_eq, not_true_eq_false, false_and, not_false_eq_true, iff_true]
    exact hlimit
  · have hsplit : values = values.take (values.idxOf value) ++ value ::
        values.drop (values.idxOf value + 1) := by
      have hbound := idxOf_lt_length_of_mem hvalue
      conv_lhs => rw [← take_append_drop (values.idxOf value) values]
      rw [drop_eq_getElem_cons hbound, getElem_idxOf hbound]
    have hfresh : value ∉ [] :: values.take (values.idxOf value) := by
      rw [mem_cons, not_or]
      exact ⟨hempty, fun hmem ↦ Nat.lt_irrefl _ ((mem_take_iff_idxOf_lt hvalue).mp hmem)⟩
    have hfront : ([] :: values.take (values.idxOf value)).eraseDups.length =
        distinctBefore values value + 1 := by
      rw [eraseDups_cons, length_cons, distinctBefore]
      congr 2
      refine congrArg eraseDups (filter_congr fun other _ ↦ ?_)
      cases other <;> rfl
    have hmem := @mem_take_eraseDups ([] :: values.take (values.idxOf value))
      (values.drop (values.idxOf value + 1)) value hfresh limit
    rw [cons_append, ← hsplit, hfront] at hmem
    rw [hmem]
    simp only [ne_eq, hempty, not_false_eq_true, true_and]
    omega

/-! ### Round trips -/

theorem length_flatMap_leBytes {α : Type} (width : ℕ) (toNat : α → ℕ) (values : List α) :
    (values.flatMap fun value ↦ leBytes width (toNat value)).length = values.length * width := by
  rw [length_flatMap]
  simp only [length_leBytes, map_const', sum_replicate_nat]

/-- A value list within the limits of its codec comes back. Assumes: decompression that inverts
compression, and blocks of at most 2 GiB. -/
theorem codecs_invert {zstd : Zstd} (hzstd : zstd.Faithful) :
    (∀ values : List Int64, values ≠ [] → (deltaBlock values).length ≤ maxBlockBytes →
      deltaDecode zstd (deltaEncode zstd values) values.length = .ok values) ∧
    (∀ (bitsPerValue : ℕ) (indices : List UInt8), 1 ≤ bitsPerValue → bitsPerValue ≤ 8 →
      (∀ index ∈ indices, index.toNat < 2 ^ bitsPerValue) → indices.length < 2 ^ 32 →
      ∃ packed, bitpackEncode indices bitsPerValue = some packed ∧ bitpackDecode packed = .ok indices) ∧
    (∀ values : List Bytes, (∀ value ∈ values, value.length ≤ maxColumnValueBytes) →
      (bitmap (fun value ↦ value ≠ []) values).length ≤ maxBlockBytes →
      ((values.map nonEmpty).reduceOption.flatMap appendLenBytes).length ≤ maxBlockBytes →
      unsparseStrings zstd .extended (sparseStrings zstd values) values.length = .ok values) ∧
    (∀ values : List (Option Int64), (bitmap Option.isSome values).length ≤ maxBlockBytes →
      (values.reduceOption.flatMap putVarint).length ≤ maxBlockBytes →
      unsparseInt64 zstd (sparseInt64 zstd values) values.length = .ok values) ∧
    (∀ values : List (Option Bool), (bitmap Option.isSome values).length ≤ maxBlockBytes →
      unsparseBool (sparseBool values) values.length = .ok values) ∧
    (∀ values : List (Option Bytes), (∀ value, some value ∈ values →
        value.length ≤ maxColumnValueBytes) → (bitmap Option.isSome values).length ≤ maxBlockBytes →
      (values.reduceOption.flatMap appendBlob).length ≤ maxBlockBytes →
      unsparseBytes zstd (sparseBytes zstd values) values.length = .ok values) ∧
    (∀ values : List Bytes, (∀ value ∈ values, value.length ≤ maxColumnValueBytes) →
      (values.flatMap appendLenBytes).length ≤ maxBlockBytes →
      zstdBlockDecodeStrings zstd .extended (zstdBlockEncodeStrings zstd values) values.length =
        .ok values) ∧
    (∀ values : List Int64, (values.flatMap fun value ↦ leBytes 8 value.toUInt64.toNat).length ≤
        maxBlockBytes →
      zstdBlockDecodeInt64 zstd (zstdBlockEncodeInt64 zstd values) values.length = .ok values) ∧
    (∀ (limit : ℕ) (values : List Bytes), 1 ≤ limit → limit ≤ maxDictEntries →
      (∀ value ∈ values, value.length ≤ maxValueBytes) →
      (serializeDict (dictEncodeLimit values limit).dict).length ≤ maxBlockBytes →
      ((dictEncodeLimit values limit).indices.flatMap (leBytes 2)).length ≤ maxBlockBytes →
      ∃ encoded, dictUnmarshal zstd .extended (dictMarshal zstd (dictEncodeLimit values limit))
          values.length = .ok encoded ∧
        dictLookup encoded = values.map (keptValue limit values)) := by
  have hrows : ∀ {α : Type} {keep : α → Bool} {values : List α},
      (bitmap keep values).length ≤ maxBlockBytes → values.length ≤ 2 ^ 34 := by
    intro α keep values hbitmap
    rw [length_bitmap] at hbitmap
    unfold maxBlockBytes at hbitmap
    omega
  refine ⟨fun values hne hblock ↦ deltaDecode_deltaEncode_of_block hzstd hne hblock,
    fun bitsPerValue indices hlow hhigh hindices hcount ↦ ?_,
    fun values hvalues hbitmap hblock ↦ unsparseStrings_sparseStrings hzstd (hrows hbitmap) hvalues hblock,
    fun values hbitmap hblock ↦ unsparseInt64_sparseInt64_of_block hzstd (hrows hbitmap) hblock,
    fun values hbitmap ↦ unsparseBool_sparseBool (hrows hbitmap),
    fun values hvalues hbitmap hblock ↦ unsparseBytes_sparseBytes hzstd (hrows hbitmap) ?_,
    fun values hvalues hblock ↦ zstdBlockDecodeStrings_zstdBlockEncodeStrings hzstd hvalues hblock,
    fun values hblock ↦ zstdBlockDecodeInt64_zstdBlockEncodeInt64 hzstd ?_,
    fun limit values hlow hhigh hvalues hdict hindices ↦ ?_⟩
  · have hpacked : bitpackEncode indices bitsPerValue = some (UInt8.ofNat bitsPerValue ::
        leBytes 4 indices.length ++ packFields bitsPerValue indices) := if_neg (by omega)
    exact ⟨_, hpacked, bitpackDecode_bitpackEncode hpacked hindices hcount⟩
  · have hblobs : (values.reduceOption.flatMap appendBlob).length ≤
        values.reduceOption.length * (maxColumnValueBytes + maxLenFramingBytes) := by
      refine length_flatMap_le fun value hvalue ↦ ?_
      have hlength := hvalues value (reduceOption_mem_iff.mp hvalue)
      rw [appendBlob, length_append, length_leBytes]
      unfold maxLenFramingBytes
      omega
    exact le_decodeCeiling (hblobs.trans
      (Nat.mul_le_mul_right _ (reduceOption_length_le values))) hblock
  · rwa [length_flatMap_leBytes] at hblock
  · rw [length_flatMap_leBytes, length_indices_dictEncodeLimit hlow hhigh] at hindices
    refine ⟨dictEncodeLimit values limit, ?_, ?_⟩
    · have hback := @dictUnmarshal_dictMarshal zstd hzstd (dictEncodeLimit values limit)
        ((length_dict_dictEncodeLimit hlow hhigh values).trans hhigh) ?_ ?_
        (indices_dictEncodeLimit_lt values) ?_
      · rwa [length_indices_dictEncodeLimit hlow hhigh] at hback
      · intro entry hentry
        rw [dict_dictEncodeLimit hlow hhigh] at hentry
        rcases mem_values_of_mem_dict hentry with rfl | hentry
        · exact Nat.zero_le _
        · exact hvalues entry hentry
      · unfold maxBlockBytes at hdict
        omega
      · rwa [length_indices_dictEncodeLimit hlow hhigh]
    · rw [lookup_dictEncodeLimit hlow hhigh]
      refine map_congr_left fun value hvalue ↦ ?_
      simp only [keptValue, kept_iff hlow hvalue, ite_not]

theorem codecs_invert_witness : Zstd.stored.Faithful ∧
      deltaDecode Zstd.stored (deltaEncode Zstd.stored [Int64.minValue, Int64.maxValue]) 2 =
        .ok [Int64.minValue, Int64.maxValue] :=
  ⟨Zstd.stored_faithful, (codecs_invert Zstd.stored_faithful).1 [Int64.minValue, Int64.maxValue]
    (cons_ne_nil _ _) (by decide)⟩

/-! ### Limits of the formats -/

/-- The number of bitpacked values is a `uint32`: one list that is too long reads back empty. -/
theorem bitpackDecode_of_length {indices : List UInt8} (hcount : indices.length = 2 ^ 32) :
    bitpackDecode (1 :: leBytes 4 indices.length ++ packFields 1 indices) = .ok [] := by
  have hnumber : ofLe (leBytes 4 indices.length) = 0 := by
    rw [hcount, ofLe_leBytes]
    decide
  have hlong : ¬ (1 :: leBytes 4 indices.length ++ packFields 1 indices).length < 5 := by
    rw [length_append, length_cons, length_leBytes]
    omega
  unfold bitpackDecode
  rw [if_neg hlong]
  simp [hnumber]

/-- No value longer than 1 GiB is read. -/
theorem readValue_of_long {value : Bytes} (hlong : maxValueBytes < value.length)
    (hcount : value.length < 2 ^ 32) (rest : Bytes) :
    LenFormat.extended.readValue (appendLenBytes value ++ rest) =
      .error (.lengthOutOfRange value.length) := by
  have hmarker : ¬ value.length ≤ maxUint16Len := by
    unfold maxUint16Len extendedLenMarker
    unfold maxValueBytes at hlong
    omega
  rw [appendLenBytes, appendLen, if_neg hmarker, LenFormat.readValue, LenFormat.readLen,
    append_assoc, append_assoc, takeLe_leBytes_append (by unfold extendedLenMarker; omega)]
  simp only [and_self, if_true]
  rw [takeLe_leBytes_append (by omega)]
  simp only [if_pos hlong]

theorem dictUnmarshal_of_long (zstd : Zstd) {value : Bytes} (hlong : maxValueBytes < value.length)
    (hcount : value.length < maxBlockBytes) :
    dictUnmarshal zstd .extended (dictMarshal zstd ⟨[[], value], [1]⟩) 1 =
      .error (.dictEntry 1 (.lengthOutOfRange value.length)) := by
  unfold maxBlockBytes at hcount
  have hsize : (serializeDict [[], value]).length < 256 ^ 4 := by
    have hframed := length_appendLenBytes_le value
    have hempty := length_appendLenBytes_le []
    simp only [serializeDict, length_append, length_leBytes, flatMap_cons, flatMap_nil,
      append_nil, length_nil] at hframed hempty ⊢
    omega
  have hread : readStrings .extended .dictEntry 2 0 ([[], value].flatMap appendLenBytes) =
      .error (.dictEntry 1 (.lengthOutOfRange value.length)) := by
    rw [flatMap_cons, readStrings, readValue_appendLenBytes (Nat.zero_le _)]
    simp only [readStrings, flatMap_cons, flatMap_nil,
      readValue_of_long hlong (show value.length < 2 ^ 32 by omega), Except.map]
  have hlength : ∀ tail : Bytes, ¬ (serializeDict [[], value] ++ tail).length <
      (serializeDict [[], value]).length := by
    intro tail
    rw [length_append]
    omega
  rw [dictMarshal, take_of_length_le (show 2 ≤ maxDictEntries by decide)]
  simp only [dictUnmarshal, append_assoc]
  rw [takeLe_leBytes_append hsize]
  simp only [if_neg (hlength _), take_left]
  rw [serializeDict, takeLe_leBytes_append (show [[], value].length < 256 ^ 2 from by simp)]
  simp only [length_cons, length_nil, hread]

/-- A list of 2³² one-bit values packs into 512 MiB and reads back empty; a value of more than 1 GiB
makes its dictionary unreadable. -/
theorem codec_limits : (∃ packed, bitpackEncode (replicate (2 ^ 32) 0) 1 = some packed ∧
      packed.length ≤ maxBlockBytes ∧ bitpackDecode packed = .ok []) ∧
    ∃ value : Bytes, (serializeDict (dictEncodeLimit [value] 2).dict).length ≤ maxBlockBytes ∧
      ((dictEncodeLimit [value] 2).indices.flatMap (leBytes 2)).length ≤ maxBlockBytes ∧
      dictUnmarshal Zstd.stored .extended (dictMarshal Zstd.stored (dictEncodeLimit [value] 2)) 1 =
        .error (.dictEntry 1 (.lengthOutOfRange (maxValueBytes + 1))) := by
  constructor
  · have hcount : (replicate (2 ^ 32) (0 : UInt8)).length = 2 ^ 32 := length_replicate
    generalize replicate (2 ^ 32) (0 : UInt8) = indices at hcount
    refine ⟨_, if_neg (by decide), ?_, bitpackDecode_of_length hcount⟩
    rw [length_append, length_cons, length_leBytes, length_packFields, hcount]
    decide
  · have hlength : (replicate (maxValueBytes + 1) (0 : UInt8)).length = maxValueBytes + 1 :=
      length_replicate
    generalize replicate (maxValueBytes + 1) (0 : UInt8) = value at hlength
    have hempty : value ≠ [] := by
      rintro rfl
      exact absurd hlength (by simp)
    have hencoded : dictEncodeLimit [value] 2 = ⟨[[], value], [1]⟩ := by
      have hfresh : [([] : Bytes)].idxOf? value = none := by
        rw [idxOf?_eq_none_iff]
        simpa using hempty
      rw [dictEncodeLimit, if_neg (by decide)]
      simp [dictFrom, dictStep, hfresh]
    refine ⟨value, ?_, ?_, ?_⟩
    · have hframed := length_appendLenBytes_le value
      have hnil := length_appendLenBytes_le []
      rw [hencoded]
      simp only [serializeDict, length_append, length_leBytes, flatMap_cons,
        flatMap_nil, append_nil, length_nil, hlength] at hframed hnil ⊢
      unfold maxValueBytes at hframed
      unfold maxBlockBytes
      omega
    · rw [hencoded]
      exact show 2 ≤ maxBlockBytes by decide
    · rw [hencoded, dictUnmarshal_of_long Zstd.stored (by rw [hlength]; omega)
        (by rw [hlength]; decide), hlength]

end OpenTrace.Encoding
