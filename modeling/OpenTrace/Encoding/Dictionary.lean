import OpenTrace.Encoding.Columns
import OpenTrace.Library.Bits

/-!
# Dictionary columns

Columns of few distinct strings (`dictionary.go`, `bitpack.go`): the distinct values in the order of
their first occurrence behind the empty string, and one index per row, in a compressed block of
`uint16`s or packed into the bits that the dictionary needs. A full dictionary folds further values
onto the empty string: `lookup_dictEncodeLimit` says exactly which values survive.
-/

namespace OpenTrace.Encoding

open Library

/-- A dictionary and the index of every value in it. -/
structure DictEncoded where
  dict : List Bytes
  indices : List ℕ
  deriving DecidableEq, Repr

/-- `MaxDictEntries`: 65535. -/
def maxDictEntries : ℕ := 65535

/-- One round of the loop of `DictEncodeLimit`: the dictionary after a value and the value's index.
A full dictionary takes no new value; the value is folded onto index 0. -/
def dictStep (limit : ℕ) (dict : List Bytes) (value : Bytes) : List Bytes × ℕ :=
  match dict.idxOf? value with
  | some index => (dict, index)
  | none => if limit ≤ dict.length then (dict, 0) else (dict ++ [value], dict.length)

/-- The loop of `DictEncodeLimit`, from a dictionary on. -/
def dictFrom (limit : ℕ) : List Bytes → List Bytes → DictEncoded
  | dict, [] => ⟨dict, []⟩
  | dict, value :: values =>
    let step := dictStep limit dict value
    let rest := dictFrom limit step.1 values
    ⟨rest.dict, step.2 :: rest.indices⟩

/-- Index 0 is reserved for the empty string. -/
def dictEncodeLimit (values : List Bytes) (limit : ℕ) : DictEncoded :=
  dictFrom (if limit < 1 ∨ maxDictEntries < limit then maxDictEntries else limit) [[]] values

def dictEncode (values : List Bytes) : DictEncoded := dictEncodeLimit values maxDictEntries

def dictLookup (encoded : DictEncoded) : List Bytes :=
  encoded.indices.map fun index ↦ encoded.dict.getD index []

/-- What a round does: it knows the value, has no room for it, or adds it. -/
theorem dictStep_cases (limit : ℕ) (dict : List Bytes) (value : Bytes) :
    (value ∈ dict ∧ ∃ index, dict[index]? = some value ∧ dictStep limit dict value = (dict, index)) ∨
      (value ∉ dict ∧ limit ≤ dict.length ∧ dictStep limit dict value = (dict, 0)) ∨
      (value ∉ dict ∧ dict.length < limit ∧
        dictStep limit dict value = (dict ++ [value], dict.length)) := by
  unfold dictStep
  cases hindex : dict.idxOf? value with
  | some index =>
    obtain ⟨hbound, hvalue, -⟩ := List.idxOf?_eq_some_iff.mp hindex
    have hget : dict[index]? = some value := by
      rw [List.getElem?_eq_getElem hbound]
      exact congrArg some (by simpa using hvalue)
    exact .inl ⟨List.mem_of_getElem? hget, index, hget, rfl⟩
  | none =>
    have hfresh : value ∉ dict := List.idxOf?_eq_none_iff.mp hindex
    by_cases hfull : limit ≤ dict.length
    · exact .inr (.inl ⟨hfresh, hfull, if_pos hfull⟩)
    · exact .inr (.inr ⟨hfresh, not_le.mp hfull, if_neg hfull⟩)

@[simp] theorem length_indices_dictFrom (limit : ℕ) (dict values : List Bytes) :
    (dictFrom limit dict values).indices.length = values.length := by
  induction values generalizing dict with
  | nil => rfl
  | cons value values ih => simp [dictFrom, ih]

/-- The dictionary only grows, at its end. -/
theorem dictFrom_extends (limit : ℕ) (dict values : List Bytes) :
    dict <+: (dictFrom limit dict values).dict := by
  induction values generalizing dict with
  | nil => exact List.prefix_rfl
  | cons value values ih =>
    refine List.IsPrefix.trans ?_ (ih _)
    rcases dictStep_cases limit dict value with ⟨-, index, -, hstep⟩ | ⟨-, -, hstep⟩ | ⟨-, -, hstep⟩
    · exact hstep ▸ List.prefix_rfl
    · exact hstep ▸ List.prefix_rfl
    · exact hstep ▸ List.prefix_append _ _

section

variable {limit : ℕ} {dict : List Bytes}

/-- The dictionary is the first `limit` distinct values, those it starts with included. -/
theorem dict_dictFrom (hlimit : dict.length ≤ limit) (values : List Bytes) :
    (dictFrom limit dict values).dict = (dict ++ (values.removeAll dict).eraseDups).take limit := by
  induction values generalizing dict with
  | nil => simp [dictFrom, List.take_of_length_le hlimit]
  | cons value values ih =>
    rw [dictFrom]
    rcases dictStep_cases limit dict value with
      ⟨hknown, index, -, hstep⟩ | ⟨hfresh, hfull, hstep⟩ | ⟨hfresh, hroom, hstep⟩
    · have hskip : (value :: values).removeAll dict = values.removeAll dict := by
        simp [List.removeAll, hknown]
      simp only [hstep, hskip, ih hlimit]
    · have hexact : limit = dict.length := le_antisymm hfull hlimit
      simp only [hstep, ih hlimit]
      rw [hexact, List.take_left, List.take_left]
    · have hcons : (value :: values).removeAll dict = value :: values.removeAll dict := by
        simp [List.removeAll, hfresh]
      have hnext : (values.removeAll dict).filter (fun other ↦ !other == value) =
          values.removeAll (dict ++ [value]) := by
        simp only [List.removeAll, List.filter_filter]
        simp [Bool.and_comm, beq_eq_decide]
      have hlength : (dict ++ [value]).length ≤ limit := by
        rw [List.length_append, List.length_singleton]
        omega
      simp only [hstep, ih hlength]
      rw [hcons, List.eraseDups_cons, hnext, List.append_assoc, List.singleton_append]

/-- Every value is looked up as itself, or as the empty string if the dictionary has no room for it.
Assumes: the dictionary starts with the empty string. -/
theorem lookup_dictFrom (hlimit : dict.length ≤ limit)
    (hempty : dict[0]? = some []) (values : List Bytes) :
    dictLookup (dictFrom limit dict values) = values.map fun value ↦
        if value ∈ (dictFrom limit dict values).dict then value else [] := by
  induction values generalizing dict with
  | nil => rfl
  | cons value values ih =>
    have hgrown := dictFrom_extends limit (dictStep limit dict value).1 values
    have hfold := dict_dictFrom hlimit (value :: values)
    rw [dictFrom] at hfold ⊢
    rcases dictStep_cases limit dict value with
      ⟨hknown, index, hget, hstep⟩ | ⟨hfresh, hfull, hstep⟩ | ⟨hfresh, hroom, hstep⟩
    · have hrest := ih hlimit hempty
      rw [hstep] at hgrown
      have hfound : (dictFrom limit dict values).dict[index]? = some value := by
        obtain ⟨hbound, hvalue⟩ := List.getElem?_eq_some_iff.mp hget
        rw [List.prefix_iff_getElem?.mp hgrown index hbound, hvalue]
      simp only [dictLookup, hstep] at hrest ⊢
      rw [List.map_cons, List.map_cons, hrest, if_pos (hgrown.subset hknown),
        List.getD_eq_getElem?_getD, hfound, Option.getD_some]
    · have hrest := ih hlimit hempty
      have hexact : limit = dict.length := le_antisymm hfull hlimit
      simp only [hstep] at hfold
      rw [hexact, List.take_left, ← hexact] at hfold
      simp only [dictLookup, hstep] at hrest ⊢
      rw [List.map_cons, List.map_cons, hrest, hfold, if_neg hfresh, List.getD_eq_getElem?_getD,
        hempty, Option.getD_some]
    · have hlength : (dict ++ [value]).length ≤ limit := by
        rw [List.length_append, List.length_singleton]
        omega
      obtain ⟨hbound, -⟩ := List.getElem?_eq_some_iff.mp hempty
      have hrest := ih hlength (by rw [List.getElem?_append_left hbound, hempty])
      rw [hstep] at hgrown
      have hfound : (dictFrom limit (dict ++ [value]) values).dict[dict.length]? = some value := by
        obtain ⟨more, hmore⟩ := hgrown
        rw [← hmore, List.append_assoc, List.getElem?_append_right le_rfl, Nat.sub_self]
        rfl
      simp only [dictLookup, hstep] at hrest ⊢
      rw [List.map_cons, List.map_cons, hrest, if_pos (hgrown.subset (by simp)),
        List.getD_eq_getElem?_getD, hfound, Option.getD_some]

/-- Every index is one of the dictionary's. -/
theorem indices_dictFrom_lt (hne : dict ≠ []) (values : List Bytes) :
    ∀ index ∈ (dictFrom limit dict values).indices,
      index < (dictFrom limit dict values).dict.length := by
  induction values generalizing dict with
  | nil => simp [dictFrom]
  | cons value values ih =>
    have hgrown := (dictFrom_extends limit (dictStep limit dict value).1 values).length_le
    have hpositive := List.length_pos_of_ne_nil hne
    rw [dictFrom]
    rcases dictStep_cases limit dict value with
      ⟨-, index, hget, hstep⟩ | ⟨-, -, hstep⟩ | ⟨-, -, hstep⟩
    · obtain ⟨hbound, -⟩ := List.getElem?_eq_some_iff.mp hget
      simp only [hstep] at hgrown ⊢
      exact List.forall_mem_cons.mpr ⟨by omega, ih hne⟩
    · simp only [hstep] at hgrown ⊢
      exact List.forall_mem_cons.mpr ⟨by omega, ih hne⟩
    · simp only [hstep, List.length_append, List.length_singleton] at hgrown ⊢
      exact List.forall_mem_cons.mpr ⟨by omega, ih (by simp)⟩

end

section Limit

variable {limit : ℕ} (hlimit : 1 ≤ limit) (hmax : limit ≤ maxDictEntries) (values : List Bytes)

include hlimit hmax

theorem dictEncodeLimit_eq : dictEncodeLimit values limit = dictFrom limit [[]] values := by
  rw [dictEncodeLimit, if_neg (by omega)]

theorem dict_dictEncodeLimit :
    (dictEncodeLimit values limit).dict = (([] :: values).eraseDups).take limit := by
  have hsplit := @List.eraseDups_append Bytes _ _ [[]] values
  have hone : [([] : Bytes)].eraseDups = [[]] := rfl
  rw [hone] at hsplit
  rw [dictEncodeLimit_eq hlimit hmax, dict_dictFrom hlimit, ← hsplit]
  rfl

theorem lookup_dictEncodeLimit : dictLookup (dictEncodeLimit values limit) = values.map fun value ↦
        if value ∈ (([] :: values).eraseDups).take limit then value else [] := by
  have hlookup := @lookup_dictFrom limit [[]] hlimit rfl values
  rwa [← dictEncodeLimit_eq hlimit hmax, dict_dictEncodeLimit hlimit hmax] at hlookup

theorem length_dict_dictEncodeLimit : (dictEncodeLimit values limit).dict.length ≤ limit := by
  rw [dict_dictEncodeLimit hlimit hmax]
  exact List.length_take_le _ _

omit hlimit hmax in
theorem indices_dictEncodeLimit_lt : ∀ index ∈ (dictEncodeLimit values limit).indices,
      index < (dictEncodeLimit values limit).dict.length :=
  indices_dictFrom_lt (List.cons_ne_nil _ _) values

theorem length_indices_dictEncodeLimit :
    (dictEncodeLimit values limit).indices.length = values.length := by
  rw [dictEncodeLimit_eq hlimit hmax, length_indices_dictFrom]

end Limit

theorem length_eraseDups_le {α : Type} [BEq α] (values : List α) :
    values.eraseDups.length ≤ values.length := by
  induction hlength : values.length using Nat.strong_induction_on generalizing values with
  | _ length ih =>
    cases values with
    | nil => simp
    | cons value values =>
      have hfilter := List.length_filter_le (fun other ↦ !other == value) values
      have hrest := ih _ (by rw [List.length_cons] at hlength; omega)
        (values.filter fun other ↦ !other == value) rfl
      rw [List.length_cons] at hlength
      rw [List.eraseDups_cons, List.length_cons]
      omega

/-- A dictionary with room for every value folds none of them. -/
theorem mem_dict_of_room {limit : ℕ} {values : List Bytes} (hroom : values.length < limit)
    {value : Bytes} (hvalue : value ∈ values) : value ∈ (([] :: values).eraseDups).take limit := by
  have hlength : (([] :: values).eraseDups).length ≤ limit := (length_eraseDups_le _).trans hroom
  rw [List.take_of_length_le hlength]
  exact List.mem_eraseDups.mpr (List.mem_cons_of_mem _ hvalue)

theorem mem_values_of_mem_dict {limit : ℕ} {values : List Bytes} {value : Bytes}
    (hvalue : value ∈ (([] :: values).eraseDups).take limit) : value = [] ∨ value ∈ values :=
  List.mem_cons.mp (List.mem_eraseDups.mp (List.mem_of_mem_take hvalue))

/-! ### Dictionaries with their own block of indices -/

/-- The entries of a dictionary behind their number: `serializeDictOnly`, and the first part of
`DictMarshal`. -/
def serializeDict (dict : List Bytes) : Bytes :=
  leBytes 2 dict.length ++ dict.flatMap appendLenBytes

/-- A dictionary of more than 65535 entries is cut. -/
def dictMarshal (zstd : Zstd) (encoded : DictEncoded) : Bytes :=
  let dictBuf := serializeDict (encoded.dict.take maxDictEntries)
  leBytes 4 dictBuf.length ++ dictBuf ++ compress zstd (encoded.indices.flatMap (leBytes 2))

def dictUnmarshal (zstd : Zstd) (format : LenFormat) (data : Bytes) (count : ℕ) :
    Except ColumnError DictEncoded :=
  match takeLe 4 data with
  | none => .error (.dictTooShort data.length)
  | some (dictSize, rest) =>
    if rest.length < dictSize then .error (.dictSize dictSize data.length)
    else
      match takeLe 2 (rest.take dictSize) with
      | none => .error .dictBufferTooShort
      | some (dictLen, entries) =>
        match readStrings format .dictEntry dictLen 0 entries with
        | .error error => .error error
        | .ok dict =>
          match decompressBounded zstd (rest.drop dictSize) (decodeCeiling count 2) with
          | none => .error (.decompress .dictIndices)
          | some raw => .ok ⟨dict, readFixed 2 id count raw⟩

/-- Assumes: at most 65535 entries of at most 1 GiB each whose bytes are counted by a `uint32`,
indices within the dictionary, and a number of indices that stays under 2 GiB. -/
theorem dictUnmarshal_dictMarshal {zstd : Zstd} (hzstd : zstd.Faithful) {encoded : DictEncoded}
    (hdict : encoded.dict.length ≤ maxDictEntries)
    (hentries : ∀ entry ∈ encoded.dict, entry.length ≤ maxValueBytes)
    (hsize : (serializeDict encoded.dict).length < 2 ^ 32)
    (hindices : ∀ index ∈ encoded.indices, index < encoded.dict.length)
    (hcount : encoded.indices.length * 2 ≤ maxBlockBytes) :
    dictUnmarshal zstd .extended (dictMarshal zstd encoded) encoded.indices.length =
      .ok encoded := by
  have hblock : (encoded.indices.flatMap (leBytes 2)).length ≤ encoded.indices.length * 2 :=
    length_flatMap_le fun index _ ↦ (length_leBytes _ _).le
  have hfits := le_decodeCeiling hblock (hblock.trans hcount)
  have hread := @readFixed_flatMap ℕ 2 id id encoded.indices
    (fun index hindex ↦ by
      have hbound := hindices index hindex
      unfold maxDictEntries at hdict
      change index < 256 ^ 2
      omega) fun _ _ ↦ rfl
  have hnumber : encoded.dict.length < 256 ^ 2 := by
    unfold maxDictEntries at hdict
    omega
  have hlong : ¬ (serializeDict encoded.dict ++
      compress zstd (encoded.indices.flatMap (leBytes 2))).length <
        (serializeDict encoded.dict).length := by
    rw [List.length_append]
    omega
  rw [dictMarshal, List.take_of_length_le hdict]
  simp only [dictUnmarshal, List.append_assoc]
  rw [takeLe_leBytes_append (lt_of_lt_of_eq hsize (by norm_num))]
  simp only [if_neg hlong, List.take_left, List.drop_left]
  rw [serializeDict, takeLe_leBytes_append hnumber]
  simp only [readStrings_appendLenBytes hentries, decompressBounded_ceiling hzstd hfits]
  exact congrArg (fun indices ↦ Except.ok (DictEncoded.mk encoded.dict indices)) hread

/-! ### Bitpacked indices -/

/-- The loop of `BitsNeeded`: the number of binary digits of a number below `2 ^ fuel`. -/
def bitLength : ℕ → ℕ → ℕ
  | 0, _ => 0
  | fuel + 1, n => if n = 0 then 0 else bitLength fuel (n / 2) + 1

def bitsNeeded (n : ℕ) : ℕ := if n ≤ 1 then 1 else bitLength 63 (n - 1)

theorem lt_two_pow_bitLength {fuel n : ℕ} (hn : n < 2 ^ fuel) : n < 2 ^ bitLength fuel n := by
  induction fuel generalizing n with
  | zero => simpa [bitLength] using hn
  | succ fuel ih =>
    rw [bitLength]
    split_ifs with hzero
    · simp [hzero]
    · have hhalf := ih (show n / 2 < 2 ^ fuel by rw [pow_succ] at hn; omega)
      omega

theorem bitLength_le {fuel n width : ℕ} (hn : n < 2 ^ width) : bitLength fuel n ≤ width := by
  induction fuel generalizing n width with
  | zero => exact Nat.zero_le _
  | succ fuel ih =>
    rw [bitLength]
    split_ifs with hzero
    · exact Nat.zero_le _
    · cases width with
      | zero => omega
      | succ width =>
        exact Nat.succ_le_succ (ih (by omega))

/-- The indices of a dictionary of at most 256 entries take one to eight bits. -/
theorem bitsNeeded_spec {n : ℕ} (hn : n ≤ 256) :
    1 ≤ bitsNeeded n ∧ bitsNeeded n ≤ 8 ∧ ∀ index < n, index < 2 ^ bitsNeeded n := by
  unfold bitsNeeded
  split_ifs with hone
  · exact ⟨le_rfl, by omega, fun index hindex ↦ by omega⟩
  · have hbits := @lt_two_pow_bitLength 63 (n - 1) (by omega)
    refine ⟨?_, bitLength_le (by omega), fun index hindex ↦ by omega⟩
    by_contra hnone
    have hzero : bitLength 63 (n - 1) = 0 := by omega
    rw [hzero] at hbits
    omega

/-- `BitpackEncode`; nothing where the source panics. -/
def bitpackEncode (indices : List UInt8) (bitsPerValue : ℕ) : Option Bytes :=
  if bitsPerValue < 1 ∨ 8 < bitsPerValue then none
  else some (UInt8.ofNat bitsPerValue :: leBytes 4 indices.length ++ packFields bitsPerValue indices)

def bitpackDecode (data : Bytes) : Except ColumnError (List UInt8) :=
  if data.length < 5 then .error (.bitpackTooShort data.length)
  else
    let bitsPerValue := (data.getD 0 0).toNat
    if bitsPerValue < 1 ∨ 8 < bitsPerValue then .error (.invalidBitsPerValue bitsPerValue)
    else
      let count := ofLe ((data.drop 1).take 4)
      let packed := data.drop 5
      let maxCount := packed.length * 8 / bitsPerValue
      if maxCount < count then
        .error (.bitpackCount count maxCount packed.length bitsPerValue)
      else
        .ok ((List.range count).map fun index ↦
          if packed.length ≤ index * bitsPerValue / 8 then 0
          else getField bitsPerValue packed (index * bitsPerValue))

/-- Assumes: a width of one to eight bits that every index fits, and a number of indices that a
`uint32` counts. -/
theorem bitpackDecode_bitpackEncode {indices : List UInt8} {bitsPerValue : ℕ} {packed : Bytes}
    (hpacked : bitpackEncode indices bitsPerValue = some packed)
    (hindices : ∀ index ∈ indices, index.toNat < 2 ^ bitsPerValue)
    (hcount : indices.length < 2 ^ 32) : bitpackDecode packed = .ok indices := by
  unfold bitpackEncode at hpacked
  split_ifs at hpacked with hwidth
  cases Option.some.inj hpacked
  have hpositive : 0 < bitsPerValue := by omega
  have hbyte : (UInt8.ofNat bitsPerValue).toNat = bitsPerValue := by
    rw [UInt8.toNat_ofNat']
    omega
  have hnumber : ofLe (leBytes 4 indices.length) = indices.length :=
    ofLe_leBytes_of_lt (lt_of_lt_of_eq hcount (by norm_num))
  have hlong : ¬ (UInt8.ofNat bitsPerValue :: leBytes 4 indices.length ++
      packFields bitsPerValue indices).length < 5 := by
    rw [List.length_append, List.length_cons, length_leBytes]
    omega
  have hmax : ¬ (packFields bitsPerValue indices).length * 8 / bitsPerValue < indices.length := by
    rw [not_lt, Nat.le_div_iff_mul_le hpositive, length_packFields]
    omega
  have hdrop : (UInt8.ofNat bitsPerValue :: leBytes 4 indices.length ++
      packFields bitsPerValue indices).drop 5 = packFields bitsPerValue indices := by
    rw [List.cons_append, List.drop_succ_cons, drop_leBytes_append]
  have hfields : (List.range indices.length).map (fun index ↦
      if (packFields bitsPerValue indices).length ≤ index * bitsPerValue / 8 then 0
      else getField bitsPerValue (packFields bitsPerValue indices) (index * bitsPerValue)) =
        indices := by
    refine List.ext_getElem (by simp) fun index hindex hbound ↦ ?_
    have hvalue : indices.getD index 0 = indices[index] := by
      rw [List.getD_eq_getElem?_getD, List.getElem?_eq_getElem hbound, Option.getD_some]
    have hfield : (index + 1) * bitsPerValue ≤ indices.length * bitsPerValue :=
      Nat.mul_le_mul_right _ hbound
    have hinside : ¬ (packFields bitsPerValue indices).length ≤ index * bitsPerValue / 8 := by
      rw [length_packFields]
      rw [Nat.succ_mul] at hfield
      omega
    rw [List.getElem_map, List.getElem_range, if_neg hinside,
      getField_packFields (by omega) hpositive hbound
        (hvalue ▸ hindices _ (List.getElem_mem hbound)), hvalue]
  simp only [bitpackDecode, if_neg hlong, hdrop]
  simp only [List.cons_append, List.getD_cons_zero, hbyte, if_neg hwidth, List.drop_succ_cons,
    List.drop_zero, take_leBytes_append, hnumber, if_neg hmax, hfields]

end OpenTrace.Encoding
