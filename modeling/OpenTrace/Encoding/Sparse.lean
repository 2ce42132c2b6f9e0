import Mathlib.Data.List.ReduceOption
import OpenTrace.Encoding.Columns
import OpenTrace.Library.Bits

/-!
# Sparse columns

Columns most rows have no value in (`sparse.go`): a bitmap of the rows that have one, and the values
of those rows one after another, compressed except for the flags. The string, integer and byte
columns are one encoding with different values, `sparseColumn`, and one decoder, `unsparseColumn`,
whose round trip needs nothing of the values but that the reader of one inverts its writer.
-/

namespace OpenTrace.Encoding

open Library List

def marshalSparse (nonNullCount : ℕ) (bits values : Bytes) : Bytes :=
  leBytes 4 nonNullCount ++ leBytes 4 bits.length ++ bits ++ values

def unmarshalSparse (data : Bytes) : Except ColumnError (ℕ × Bytes × Bytes) :=
  if data.length < 8 then .error (.sparseTooShort data.length)
  else
    let bitmapSize := ofLe ((data.drop 4).take 4)
    if data.length < 8 + bitmapSize then .error (.bitmapSize bitmapSize data.length)
    else .ok (ofLe (data.take 4), (data.drop 8).take bitmapSize, (data.drop 8).drop bitmapSize)

/-- Assumes: a bitmap whose size a `uint32` holds. -/
theorem unmarshalSparse_marshalSparse {nonNullCount : ℕ} {bits : Bytes} (hbits : bits.length < 2 ^ 32)
    (values : Bytes) :
    unmarshalSparse (marshalSparse nonNullCount bits values) =
      .ok (nonNullCount % 2 ^ 32, bits, values) := by
  have hlength : (marshalSparse nonNullCount bits values).length =
      8 + bits.length + values.length := by
    simp only [marshalSparse, length_append, length_leBytes]
  have htake : (marshalSparse nonNullCount bits values).take 4 = leBytes 4 nonNullCount := by
    rw [marshalSparse, append_assoc, append_assoc, take_leBytes_append]
  have hdrop : (marshalSparse nonNullCount bits values).drop 4 =
      leBytes 4 bits.length ++ (bits ++ values) := by
    rw [marshalSparse, append_assoc, append_assoc, drop_leBytes_append]
  have hrest : (marshalSparse nonNullCount bits values).drop 8 = bits ++ values := by
    rw [show 8 = 4 + 4 from rfl, ← drop_drop, hdrop, drop_leBytes_append]
  have hnumber : ofLe (leBytes 4 nonNullCount) = nonNullCount % 2 ^ 32 :=
    (ofLe_leBytes 4 nonNullCount).trans (by norm_num)
  have hsize : ofLe (leBytes 4 bits.length) = bits.length :=
    ofLe_leBytes_of_lt (lt_of_lt_of_eq hbits (by norm_num))
  have hlong : ¬ 8 + bits.length + values.length < 8 := by omega
  have hinside : ¬ 8 + bits.length + values.length < 8 + bits.length := by omega
  simp only [unmarshalSparse, hlength, if_neg hlong, hdrop, take_leBytes_append, hsize,
    if_neg hinside, htake, hnumber, hrest, take_left, drop_left]

/-! ### One encoding for every kind of value -/

section Values

variable {α : Type}

/-- The family `SparseStrings`, `SparseInt64`, `SparseBytes`. -/
def sparseColumn (zstd : Zstd) (write : α → Bytes) (values : List (Option α)) : Bytes :=
  marshalSparse (values.countP Option.isSome) (bitmap Option.isSome values)
    (compress zstd (values.reduceOption.flatMap write))

/-- The loop over the rows: a value is read for every row whose bit is set. -/
def unsparseFrom (read : ℕ → Bytes → Except ColumnError (α × Bytes)) (bits : Bytes) :
    ℕ → ℕ → Bytes → Except ColumnError (List (Option α))
  | 0, _, _ => .ok []
  | count + 1, index, raw =>
    if getBit bits index then
      match read index raw with
      | .error error => .error error
      | .ok (value, rest) => (unsparseFrom read bits count (index + 1) rest).map (some value :: ·)
    else (unsparseFrom read bits count (index + 1) raw).map (none :: ·)

/-- The family `UnsparseStrings`, `UnsparseInt64`, `UnsparseBytes`. -/
def unsparseColumn (zstd : Zstd) (block : Block) (perValueBytes : ℕ)
    (read : ℕ → Bytes → Except ColumnError (α × Bytes)) (data : Bytes) (count : ℕ) :
    Except ColumnError (List (Option α)) :=
  match unmarshalSparse data with
  | .error error => .error error
  | .ok (nonNullCount, bits, packed) =>
    let raw :=
      if 0 < nonNullCount then decompressBounded zstd packed (decodeCeiling count perValueBytes)
      else some []
    match raw with
    | none => .error (.decompress block)
    | some raw => unsparseFrom read bits count 0 raw

variable {write : α → Bytes} {read : ℕ → Bytes → Except ColumnError (α × Bytes)}
  {values : List (Option α)}
  (hread : ∀ value, some value ∈ values → ∀ index rest,
    read index (write value ++ rest) = .ok (value, rest))

include hread

omit hread in
/-- A bitmap from a position on has the bit of the first element there, and those of the others after it. -/
theorem getBit_cons {bits : Bytes} {index : ℕ} {β : Type} {keep : β → Bool} {first : β} {rest : List β}
    (hbits : ∀ offset < (first :: rest).length,
      getBit bits (index + offset) = ((first :: rest)[offset]?).any keep) :
    getBit bits index = keep first ∧
      ∀ offset < rest.length, getBit bits (index + 1 + offset) = (rest[offset]?).any keep := by
  refine ⟨hbits 0 (by simp), fun offset hoffset ↦ ?_⟩
  have hnext := hbits (offset + 1) (by simpa using hoffset)
  rwa [← Nat.add_assoc, Nat.add_right_comm, getElem?_cons_succ] at hnext

theorem unsparseFrom_flatMap {bits : Bytes} {index : ℕ}
    (hbits : ∀ offset < values.length,
      getBit bits (index + offset) = (values[offset]?).any Option.isSome) :
    unsparseFrom read bits values.length index (values.reduceOption.flatMap write) = .ok values := by
  induction values generalizing index with
  | nil => rfl
  | cons value values ih =>
    obtain ⟨hfirst, hlater⟩ := getBit_cons hbits
    have hrest := ih (fun other hother ↦ hread other (mem_cons_of_mem _ hother)) hlater
    cases value with
    | none =>
      rw [length_cons, unsparseFrom, hfirst, reduceOption_cons_of_none]
      simp only [hrest]
      rfl
    | some value =>
      rw [length_cons, unsparseFrom, hfirst, reduceOption_cons_of_some, flatMap_cons]
      simp only [hread value mem_cons_self, hrest]
      rfl

/-- Assumes: the reader of a value inverts its writer on the values of the column, numbers of rows and
of values that the header holds, and a block of values under the ceiling. -/
theorem unsparseColumn_sparseColumn {zstd : Zstd} (hzstd : zstd.Faithful) (block : Block)
    {perValueBytes : ℕ} (hcount : values.length ≤ 2 ^ 34)
    (hpresent : values.countP Option.isSome < 2 ^ 32)
    (hfits : (values.reduceOption.flatMap write).length ≤
      decodeCeiling values.length perValueBytes) :
    unsparseColumn zstd block perValueBytes read (sparseColumn zstd write values) values.length =
      .ok values := by
  have hsize : (bitmap Option.isSome values).length < 2 ^ 32 := by
    rw [length_bitmap]
    omega
  have hloop : unsparseFrom read (bitmap Option.isSome values) values.length 0
      (values.reduceOption.flatMap write) = .ok values :=
    unsparseFrom_flatMap hread fun offset _ ↦ by rw [Nat.zero_add, getBit_bitmap]
  have hraw : (if 0 < values.countP Option.isSome then
        decompressBounded zstd (compress zstd (values.reduceOption.flatMap write))
          (decodeCeiling values.length perValueBytes)
      else some []) = some (values.reduceOption.flatMap write) := by
    split_ifs with hany
    · exact decompressBounded_ceiling hzstd hfits
    · have hnone : values.reduceOption = [] := by
        have hzero : values.countP Option.isSome = 0 := by omega
        rw [countP_eq_zero] at hzero
        refine filterMap_eq_nil_iff.mpr fun value hvalue ↦ ?_
        cases value with
        | none => rfl
        | some value => exact absurd rfl (hzero _ hvalue)
      rw [hnone, flatMap_nil]
  simp only [unsparseColumn, sparseColumn]
  rw [unmarshalSparse_marshalSparse hsize, Nat.mod_eq_of_lt hpresent]
  simp only [hraw, hloop]

omit hread in
/-- The values that are stored, if each takes some byte of the block. -/
theorem countP_isSome_le (hwrite : ∀ value, 0 < (write value).length) :
    values.countP Option.isSome ≤ (values.reduceOption.flatMap write).length := by
  induction values with
  | nil => exact Nat.le_refl 0
  | cons value values ih =>
    cases value with
    | none => simpa [reduceOption_cons_of_none] using ih
    | some value =>
      have hvalue := hwrite value
      rw [reduceOption_cons_of_some, flatMap_cons, length_append, countP_cons_of_pos rfl]
      omega

end Values

/-! ### Strings -/

/-- The empty string stands for no value. -/
def nonEmpty (value : Bytes) : Option Bytes := if value = [] then none else some value

theorem getD_nonEmpty (value : Bytes) : (nonEmpty value).getD [] = value := by
  unfold nonEmpty
  split_ifs with hempty
  · exact hempty.symm
  · rfl

theorem nonEmpty_eq_some {value stored : Bytes} (hstored : nonEmpty value = some stored) :
    stored = value := by
  unfold nonEmpty at hstored
  split_ifs at hstored
  exact (Option.some.inj hstored).symm

def sparseStrings (zstd : Zstd) (values : List Bytes) : Bytes :=
  sparseColumn zstd appendLenBytes (values.map nonEmpty)

def readSparseString (format : LenFormat) (index : ℕ) (raw : Bytes) :
    Except ColumnError (Bytes × Bytes) :=
  match format.readValue raw with
  | .error cause => .error (.sparseString index cause)
  | .ok read => .ok read

def unsparseStrings (zstd : Zstd) (format : LenFormat) (data : Bytes) (count : ℕ) :
    Except ColumnError (List Bytes) :=
  (unsparseColumn zstd .sparseStrings (maxColumnValueBytes + maxLenFramingBytes)
    (readSparseString format) data count).map (map (·.getD []))

theorem reduceOption_map_nonEmpty_sublist (values : List Bytes) :
    ((values.map nonEmpty).reduceOption).Sublist values := by
  induction values with
  | nil => exact Sublist.slnil
  | cons value values ih =>
    rw [map_cons]
    cases hvalue : nonEmpty value with
    | none =>
      exact ih.cons value
    | some stored =>
      rw [nonEmpty_eq_some hvalue]
      exact ih.cons_cons value

/-- Assumes: every string is at most 1 MiB, their block at most 2 GiB, and the bitmap as well. -/
theorem unsparseStrings_sparseStrings {zstd : Zstd} (hzstd : zstd.Faithful) {values : List Bytes}
    (hcount : values.length ≤ 2 ^ 34)
    (hvalues : ∀ value ∈ values, value.length ≤ maxColumnValueBytes)
    (hblock : ((values.map nonEmpty).reduceOption.flatMap appendLenBytes).length ≤ maxBlockBytes) :
    unsparseStrings zstd .extended (sparseStrings zstd values) values.length = .ok values := by
  have hsublist := reduceOption_map_nonEmpty_sublist values
  have hfits := length_flatMap_appendLenBytes_le
    (fun value hvalue ↦ hvalues value (hsublist.subset hvalue)) hblock hsublist.length_le
  have hread : ∀ value, some value ∈ values.map nonEmpty → ∀ index rest,
      readSparseString .extended index (appendLenBytes value ++ rest) = .ok (value, rest) := by
    intro value hvalue index rest
    obtain ⟨original, horiginal, hstored⟩ := mem_map.mp hvalue
    have hlength : value.length ≤ maxValueBytes :=
      nonEmpty_eq_some hstored ▸ length_le_maxValueBytes hvalues original horiginal
    rw [readSparseString, readValue_appendLenBytes hlength]
  have hpresent : (values.map nonEmpty).countP Option.isSome < 2 ^ 32 :=
    ((countP_isSome_le fun value ↦ (two_le_length_appendLenBytes value).trans_lt' Nat.zero_lt_two).trans
      hblock).trans_lt (by decide)
  have hcolumn := unsparseColumn_sparseColumn hread hzstd .sparseStrings
    (by rwa [length_map]) hpresent (by rwa [length_map])
  rw [length_map] at hcolumn
  rw [unsparseStrings, sparseStrings, hcolumn, Except.map, map_map]
  refine congrArg Except.ok ((map_congr_left fun value _ ↦ getD_nonEmpty value).trans ?_)
  exact map_id _

/-! ### Integers -/

def sparseInt64 (zstd : Zstd) (values : List (Option Int64)) : Bytes :=
  sparseColumn zstd putVarint values

def readSparseInt64 (index : ℕ) (raw : Bytes) : Except ColumnError (Int64 × Bytes) :=
  if raw = [] then .error (.sparseIntTruncated index)
  else
    match takeVarint raw with
    | none => .error (.sparseIntInvalid index)
    | some read => .ok read

def unsparseInt64 (zstd : Zstd) (data : Bytes) (count : ℕ) :
    Except ColumnError (List (Option Int64)) :=
  unsparseColumn zstd .sparseInt64 maxVarintBytes readSparseInt64 data count

theorem readSparseInt64_putVarint (index : ℕ) (value : Int64) (rest : Bytes) :
    readSparseInt64 index (putVarint value ++ rest) = .ok (value, rest) := by
  have hread := takeVarint_putVarint_append value rest
  have hne : putVarint value ++ rest ≠ [] := by
    intro hnil
    rw [hnil] at hread
    simp [takeVarint, takeUvarint, uvarint, uvarintFrom] at hread
  rw [readSparseInt64, if_neg hne, hread]

theorem length_flatMap_putVarint_le (values : List (Option Int64)) :
    (values.reduceOption.flatMap putVarint).length ≤ values.length * maxVarintBytes :=
  (length_flatMap_le fun _ _ ↦ length_putUvarint_le _).trans
    (Nat.mul_le_mul_right _ (reduceOption_length_le values))

section

variable {zstd : Zstd} (hzstd : zstd.Faithful) {values : List (Option Int64)}

include hzstd

/-- Assumes: a block of varints and a bitmap of at most 2 GiB. -/
theorem unsparseInt64_sparseInt64_of_block (hcount : values.length ≤ 2 ^ 34)
    (hblock : (values.reduceOption.flatMap putVarint).length ≤ maxBlockBytes) :
    unsparseInt64 zstd (sparseInt64 zstd values) values.length = .ok values := by
  have hsize := length_flatMap_putVarint_le values
  have hpresent : values.countP Option.isSome < 2 ^ 32 :=
    ((countP_isSome_le fun value ↦ length_putUvarint_pos _).trans hblock).trans_lt (by decide)
  exact unsparseColumn_sparseColumn (fun value _ index ↦ readSparseInt64_putVarint index value)
    hzstd .sparseInt64 hcount hpresent (le_decodeCeiling hsize hblock)

/-- Assumes: a count whose varints stay under 2 GiB. -/
theorem unsparseInt64_sparseInt64 (hcount : values.length * maxVarintBytes ≤ maxBlockBytes) :
    unsparseInt64 zstd (sparseInt64 zstd values) values.length = .ok values := by
  have hsize := length_flatMap_putVarint_le values
  refine unsparseInt64_sparseInt64_of_block hzstd ?_ (hsize.trans hcount)
  unfold maxVarintBytes maxBlockBytes at hcount
  omega

end

/-! ### Flags -/

/-- The values of the flags are a second bitmap, which is not compressed. -/
def sparseBool (values : List (Option Bool)) : Bytes :=
  marshalSparse (values.countP Option.isSome) (bitmap Option.isSome values)
    (bitmap id values.reduceOption)

def readFlags (bits valueBits : Bytes) : ℕ → ℕ → ℕ → List (Option Bool)
  | 0, _, _ => []
  | count + 1, index, position =>
    if getBit bits index then
      some (getBit valueBits position) :: readFlags bits valueBits count (index + 1) (position + 1)
    else none :: readFlags bits valueBits count (index + 1) position

def unsparseBool (data : Bytes) (count : ℕ) : Except ColumnError (List (Option Bool)) :=
  match unmarshalSparse data with
  | .error error => .error error
  | .ok (_, bits, valueBits) => .ok (readFlags bits valueBits count 0 0)

theorem readFlags_eq {bits valueBits : Bytes} {values : List (Option Bool)} {index position : ℕ}
    (hbits : ∀ offset < values.length,
      getBit bits (index + offset) = (values[offset]?).any Option.isSome)
    (hvalues : ∀ offset < values.reduceOption.length,
      getBit valueBits (position + offset) = (values.reduceOption[offset]?).any id) :
    readFlags bits valueBits values.length index position = values := by
  induction values generalizing index position with
  | nil => rfl
  | cons value values ih =>
    obtain ⟨hfirst, hrest⟩ := getBit_cons hbits
    cases value with
    | none =>
      rw [length_cons, readFlags, hfirst, if_neg (by simp), ih hrest hvalues]
    | some value =>
      rw [reduceOption_cons_of_some] at hvalues
      obtain ⟨hvalue, hlater⟩ := getBit_cons hvalues
      rw [length_cons, readFlags, hfirst, if_pos (by simp), hvalue, ih hrest hlater, id]

/-- Assumes: a bitmap of at most 2 GiB. -/
theorem unsparseBool_sparseBool {values : List (Option Bool)} (hcount : values.length ≤ 2 ^ 34) :
    unsparseBool (sparseBool values) values.length = .ok values := by
  have hsize : (bitmap Option.isSome values).length < 2 ^ 32 := by
    rw [length_bitmap]
    omega
  have hflags : readFlags (bitmap Option.isSome values) (bitmap id values.reduceOption)
      values.length 0 0 = values :=
    readFlags_eq (fun offset _ ↦ by rw [Nat.zero_add, getBit_bitmap])
      fun offset _ ↦ by rw [Nat.zero_add, getBit_bitmap]
  rw [unsparseBool, sparseBool, unmarshalSparse_marshalSparse hsize]
  simp only [hflags]

/-! ### Bytes -/

/-- A blob behind its length, a `uint32`. -/
def appendBlob (value : Bytes) : Bytes := leBytes 4 value.length ++ value

def sparseBytes (zstd : Zstd) (values : List (Option Bytes)) : Bytes :=
  sparseColumn zstd appendBlob values

def readSparseBytes (index : ℕ) (raw : Bytes) : Except ColumnError (Bytes × Bytes) :=
  match takeLe 4 raw with
  | none => .error (.sparseBytesLength index)
  | some (length, rest) =>
    if rest.length < length then .error (.sparseBytesData index)
    else .ok (rest.take length, rest.drop length)

def unsparseBytes (zstd : Zstd) (data : Bytes) (count : ℕ) :
    Except ColumnError (List (Option Bytes)) :=
  unsparseColumn zstd .sparseBytes (maxColumnValueBytes + maxLenFramingBytes) readSparseBytes data
    count

theorem readSparseBytes_appendBlob (index : ℕ) {value : Bytes} (hvalue : value.length < 2 ^ 32)
    (rest : Bytes) : readSparseBytes index (appendBlob value ++ rest) = .ok (value, rest) := by
  have hlong : ¬ (value ++ rest).length < value.length := by simp
  rw [readSparseBytes, appendBlob, append_assoc,
    takeLe_leBytes_append (lt_of_lt_of_eq hvalue (by norm_num))]
  simp only [if_neg hlong, take_left, drop_left]

/-- Assumes: a bitmap of at most 2 GiB, and a block of blobs under the ceiling of the column. -/
theorem unsparseBytes_sparseBytes {zstd : Zstd} (hzstd : zstd.Faithful)
    {values : List (Option Bytes)} (hcount : values.length ≤ 2 ^ 34)
    (hfits : (values.reduceOption.flatMap appendBlob).length ≤
      decodeCeiling values.length (maxColumnValueBytes + maxLenFramingBytes)) :
    unsparseBytes zstd (sparseBytes zstd values) values.length = .ok values := by
  have hpresent : values.countP Option.isSome < 2 ^ 32 := by
    have hstored := @countP_isSome_le Bytes appendBlob values fun value ↦ by
      rw [appendBlob, length_append, length_leBytes]
      omega
    have hceiling := decodeCeiling_le values.length (maxColumnValueBytes + maxLenFramingBytes)
    unfold maxBlockBytes at hceiling
    omega
  refine unsparseColumn_sparseColumn (fun value hvalue index rest ↦ ?_) hzstd .sparseBytes hcount
    hpresent hfits
  refine readSparseBytes_appendBlob index ?_ rest
  have hmem : value ∈ values.reduceOption := reduceOption_mem_iff.mpr hvalue
  have hpart : (appendBlob value).length ≤ (values.reduceOption.flatMap appendBlob).length :=
    (sublist_flatten_of_mem (mem_map_of_mem hmem)).length_le.trans
      (by rw [flatMap])
  have hceiling := decodeCeiling_le values.length (maxColumnValueBytes + maxLenFramingBytes)
  rw [appendBlob, length_append] at hpart
  unfold maxBlockBytes at hceiling
  omega

end OpenTrace.Encoding
