import OpenTrace.Encoding.Framing
import OpenTrace.Library.ZigZag

/-!
# Integer and string columns

The encodings of the columns that every row of a chunk has a value in: deltas and raw integers, and
strings in one block (`delta.go`, `zstdblock.go`). A decoder runs under a ceiling for the
decompressed size that `DecodeCeiling` derives from the number of values (`zstd.go`); each round trip
assumes that its block stays under that ceiling.
-/

namespace OpenTrace.Encoding

open Library List

/-- The compressed parts of the columns. -/
inductive Block
  | delta | dictIndices | blockStrings | blockInt64 | sparseStrings | sparseInt64 | sparseBytes
  deriving DecidableEq, Repr

/-- Why a column could not be decoded. -/
inductive ColumnError
  | decompress (block : Block)
  | deltaTooShort (length : ℕ)
  | invalidDelta (offset : ℕ)
  | bitpackTooShort (length : ℕ)
  | invalidBitsPerValue (bitsPerValue : ℕ)
  | bitpackCount (count maxCount packed bitsPerValue : ℕ)
  | dictTooShort (length : ℕ)
  | dictSize (size length : ℕ)
  | dictBufferTooShort
  | dictEntry (index : ℕ) (cause : LenError)
  | blockString (index : ℕ) (cause : LenError)
  | sparseTooShort (length : ℕ)
  | bitmapSize (size length : ℕ)
  | sparseString (index : ℕ) (cause : LenError)
  | sparseIntTruncated (index : ℕ)
  | sparseIntInvalid (index : ℕ)
  | sparseBytesLength (index : ℕ)
  | sparseBytesData (index : ℕ)
  deriving DecidableEq, Repr

/-! ### Ceilings -/

/-- `MaxColumnValueBytes`: 1 MiB. -/
def maxColumnValueBytes : ℕ := 2 ^ 20

def maxVarintBytes : ℕ := 10

def maxLenFramingBytes : ℕ := 8

/-- `minDecodeCeiling`: 64 KiB. -/
def minDecodeCeiling : ℕ := 2 ^ 16

section

variable (count perValueBytes : ℕ)

def decodeCeiling : ℕ :=
  if count = 0 ∨ perValueBytes = 0 then minDecodeCeiling
  else if maxBlockBytes / perValueBytes < count then maxBlockBytes
  else if minDecodeCeiling < count * perValueBytes then count * perValueBytes
  else minDecodeCeiling

theorem decodeCeiling_le : decodeCeiling count perValueBytes ≤ maxBlockBytes := by
  unfold decodeCeiling
  split_ifs with hzero hlarge hfloor
  · decide
  · exact le_rfl
  · exact (Nat.mul_le_mul_right _ (not_lt.mp hlarge)).trans (Nat.div_mul_le_self _ _)
  · decide

theorem decodeCeiling_pos : decodeCeiling count perValueBytes ≠ 0 := by
  unfold decodeCeiling minDecodeCeiling maxBlockBytes
  split_ifs <;> omega

end

/-- A block of values that keep to the size per value is under the ceiling, as far as 2 GiB. -/
theorem le_decodeCeiling {count perValueBytes size : ℕ} (hsize : size ≤ count * perValueBytes)
    (hblock : size ≤ maxBlockBytes) : size ≤ decodeCeiling count perValueBytes := by
  unfold decodeCeiling
  split_ifs with hzero hlarge hfloor
  · rcases hzero with rfl | rfl
    · rw [zero_mul] at hsize
      omega
    · rw [mul_zero] at hsize
      omega
  · exact hblock
  · exact hsize
  · exact hsize.trans (not_lt.mp hfloor)

variable {zstd : Zstd} {values : List Bytes}

/-- Assumes: a faithful codec and a block under the ceiling. -/
theorem decompressBounded_ceiling (hzstd : zstd.Faithful) {source : Bytes} {count perValueBytes : ℕ}
    (hfits : source.length ≤ decodeCeiling count perValueBytes) :
    decompressBounded zstd (compress zstd source) (decodeCeiling count perValueBytes) =
      some source := by
  refine decompressBounded_compress hzstd ?_
  rwa [if_neg]
  rintro (hzero | hlarge)
  · exact decodeCeiling_pos _ _ hzero
  · exact absurd (decodeCeiling_le count perValueBytes) (not_le.mpr hlarge)

theorem length_flatMap_le {α : Type} {write : α → Bytes} {perValueBytes : ℕ} {values : List α}
    (hvalues : ∀ value ∈ values, (write value).length ≤ perValueBytes) :
    (values.flatMap write).length ≤ values.length * perValueBytes := by
  induction values with
  | nil => simp
  | cons value values ih =>
    have hfirst := hvalues value mem_cons_self
    have hrest := ih fun other hother ↦ hvalues other (mem_cons_of_mem _ hother)
    rw [flatMap_cons, length_append, length_cons, Nat.succ_mul]
    omega

/-! ### Integers -/

/-- The deltas of the values, from a previous value on. -/
def deltas (prev : Int64) : List Int64 → Bytes
  | [] => []
  | value :: values => putUvarint (zigZagEncode (value - prev)).toNat ++ deltas value values

def deltaEncode (zstd : Zstd) : List Int64 → Bytes
  | [] => []
  | base :: values =>
    leBytes 8 base.toUInt64.toNat ++ compress zstd (deltas base (base :: values))

/-- The loop of `DeltaDecode`: it stops early at the end of the block. -/
def undelta : ℕ → ℕ → Int64 → Bytes → Except ColumnError (List Int64)
  | 0, _, _, _ => .ok []
  | count + 1, offset, prev, raw =>
    if raw = [] then .ok []
    else
      match takeUvarint raw with
      | none => .error (.invalidDelta offset)
      | some (encoded, rest) =>
        let value := prev + zigZagDecode (UInt64.ofNat encoded)
        (undelta count (offset + (raw.length - rest.length)) value rest).map (value :: ·)

def deltaDecode (zstd : Zstd) (data : Bytes) (count : ℕ) : Except ColumnError (List Int64) :=
  match takeLe 8 data with
  | none => .error (.deltaTooShort data.length)
  | some (base, packed) =>
    match decompressBounded zstd packed (decodeCeiling count maxVarintBytes) with
    | none => .error (.decompress .delta)
    | some raw => undelta count 0 (UInt64.ofNat base).toInt64 raw

theorem undelta_deltas (offset : ℕ) (prev : Int64) (values : List Int64) :
    undelta values.length offset prev (deltas prev values) = .ok values := by
  induction values generalizing offset prev with
  | nil => rfl
  | cons value values ih =>
    have hvalue : prev + zigZagDecode (zigZagEncode (value - prev)) = value := by
      rw [zigZagDecode_zigZagEncode]
      grind
    have hne : deltas prev (value :: values) ≠ [] := by
      intro hnil
      have hread := takeUvarint_putUvarint_append (UInt64.toNat_lt (zigZagEncode (value - prev)))
        (deltas value values)
      rw [deltas] at hnil
      rw [hnil] at hread
      simp [takeUvarint, uvarint, uvarintFrom] at hread
    rw [length_cons, undelta, if_neg hne, deltas, takeUvarint_putUvarint_append (UInt64.toNat_lt _)]
    simp only [UInt64.ofNat_toNat, hvalue, ih]
    rfl

theorem length_deltas_le (prev : Int64) (values : List Int64) :
    (deltas prev values).length ≤ values.length * maxVarintBytes := by
  induction values generalizing prev with
  | nil => simp [deltas]
  | cons value values ih =>
    have hfirst := length_putUvarint_le (zigZagEncode (value - prev)).toNat
    have hrest := ih value
    rw [deltas, length_append, length_cons]
    unfold maxVarintBytes at *
    omega

theorem ofNat_toNat_toInt64 (value : Int64) :
    (UInt64.ofNat value.toUInt64.toNat).toInt64 = value := by
  rw [UInt64.ofNat_toNat, Int64.toInt64_toUInt64]

theorem toUInt64_toNat_lt (value : Int64) : value.toUInt64.toNat < 256 ^ 8 :=
  lt_of_lt_of_eq (UInt64.toNat_lt _) (by norm_num)

/-- The block that `DeltaEncode` compresses. -/
def deltaBlock (values : List Int64) : Bytes := deltas (values.headD 0) values

/-- Assumes: some value, and a block of at most 2 GiB. -/
theorem deltaDecode_deltaEncode_of_block (hzstd : zstd.Faithful) {values : List Int64}
    (hvalues : values ≠ []) (hblock : (deltaBlock values).length ≤ maxBlockBytes) :
    deltaDecode zstd (deltaEncode zstd values) values.length = .ok values := by
  cases values with
  | nil => exact absurd rfl hvalues
  | cons base values =>
    have hfits : (deltas base (base :: values)).length ≤
        decodeCeiling (base :: values).length maxVarintBytes :=
      le_decodeCeiling (length_deltas_le _ _) hblock
    simp only [deltaDecode, deltaEncode, takeLe_leBytes_append (toUInt64_toNat_lt base),
      decompressBounded_ceiling hzstd hfits, ofNat_toNat_toInt64, undelta_deltas]

/-- Assumes: some value, and a count whose varints stay under 2 GiB. -/
theorem deltaDecode_deltaEncode {zstd : Zstd} (hzstd : zstd.Faithful) {values : List Int64}
    (hvalues : values ≠ []) (hcount : values.length * maxVarintBytes ≤ maxBlockBytes) :
    deltaDecode zstd (deltaEncode zstd values) values.length = .ok values :=
  deltaDecode_deltaEncode_of_block hzstd hvalues ((length_deltas_le _ _).trans hcount)

/-- Fixed-width values off the front of a block; those behind its end are zero. -/
def readFixed {α : Type} (width : ℕ) (ofNat : ℕ → α) : ℕ → Bytes → List α
  | 0, _ => []
  | count + 1, raw =>
    if raw.length < width then replicate (count + 1) (ofNat 0)
    else ofNat (ofLe (raw.take width)) :: readFixed width ofNat count (raw.drop width)

theorem readFixed_flatMap {α : Type} {width : ℕ} {ofNat : ℕ → α} {toNat : α → ℕ}
    {values : List α} (hwidth : ∀ value ∈ values, toNat value < 256 ^ width)
    (hinverse : ∀ value ∈ values, ofNat (toNat value) = value) :
    readFixed width ofNat values.length (values.flatMap fun value ↦ leBytes width (toNat value)) =
      values := by
  induction values with
  | nil => rfl
  | cons value values ih =>
    have hlong : ¬ (leBytes width (toNat value) ++
        values.flatMap fun other ↦ leBytes width (toNat other)).length < width := by
      rw [length_append, length_leBytes]
      omega
    have hrest := ih (fun other hother ↦ hwidth other (mem_cons_of_mem _ hother))
      fun other hother ↦ hinverse other (mem_cons_of_mem _ hother)
    rw [flatMap_cons, length_cons, readFixed, if_neg hlong, take_leBytes_append,
      drop_leBytes_append, hrest, ofLe_leBytes_of_lt (hwidth value mem_cons_self),
      hinverse value mem_cons_self]

def zstdBlockEncodeInt64 (zstd : Zstd) (values : List Int64) : Bytes :=
  compress zstd (values.flatMap fun value ↦ leBytes 8 value.toUInt64.toNat)

def zstdBlockDecodeInt64 (zstd : Zstd) (data : Bytes) (count : ℕ) :
    Except ColumnError (List Int64) :=
  match decompressBounded zstd data (decodeCeiling count 8) with
  | none => .error (.decompress .blockInt64)
  | some raw => .ok (readFixed 8 (fun word ↦ (UInt64.ofNat word).toInt64) count raw)

/-- Assumes: a count whose words stay under 2 GiB. -/
theorem zstdBlockDecodeInt64_zstdBlockEncodeInt64 (hzstd : zstd.Faithful) {values : List Int64}
    (hcount : values.length * 8 ≤ maxBlockBytes) :
    zstdBlockDecodeInt64 zstd (zstdBlockEncodeInt64 zstd values) values.length = .ok values := by
  have hsize : (values.flatMap fun value ↦ leBytes 8 value.toUInt64.toNat).length ≤
      values.length * 8 :=
    length_flatMap_le fun value _ ↦ (length_leBytes _ _).le
  have hfits := le_decodeCeiling hsize (hsize.trans hcount)
  have hread := @readFixed_flatMap Int64 8 (fun word ↦ (UInt64.ofNat word).toInt64)
    (fun value ↦ value.toUInt64.toNat) values (fun value _ ↦ toUInt64_toNat_lt value)
    fun value _ ↦ ofNat_toNat_toInt64 value
  simp only [zstdBlockDecodeInt64, zstdBlockEncodeInt64, decompressBounded_ceiling hzstd hfits, hread]

/-! ### Strings in a row -/

/-- Length-prefixed strings one after another; a failure is reported with the number of the string. -/
def readStrings (format : LenFormat) (failure : ℕ → LenError → ColumnError) :
    ℕ → ℕ → Bytes → Except ColumnError (List Bytes)
  | 0, _, _ => .ok []
  | count + 1, index, raw =>
    match format.readValue raw with
    | .error cause => .error (failure index cause)
    | .ok (value, rest) => (readStrings format failure count (index + 1) rest).map (value :: ·)

/-- Assumes: every string is at most 1 GiB. -/
theorem readStrings_appendLenBytes (hvalues : ∀ value ∈ values, value.length ≤ maxValueBytes)
    (failure : ℕ → LenError → ColumnError) (index : ℕ) :
    readStrings .extended failure values.length index (values.flatMap appendLenBytes) =
      .ok values := by
  induction values generalizing index with
  | nil => rfl
  | cons value values ih =>
    rw [flatMap_cons, length_cons, readStrings,
      readValue_appendLenBytes (hvalues value mem_cons_self)]
    simp only [ih (fun other hother ↦ hvalues other (mem_cons_of_mem _ hother))]
    rfl

def zstdBlockEncodeStrings (zstd : Zstd) (values : List Bytes) : Bytes :=
  compress zstd (values.flatMap appendLenBytes)

def zstdBlockDecodeStrings (zstd : Zstd) (format : LenFormat) (data : Bytes) (count : ℕ) :
    Except ColumnError (List Bytes) :=
  match decompressBounded zstd data
      (decodeCeiling count (maxColumnValueBytes + maxLenFramingBytes)) with
  | none => .error (.decompress .blockStrings)
  | some raw => readStrings format .blockString count 0 raw

section

variable (hvalues : ∀ value ∈ values, value.length ≤ maxColumnValueBytes)

include hvalues

/-- Strings of at most 1 MiB stay under the ceiling of their column, as far as 2 GiB. -/
theorem length_flatMap_appendLenBytes_le
    (hblock : (values.flatMap appendLenBytes).length ≤ maxBlockBytes) {count : ℕ}
    (hcount : values.length ≤ count) :
    (values.flatMap appendLenBytes).length ≤
      decodeCeiling count (maxColumnValueBytes + maxLenFramingBytes) := by
  refine le_decodeCeiling ((length_flatMap_le fun value hvalue ↦ ?_).trans
    (Nat.mul_le_mul_right _ hcount)) hblock
  have hlength := length_appendLenBytes_le value
  have hsmall := hvalues value hvalue
  unfold maxLenFramingBytes
  omega

theorem length_le_maxValueBytes : ∀ value ∈ values, value.length ≤ maxValueBytes :=
  fun value hvalue ↦ (hvalues value hvalue).trans (by decide)

end

/-- Assumes: every string is at most 1 MiB, and their block at most 2 GiB. -/
theorem zstdBlockDecodeStrings_zstdBlockEncodeStrings (hzstd : zstd.Faithful)
    (hvalues : ∀ value ∈ values, value.length ≤ maxColumnValueBytes)
    (hblock : (values.flatMap appendLenBytes).length ≤ maxBlockBytes) :
    zstdBlockDecodeStrings zstd .extended (zstdBlockEncodeStrings zstd values) values.length =
      .ok values := by
  have hfits := length_flatMap_appendLenBytes_le hvalues hblock le_rfl
  simp only [zstdBlockDecodeStrings, zstdBlockEncodeStrings, decompressBounded_ceiling hzstd hfits,
    readStrings_appendLenBytes (length_le_maxValueBytes hvalues)]

end OpenTrace.Encoding
