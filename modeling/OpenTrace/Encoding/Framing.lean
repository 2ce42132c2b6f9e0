import OpenTrace.Library.Bytes

/-!
# Length-prefixed values and bounded zstd blocks

The framing every variable-length value of the WAL and of the chunk columns uses
(`encoding/strlen.go`), and the compression layer under the columns and the WAL bodies
(`encoding/zstd.go`). The encoders always write the extended framing: a `uint16` length, with
`0xFFFF` escaping to a following `uint32`; `readValue_appendLenBytes` is its round trip.

The zstd codec itself is outside the repository. `Zstd` holds the three functions of it that the
code calls, and `Zstd.Faithful` what the code relies on: decoding inverts encoding under a
sufficient memory limit, a declared content size is the real one, and exactly the empty block has
the empty encoding.
-/

namespace OpenTrace.Encoding

open Library List

/-! ### Length prefixes -/

/-- The on-disk framing of a length-prefixed value: the bare `uint16` of old files, or the extended
framing with its escape. -/
inductive LenFormat
  | uint16
  | extended
  deriving DecidableEq, Repr

/-- Why a length-prefixed value could not be read. -/
inductive LenError
  | truncatedLengthPrefix
  | truncatedExtendedLengthPrefix
  | lengthOutOfRange (length : ℕ)
  | truncatedValue (need have' : ℕ)
  deriving DecidableEq, Repr

/-- The `uint16` that escapes to a `uint32` length. -/
def extendedLenMarker : ℕ := 0xFFFF

/-- The largest length the bare framing represents. -/
def maxUint16Len : ℕ := extendedLenMarker - 1

/-- `MaxValueBytes`: 1 GiB. -/
def maxValueBytes : ℕ := 2 ^ 30

def appendLen (length : ℕ) : Bytes :=
  if length ≤ maxUint16Len then leBytes 2 length
  else leBytes 2 extendedLenMarker ++ leBytes 4 length

/-- `AppendLenString` and `AppendLenBytes`, as the bytes they append. -/
def appendLenBytes (value : Bytes) : Bytes := appendLen value.length ++ value

def LenFormat.readLen (format : LenFormat) (input : Bytes) : Except LenError (ℕ × Bytes) :=
  match takeLe 2 input with
  | none => .error .truncatedLengthPrefix
  | some (short, rest) =>
    if format = .extended ∧ short = extendedLenMarker then
      match takeLe 4 rest with
      | none => .error .truncatedExtendedLengthPrefix
      | some (long, tail) =>
        if maxValueBytes < long then .error (.lengthOutOfRange long) else .ok (long, tail)
    else if maxValueBytes < short then .error (.lengthOutOfRange short)
    else .ok (short, rest)

/-- `ReadValue` and `ReadString`: the value and the bytes after it. -/
def LenFormat.readValue (format : LenFormat) (input : Bytes) : Except LenError (Bytes × Bytes) :=
  match format.readLen input with
  | .error error => .error error
  | .ok (length, rest) =>
    if rest.length < length then .error (.truncatedValue length rest.length)
    else .ok (rest.take length, rest.drop length)

theorem readLen_appendLen {length : ℕ} (hlength : length ≤ maxValueBytes) (rest : Bytes) :
    LenFormat.extended.readLen (appendLen length ++ rest) = .ok (length, rest) := by
  unfold maxValueBytes at hlength
  by_cases hshort : length ≤ maxUint16Len
  · have hle : length ≤ 65534 := hshort
    have hmarker : length ≠ extendedLenMarker := by
      unfold extendedLenMarker
      omega
    have hbound : ¬ maxValueBytes < length := by
      unfold maxValueBytes
      omega
    rw [appendLen, if_pos hshort, LenFormat.readLen, takeLe_leBytes_append (by omega)]
    simp only [hmarker, and_false, if_false, if_neg hbound]
  · have hbound : ¬ maxValueBytes < length := by
      unfold maxValueBytes
      omega
    rw [appendLen, if_neg hshort, append_assoc, LenFormat.readLen,
      takeLe_leBytes_append (by unfold extendedLenMarker; omega)]
    simp only [and_self, if_true]
    rw [takeLe_leBytes_append (by omega)]
    simp only [if_neg hbound]

/-- A value written with the extended framing reads back. Assumes: the value is at most 1 GiB. -/
theorem readValue_appendLenBytes {value : Bytes} (hvalue : value.length ≤ maxValueBytes)
    (rest : Bytes) :
    LenFormat.extended.readValue (appendLenBytes value ++ rest) = .ok (value, rest) := by
  have hlong : ¬ (value ++ rest).length < value.length := by simp
  rw [appendLenBytes, append_assoc, LenFormat.readValue, readLen_appendLen hvalue]
  simp only [if_neg hlong, take_left, drop_left]

theorem length_appendLen_le (length : ℕ) : (appendLen length).length ≤ 6 := by
  unfold appendLen
  split_ifs <;> simp

theorem two_le_length_appendLen (length : ℕ) : 2 ≤ (appendLen length).length := by
  unfold appendLen
  split_ifs <;> simp

theorem length_appendLenBytes_le (value : Bytes) :
    (appendLenBytes value).length ≤ 6 + value.length := by
  rw [appendLenBytes, length_append]
  exact Nat.add_le_add_right (length_appendLen_le _) _

theorem two_le_length_appendLenBytes (value : Bytes) : 2 ≤ (appendLenBytes value).length := by
  rw [appendLenBytes, length_append]
  exact le_trans (two_le_length_appendLen _) (Nat.le_add_right _ _)

/-! ### Compression -/

/-- The functions of the zstd library the code calls: `EncodeAll`, `DecodeAll` of a decoder built
with a memory limit, and the content size a frame header declares. -/
structure Zstd where
  encodeAll : Bytes → Bytes
  decodeAll : ℕ → Bytes → Option Bytes
  frameContentSize : Bytes → Option ℕ

/-- What the code relies on about zstd. -/
structure Zstd.Faithful (zstd : Zstd) : Prop where
  decode_encode : ∀ (source : Bytes) (limit : ℕ), source.length ≤ limit →
    zstd.decodeAll limit (zstd.encodeAll source) = some source
  size_encode : ∀ (source : Bytes) (size : ℕ),
    zstd.frameContentSize (zstd.encodeAll source) = some size → size = source.length
  encode_eq_nil : ∀ source : Bytes, zstd.encodeAll source = [] ↔ source = []

/-- `MaxBlockBytes`: 2 GiB. -/
def maxBlockBytes : ℕ := 2 ^ 31

/-- The doubling loop of `decoderBucket`, from a bucket size on. -/
def growBucket : ℕ → ℕ → ℕ → ℕ
  | 0, bucket, _ => bucket
  | fuel + 1, bucket, max => if bucket < max then growBucket fuel (bucket * 2) max else bucket

/-- `decoderBucket`: the ceiling rounded up to the decoder pool's bucket size. The loop starts at
1 MiB and doubles at most eleven times below 2 GiB. -/
def decoderBucket (max : ℕ) : ℕ :=
  if maxBlockBytes ≤ max then maxBlockBytes else growBucket 11 (2 ^ 20) max

section

variable (zstd : Zstd) (source : Bytes)

def compress : Bytes := zstd.encodeAll source

/-- `DecompressBounded`: nothing when the block would expand past the ceiling or does not decode. -/
def decompressBounded (maxDecoded : ℕ) : Option Bytes :=
  if source = [] then some []
  else
    let ceiling := if maxDecoded = 0 ∨ maxBlockBytes < maxDecoded then maxBlockBytes else maxDecoded
    match zstd.frameContentSize source with
    | some size => if ceiling < size then none else zstd.decodeAll (decoderBucket ceiling) source
    | none => zstd.decodeAll (decoderBucket ceiling) source

def decompress : Option Bytes := decompressBounded zstd source maxBlockBytes

end

theorem le_growBucket {fuel bucket max : ℕ} (hmax : max ≤ bucket * 2 ^ fuel) :
    max ≤ growBucket fuel bucket max := by
  induction fuel generalizing bucket with
  | zero => simpa [growBucket] using hmax
  | succ fuel ih =>
    rw [growBucket]
    split_ifs with hsmall
    · exact ih (by rwa [pow_succ', ← mul_assoc] at hmax)
    · exact not_lt.mp hsmall

theorem le_decoderBucket {max : ℕ} (hmax : max ≤ maxBlockBytes) : max ≤ decoderBucket max := by
  unfold decoderBucket
  split_ifs with hfull
  · exact hmax
  · exact le_growBucket (by unfold maxBlockBytes at hfull; omega)

/-- A compressed block decodes again under every ceiling that admits it. Assumes: a faithful codec,
and a ceiling, or the 2 GiB default for a zero or larger one, of at least the block's length. -/
theorem decompressBounded_compress {zstd : Zstd} (hzstd : zstd.Faithful) {source : Bytes}
    {maxDecoded : ℕ}
    (hfits : source.length ≤
      if maxDecoded = 0 ∨ maxBlockBytes < maxDecoded then maxBlockBytes else maxDecoded) :
    decompressBounded zstd (compress zstd source) maxDecoded = some source := by
  by_cases hsource : source = []
  · subst hsource
    simp [decompressBounded, compress, (hzstd.encode_eq_nil []).mpr rfl]
  · have hencoded : compress zstd source ≠ [] := mt (hzstd.encode_eq_nil source).mp hsource
    have hceiling : (if maxDecoded = 0 ∨ maxBlockBytes < maxDecoded then maxBlockBytes
        else maxDecoded) ≤ maxBlockBytes := by
      split_ifs with hdefault
      · exact le_rfl
      · omega
    have hdecode := hzstd.decode_encode source _ (hfits.trans (le_decoderBucket hceiling))
    simp only [decompressBounded, if_neg hencoded]
    cases hsize : zstd.frameContentSize (compress zstd source) with
    | none => exact hdecode
    | some size =>
      have hexact := hzstd.size_encode source size hsize
      simp only [hexact]
      rw [if_neg (not_lt.mpr hfits)]
      exact hdecode

/-- Assumes: a faithful codec and a block of at most 2 GiB. -/
theorem decompress_compress {zstd : Zstd} (hzstd : zstd.Faithful) {source : Bytes}
    (hfits : source.length ≤ maxBlockBytes) :
    decompress zstd (compress zstd source) = some source :=
  decompressBounded_compress hzstd (by simpa using hfits)

/-- A block that declares more than 2 GiB is refused. -/
theorem decompress_eq_none {zstd : Zstd} {source : Bytes} {size : ℕ} (hsource : source ≠ [])
    (hdeclared : zstd.frameContentSize source = some size) (hlarge : maxBlockBytes < size) :
    decompress zstd source = none := by
  simp only [decompress, decompressBounded, if_neg hsource, hdeclared]
  rw [if_pos]
  split_ifs <;> exact hlarge

/-- A codec that stores every block as it is. -/
def Zstd.stored : Zstd where
  encodeAll := id
  decodeAll := fun limit source ↦ if source.length ≤ limit then some source else none
  frameContentSize := fun _ ↦ none

theorem Zstd.stored_faithful : Zstd.stored.Faithful where
  decode_encode := fun _ _ hfits ↦ if_pos hfits
  size_encode := fun _ _ hsize ↦ by simp [Zstd.stored] at hsize
  encode_eq_nil := fun _ ↦ Iff.rfl

/-- A codec that writes a block of zeros as its length, and stores every other block. -/
def Zstd.zeroRuns : Zstd where
  encodeAll := fun source ↦
    if source = [] then []
    else if source.length < 256 ^ 8 ∧ source = replicate source.length 0 then
      1 :: leBytes 8 source.length
    else 0 :: source
  decodeAll := fun limit source ↦
    match source with
    | [] => some []
    | 0 :: stored => if stored.length ≤ limit then some stored else none
    | _ :: length => if ofLe length ≤ limit then some (replicate (ofLe length) 0) else none
  frameContentSize := fun source ↦
    match source with
    | [] => none
    | 0 :: stored => some stored.length
    | _ :: length => some (ofLe length)

theorem Zstd.zeroRuns_faithful : Zstd.zeroRuns.Faithful where
  decode_encode := fun source limit hfits ↦ by
    simp only [Zstd.zeroRuns]
    split_ifs with hnil hzeros
    · rw [hnil]
    · obtain ⟨hlength, hzeros⟩ := hzeros
      change (if ofLe (leBytes 8 source.length) ≤ limit then
        some (replicate (ofLe (leBytes 8 source.length)) 0) else none) = some source
      rw [ofLe_leBytes_of_lt hlength, if_pos hfits]
      exact congrArg some hzeros.symm
    · exact if_pos hfits
  size_encode := fun source size hsize ↦ by
    simp only [Zstd.zeroRuns] at hsize
    split_ifs at hsize with hnil hzeros
    · change some (ofLe (leBytes 8 source.length)) = some size at hsize
      rw [ofLe_leBytes_of_lt hzeros.1] at hsize
      exact (Option.some.inj hsize).symm
    · exact (Option.some.inj hsize).symm
  encode_eq_nil := fun source ↦ by
    simp only [Zstd.zeroRuns]
    split_ifs with hnil hzeros <;> simp [hnil]

theorem compress_zeros {count : ℕ} (hpositive : 0 < count) (hcount : count < 256 ^ 8) :
    compress Zstd.zeroRuns (replicate count 0) = 1 :: leBytes 8 count := by
  have hne : replicate count (0 : UInt8) ≠ [] := ne_nil_of_length_pos (by rwa [length_replicate])
  simp only [compress, Zstd.zeroRuns, if_neg hne, length_replicate, hcount, and_self, if_true]

end OpenTrace.Encoding
