import Mathlib.Data.Nat.Bitwise
import OpenTrace.Chunk.Entry
import OpenTrace.Encoding.Framing

/-!
# WAL records

`wal/binary.go`: the compact record of one entry and its decoder. A record is a `uint32` length and
a payload: the fixed prefix (`id`, `ts`, `received_at`, level byte, flag word), the level text when
it has no level byte, service and message, then every optional field whose flag is set, in flag
order, and the body.

The record does not hold every entry exactly. `persisted` is the entry that comes back: `warning`
reads as `warn`, a field over 1 MiB is cut, a count that is not positive reads as zero, a status is
taken modulo 65536, and a body whose stored form is over 8 MiB is dropped. `unmarshalEntry_payload`
is the round trip, and `length_payload_bounds` says that the reader accepts every length the writer
produces.
-/

namespace OpenTrace.Wal

open Library Encoding Chunk List

/-! ### Levels -/

def levelToEnum (level : Bytes) : Option UInt8 :=
  if level = ascii "trace" then some 0
  else if level = ascii "debug" then some 1
  else if level = ascii "info" then some 2
  else if level = ascii "warn" then some 3
  else if level = ascii "warning" then some 3
  else if level = ascii "error" then some 4
  else if level = ascii "fatal" then some 5
  else none

def enumToLevel : List Bytes :=
  [ascii "trace", ascii "debug", ascii "info", ascii "warn", ascii "error", ascii "fatal"]

/-- The level byte of a level outside `levelToEnum`, whose text follows the flags. -/
def levelEnumCustom : UInt8 := 0xFF

/-- The level of a level byte: an unknown byte reads as `info`. -/
def levelOfEnum (levelEnum : UInt8) : Bytes := enumToLevel.getD levelEnum.toNat (ascii "info")

/-! ### Limits -/

/-- `MaxFieldBytes`: 1 MiB. -/
def maxFieldBytes : ℕ := 2 ^ 20

/-- `maxCompressedBodyBytes`: 8 MiB. -/
def maxCompressedBodyBytes : ℕ := 8 * 2 ^ 20

/-- `maxRecordBytes`: 48 MiB. -/
def maxRecordBytes : ℕ := 48 * 2 ^ 20

/-- `minRecordBytes`: the fixed prefix. -/
def minRecordBytes : ℕ := 33

/-- `utf8.RuneStart`: not a UTF-8 continuation byte. -/
def runeStart (byte : UInt8) : Bool := byte &&& 0xC0 != 0x80

/-- The cut of `truncateField`, moved back from an offset to the start of a rune. -/
def runeBoundary (text : Bytes) : ℕ → ℕ
  | 0 => 0
  | cut + 1 => if runeStart (text.getD (cut + 1) 0) then cut + 1 else runeBoundary text cut

def truncateField (text : Bytes) : Bytes :=
  if text.length ≤ maxFieldBytes then text else text.take (runeBoundary text maxFieldBytes)

def appendString (text : Bytes) : Bytes := appendLenBytes (truncateField text)

/-! ### Encoding -/

/-- The optional fields in the order of their flag bits, which is the order of the record. -/
def wireFields : List Field :=
  [.str .env, .str .version, .str .host, .str .kind, .str .eventType, .str .traceID, .str .spanID,
    .str .parentSpanID, .str .requestID, .str .userID, .str .tenantID, .str .sessionID,
    .str .method, .str .path, .str .route, .str .handler, .int .status, .int .durationMs,
    .int .dbMs, .int .dbCount, .int .cacheMs, .int .cacheHits, .int .cacheMisses, .int .extMs,
    .int .extCount, .int .renderMs, .int .allocCount, .int .memDeltaMb, .nPlusOne,
    .int .slowQueries, .int .dupQueries, .str .errorClass, .str .errorMessage, .str .sourceFile,
    .int .sourceLine, .str .errorFingerprint, .str .jobClass, .str .jobQueue, .str .jobID,
    .int .queueMs]

def flagBody : ℕ := 40

def flagRawBody : ℕ := 62

def flagExtendedStrings : ℕ := 63

/-- The compression the WAL uses and whether it compresses bodies (`CompressBodies`). -/
structure Codec where
  zstd : Zstd
  compressBodies : Bool

/-- Whether the record holds a field: a non-empty string, a positive count, a set pointer. -/
def present (entry : Entry) : Field → Bool
  | .str field => entry.str field ≠ []
  | .int field => 0 < entry.int field
  | .nPlusOne => entry.nPlusOne.isSome

def encodeField (entry : Entry) : Field → Bytes
  | .str field => appendString (entry.str field)
  | .int field =>
    if field = .status then leBytes 2 (entry.int field).toUInt64.toNat
    else putUvarint (entry.int field).toUInt64.toNat
  | .nPlusOne => [if entry.nPlusOne = some true then 1 else 0]

def encodeFields (entry : Entry) (fields : List Field) : Bytes :=
  fields.flatMap fun field ↦ if present entry field then encodeField entry field else []

variable (codec : Codec)

section

variable (entry : Entry)

/-- The form a body is stored in: compressed, or raw. -/
def Codec.bodyForm : Bytes :=
  if codec.compressBodies then compress codec.zstd entry.body else entry.body

/-- The body as the record holds it, if it has one and its stored form is not too large. -/
def Codec.storedBody : Option Bytes :=
  if entry.body = [] then none
  else if maxCompressedBodyBytes < (codec.bodyForm entry).length then none
  else some (codec.bodyForm entry)

def Codec.flagSet (bit : ℕ) : Bool :=
  match wireFields[bit]? with
  | some field => present entry field
  | none =>
    bit == flagExtendedStrings || bit == flagBody && (codec.storedBody entry).isSome ||
      bit == flagRawBody && !codec.compressBodies && entry.body ≠ []

/-- The flag word. -/
def Codec.flags : ℕ := Nat.ofBits fun bit : Fin 64 ↦ codec.flagSet entry bit

def encodeLevel : Bytes :=
  if (levelToEnum (entry.str .level)).isSome then [] else appendString (entry.str .level)

end

def encodeBody : Option Bytes → Bytes
  | none => []
  | some body => leBytes 4 body.length ++ body

/-- The record of an entry after its length. -/
def Codec.payload (entry : Entry) : Bytes :=
  leBytes 8 entry.id.toUInt64.toNat ++ leBytes 8 entry.ts.toUInt64.toNat ++
    leBytes 8 entry.receivedAt.toUInt64.toNat ++
    [(levelToEnum (entry.str .level)).getD levelEnumCustom] ++ leBytes 8 (codec.flags entry) ++
    encodeLevel entry ++ appendString (entry.str .service) ++ appendString (entry.str .message) ++
    encodeFields entry wireFields ++ encodeBody (codec.storedBody entry)

def Codec.marshalEntry (entry : Entry) : Bytes :=
  leBytes 4 (codec.payload entry).length ++ codec.payload entry

def Codec.appendEntry (buffer : Bytes) (entry : Entry) : Bytes := buffer ++ codec.marshalEntry entry

/-! ### Decoding -/

/-- Why one field of a record could not be read. -/
inductive FieldError
  | length (cause : LenError)
  | invalidUvarint
  | truncated
  deriving DecidableEq, Repr

/-- Why a record could not be decoded. -/
inductive RecordError
  | tooShort (length : ℕ)
  | read (name : String) (cause : FieldError)
  | decompressBody
  | trailing (left parsed : ℕ)
  deriving DecidableEq, Repr

def readString (format : LenFormat) (name : String) (input : Bytes) :
    Except RecordError (Bytes × Bytes) :=
  match format.readValue input with
  | .error cause => .error (.read name (.length cause))
  | .ok result => .ok result

/-- Decodes the custom level text, or takes the level of the level byte. -/
def decodeLevel (format : LenFormat) (levelEnum : UInt8) (flags : ℕ) (input : Bytes) :
    Except RecordError (Bytes × Bytes) :=
  if levelEnum = levelEnumCustom ∧ flags.testBit flagExtendedStrings then
    readString format "level" input
  else .ok (levelOfEnum levelEnum, input)

def decodeField (format : LenFormat) (entry : Entry) (input : Bytes) :
    Field → Except RecordError (Entry × Bytes)
  | .str field =>
    match readString format field.name input with
    | .error error => .error error
    | .ok (value, rest) => .ok (entry.setStr field value, rest)
  | .int field =>
    if field = .status then
      match takeLe 2 input with
      | none => .error (.read field.name .truncated)
      | some (value, rest) => .ok (entry.setInt field (Int64.ofNat value), rest)
    else
      match takeUvarint input with
      | none => .error (.read field.name .invalidUvarint)
      | some (value, rest) => .ok (entry.setInt field (UInt64.ofNat value).toInt64, rest)
  | .nPlusOne =>
    match input with
    | [] => .error (.read Field.nPlusOne.name .truncated)
    | byte :: rest => .ok ({ entry with nPlusOne := some (byte ≠ 0) }, rest)

/-- Decodes the fields whose flag is set, each given with its flag bit. -/
def decodeFields (format : LenFormat) (flags : ℕ) :
    List (Field × ℕ) → Entry → Bytes → Except RecordError (Entry × Bytes)
  | [], entry, input => .ok (entry, input)
  | (field, bit) :: fields, entry, input =>
    if flags.testBit bit then
      match decodeField format entry input field with
      | .error error => .error error
      | .ok (entry, rest) => decodeFields format flags fields entry rest
    else decodeFields format flags fields entry input

def decodeBody (zstd : Zstd) (flags : ℕ) (input : Bytes) : Except RecordError (Bytes × Bytes) :=
  if flags.testBit flagBody then
    match takeLe 4 input with
    | none => .error (.read "body length" .truncated)
    | some (length, rest) =>
      if rest.length < length then .error (.read "body" .truncated)
      else if flags.testBit flagRawBody then .ok (rest.take length, rest.drop length)
      else
        match decompress zstd (rest.take length) with
        | none => .error .decompressBody
        | some body => .ok (body, rest.drop length)
  else .ok ([], input)

/-- The record's strings and fields after the fixed prefix, decoded into an entry that holds the
prefix. -/
def decodeRest (zstd : Zstd) (levelEnum : UInt8) (flags : ℕ) (entry : Entry) (input : Bytes) :
    Except RecordError (Entry × Bytes) := do
  let format := if flags.testBit flagExtendedStrings then .extended else .uint16
  let (level, input) ← decodeLevel format levelEnum flags input
  let (service, input) ← readString format "service" input
  let (message, input) ← readString format "message" input
  let entry := ((entry.setStr .level level).setStr .service service).setStr .message message
  let (entry, input) ← decodeFields format flags wireFields.zipIdx entry input
  let (body, input) ← decodeBody zstd flags input
  return ({ entry with body := body }, input)

def unmarshalEntry (zstd : Zstd) (data : Bytes) : Except RecordError Entry :=
  if data.length < minRecordBytes then .error (.tooShort data.length)
  else
    let entry : Entry := { Entry.zero with
      id := (UInt64.ofNat (ofLe (data.take 8))).toInt64
      ts := (UInt64.ofNat (ofLe ((data.drop 8).take 8))).toInt64
      receivedAt := (UInt64.ofNat (ofLe ((data.drop 16).take 8))).toInt64 }
    let levelEnum := (data.drop 24).headD 0
    let flags := ofLe ((data.drop 25).take 8)
    match decodeRest zstd levelEnum flags entry (data.drop 33) with
    | .error error => .error error
    | .ok (entry, rest) =>
      if rest = [] then .ok entry
      else .error (.trailing rest.length (data.length - rest.length))

/-! ### What a record keeps -/

def persistedStr (entry : Entry) (field : StrField) : Bytes :=
  match field with
  | .level =>
    match levelToEnum (entry.str .level) with
    | some levelEnum => levelOfEnum levelEnum
    | none => truncateField (entry.str .level)
  | field => truncateField (entry.str field)

def persistedInt (entry : Entry) (field : IntField) : Int64 :=
  if 0 < entry.int field then
    if field = .status then Int64.ofNat ((entry.int field).toUInt64.toNat % 2 ^ 16)
    else entry.int field
  else 0

/-- The entry that the record of an entry reads back as. -/
def Codec.persisted (entry : Entry) : Entry :=
  { entry with
    str := persistedStr entry
    int := persistedInt entry
    body := if (codec.storedBody entry).isSome then entry.body else [] }

/-! ### Round trip -/

variable (text : Bytes) {field : Field} (rest : Bytes) (entry : Entry)

theorem runeBoundary_le (cut : ℕ) : runeBoundary text cut ≤ cut := by
  induction cut with
  | zero => exact le_rfl
  | succ cut ih =>
    rw [runeBoundary]
    split_ifs
    · exact le_rfl
    · exact ih.trans (Nat.le_succ cut)

theorem length_truncateField_le : (truncateField text).length ≤ maxFieldBytes := by
  unfold truncateField
  split_ifs with hshort
  · exact hshort
  · exact (length_take_le _ _).trans (runeBoundary_le _ _)

theorem readString_appendString (name : String) (text rest : Bytes) :
    readString .extended name (appendString text ++ rest) = .ok (truncateField text, rest) := by
  have hvalue : (truncateField text).length ≤ maxValueBytes :=
    (length_truncateField_le text).trans (by unfold maxFieldBytes maxValueBytes; omega)
  rw [readString, appendString, readValue_appendLenBytes hvalue]

/-- A field that was written decodes to the persisted entry's field. Assumes: the field is present,
and is not the level, which has its own encoding. -/
theorem decodeField_encodeField {entry : Entry} {field : Field} (hpresent : present entry field)
    (hlevel : field ≠ .str .level) (target : Entry) (rest : Bytes) :
    decodeField .extended target (encodeField entry field ++ rest) field =
      .ok (field.copy (codec.persisted entry) target, rest) := by
  cases field with
  | str strField =>
    have hkept : persistedStr entry strField = truncateField (entry.str strField) := by
      cases strField
      case level => exact absurd rfl hlevel
      all_goals rfl
    simp only [decodeField, encodeField, readString_appendString, Field.copy, Codec.persisted, hkept]
  | int intField =>
    have hpositive : 0 < entry.int intField := by simpa [present] using hpresent
    by_cases hstatus : intField = .status
    · subst hstatus
      simp only [decodeField, encodeField, if_true, takeLe]
      have hlong : ¬ (leBytes 2 (entry.int .status).toUInt64.toNat ++ rest).length < 2 := by
        rw [length_append, length_leBytes]
        omega
      rw [if_neg hlong, take_leBytes_append, drop_leBytes_append, ofLe_leBytes]
      simp [Field.copy, Codec.persisted, persistedInt, hpositive]
    · have hbound : (entry.int intField).toUInt64.toNat < 2 ^ 64 := UInt64.toNat_lt _
      simp only [decodeField, encodeField, if_neg hstatus, takeUvarint_putUvarint_append hbound,
        UInt64.ofNat_toNat, Int64.toInt64_toUInt64, Field.copy, Codec.persisted, persistedInt,
        if_pos hpositive]
  | nPlusOne =>
    obtain ⟨value, hvalue⟩ := Option.isSome_iff_exists.mp (by simpa [present] using hpresent)
    cases value <;> simp [decodeField, encodeField, Field.copy, Codec.persisted, hvalue]

theorem decodeFields_encodeFields {entry : Entry} {flags : ℕ} (fields : List (Field × ℕ))
    (hflags : ∀ pair ∈ fields, flags.testBit pair.2 = present entry pair.1)
    (hlevel : ∀ pair ∈ fields, pair.1 ≠ .str .level) (target : Entry) (rest : Bytes) :
    decodeFields .extended flags fields target (encodeFields entry (fields.map Prod.fst) ++ rest) =
      .ok ((fields.map Prod.fst).foldl
        (Field.copyWhen (codec.persisted entry) (present entry)) target, rest) := by
  induction fields generalizing target with
  | nil => rfl
  | cons pair fields ih =>
    obtain ⟨field, bit⟩ := pair
    have hbit : flags.testBit bit = present entry field := hflags _ mem_cons_self
    have hne : field ≠ .str .level := hlevel _ mem_cons_self
    have htail := ih (fun other hother ↦ hflags other (mem_cons_of_mem _ hother))
      (fun other hother ↦ hlevel other (mem_cons_of_mem _ hother))
    simp only [encodeFields, map_cons, flatMap_cons, foldl_cons] at htail ⊢
    by_cases hpresent : present entry field
    · simp only [decodeFields, hbit, hpresent, if_true, append_assoc,
        decodeField_encodeField codec hpresent hne, htail, Field.copyWhen]
    · simp only [decodeFields, hbit, hpresent, nil_append, htail, Field.copyWhen,
        Bool.false_eq_true, if_false]

theorem testBit_flags {bit : ℕ} (hbit : bit < 64) (entry : Entry) :
    (codec.flags entry).testBit bit = codec.flagSet entry bit :=
  Nat.testBit_ofBits_lt _ bit hbit

theorem testBit_flags_field (pair : Field × ℕ) (hpair : pair ∈ wireFields.zipIdx) :
    (codec.flags entry).testBit pair.2 = present entry pair.1 := by
  have hget : wireFields[pair.2]? = some pair.1 := mem_zipIdx_iff_getElem?.mp hpair
  have hbit : pair.2 < wireFields.length := (List.getElem?_eq_some_iff.mp hget).choose
  rw [testBit_flags codec (lt_of_lt_of_le hbit (by decide)), Codec.flagSet, hget]

theorem testBit_flags_extended : (codec.flags entry).testBit flagExtendedStrings = true := by
  rw [testBit_flags codec (by decide)]
  rfl

theorem testBit_flags_body :
    (codec.flags entry).testBit flagBody = (codec.storedBody entry).isSome := by
  rw [testBit_flags codec (by decide)]
  have hnone : wireFields[flagBody]? = none := by decide
  rw [Codec.flagSet, hnone]
  simp [flagBody, flagExtendedStrings, flagRawBody]

theorem testBit_flags_rawBody :
    (codec.flags entry).testBit flagRawBody = (!codec.compressBodies && entry.body ≠ []) := by
  rw [testBit_flags codec (by decide)]
  have hnone : wireFields[flagRawBody]? = none := by decide
  rw [Codec.flagSet, hnone]
  simp [flagBody, flagExtendedStrings, flagRawBody]

theorem storedBody_eq_some {entry : Entry} {stored : Bytes}
    (hstored : codec.storedBody entry = some stored) :
    entry.body ≠ [] ∧ stored.length ≤ maxCompressedBodyBytes ∧ stored = codec.bodyForm entry := by
  unfold Codec.storedBody at hstored
  split_ifs at hstored with hempty hlarge
  cases hstored
  exact ⟨hempty, not_lt.mp hlarge, rfl⟩

/-- A body that the record holds compressed is not larger than what the decoder expands. -/
def Codec.Readable (entry : Entry) : Prop :=
  codec.compressBodies = true → (codec.storedBody entry).isSome → entry.body.length ≤ maxBlockBytes

instance (entry : Entry) : Decidable (codec.Readable entry) :=
  inferInstanceAs (Decidable (_ → _ → _))

/-- Assumes: a faithful compression and a readable body. -/
theorem decodeBody_encodeBody (hzstd : codec.zstd.Faithful) {entry : Entry}
    (hbody : codec.Readable entry) :
    decodeBody codec.zstd (codec.flags entry) (encodeBody (codec.storedBody entry)) =
      .ok ((codec.persisted entry).body, []) := by
  unfold decodeBody
  rw [testBit_flags_body, testBit_flags_rawBody]
  cases hstored : codec.storedBody entry with
  | none => simp [Codec.persisted, hstored, encodeBody]
  | some stored =>
    obtain ⟨hne, hsize, hform⟩ := storedBody_eq_some codec hstored
    have hfits : stored.length < 256 ^ 4 := hsize.trans_lt (by unfold maxCompressedBodyBytes; omega)
    simp only [encodeBody, Option.isSome_some, if_true, takeLe_leBytes_append hfits, lt_irrefl,
      if_false, take_length, drop_length, Codec.persisted, hstored]
    by_cases hcompress : codec.compressBodies
    · have hvalue : stored = compress codec.zstd entry.body := by
        rw [hform, Codec.bodyForm, if_pos hcompress]
      have hfits : entry.body.length ≤ maxBlockBytes := hbody hcompress (by simp [hstored])
      simp [hcompress, hvalue, decompress_compress hzstd hfits]
    · have hvalue : stored = entry.body := by
        rw [hform, Codec.bodyForm, if_neg hcompress]
      simp [hcompress, hvalue, hne]

theorem decodeBody_eq_error {entry : Entry} {stored : Bytes} (hcompress : codec.compressBodies = true)
    (hstored : codec.storedBody entry = some stored) (hnone : decompress codec.zstd stored = none) :
    decodeBody codec.zstd (codec.flags entry) (encodeBody (codec.storedBody entry)) =
      .error .decompressBody := by
  obtain ⟨-, hsize, -⟩ := storedBody_eq_some codec hstored
  have hfits : stored.length < 256 ^ 4 := hsize.trans_lt (by unfold maxCompressedBodyBytes; omega)
  rw [decodeBody, testBit_flags_body, testBit_flags_rawBody, hstored]
  simp only [encodeBody, Option.isSome_some, if_true, takeLe_leBytes_append hfits, lt_irrefl,
    if_false, take_length, hcompress, Bool.not_true, Bool.false_and, Bool.false_eq_true, hnone]

theorem decodeLevel_encodeLevel (entry : Entry) (rest : Bytes) :
    decodeLevel .extended ((levelToEnum (entry.str .level)).getD levelEnumCustom)
        (codec.flags entry) (encodeLevel entry ++ rest) =
      .ok (persistedStr entry .level, rest) := by
  rw [decodeLevel, testBit_flags_extended, encodeLevel]
  cases hlevel : levelToEnum (entry.str .level) with
  | none => simp [persistedStr, hlevel, readString_appendString]
  | some levelEnum =>
    have hne : levelEnum ≠ levelEnumCustom := by
      unfold levelToEnum at hlevel
      split_ifs at hlevel <;> cases hlevel <;> decide
    simp [persistedStr, hlevel, hne]

theorem read_persisted_of_absent {entry : Entry} (habsent : ¬ present entry field) :
    field.read (codec.persisted entry) = field.read Entry.zero := by
  cases field with
  | str strField =>
    have hempty : entry.str strField = [] := by simpa [present] using habsent
    cases strField <;> simp [Field.read, Codec.persisted, persistedStr, hempty, Entry.zero,
      truncateField, levelToEnum, ascii]
  | int intField =>
    have hcount : ¬ 0 < entry.int intField := by simpa [present] using habsent
    simp [Field.read, Codec.persisted, persistedInt, hcount, Entry.zero]
  | nPlusOne =>
    have hunset : entry.nPlusOne = none := by simpa [present] using habsent
    simp [Field.read, Codec.persisted, hunset, Entry.zero]

theorem mem_wireFields_or (field : Field) :
    field ∈ wireFields ∨ field = .str .level ∨ field = .str .service ∨ field = .str .message := by
  cases field with
  | str strField => cases strField <;> decide
  | int intField => cases intField <;> decide
  | nPlusOne => decide

/-- The fixed prefix, decoded. -/
private def prefixEntry (entry : Entry) : Entry :=
  { Entry.zero with id := entry.id, ts := entry.ts, receivedAt := entry.receivedAt }

/-- The fixed prefix and the three strings every record holds, decoded. -/
private def requiredEntry (entry : Entry) : Entry :=
  (((prefixEntry entry).setStr .level (persistedStr entry .level)).setStr .service
    (truncateField (entry.str .service))).setStr .message (truncateField (entry.str .message))

private theorem read_requiredEntry (hwire : field ∈ wireFields) :
    field.read (requiredEntry entry) = field.read Entry.zero := by
  cases field with
  | str strField =>
    cases strField
    case level | service | message => exact absurd hwire (by decide)
    all_goals rfl
  | int intField => rfl
  | nPlusOne => rfl

private theorem foldl_copyWhen_wireFields :
    { wireFields.foldl (Field.copyWhen (codec.persisted entry) (present entry))
        (requiredEntry entry) with
      body := (codec.persisted entry).body } = codec.persisted entry := by
  have hfixed := fixed_foldl_copyWhen (codec.persisted entry) (present entry) wireFields
    (requiredEntry entry)
  simp only [Entry.fixed, Prod.mk.injEq] at hfixed
  obtain ⟨hid, hts, hreceived, -⟩ := hfixed
  refine Entry.ext_of_read ?_ fun field ↦ ?_
  · simp only [Entry.fixed, hid, hts, hreceived]
    rfl
  · have hbody : ∀ (holder : Entry) (body : Bytes),
        field.read { holder with body := body } = field.read holder := by
      intro holder body
      cases field <;> rfl
    rw [hbody, read_foldl_copyWhen]
    rcases mem_wireFields_or field with hwire | rfl | rfl | rfl
    · by_cases hpresent : present entry field
      · rw [if_pos ⟨hwire, hpresent⟩]
      · rw [if_neg fun hcopied ↦ hpresent hcopied.2, read_persisted_of_absent codec hpresent]
        exact read_requiredEntry entry hwire
    · rfl
    · rfl
    · rfl

/-- Everything but the body of a record decodes. -/
theorem decodeRest_payload :
    decodeRest codec.zstd ((levelToEnum (entry.str .level)).getD levelEnumCustom)
        (codec.flags entry) (prefixEntry entry)
        (encodeLevel entry ++ (appendString (entry.str .service) ++
          (appendString (entry.str .message) ++ (encodeFields entry wireFields ++
            encodeBody (codec.storedBody entry))))) =
      (decodeBody codec.zstd (codec.flags entry) (encodeBody (codec.storedBody entry))).map
        fun decoded ↦ ({ codec.persisted entry with body := decoded.1 }, decoded.2) := by
  have hfields := decodeFields_encodeFields codec wireFields.zipIdx
    (testBit_flags_field codec entry) (by decide)
  simp only [zipIdx_map_fst] at hfields
  simp only [decodeRest, testBit_flags_extended, if_true, decodeLevel_encodeLevel,
    readString_appendString, hfields, bind, Except.bind, pure, Except.pure]
  cases decodeBody codec.zstd (codec.flags entry) (encodeBody (codec.storedBody entry)) with
  | error error => rfl
  | ok decoded =>
    exact congrArg (fun kept : Entry ↦ Except.ok ({ kept with body := decoded.1 }, decoded.2))
      (foldl_copyWhen_wireFields codec entry)

private theorem ofNat_ofLe_leBytes (value : Int64) :
    (UInt64.ofNat (ofLe (leBytes 8 value.toUInt64.toNat))).toInt64 = value := by
  rw [ofLe_leBytes_of_lt (by simpa using UInt64.toNat_lt value.toUInt64), UInt64.ofNat_toNat,
    Int64.toInt64_toUInt64]

private theorem Codec.payload_eq :
    codec.payload entry = leBytes 8 entry.id.toUInt64.toNat ++ (leBytes 8 entry.ts.toUInt64.toNat ++
      (leBytes 8 entry.receivedAt.toUInt64.toNat ++
        ((levelToEnum (entry.str .level)).getD levelEnumCustom :: (leBytes 8 (codec.flags entry) ++
          (encodeLevel entry ++ (appendString (entry.str .service) ++
            (appendString (entry.str .message) ++ (encodeFields entry wireFields ++
              encodeBody (codec.storedBody entry))))))))) := by
  simp [Codec.payload]

/-- Where the parts of the fixed prefix lie. -/
private theorem drop_fixedPrefix {id ts receivedAt flags : ℕ} {level : UInt8} {rest data : Bytes}
    (hdata : data = leBytes 8 id ++ (leBytes 8 ts ++ (leBytes 8 receivedAt ++
      (level :: (leBytes 8 flags ++ rest))))) :
    (data.drop 8).take 8 = leBytes 8 ts ∧ (data.drop 16).take 8 = leBytes 8 receivedAt ∧
      (data.drop 24).headD 0 = level ∧ (data.drop 25).take 8 = leBytes 8 flags ∧
      data.drop 33 = rest := by
  subst hdata
  exact ⟨rfl, rfl, rfl, rfl, rfl⟩

/-- A record decodes as far as its body does. -/
theorem unmarshalEntry_payload_eq : unmarshalEntry codec.zstd (codec.payload entry) =
      match decodeBody codec.zstd (codec.flags entry) (encodeBody (codec.storedBody entry)) with
      | .error error => .error error
      | .ok (body, rest) =>
        if rest = [] then .ok { codec.persisted entry with body := body }
        else .error (.trailing rest.length ((codec.payload entry).length - rest.length)) := by
  have hlong : ¬ (codec.payload entry).length < minRecordBytes := by
    simp only [Codec.payload, length_append, length_leBytes, length_singleton, minRecordBytes]
    omega
  have hflags : codec.flags entry < 256 ^ 8 := Nat.ofBits_lt_two_pow _
  have htake : (codec.payload entry).take 8 = leBytes 8 entry.id.toUInt64.toNat := by
    rw [codec.payload_eq, take_leBytes_append]
  obtain ⟨hts, hreceived, hlevel, hword, hrest⟩ := drop_fixedPrefix (codec.payload_eq entry)
  rw [unmarshalEntry, if_neg hlong]
  simp only [htake, hts, hreceived, hlevel, hword, hrest, ofNat_ofLe_leBytes,
    ofLe_leBytes_of_lt hflags]
  have hdecoded := decodeRest_payload codec entry
  unfold prefixEntry at hdecoded
  rw [hdecoded]
  cases decodeBody codec.zstd (codec.flags entry) (encodeBody (codec.storedBody entry)) <;> rfl

/-- A record reads back as the persisted entry. Assumes: a faithful compression and a readable
body. -/
theorem unmarshalEntry_payload (hzstd : codec.zstd.Faithful) {entry : Entry}
    (hbody : codec.Readable entry) :
    unmarshalEntry codec.zstd (codec.payload entry) = .ok (codec.persisted entry) := by
  rw [unmarshalEntry_payload_eq, decodeBody_encodeBody codec hzstd hbody]
  rfl

/-! ### Record sizes -/

/-- The most bytes a field takes in a record. -/
def fieldBound : Field → ℕ
  | .str _ => 6 + maxFieldBytes
  | .int _ => 10
  | .nPlusOne => 1

theorem length_appendString_le : (appendString text).length ≤ 6 + maxFieldBytes :=
  (length_appendLenBytes_le _).trans (Nat.add_le_add_left (length_truncateField_le text) 6)

theorem length_encodeField_le (field : Field) :
    (encodeField entry field).length ≤ fieldBound field := by
  cases field with
  | str strField => exact length_appendString_le _
  | int intField =>
    simp only [encodeField, fieldBound]
    split_ifs
    · simp
    · exact length_putUvarint_le _
  | nPlusOne => exact le_rfl

theorem length_encodeFields_le (fields : List Field) :
    (encodeFields entry fields).length ≤ (fields.map fieldBound).sum := by
  induction fields with
  | nil => exact le_rfl
  | cons field fields ih =>
    simp only [encodeFields, flatMap_cons, length_append, map_cons, sum_cons] at ih ⊢
    refine Nat.add_le_add ?_ ih
    split_ifs
    · exact length_encodeField_le entry field
    · exact Nat.zero_le _

theorem length_encodeBody_le :
    (encodeBody (codec.storedBody entry)).length ≤ 4 + maxCompressedBodyBytes := by
  cases hstored : codec.storedBody entry with
  | none => exact Nat.zero_le _
  | some stored =>
    obtain ⟨-, hsize, -⟩ := storedBody_eq_some codec hstored
    rw [encodeBody, length_append, length_leBytes]
    exact Nat.add_le_add_left hsize 4

theorem length_marshalEntry :
    (codec.marshalEntry entry).length = 4 + (codec.payload entry).length := by
  rw [Codec.marshalEntry, length_append, length_leBytes]

/-- A record stays below the limit even with its length counted in. -/
theorem length_marshalEntry_le : (codec.marshalEntry entry).length ≤ maxRecordBytes := by
  have hlevel : (encodeLevel entry).length ≤ 6 + maxFieldBytes := by
    unfold encodeLevel
    split_ifs
    · exact Nat.zero_le _
    · exact length_appendString_le _
  have hservice := length_appendString_le (entry.str .service)
  have hmessage := length_appendString_le (entry.str .message)
  have hfields := length_encodeFields_le entry wireFields
  have hsum : (wireFields.map fieldBound).sum = 23 * (6 + maxFieldBytes) + 161 := by decide
  have hbody := length_encodeBody_le codec entry
  rw [length_marshalEntry]
  simp only [Codec.payload, length_append, length_leBytes, length_singleton]
  unfold maxFieldBytes at *
  unfold maxCompressedBodyBytes at hbody
  unfold maxRecordBytes
  omega

/-- The scanner accepts every record length that the writer produces. -/
theorem length_payload_bounds : minRecordBytes ≤ (codec.payload entry).length ∧
      (codec.payload entry).length ≤ maxRecordBytes := by
  constructor
  · simp only [Codec.payload, length_append, length_leBytes, length_singleton, minRecordBytes]
    omega
  · have hrecord := length_marshalEntry_le codec entry
    rw [length_marshalEntry] at hrecord
    omega

end OpenTrace.Wal
