import OpenTrace.Chunk.Reader
import OpenTrace.Wal.Binary

/-!
# Rows of a chunk

`fillEntryFromChunk` puts one entry together from the columns of a chunk (`store.go`,
`chunkrow.go`): every column is read as a whole with the decoder of its type, the row's value is
copied into the entry, and the first failure ends the row.

`fillEntryFromChunk_writeChunk` is the round trip of a whole chunk. What comes back is the entry that
was written, except for its level: the level column holds 255 levels besides the empty one, and the
levels that are met after them read as empty (`keptLevel`).
-/

namespace OpenTrace.Engine

open Library Encoding Chunk Wal List Zstd

/-- A column that could not be read. -/
structure RowError where
  column : Column
  cause : ChunkError
  deriving DecidableEq, Repr

/-- The row's value of a column; nothing when the column is shorter. -/
def chunkValue {α : Type} (row : ℕ) (column : Column) (values : Except ChunkError (List α)) :
    Except RowError (Option α) :=
  match values with
  | .error cause => .error ⟨column, cause⟩
  | .ok values => .ok values[row]?

/-- The string columns, each with the reader of its type. -/
def readStrColumn (zstd : Zstd) (reader : Reader) (field : StrField) :
    Except ChunkError (List Bytes) :=
  match field with
  | .level => reader.readDictBitpack (.str field)
  | .service | .env | .kind => reader.readDictZstd zstd (.str field)
  | .message => reader.readZstdBlockStrings zstd (.str field)
  | _ => reader.readSparseStrings zstd (.str field)

/-- One field of the row, copied into the entry. A status that is no number is skipped. -/
def fillField (zstd : Zstd) (reader : Reader) (row : ℕ) (entry : Entry) (field : Field) :
    Except RowError Entry :=
  match field with
  | .str field =>
    (chunkValue row (.str field) (readStrColumn zstd reader field)).map fun
      | none => entry
      | some value => entry.setStr field value
  | .int .status =>
    (chunkValue row (.int .status) (reader.readSparseStrings zstd (.int .status))).map fun value ↦
      match atoi (value.getD []) with
      | none => entry
      | some status => entry.setInt .status status
  | .int field =>
    (chunkValue row (.int field) (reader.readSparseInt64 zstd (.int field))).map fun
      | some (some value) => entry.setInt field value
      | _ => entry
  | .nPlusOne =>
    (chunkValue row .nPlusOne (reader.readSparseBool .nPlusOne)).map fun
      | some (some value) => { entry with nPlusOne := some value }
      | _ => entry

/-- The fields in the order in which a row is filled, `entrySparseStrings` and `entrySparseInts`
included. -/
def rowFields : List Field :=
  [.str .level, .str .service, .str .env, .str .message, .str .kind,
    .str .version, .str .host, .str .eventType, .str .traceID, .str .spanID, .str .parentSpanID,
    .str .requestID, .str .userID, .str .tenantID, .str .sessionID, .str .method, .str .path,
    .str .route, .str .handler, .str .errorClass, .str .errorMessage, .str .sourceFile,
    .str .errorFingerprint, .str .jobClass, .str .jobQueue, .str .jobID,
    .int .status,
    .int .durationMs, .int .dbMs, .int .dbCount, .int .cacheMs, .int .cacheHits,
    .int .cacheMisses, .int .extMs, .int .extCount, .int .renderMs, .int .allocCount,
    .int .memDeltaMb, .int .slowQueries, .int .dupQueries, .int .sourceLine, .int .queueMs,
    .nPlusOne]

theorem mem_rowFields (field : Field) : field ∈ rowFields := by
  cases field with
  | str field => cases field <;> decide
  | int field => cases field <;> decide
  | nPlusOne => decide

def fillEntryFromChunkProjected (zstd : Zstd) (reader : Reader) (row : ℕ) (includeBody : Bool) :
    Except RowError Entry := do
  let id ← chunkValue row .id (reader.readDeltaInt64 zstd .id)
  let ts ← chunkValue row .ts (reader.readZstdInt64 zstd .ts)
  let receivedAt ← chunkValue row .receivedAt (reader.readDeltaInt64 zstd .receivedAt)
  let entry : Entry :=
    { Entry.zero with id := id.getD 0, ts := ts.getD 0, receivedAt := receivedAt.getD 0 }
  let entry ← rowFields.foldlM (fillField zstd reader row) entry
  if includeBody then
    let body ← chunkValue row .body (reader.readSparseBytes zstd .body)
    return { entry with body := (body.getD none).getD [] }
  else return entry

def fillEntryFromChunk (zstd : Zstd) (reader : Reader) (row : ℕ) : Except RowError Entry :=
  fillEntryFromChunkProjected zstd reader row true

/-! ### Readable chunks -/

/-- What the columns of a chunk decode to. The status is a string column, the other integers are not. -/
structure Columns where
  rows : ℕ
  id : List Int64
  ts : List Int64
  receivedAt : List Int64
  str : StrField → List Bytes
  status : List Bytes
  int : IntField → List (Option Int64)
  nPlusOne : List (Option Bool)
  body : List (Option Bytes)

/-- Every column of the chunk reads as given. -/
structure Reads (zstd : Zstd) (reader : Reader) (columns : Columns) : Prop where
  rows : reader.entryCount = columns.rows
  id : reader.readDeltaInt64 zstd .id = .ok columns.id
  ts : reader.readZstdInt64 zstd .ts = .ok columns.ts
  receivedAt : reader.readDeltaInt64 zstd .receivedAt = .ok columns.receivedAt
  str : ∀ field, readStrColumn zstd reader field = .ok (columns.str field)
  status : reader.readSparseStrings zstd (.int .status) = .ok columns.status
  int : ∀ field, field ≠ .status → reader.readSparseInt64 zstd (.int field) = .ok (columns.int field)
  nPlusOne : reader.readSparseBool .nPlusOne = .ok columns.nPlusOne
  body : reader.readSparseBytes zstd .body = .ok columns.body

/-- No column of the chunk fails to read. -/
def Readable (zstd : Zstd) (reader : Reader) : Prop := ∃ columns, Reads zstd reader columns

/-- The entry of a row, with or without its body. A column that is too short has zero values. -/
def Columns.entry (columns : Columns) (row : ℕ) (includeBody : Bool) : Entry where
  id := columns.id.getD row 0
  ts := columns.ts.getD row 0
  receivedAt := columns.receivedAt.getD row 0
  str := fun field ↦ (columns.str field).getD row []
  int := fun field ↦
    if field = .status then (atoi (columns.status.getD row [])).getD 0
    else ((columns.int field).getD row none).getD 0
  nPlusOne := columns.nPlusOne.getD row none
  body := if includeBody then (columns.body.getD row none).getD [] else []

/-- The fields of a row whose column has a value for it. -/
def Columns.present (columns : Columns) (row : ℕ) : Field → Bool
  | .str field => ((columns.str field)[row]?).isSome
  | .int field =>
    if field = .status then (atoi (columns.status.getD row [])).isSome
    else ((columns.int field).getD row none).isSome
  | .nPlusOne => (columns.nPlusOne.getD row none).isSome

section Rows

variable {zstd : Zstd} {reader : Reader} {columns : Columns} (hreads : Reads zstd reader columns)

include hreads

theorem Reads.fillField_eq (row : ℕ) (includeBody : Bool) (target : Entry) (field : Field) :
    fillField zstd reader row target field =
      .ok (Field.copyWhen (columns.entry row includeBody) (columns.present row) target field) := by
  cases field with
  | str field =>
    simp only [fillField, hreads.str, chunkValue, Except.map, Field.copyWhen, Columns.present,
      Field.copy, Columns.entry, getD_eq_getElem?_getD]
    cases (columns.str field)[row]? <;> rfl
  | int field =>
    by_cases hstatus : field = .status
    · subst hstatus
      simp only [fillField, hreads.status, chunkValue, Except.map, Field.copyWhen, Columns.present,
        Field.copy, Columns.entry, getD_eq_getElem?_getD, if_true]
      cases atoi ((columns.status[row]?).getD []) <;> rfl
    · have hfill : fillField zstd reader row target (.int field) =
          (chunkValue row (.int field) (reader.readSparseInt64 zstd (.int field))).map fun
            | some (some value) => target.setInt field value
            | _ => target := by
        cases field
        case status => exact absurd rfl hstatus
        all_goals rfl
      simp only [hfill, hreads.int field hstatus, chunkValue, Except.map, Field.copyWhen,
        Columns.present, Field.copy, Columns.entry, getD_eq_getElem?_getD, if_neg hstatus]
      rcases (columns.int field)[row]? with _ | _ | value <;> rfl
  | nPlusOne =>
    simp only [fillField, hreads.nPlusOne, chunkValue, Except.map, Field.copyWhen, Columns.present,
      Field.copy, Columns.entry, getD_eq_getElem?_getD]
    rcases columns.nPlusOne[row]? with _ | _ | value <;> rfl

/-- A row of a readable chunk is the entry that its columns make. -/
theorem Reads.fillEntryFromChunkProjected_eq (row : ℕ) (includeBody : Bool) :
    fillEntryFromChunkProjected zstd reader row includeBody = .ok (columns.entry row includeBody) := by
  have hfields : ∀ target : Entry, rowFields.foldlM (fillField zstd reader row) target =
      .ok (rowFields.foldl (Field.copyWhen (columns.entry row includeBody) (columns.present row))
        target) := by
    intro target
    have hfill : fillField zstd reader row = fun (filled : Entry) (field : Field) ↦
        (pure (Field.copyWhen (columns.entry row includeBody) (columns.present row) filled field) :
          Except RowError Entry) :=
      funext₂ fun filled field ↦ hreads.fillField_eq row includeBody filled field
    rw [hfill, foldlM_pure]
    rfl
  set start : Entry := { Entry.zero with
    id := columns.id.getD row 0, ts := columns.ts.getD row 0,
    receivedAt := columns.receivedAt.getD row 0 } with hstart
  have hfixed := fixed_foldl_copyWhen (columns.entry row includeBody) (columns.present row)
    rowFields start
  have hread : ∀ field : Field, field.read (rowFields.foldl
      (Field.copyWhen (columns.entry row includeBody) (columns.present row)) start) =
      field.read (columns.entry row includeBody) := by
    intro field
    rw [read_foldl_copyWhen]
    by_cases hpresent : columns.present row field
    · rw [if_pos ⟨mem_rowFields field, hpresent⟩]
    · rw [if_neg fun hcopied ↦ hpresent hcopied.2]
      cases field with
      | str field =>
        have hnone : (columns.str field)[row]? = none := by
          simpa [Columns.present] using hpresent
        simp [Field.read, Columns.entry, hstart, Entry.zero, getD_eq_getElem?_getD, hnone]
      | int field =>
        simp only [Columns.present, Bool.not_eq_true] at hpresent
        simp only [Field.read, Columns.entry, hstart, Entry.zero]
        split_ifs at hpresent ⊢ with hstatus
        · rw [Option.isSome_eq_false_iff, Option.isNone_iff_eq_none] at hpresent
          rw [hpresent, Option.getD_none]
        · rw [Option.isSome_eq_false_iff, Option.isNone_iff_eq_none] at hpresent
          rw [hpresent, Option.getD_none]
      | nPlusOne =>
        have hnone : columns.nPlusOne.getD row none = none := by
          simpa [Columns.present] using hpresent
        simp only [Field.read, Columns.entry, hstart, Entry.zero, hnone]
  simp only [fillEntryFromChunkProjected, hreads.id, hreads.ts, hreads.receivedAt, hreads.body,
    chunkValue, bind, Except.bind, pure, Except.pure, ← getD_eq_getElem?_getD, ← hstart, hfields]
  generalize rowFields.foldl (Field.copyWhen (columns.entry row includeBody) (columns.present row))
    start = filled at hfixed hread
  simp only [Entry.fixed, Prod.mk.injEq] at hfixed
  obtain ⟨hid, hts, hreceived, hbody⟩ := hfixed
  cases includeBody with
  | true =>
    refine congrArg Except.ok (Entry.ext_of_read ?_ fun field ↦ ?_)
    · simp only [Entry.fixed, Columns.entry, hid, hts, hreceived, hstart, if_true]
    · rw [← hread field]
      cases field <;> rfl
  | false =>
    refine congrArg Except.ok (Entry.ext_of_read ?_ hread)
    simp only [Entry.fixed, Columns.entry, hid, hts, hreceived, hbody, hstart, Entry.zero]
    rfl

end Rows

/-! ### What a chunk keeps -/

/-- The level that a chunk of these entries holds for a level. -/
def keptLevel (entries : List Entry) (level : Bytes) : Bytes :=
  if level ∈ (([] :: entries.map (·.str .level)).eraseDups).take maxBitpackDictEntries then level
  else []

/-- The entry that a row of the chunk of these entries reads as. -/
def chunkEntry (entries : List Entry) (entry : Entry) : Entry :=
  entry.setStr .level (keptLevel entries (entry.str .level))

/-- The fields that a column stores as they are. -/
structure Columnar (entry : Entry) : Prop where
  str : ∀ field, (entry.str field).length ≤ maxColumnValueBytes
  int : ∀ field, 0 ≤ entry.int field

/-- The sizes of a chunk that its format and the decoders' ceilings allow. -/
structure ChunkFits (zstd : Zstd) (entries : List Entry) : Prop where
  columns : ColumnsFit zstd entries
  message : ((entries.map (·.str .message)).flatMap appendLenBytes).length ≤ maxBlockBytes
  sparse : ∀ column : Column,
    (((extractString column entries).map nonEmpty).reduceOption.flatMap appendLenBytes).length ≤
      maxBlockBytes
  body : ((extractBody entries).reduceOption.flatMap appendBlob).length ≤
    decodeCeiling entries.length (maxColumnValueBytes + maxLenFramingBytes)

/-! ### Columns of an opened chunk -/

theorem decodeDictBitpack_encodeDictBitpack {values : List Bytes} {content : Bytes}
    (hcontent : encodeDictBitpack values = some content) (hsize : content.length < 2 ^ 32)
    (hvalues : ∀ value ∈ values, value.length ≤ maxColumnValueBytes)
    (hcount : values.length < 2 ^ 32) :
    decodeDictBitpack .extended content = .ok (values.map fun value ↦
        if value ∈ (([] :: values).eraseDups).take maxBitpackDictEntries then value else []) := by
  have hlow : 1 ≤ maxBitpackDictEntries := by decide
  have hhigh : maxBitpackDictEntries ≤ maxDictEntries := by decide
  rw [← lookup_dictEncodeLimit hlow hhigh]
  have hlength := length_dict_dictEncodeLimit hlow hhigh values
  have hdict := dict_dictEncodeLimit hlow hhigh values
  have hindices := @indices_dictEncodeLimit_lt maxBitpackDictEntries values
  have hrows := length_indices_dictEncodeLimit hlow hhigh values
  unfold encodeDictBitpack at hcontent
  generalize dictEncodeLimit values maxBitpackDictEntries = encoded at *
  unfold maxBitpackDictEntries at hlength
  obtain ⟨packed, hpacked, rfl⟩ := Option.map_eq_some_iff.mp hcontent
  rw [length_append, length_append, length_leBytes] at hsize
  have hbyte : ∀ index ∈ encoded.indices, (UInt8.ofNat index).toNat = index := by
    intro index hindex
    have hbound := hindices index hindex
    rw [UInt8.toNat_ofNat']
    omega
  have hunpacked : bitpackDecode packed = .ok (encoded.indices.map UInt8.ofNat) := by
    refine bitpackDecode_bitpackEncode hpacked ?_ (by rwa [length_map, hrows])
    intro byte hmem
    obtain ⟨index, hindex, rfl⟩ := mem_map.mp hmem
    rw [hbyte index hindex]
    exact (bitsNeeded_spec hlength).2.2 index (hindices index hindex)
  have hentries : ∀ value ∈ encoded.dict, value.length ≤ maxValueBytes := by
    intro value hvalue
    rw [hdict] at hvalue
    rcases mem_values_of_mem_dict hvalue with rfl | hmem
    · exact Nat.zero_le _
    · exact length_le_maxValueBytes hvalues value hmem
  have hlong : ¬ (serializeDict encoded.dict ++ packed).length <
      (serializeDict encoded.dict).length := by
    rw [length_append]
    omega
  have hparsed : deserializeDict .extended (serializeDict encoded.dict) = .ok encoded.dict := by
    rw [deserializeDict, serializeDict, takeLe_leBytes_append (by omega)]
    simp only [readStrings_appendLenBytes hentries]
    rfl
  simp only [decodeDictBitpack, append_assoc]
  rw [takeLe_leBytes_append (by omega)]
  simp only [if_neg hlong, take_left, drop_left, hparsed, hunpacked, map_map, dictLookup]
  refine congrArg Except.ok (map_congr_left fun index hindex ↦ ?_)
  rw [Function.comp_apply, hbyte index hindex]

section Columns

variable {zstd : Zstd} (hzstd : zstd.Faithful) {entries : List Entry} {reader : Reader}
  (hopen : Opened zstd entries reader) (hfits : ChunkFits zstd entries)
  (hcount : entries.length ≤ 50000) (hentries : ∀ entry ∈ entries, Columnar entry)

include hopen

theorem readWith_eq {α : Type} (column : Column) (missing : α)
    (decode : Bytes → Except ChunkError (List α)) :
    ∃ content nulls, encodeColumn zstd entries column = some (content, nulls) ∧
      reader.readWith column missing decode = decode content := by
  obtain ⟨content, nulls, hencoded, hraw⟩ := hopen.readColumnRaw_eq column
  exact ⟨content, nulls, hencoded, by simp only [Reader.readWith, hraw]⟩

/-- A column reads as the values that its written content decodes to. -/
theorem readWith_written {α : Type} {column : Column} {missing : α} {written : Bytes}
    {values : List α} (decode : Bytes → ℕ → Except ColumnError (List α))
    (hwritten : (encodeColumn zstd entries column).map Prod.fst = some written)
    (hlength : values.length = entries.length) (hdecode : decode written values.length = .ok values) :
    reader.readWith column missing (fun data ↦ ofColumn (decode data reader.entryCount)) =
      .ok values := by
  obtain ⟨content, _, hencoded, hread⟩ := readWith_eq hopen column missing
    fun data ↦ ofColumn (decode data reader.entryCount)
  rw [hencoded] at hwritten
  cases hwritten
  rw [hread, hopen.entryCount, ← hlength, hdecode]
  rfl

include hzstd hcount

theorem readDeltaInt64_eq {column : Column} (htype : column.type = .deltaVarint)
    (hne : entries ≠ []) :
    reader.readDeltaInt64 zstd column = .ok (extractInt64 column entries) := by
  have hlength : (extractInt64 column entries).length = entries.length := length_map ..
  refine readWith_written hopen (deltaDecode zstd) (by simp only [encodeColumn, htype, Option.map_some]) hlength
    (deltaDecode_deltaEncode hzstd (fun hnil ↦ hne (map_eq_nil_iff.mp hnil)) ?_)
  rw [hlength]
  unfold maxVarintBytes maxBlockBytes
  omega

theorem readZstdInt64_eq : reader.readZstdInt64 zstd .ts = .ok (extractInt64 .ts entries) := by
  have hlength : (extractInt64 .ts entries).length = entries.length := length_map ..
  refine readWith_written hopen (zstdBlockDecodeInt64 zstd) rfl hlength
    (zstdBlockDecodeInt64_zstdBlockEncodeInt64 hzstd ?_)
  rw [hlength]
  unfold maxBlockBytes
  omega

omit hopen hzstd hcount in
include hentries in
/-- The values of a string column are at most 1 MiB; the text of a status is at most 20 digits. -/
theorem length_extractString_le (column : Column) :
    ∀ value ∈ extractString column entries, value.length ≤ maxColumnValueBytes := by
  intro value hvalue
  obtain ⟨entry, hentry, rfl⟩ := mem_map.mp hvalue
  split
  · exact (hentries entry hentry).str _
  · unfold statusText
    split_ifs
    · exact (length_decimal_le _).trans (by decide)
    · exact Nat.zero_le _
  · exact Nat.zero_le _

section Strings

include hentries

include hfits in
omit hzstd in
theorem readDictBitpack_eq : reader.readDictBitpack (.str .level) =
      .ok (entries.map fun entry ↦ keptLevel entries (entry.str .level)) := by
  obtain ⟨content, nulls, hencoded, hread⟩ := readWith_eq hopen (.str .level) []
    (decodeDictBitpack reader.lenFormat)
  have hsize := hfits.columns _ content nulls hencoded
  simp only [encodeColumn, Column.type, StrField.columnType, Option.map_eq_some_iff,
    Prod.mk.injEq] at hencoded
  obtain ⟨data, hdata, rfl, -⟩ := hencoded
  have hlength : (extractString (.str .level) entries).length = entries.length := length_map ..
  have hdecode := decodeDictBitpack_encodeDictBitpack hdata hsize
    (length_extractString_le hentries _) (by omega)
  rw [Reader.readDictBitpack, hread, hopen.lenFormat, hdecode]
  exact congrArg Except.ok (map_map ..)

include hfits in
/-- The dictionary has room for the values of every row. -/
theorem readDictZstd_eq {column : Column} (htype : column.type = .dictZstd) :
    reader.readDictZstd zstd column = .ok (extractString column entries) := by
  obtain ⟨content, nulls, hencoded, hread⟩ := readWith_eq hopen column []
    fun data ↦ (ofColumn (dictUnmarshal zstd reader.lenFormat data reader.entryCount)).map dictLookup
  have hsize := hfits.columns _ content nulls hencoded
  simp only [encodeColumn, htype, Option.some.injEq, Prod.mk.injEq] at hencoded
  obtain ⟨rfl, -⟩ := hencoded
  have hstrings := length_extractString_le hentries column
  have hlength : (extractString column entries).length = entries.length := length_map ..
  generalize extractString column entries = values at *
  have hlow : 1 ≤ maxDictEntries := by decide
  have hdict := dict_dictEncodeLimit hlow le_rfl values
  have hrows := length_indices_dictEncodeLimit hlow le_rfl values
  have hbound := length_dict_dictEncodeLimit hlow le_rfl values
  have hdictionary : ∀ value ∈ (dictEncode values).dict, value.length ≤ maxValueBytes := by
    intro value hvalue
    rw [dictEncode, hdict] at hvalue
    rcases mem_values_of_mem_dict hvalue with rfl | hmem
    · exact Nat.zero_le _
    · exact length_le_maxValueBytes hstrings value hmem
  have hserialized : (serializeDict (dictEncode values).dict).length < 2 ^ 32 := by
    rw [dictMarshal, dictEncode, take_of_length_le hbound, length_append, length_append] at hsize
    rw [dictEncode]
    omega
  have hdecode := dictUnmarshal_dictMarshal hzstd hbound hdictionary hserialized
    (indices_dictEncodeLimit_lt values)
    (by rw [hrows, hlength]; unfold maxBlockBytes; omega)
  have hlookup : dictLookup (dictEncode values) = values := by
    have hroom : values.length < maxDictEntries := by unfold maxDictEntries; omega
    rw [dictEncode, lookup_dictEncodeLimit hlow le_rfl]
    refine (map_congr_left fun value hvalue ↦ ?_).trans (map_id values)
    rw [if_pos (mem_dict_of_room hroom hvalue), id]
  rw [hrows] at hdecode
  rw [Reader.readDictZstd, hread, hopen.lenFormat, hopen.entryCount, ← hlength]
  change (ofColumn (dictUnmarshal zstd .extended (dictMarshal zstd (dictEncodeLimit values
    maxDictEntries)) values.length)).map dictLookup = _
  rw [hdecode]
  exact congrArg Except.ok hlookup

include hfits in
omit hcount in
theorem readZstdBlockStrings_eq : reader.readZstdBlockStrings zstd (.str .message) =
      .ok (extractString (.str .message) entries) := by
  have hdecode := zstdBlockDecodeStrings_zstdBlockEncodeStrings hzstd
    (length_extractString_le hentries (.str .message)) hfits.message
  rw [Reader.readZstdBlockStrings, hopen.lenFormat]
  exact readWith_written hopen (zstdBlockDecodeStrings zstd .extended) rfl (length_map ..) hdecode

include hfits in
theorem readSparseStrings_eq {column : Column}
    (htype : column.type = .sparseString ∨ column.type = .sparseDictZstd) :
    reader.readSparseStrings zstd column = .ok (extractString column entries) := by
  have hlength : (extractString column entries).length = entries.length := length_map ..
  have hdecode := unsparseStrings_sparseStrings hzstd (by omega)
    (length_extractString_le hentries column) (hfits.sparse column)
  rw [Reader.readSparseStrings, hopen.lenFormat]
  refine readWith_written hopen (unsparseStrings zstd .extended) ?_ hlength hdecode
  rcases htype with htype | htype <;> simp only [encodeColumn, htype, Option.map_some]

end Strings

theorem readSparseInt64_eq {column : Column} (htype : column.type = .sparseInt64) :
    reader.readSparseInt64 zstd column = .ok (extractOptionalInt64 column entries) := by
  have hlength : (extractOptionalInt64 column entries).length = entries.length := length_map ..
  refine readWith_written hopen (unsparseInt64 zstd) (by simp only [encodeColumn, htype, Option.map_some]) hlength
    (unsparseInt64_sparseInt64 hzstd ?_)
  rw [hlength]
  unfold maxVarintBytes maxBlockBytes
  omega

omit hzstd in
theorem readSparseBool_eq :
    reader.readSparseBool .nPlusOne = .ok (extractOptionalBool .nPlusOne entries) := by
  have hlength : (extractOptionalBool .nPlusOne entries).length = entries.length := length_map ..
  exact readWith_written hopen unsparseBool rfl hlength (unsparseBool_sparseBool (by omega))

include hfits in
theorem readSparseBytes_eq : reader.readSparseBytes zstd .body = .ok (extractBody entries) := by
  have hlength : (extractBody entries).length = entries.length := length_map ..
  exact readWith_written hopen (unsparseBytes zstd) rfl hlength
    (unsparseBytes_sparseBytes hzstd (by omega) (hlength ▸ hfits.body))

end Columns

/-! ### Rows -/

theorem positive_eq {value : Int64} (hvalue : 0 ≤ value) :
    positive value = if value = 0 then none else some value := by
  unfold positive
  by_cases hzero : value = 0
  · rw [if_pos hzero, if_neg (by rw [hzero]; decide)]
  · rw [if_neg hzero, if_pos (Int64.lt_of_le_of_ne hvalue (Ne.symm hzero))]

theorem atoi_statusText {status : Int64} (hstatus : 0 ≤ status) :
    atoi (statusText status) = if status = 0 then none else some status := by
  unfold statusText
  by_cases hzero : status = 0
  · rw [if_pos hzero, if_neg (by rw [hzero]; decide)]
    rfl
  · rw [if_neg hzero, if_pos (Int64.lt_of_le_of_ne hstatus (Ne.symm hzero)),
      atoi_decimal (Int64.toNatClampNeg_lt status), Int64.ofNat_toNatClampNeg status hstatus]

/-- What the columns of the chunk of these entries decode to. -/
def writtenColumns (entries : List Entry) : Columns where
  rows := entries.length
  id := extractInt64 .id entries
  ts := extractInt64 .ts entries
  receivedAt := extractInt64 .receivedAt entries
  str := fun field ↦
    if field = .level then entries.map fun entry ↦ keptLevel entries (entry.str .level)
    else extractString (.str field) entries
  status := extractString (.int .status) entries
  int := fun field ↦ extractOptionalInt64 (.int field) entries
  nPlusOne := extractOptionalBool .nPlusOne entries
  body := extractBody entries

/-- A row of the chunk of these entries is the entry that was written, with the level that was
kept. -/
theorem entry_writtenColumns {entries : List Entry} {row : ℕ} {entry : Entry}
    (hrow : entries[row]? = some entry) (hentry : Columnar entry) :
    (writtenColumns entries).entry row true = chunkEntry entries entry := by
  have hget : ∀ {α : Type} (value : Entry → α) (default : α),
      (entries.map value).getD row default = value entry := by
    intro α value default
    rw [getD_eq_getElem?_getD, getElem?_map, hrow]
    rfl
  refine Entry.ext ?_ ?_ ?_ (funext fun field ↦ ?_) (funext fun field ↦ ?_) ?_ ?_
  · exact hget _ _
  · exact hget _ _
  · exact hget _ _
  · by_cases hlevel : field = .level
    · subst hlevel
      simp only [Columns.entry, writtenColumns, if_true, hget, chunkEntry, Entry.setStr,
        Function.update_self]
    · simp only [Columns.entry, writtenColumns, if_neg hlevel, extractString, hget, chunkEntry,
        Entry.setStr, Function.update_of_ne hlevel]
  · have hkept : (chunkEntry entries entry).int field = entry.int field := rfl
    by_cases hstatus : field = .status
    · subst hstatus
      simp only [Columns.entry, writtenColumns, if_true, extractString, hget, hkept,
        atoi_statusText (hentry.int .status)]
      split_ifs with hzero
      · exact hzero.symm
      · rfl
    · have hvalue : (writtenColumns entries).int field = entries.map fun entry ↦
          positive (entry.int field) := by
        cases field
        case status => exact absurd rfl hstatus
        all_goals rfl
      simp only [Columns.entry, hvalue, if_neg hstatus, hget, hkept, positive_eq (hentry.int field)]
      split_ifs with hzero
      · exact hzero.symm
      · rfl
  · exact hget _ _
  · simp only [Columns.entry, writtenColumns, extractBody, hget, if_true, getD_nonEmpty]
    rfl

section Rows

variable {zstd : Zstd} (hzstd : zstd.Faithful) {entries : List Entry} {reader : Reader}
  (hopen : Opened zstd entries reader) (hfits : ChunkFits zstd entries)
  (hcount : entries.length ≤ 50000) (hentries : ∀ entry ∈ entries, Columnar entry)

include hzstd hopen hfits hcount hentries

theorem readStrColumn_eq (field : StrField) :
    readStrColumn zstd reader field = .ok ((writtenColumns entries).str field) := by
  cases field
  case level => exact readDictBitpack_eq hopen hfits hcount hentries
  case service | env | kind => exact readDictZstd_eq hzstd hopen hfits hcount hentries rfl
  case message => exact readZstdBlockStrings_eq hzstd hopen hfits hentries
  case version | host | eventType | tenantID | method | route | handler | errorClass | jobClass |
      jobQueue =>
    exact readSparseStrings_eq hzstd hopen hfits hcount hentries (Or.inr rfl)
  all_goals exact readSparseStrings_eq hzstd hopen hfits hcount hentries (Or.inl rfl)

/-- The chunk of some entries is readable. -/
theorem reads_writtenColumns (hne : entries ≠ []) : Reads zstd reader (writtenColumns entries) where
  rows := hopen.entryCount
  id := readDeltaInt64_eq hzstd hopen hcount rfl hne
  ts := readZstdInt64_eq hzstd hopen hcount
  receivedAt := readDeltaInt64_eq hzstd hopen hcount rfl hne
  str := readStrColumn_eq hzstd hopen hfits hcount hentries
  status := readSparseStrings_eq hzstd hopen hfits hcount hentries (Or.inr rfl)
  int := fun field hstatus ↦ by
    refine readSparseInt64_eq hzstd hopen hcount ?_
    cases field
    case status => exact absurd rfl hstatus
    all_goals rfl
  nPlusOne := readSparseBool_eq hopen hcount
  body := readSparseBytes_eq hzstd hopen hfits hcount

/-- A row of an opened chunk reads as the entry that was written, with the level that was kept. -/
theorem fillEntryFromChunk_eq {row : ℕ} {entry : Entry} (hrow : entries[row]? = some entry) :
    fillEntryFromChunk zstd reader row = .ok (chunkEntry entries entry) := by
  have hne : entries ≠ [] := by
    rintro rfl
    simp at hrow
  rw [fillEntryFromChunk, (reads_writtenColumns hzstd hopen hfits hcount hentries
    hne).fillEntryFromChunkProjected_eq, entry_writtenColumns hrow
    (hentries entry (mem_of_getElem? hrow))]

end Rows

/-! ### Entries of the WAL -/

/-- The entry was decoded from the WAL record of some entry. -/
def FromWal (entry : Entry) : Prop :=
  ∃ (codec : Codec) (original : Entry),
    unmarshalEntry codec.zstd (codec.payload original) = .ok entry

theorem length_levelOfEnum_le (levelEnum : UInt8) : (levelOfEnum levelEnum).length ≤ 8 := by
  have hnames : ∀ name ∈ enumToLevel, name.length ≤ 8 := by decide
  rw [levelOfEnum, getD_eq_getElem?_getD]
  cases hname : enumToLevel[levelEnum.toNat]? with
  | none => decide
  | some name => exact hnames name (mem_of_getElem? hname)

theorem persistedStr_le (entry : Entry) (field : StrField) :
    (persistedStr entry field).length ≤ maxColumnValueBytes := by
  cases field
  case level =>
    unfold persistedStr
    cases hlevel : levelToEnum (entry.str .level) with
    | none => exact length_truncateField_le _
    | some levelEnum =>
      exact (length_levelOfEnum_le levelEnum).trans (by unfold maxColumnValueBytes; omega)
  all_goals exact length_truncateField_le _

theorem persistedInt_nonneg (entry : Entry) (field : IntField) : 0 ≤ persistedInt entry field := by
  unfold persistedInt
  split_ifs with hpositive hstatus
  · have hsmall : (entry.int field).toUInt64.toNat % 2 ^ 16 < 2 ^ 63 :=
      lt_trans (Nat.mod_lt _ (by omega)) (by omega)
    rw [Int64.le_iff_toInt_le, Int64.toInt_ofNat_of_lt hsmall]
    exact Int.natCast_nonneg _
  · exact Int64.le_of_lt hpositive
  · exact Int64.le_refl 0

theorem FromWal.columnar {entry : Entry} (hentry : FromWal entry) : Columnar entry := by
  obtain ⟨codec, original, hdecoded⟩ := hentry
  rw [unmarshalEntry_payload_eq] at hdecoded
  split at hdecoded
  · cases hdecoded
  · split_ifs at hdecoded
    cases hdecoded
    exact ⟨persistedStr_le original, persistedInt_nonneg original⟩

/-! ### Chunks that are not compressed -/

theorem length_serializeDict_le {values : List Bytes} {limit : ℕ} (hlow : 1 ≤ limit)
    (hhigh : limit ≤ maxDictEntries)
    (hvalues : ∀ value ∈ values, value.length ≤ maxColumnValueBytes) :
    (serializeDict (dictEncodeLimit values limit).dict).length ≤
      2 + (values.length + 1) * (6 + maxColumnValueBytes) := by
  have hlength : (([] :: values).eraseDups.take limit).length ≤ values.length + 1 :=
    (length_take_le' _ _).trans (length_eraseDups_le _)
  rw [dict_dictEncodeLimit hlow hhigh, serializeDict, length_append, length_leBytes]
  refine Nat.add_le_add_left ((length_flatMap_le fun value hvalue ↦ ?_).trans
    (Nat.mul_le_mul_right _ hlength)) 2
  refine (length_appendLenBytes_le value).trans (Nat.add_le_add_left ?_ 6)
  rcases mem_values_of_mem_dict hvalue with rfl | hmem
  · exact Nat.zero_le _
  · exact hvalues value hmem

theorem length_sparseColumn_stored {α : Type} (write : α → Bytes) (values : List (Option α)) :
    (sparseColumn stored write values).length =
      8 + (values.length + 7) / 8 + (values.reduceOption.flatMap write).length := by
  simp only [sparseColumn, marshalSparse, length_append, length_leBytes, length_bitmap, compress,
    stored, id]

section Stored

variable {entries : List Entry} (hcount : entries.length ≤ 1000)
  (hentries : ∀ entry ∈ entries, Columnar entry)

include hcount

section Strings

include hentries

theorem length_flatMap_extractString_le (column : Column) :
    ((extractString column entries).flatMap appendLenBytes).length ≤
      1000 * (6 + maxColumnValueBytes) := by
  refine (length_flatMap_le fun value hvalue ↦ (length_appendLenBytes_le value).trans
    (Nat.add_le_add_left (length_extractString_le hentries column value hvalue) 6)).trans
      (Nat.mul_le_mul_right _ ?_)
  rwa [extractString, length_map]

theorem length_flatMap_nonEmpty_le (column : Column) :
    (((extractString column entries).map nonEmpty).reduceOption.flatMap appendLenBytes).length ≤
      1000 * (6 + maxColumnValueBytes) := by
  have hsublist := reduceOption_map_nonEmpty_sublist (extractString column entries)
  refine (length_flatMap_le fun value hvalue ↦ (length_appendLenBytes_le value).trans
    (Nat.add_le_add_left (length_extractString_le hentries column value
      (hsublist.subset hvalue)) 6)).trans (Nat.mul_le_mul_right _ (hsublist.length_le.trans ?_))
  rwa [extractString, length_map]

end Strings

variable (hbodies : ∀ entry ∈ entries, entry.body.length ≤ maxColumnValueBytes)

omit hcount in
include hbodies in
theorem length_flatMap_extractBody_le :
    ((extractBody entries).reduceOption.flatMap appendBlob).length ≤
      entries.length * (maxColumnValueBytes + maxLenFramingBytes) := by
  have hrows : (extractBody entries).reduceOption.length ≤ entries.length :=
    (reduceOption_length_le _).trans_eq (length_map ..)
  refine (length_flatMap_le fun value hvalue ↦ ?_).trans (Nat.mul_le_mul_right _ hrows)
  obtain ⟨entry, hentry, hstored⟩ := mem_map.mp (reduceOption_mem_iff.mp hvalue)
  have hlength := hbodies entry hentry
  rw [← nonEmpty_eq_some hstored] at hlength
  rw [appendBlob, length_append, length_leBytes]
  unfold maxLenFramingBytes
  omega

include hentries hbodies

/-- The columns of a thousand rows are below 4 GiB even if nothing is compressed. -/
theorem columnsFit_stored : ColumnsFit stored entries := by
  intro column content nulls hencoded
  have hstrings := length_extractString_le hentries column
  have hrows : (extractString column entries).length = entries.length := length_map ..
  have hblock := length_flatMap_extractString_le hcount hentries column
  have hsparse := length_flatMap_nonEmpty_le hcount hentries column
  have hbody := length_flatMap_extractBody_le hbodies
  have hbodyRows := Nat.mul_le_mul_right (maxColumnValueBytes + maxLenFramingBytes) hcount
  unfold maxColumnValueBytes maxLenFramingBytes at *
  cases htype : column.type <;>
    simp only [encodeColumn, htype, Option.some.injEq, Prod.mk.injEq] at hencoded
  case deltaVarint =>
    obtain ⟨rfl, -⟩ := hencoded
    cases hvalues : extractInt64 column entries with
    | nil => simp [deltaEncode]
    | cons base values =>
      have hlength := length_deltas_le base (extractInt64 column entries)
      rw [extractInt64, length_map, ← extractInt64, hvalues] at hlength
      unfold maxVarintBytes at hlength
      simp only [deltaEncode, length_append, length_leBytes, compress, stored, id]
      omega
  case zstdInt64 =>
    obtain ⟨rfl, -⟩ := hencoded
    have hlength : ((extractInt64 column entries).flatMap fun value ↦
        leBytes 8 value.toUInt64.toNat).length ≤ (extractInt64 column entries).length * 8 :=
      length_flatMap_le fun value _ ↦ (length_leBytes _ _).le
    rw [extractInt64, length_map, ← extractInt64] at hlength
    simp only [zstdBlockEncodeInt64, compress, stored, id]
    omega
  case dictBitpack =>
    obtain ⟨data, hdata, hpair⟩ := Option.map_eq_some_iff.mp hencoded
    obtain ⟨rfl, -⟩ := Prod.mk.inj hpair
    obtain ⟨packed, hpacked, rfl⟩ := Option.map_eq_some_iff.mp hdata
    have hdict := length_serializeDict_le (by decide) (by decide : maxBitpackDictEntries ≤ _) hstrings
    have hindices := @length_indices_dictEncodeLimit maxBitpackDictEntries (by decide) (by decide)
      (extractString column entries)
    unfold bitpackEncode at hpacked
    split_ifs at hpacked with hwidth
    cases Option.some.inj hpacked
    have hbits : (dictEncodeLimit (extractString column entries) maxBitpackDictEntries).indices.length *
        bitsNeeded (dictEncodeLimit (extractString column entries)
          maxBitpackDictEntries).dict.length ≤ entries.length * 8 := by
      rw [hindices, hrows]
      exact Nat.mul_le_mul_left _ (by omega)
    rw [hrows] at hdict
    simp only [length_append, length_leBytes, length_cons, length_packFields, length_map]
    unfold maxColumnValueBytes at hdict
    omega
  case dictZstd =>
    obtain ⟨rfl, -⟩ := hencoded
    have hdict := length_serializeDict_le (by decide) (le_refl maxDictEntries) hstrings
    have hbound := @length_dict_dictEncodeLimit maxDictEntries (by decide) le_rfl
      (extractString column entries)
    have hindices : ((dictEncodeLimit (extractString column entries) maxDictEntries).indices.flatMap
        (leBytes 2)).length ≤ _ :=
      length_flatMap_le fun index _ ↦ (length_leBytes _ _).le
    rw [length_indices_dictEncodeLimit (by decide) le_rfl, hrows] at hindices
    rw [hrows] at hdict
    simp only [dictMarshal, dictEncode, take_of_length_le hbound, length_append,
      length_leBytes, compress, stored, id]
    unfold maxColumnValueBytes at hdict
    omega
  case zstdBlock =>
    obtain ⟨rfl, -⟩ := hencoded
    simp only [zstdBlockEncodeStrings, compress, stored, id]
    omega
  case sparseString | sparseDictZstd =>
    obtain ⟨rfl, -⟩ := hencoded
    rw [sparseStrings, length_sparseColumn_stored, length_map, hrows]
    omega
  case sparseInt64 =>
    obtain ⟨rfl, -⟩ := hencoded
    have hlength : ((extractOptionalInt64 column entries).reduceOption.flatMap putVarint).length ≤
        (extractOptionalInt64 column entries).length * 10 :=
      (length_flatMap_le fun value _ ↦ length_putUvarint_le _).trans
        (Nat.mul_le_mul_right _ (reduceOption_length_le _))
    rw [sparseInt64, length_sparseColumn_stored]
    rw [extractOptionalInt64, length_map, ← extractOptionalInt64] at hlength ⊢
    omega
  case sparseBool =>
    obtain ⟨rfl, -⟩ := hencoded
    have hflags := reduceOption_length_le (extractOptionalBool column entries)
    simp only [sparseBool, marshalSparse, length_append, length_leBytes, length_bitmap]
    rw [extractOptionalBool, length_map, ← extractOptionalBool] at hflags ⊢
    omega
  case sparseBytes =>
    obtain ⟨rfl, -⟩ := hencoded
    rw [sparseBytes, length_sparseColumn_stored, extractBody, length_map, ← extractBody]
    omega

theorem chunkFits_stored : ChunkFits stored entries where
  columns := columnsFit_stored hcount hentries hbodies
  message := (length_flatMap_extractString_le hcount hentries (.str .message)).trans (by decide)
  sparse := fun column ↦ (length_flatMap_nonEmpty_le hcount hentries column).trans (by decide)
  body := by
    have hbody := length_flatMap_extractBody_le hbodies
    exact le_decodeCeiling hbody (hbody.trans ((Nat.mul_le_mul_right _ hcount).trans (by decide)))

/-- A thousand rows can be written without compression, and read again. -/
theorem exists_reads_stored (hne : entries ≠ []) :
    ∃ file reader, writeChunk stored entries = some file ∧ openReader file = .ok reader ∧
      Reads stored reader (writtenColumns entries) := by
  have hfits := chunkFits_stored hcount hentries hbodies
  obtain ⟨file, reader, hwritten, hopened, hopen⟩ :=
    openReader_writeChunk (hcount.trans (by decide)) hfits.columns
  exact ⟨file, reader, hwritten, hopened, reads_writtenColumns stored_faithful hopen hfits
    (hcount.trans (by decide)) hentries hne⟩

end Stored

/-! ### Many levels -/

theorem eraseDups_eq_self {α : Type} [BEq α] [LawfulBEq α] {values : List α}
    (hnodup : values.Nodup) : values.eraseDups = values := by
  induction values with
  | nil => rfl
  | cons value values ih =>
    obtain ⟨hfresh, hrest⟩ := nodup_cons.mp hnodup
    have hkeep : values.filter (fun other ↦ !other == value) = values := by
      refine filter_eq_self.mpr fun other hother ↦ ?_
      have hne : other ≠ value := fun heq ↦ hfresh (heq ▸ hother)
      simpa using hne
    rw [eraseDups_cons, hkeep, ih hrest]

/-- An entry with nothing but a level of one byte. -/
def leveled (level : ℕ) : Entry := Entry.zero.setStr .level [UInt8.ofNat level]

/-- One more level than the dictionary has room for, besides the empty one. -/
def leveledEntries : List Entry := (range 256).map leveled

/-- A level of one byte is no named level, and a record keeps it. -/
theorem fromWal_leveled (level : ℕ) : FromWal (leveled level) := by
  have hcustom : levelToEnum [UInt8.ofNat level] = none := by simp [levelToEnum, ascii]
  have hpersisted : Codec.persisted ⟨stored, false⟩ (leveled level) = leveled level := by
    refine Entry.ext_of_read rfl fun field ↦ ?_
    cases field with
    | str field =>
      cases field
      case level =>
        simp [Field.read, Codec.persisted, persistedStr, leveled, Entry.setStr, hcustom, truncateField,
          maxFieldBytes]
      all_goals rfl
    | int field => rfl
    | nPlusOne => rfl
  refine ⟨⟨stored, false⟩, leveled level, ?_⟩
  have hreadable : Codec.Readable ⟨stored, false⟩ (leveled level) :=
    fun hcompress ↦ absurd hcompress Bool.false_ne_true
  rw [unmarshalEntry_payload ⟨stored, false⟩ stored_faithful hreadable, hpersisted]

theorem fromWal_leveledEntries : ∀ entry ∈ leveledEntries, FromWal entry := by
  intro entry hentry
  obtain ⟨level, -, rfl⟩ := mem_map.mp hentry
  exact fromWal_leveled level

theorem chunkFits_leveledEntries {count : ℕ} (hcount : count ≤ 256) :
    ChunkFits stored (leveledEntries.take count) := by
  refine chunkFits_stored ?_ ?_ ?_
  · exact (length_take_le _ _).trans (hcount.trans (by decide))
  · exact fun entry hentry ↦ (fromWal_leveledEntries entry (mem_of_mem_take hentry)).columnar
  · intro entry hentry
    obtain ⟨level, -, rfl⟩ := mem_map.mp (mem_of_mem_take hentry)
    exact Nat.zero_le _

theorem levels_leveledEntries :
    leveledEntries.map (·.str .level) = (range 256).map fun level ↦ [UInt8.ofNat level] := by
  rw [leveledEntries, map_map]
  refine map_congr_left fun level _ ↦ ?_
  simp [leveled, Entry.setStr]

theorem ofNat_inj {level other : ℕ} (hlevel : level < 256) (hother : other < 256)
    (heq : UInt8.ofNat level = UInt8.ofNat other) : level = other := by
  have hvalues := congrArg UInt8.toNat heq
  rwa [UInt8.toNat_ofNat', UInt8.toNat_ofNat', Nat.mod_eq_of_lt hlevel, Nat.mod_eq_of_lt hother]
    at hvalues

theorem keptLevel_leveledEntries : keptLevel leveledEntries [UInt8.ofNat 255] = [] := by
  have hnodup : ([] :: (range 256).map fun level ↦ [UInt8.ofNat level]).Nodup := by
    refine nodup_cons.mpr ⟨by simp, Nodup.map_on ?_ nodup_range⟩
    intro level hlevel other hother heq
    exact ofNat_inj (mem_range.mp hlevel) (mem_range.mp hother) (cons.inj heq).1
  rw [keptLevel, levels_leveledEntries, eraseDups_eq_self hnodup, maxBitpackDictEntries,
    take_succ_cons, ← map_take, take_range, if_neg]
  intro hmem
  rcases mem_cons.mp hmem with hempty | hlast
  · cases hempty
  · obtain ⟨level, hlevel, heq⟩ := mem_map.mp hlast
    have hbound : level < 255 := mem_range.mp hlevel
    have hsame := ofNat_inj (by omega) (by omega) (cons.inj heq).1
    omega

/-- A chunk gives back what was written, except for levels beyond its dictionary. Assumes: faithful
compression, at most 50000 entries that were decoded from the WAL, and sizes that the format and the
decoders' ceilings allow. -/
theorem fillEntryFromChunk_writeChunk {zstd : Zstd} (hzstd : zstd.Faithful) {entries : List Entry}
    (hcount : entries.length ≤ 50000) (hentries : ∀ entry ∈ entries, FromWal entry)
    (hfits : ChunkFits zstd entries) :
    ∃ file reader, writeChunk zstd entries = some file ∧ openReader file = .ok reader ∧
      reader.entryCount = entries.length ∧
      ∀ row entry, entries[row]? = some entry →
        fillEntryFromChunk zstd reader row = .ok (chunkEntry entries entry) := by
  obtain ⟨file, reader, hwritten, hopened, hopen⟩ :=
    openReader_writeChunk (hcount.trans (by decide)) hfits.columns
  refine ⟨file, reader, hwritten, hopened, hopen.entryCount, fun row entry hrow ↦ ?_⟩
  exact fillEntryFromChunk_eq hzstd hopen hfits hcount
    (fun other hother ↦ (hentries other hother).columnar) hrow

theorem fillEntryFromChunk_writeChunk_witness : (∀ entry ∈ leveledEntries.take 2, FromWal entry) ∧
      ChunkFits stored (leveledEntries.take 2) ∧
      ∃ file reader, writeChunk stored (leveledEntries.take 2) = some file ∧
        openReader file = .ok reader ∧ reader.entryCount = (leveledEntries.take 2).length ∧
        ∀ row entry, (leveledEntries.take 2)[row]? = some entry →
          fillEntryFromChunk stored reader row =
            .ok (chunkEntry (leveledEntries.take 2) entry) := by
  have hentries : ∀ entry ∈ leveledEntries.take 2, FromWal entry :=
    fun entry hentry ↦ fromWal_leveledEntries entry (mem_of_mem_take hentry)
  have hfits := @chunkFits_leveledEntries 2 (by omega)
  exact ⟨hentries, hfits, fillEntryFromChunk_writeChunk stored_faithful
    ((length_take_le _ _).trans (by omega)) hentries hfits⟩

/-- The chunk of these entries is written, opened and read without an error, and its last row has
lost its level. -/
theorem level_beyond_dictionary_lost :
    leveledEntries ≠ [] ∧ leveledEntries.length ≤ 50000 ∧ (∀ entry ∈ leveledEntries, FromWal entry) ∧
      ∃ file reader entry other, writeChunk stored leveledEntries = some file ∧
        openReader file = .ok reader ∧ leveledEntries[255]? = some entry ∧
        fillEntryFromChunk stored reader 255 = .ok other ∧ other ≠ entry := by
  have hlength : leveledEntries.length = 256 := by rw [leveledEntries, length_map, length_range]
  have hcount : leveledEntries.length ≤ 50000 := by omega
  have hfits : ChunkFits stored leveledEntries := by
    have htake := chunkFits_leveledEntries (le_refl 256)
    rwa [take_of_length_le hlength.le] at htake
  obtain ⟨file, reader, hwritten, hopened, hopen⟩ :=
    openReader_writeChunk (hcount.trans (by decide)) hfits.columns
  have hrow : leveledEntries[255]? = some (leveled 255) := by
    rw [leveledEntries, getElem?_map, getElem?_range (by omega)]
    rfl
  have hread := fillEntryFromChunk_eq stored_faithful hopen hfits hcount
    (fun entry hentry ↦ (fromWal_leveledEntries entry hentry).columnar) hrow
  have hne : leveledEntries ≠ [] := fun hnil ↦ by simp [hnil] at hlength
  refine ⟨hne, hcount, fromWal_leveledEntries, file, reader, leveled 255, _, hwritten, hopened, hrow,
    hread, fun heq ↦ ?_⟩
  have hlevel : (chunkEntry leveledEntries (leveled 255)).str .level = [] := by
    simp only [chunkEntry, leveled, Entry.setStr, Function.update_self]
    exact keptLevel_leveledEntries
  rw [heq] at hlevel
  simp [leveled, Entry.setStr] at hlevel

end OpenTrace.Engine
