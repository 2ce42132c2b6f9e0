import OpenTrace.Chunk.Entry
import OpenTrace.Encoding.Dictionary
import OpenTrace.Encoding.Sparse
import OpenTrace.Library.Decimal

/-!
# Writing a chunk

A chunk file (`schema.go`, `writer.go`): a header of 64 bytes, the columns of the schema one after
another, and the directory that says where each of them is. A column takes its values out of the
entries by its name and encodes them by its type. `writeColumns_mem` places every column in the file
and in the directory.
-/

namespace OpenTrace.Chunk

open Library Encoding List Option

/-! ### Schema -/

/-- How a column's values are encoded. -/
inductive ColumnType
  | deltaVarint | zstdInt64 | dictBitpack | dictZstd | zstdBlock
  | sparseString | sparseInt64 | sparseBool | sparseBytes | sparseDictZstd
  deriving DecidableEq, Repr

def ColumnType.code : ColumnType → ℕ
  | .deltaVarint => 1
  | .zstdInt64 => 2
  | .dictBitpack => 3
  | .dictZstd => 4
  | .zstdBlock => 5
  | .sparseString => 6
  | .sparseInt64 => 7
  | .sparseBool => 8
  | .sparseBytes => 9
  | .sparseDictZstd => 10

/-- The columns of a chunk, one for each field of an entry. -/
inductive Column
  | id | ts | receivedAt
  | str (field : StrField)
  | int (field : IntField)
  | nPlusOne
  | body
  deriving DecidableEq, Repr

def Column.name : Column → String
  | .id => "id"
  | .ts => "ts"
  | .receivedAt => "received_at"
  | .str field => field.name
  | .int field => field.name
  | .nPlusOne => "n_plus_one"
  | .body => "body"

/-- The type of a string field's column. -/
def StrField.columnType : StrField → ColumnType
  | .level => .dictBitpack
  | .service | .env | .kind => .dictZstd
  | .message => .zstdBlock
  | .version | .host | .eventType | .tenantID | .method | .route | .handler | .errorClass
  | .jobClass | .jobQueue => .sparseDictZstd
  | .traceID | .spanID | .parentSpanID | .requestID | .userID | .sessionID | .path
  | .errorMessage | .sourceFile | .errorFingerprint | .jobID => .sparseString

/-- The status is stored as text. -/
def IntField.columnType : IntField → ColumnType
  | .status => .sparseDictZstd
  | _ => .sparseInt64

def Column.type : Column → ColumnType
  | .id | .receivedAt => .deltaVarint
  | .ts => .zstdInt64
  | .str field => field.columnType
  | .int field => field.columnType
  | .nPlusOne => .sparseBool
  | .body => .sparseBytes

/-- `Schema`: the columns in the order of the file. -/
def schema : List Column :=
  [.id, .ts, .receivedAt, .str .level, .str .service, .str .message,
    .str .env, .str .version, .str .host, .str .kind, .str .eventType, .str .traceID,
    .str .spanID, .str .parentSpanID, .str .requestID, .str .userID, .str .tenantID,
    .str .sessionID,
    .str .method, .str .path, .str .route, .str .handler, .int .status, .int .durationMs,
    .int .dbMs, .int .dbCount, .int .cacheMs, .int .cacheHits, .int .cacheMisses, .int .extMs,
    .int .extCount, .int .renderMs, .int .allocCount, .int .memDeltaMb, .nPlusOne,
    .int .slowQueries, .int .dupQueries,
    .str .errorClass, .str .errorMessage, .str .sourceFile, .int .sourceLine,
    .str .errorFingerprint,
    .str .jobClass, .str .jobQueue, .str .jobID, .int .queueMs,
    .body]

theorem mem_schema (column : Column) : column ∈ schema := by
  cases column with
  | str field => cases field <;> decide
  | int field => cases field <;> decide
  | id => decide
  | ts => decide
  | receivedAt => decide
  | nPlusOne => decide
  | body => decide

/-! ### Values of a column -/

def extractInt64 (column : Column) (entries : List Entry) : List Int64 :=
  entries.map fun entry ↦
    match column with
    | .id => entry.id
    | .ts => entry.ts
    | .receivedAt => entry.receivedAt
    | _ => 0

/-- The text of a status, which is written only when it is positive. -/
def statusText (status : Int64) : Bytes := if 0 < status then decimal status.toNatClampNeg else []

def extractString (column : Column) (entries : List Entry) : List Bytes :=
  entries.map fun entry ↦
    match column with
    | .str field => entry.str field
    | .int .status => statusText (entry.int .status)
    | _ => []

/-- A number that is not positive is stored as no value. -/
def positive (value : Int64) : Option Int64 := if 0 < value then some value else none

def extractOptionalInt64 (column : Column) (entries : List Entry) : List (Option Int64) :=
  entries.map fun entry ↦
    match column with
    | .int .status => none
    | .int field => positive (entry.int field)
    | _ => none

def extractOptionalBool (column : Column) (entries : List Entry) : List (Option Bool) :=
  entries.map fun entry ↦
    match column with
    | .nPlusOne => entry.nPlusOne
    | _ => none

def extractBody (entries : List Entry) : List (Option Bytes) :=
  entries.map fun entry ↦ nonEmpty entry.body

/-! ### Encoding -/

/-- `maxBitpackDictEntries`: 256. -/
def maxBitpackDictEntries : ℕ := 256

/-- The bitpacked dictionary column; nothing where `BitpackEncode` panics. -/
def encodeDictBitpack (values : List Bytes) : Option Bytes :=
  let encoded := dictEncodeLimit values maxBitpackDictEntries
  let dictBuf := serializeDict encoded.dict
  (bitpackEncode (encoded.indices.map UInt8.ofNat) (bitsNeeded encoded.dict.length)).map
    fun packed ↦ leBytes 4 dictBuf.length ++ dictBuf ++ packed

/-- The bytes of a column and its number of nulls. -/
def encodeColumn (zstd : Zstd) (entries : List Entry) (column : Column) : Option (Bytes × ℕ) :=
  match column.type with
  | .deltaVarint => some (deltaEncode zstd (extractInt64 column entries), 0)
  | .zstdInt64 => some (zstdBlockEncodeInt64 zstd (extractInt64 column entries), 0)
  | .dictBitpack => (encodeDictBitpack (extractString column entries)).map (·, 0)
  | .dictZstd => some (dictMarshal zstd (dictEncode (extractString column entries)), 0)
  | .zstdBlock => some (zstdBlockEncodeStrings zstd (extractString column entries), 0)
  | .sparseString | .sparseDictZstd =>
    let values := extractString column entries
    some (sparseStrings zstd values, values.countP (· = []))
  | .sparseInt64 =>
    let values := extractOptionalInt64 column entries
    some (Encoding.sparseInt64 zstd values, values.countP isNone)
  | .sparseBool =>
    let values := extractOptionalBool column entries
    some (Encoding.sparseBool values, values.countP isNone)
  | .sparseBytes =>
    let values := extractBody entries
    some (Encoding.sparseBytes zstd values, values.countP isNone)

/-! ### The file -/

/-- Where a column is in the file. -/
structure DirectoryEntry where
  name : Bytes
  type : ℕ
  offset : ℕ
  compressedSize : ℕ
  nullCount : ℕ
  deriving DecidableEq, Repr

def chunkMagic : Bytes := ascii "OTCL"

/-- The version that is written. -/
def chunkVersion : ℕ := 2

def headerSize : ℕ := 64

/-- `WriteAllColumns` from an offset on: the bytes of the columns and their directory. -/
def writeColumns (zstd : Zstd) (entries : List Entry) :
    ℕ → List Column → Option (Bytes × List DirectoryEntry)
  | _, [] => some ([], [])
  | offset, column :: columns =>
    match encodeColumn zstd entries column with
    | none => none
    | some (data, nullCount) =>
      match writeColumns zstd entries (offset + data.length) columns with
      | none => none
      | some (rest, directory) =>
        some (data ++ rest, ⟨ascii column.name, column.type.code, offset, data.length % 2 ^ 32,
            nullCount % 2 ^ 32⟩ :: directory)

def marshalDirectoryEntry (entry : DirectoryEntry) : Bytes :=
  leBytes 1 entry.name.length ++ entry.name ++ leBytes 1 entry.type ++ leBytes 8 entry.offset ++
    leBytes 4 entry.compressedSize ++ leBytes 4 entry.nullCount

def marshalDirectory (entries : List DirectoryEntry) : Bytes :=
  leBytes 2 entries.length ++ entries.flatMap marshalDirectoryEntry

/-- The header that `Close` writes over the placeholder. -/
def chunkHeader (entryCount columnCount dirOffset : ℕ) : Bytes :=
  chunkMagic ++ leBytes 2 chunkVersion ++ [0, 0] ++ leBytes 4 entryCount ++
    leBytes 2 columnCount ++ [0, 0] ++ leBytes 8 dirOffset ++ replicate 40 0

/-- The file that `NewWriter`, `WriteAllColumns` and `Close` leave. -/
def writeChunk (zstd : Zstd) (entries : List Entry) : Option Bytes :=
  match writeColumns zstd entries headerSize schema with
  | none => none
  | some (data, directory) =>
    some (chunkHeader entries.length directory.length (headerSize + data.length) ++ data ++
      marshalDirectory directory)

@[simp] theorem length_chunkHeader (entryCount columnCount dirOffset : ℕ) :
    (chunkHeader entryCount columnCount dirOffset).length = headerSize := by
  rfl

section Layout

variable {zstd : Zstd} {entries : List Entry}

/-- The indices of a bitpacked dictionary fit its width: the writer does not panic. -/
theorem encodeDictBitpack_isSome (values : List Bytes) : (encodeDictBitpack values).isSome := by
  have hlength := @length_dict_dictEncodeLimit maxBitpackDictEntries (by decide) (by decide) values
  obtain ⟨hlow, hhigh, -⟩ := bitsNeeded_spec hlength
  rw [encodeDictBitpack, bitpackEncode, if_neg (by omega)]
  rfl

theorem encodeColumn_isSome (zstd : Zstd) (entries : List Entry) (column : Column) :
    (encodeColumn zstd entries column).isSome := by
  unfold encodeColumn
  cases column.type with
  | dictBitpack =>
    rw [isSome_map]
    exact encodeDictBitpack_isSome _
  | _ => rfl

theorem writeColumns_isSome (zstd : Zstd) (entries : List Entry) (offset : ℕ)
    (columns : List Column) : (writeColumns zstd entries offset columns).isSome := by
  induction columns generalizing offset with
  | nil => rfl
  | cons column columns ih =>
    obtain ⟨encoded, hencoded⟩ := isSome_iff_exists.mp (encodeColumn_isSome zstd entries column)
    obtain ⟨written, hwritten⟩ := isSome_iff_exists.mp (ih (offset + encoded.1.length))
    simp only [writeColumns, hencoded, hwritten]
    rfl

variable {offset : ℕ} {columns : List Column} {data : Bytes} {directory : List DirectoryEntry}

theorem writeColumns_cons {column : Column}
    (hwritten : writeColumns zstd entries offset (column :: columns) = some (data, directory)) :
    ∃ first nulls rest others, encodeColumn zstd entries column = some (first, nulls) ∧
      writeColumns zstd entries (offset + first.length) columns = some (rest, others) ∧
      data = first ++ rest ∧
      directory = ⟨ascii column.name, column.type.code, offset, first.length % 2 ^ 32,
        nulls % 2 ^ 32⟩ :: others := by
  rw [writeColumns] at hwritten
  cases hencoded : encodeColumn zstd entries column with
  | none => simp [hencoded] at hwritten
  | some encoded =>
    obtain ⟨first, nulls⟩ := encoded
    cases hrest : writeColumns zstd entries (offset + first.length) columns with
    | none => simp [hencoded, hrest] at hwritten
    | some written =>
      obtain ⟨rest, others⟩ := written
      simp only [hencoded, hrest, some.injEq, Prod.mk.injEq] at hwritten
      exact ⟨first, nulls, rest, others, rfl, hrest, hwritten.1.symm, hwritten.2.symm⟩

section

variable (hwritten : writeColumns zstd entries offset columns = some (data, directory))

include hwritten

/-- Every column is in the file, where the directory says. -/
theorem writeColumns_mem {column : Column} (hcolumn : column ∈ columns) :
    ∃ before content after nulls,
      encodeColumn zstd entries column = some (content, nulls) ∧ data = before ++ content ++ after ∧
      ⟨ascii column.name, column.type.code, offset + before.length, content.length % 2 ^ 32,
        nulls % 2 ^ 32⟩ ∈ directory := by
  induction columns generalizing offset data directory with
  | nil => exact absurd hcolumn (not_mem_nil)
  | cons head columns ih =>
    obtain ⟨first, nulls, rest, others, hencoded, hrest, rfl, rfl⟩ := writeColumns_cons hwritten
    rcases mem_cons.mp hcolumn with rfl | htail
    · exact ⟨[], first, rest, nulls, hencoded, rfl, mem_cons_self ..⟩
    · obtain ⟨before, content, after, count, hcontent, hdata, hlisted⟩ := ih hrest htail
      refine ⟨first ++ before, content, after, count, hcontent, ?_, ?_⟩
      · rw [hdata]
        simp only [append_assoc]
      · rw [length_append, ← Nat.add_assoc]
        exact mem_cons_of_mem _ hlisted

theorem map_name_directory :
    directory.map DirectoryEntry.name = columns.map fun column ↦ ascii column.name := by
  induction columns generalizing offset data directory with
  | nil =>
    cases some.inj hwritten
    rfl
  | cons column columns ih =>
    obtain ⟨first, nulls, rest, others, -, hrest, -, rfl⟩ := writeColumns_cons hwritten
    rw [map_cons, map_cons, ih hrest]

end

/-- What the directory holds fits its fields. -/
structure DirectoryEntry.Fits (entry : DirectoryEntry) : Prop where
  name : entry.name.length < 256
  type : entry.type < 256
  offset : entry.offset < 2 ^ 64
  compressedSize : entry.compressedSize < 2 ^ 32
  nullCount : entry.nullCount < 2 ^ 32

theorem ColumnType.code_lt (type : ColumnType) : type.code < 256 := by
  cases type <;> decide

theorem Column.length_name_lt (column : Column) : (ascii column.name).length < 256 := by
  cases column with
  | str field => cases field <;> decide
  | int field => cases field <;> decide
  | _ => decide

theorem directory_fits
    (hwritten : writeColumns zstd entries offset columns = some (data, directory))
    (hend : offset + data.length < 2 ^ 64) : ∀ entry ∈ directory, entry.Fits := by
  induction columns generalizing offset data directory with
  | nil =>
    cases some.inj hwritten
    simp
  | cons column columns ih =>
    obtain ⟨first, nulls, rest, others, -, hrest, rfl, rfl⟩ := writeColumns_cons hwritten
    rw [length_append] at hend
    refine forall_mem_cons.mpr ⟨?_, ih hrest (by omega)⟩
    exact ⟨column.length_name_lt, column.type.code_lt, by change offset < 2 ^ 64; omega,
      Nat.mod_lt _ (by omega), Nat.mod_lt _ (by omega)⟩

theorem length_writeColumns_le {offset bound : ℕ}
    (hwritten : writeColumns zstd entries offset columns = some (data, directory))
    (hbound : ∀ column ∈ columns, ∀ content nulls, encodeColumn zstd entries column = some (content, nulls) → content.length ≤ bound) :
    data.length ≤ columns.length * bound := by
  induction columns generalizing offset data directory with
  | nil =>
    cases some.inj hwritten
    simp
  | cons column columns ih =>
    obtain ⟨first, nulls, rest, others, hencoded, hrest, rfl, -⟩ := writeColumns_cons hwritten
    have hfirst := hbound column mem_cons_self first nulls hencoded
    have hothers := ih hrest fun other hother ↦ hbound other (mem_cons_of_mem _ hother)
    rw [length_append, length_cons, Nat.succ_mul]
    omega

end Layout

end OpenTrace.Chunk
