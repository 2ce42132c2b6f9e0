import Mathlib.Data.List.Nodup
import OpenTrace.Chunk.Writer

/-!
# Reading a chunk

`reader.go`: the header and the directory are validated when a chunk is opened, a column is looked up
by its name, cut out of the file and decoded. A column that the directory does not have reads as
default values, which is how older chunks are read; every other failure is reported.

`openReader_writeChunk` opens what the writer wrote, and `Opened.readColumnRaw_eq` finds every column in
it. Both assume that every column is below 4 GiB, which is what its size field counts to.
-/

namespace OpenTrace.Chunk

open Library Encoding List

/-! ### Opening -/

/-- Why a directory could not be parsed. -/
inductive DirectoryError
  | tooShort
  | countMismatch (header directory : ℕ)
  | truncated (entry : ℕ)
  | nameTruncated
  | entryTruncated (name : Bytes)
  deriving DecidableEq, Repr

/-- Why a chunk could not be opened or a column not be read. -/
inductive ChunkError
  | readHeader
  | invalidMagic (magic : Bytes)
  | unsupportedVersion (version : ℕ)
  | directoryOffset (offset size : ℕ)
  | entryCount (count : ℕ)
  | columnCount (count : ℕ)
  | directory (cause : DirectoryError)
  | columnSize (name : Bytes) (compressedSize size : ℕ)
  | readColumn (name : Bytes) (offset : ℕ)
  | dictBitpackTooShort
  | dictOverflows
  | dictTooShort
  | dictParse (cause : ColumnError)
  | column (cause : ColumnError)
  deriving DecidableEq, Repr

/-- An open chunk. The directory is a map in the source; the last entry of a name counts. -/
structure Reader where
  file : Bytes
  entryCount : ℕ
  version : ℕ
  lenFormat : LenFormat
  directory : List DirectoryEntry
  deriving DecidableEq, Repr

def maxChunkEntries : ℕ := 2 ^ 20

def maxChunkColumns : ℕ := 256

def minReadableVersion : ℕ := 1

/-- Chunks of the first version have the bare framing. -/
def readerLenFormat (version : ℕ) : LenFormat := if version < 2 then .uint16 else .extended

/-- The loop of `unmarshalDirectory`, from an entry on. -/
def unmarshalEntries : ℕ → ℕ → Bytes → Except DirectoryError (List DirectoryEntry)
  | 0, _, _ => .ok []
  | count + 1, index, data =>
    match takeLe 1 data with
    | none => .error (.truncated index)
    | some (nameLen, rest) =>
      if rest.length < nameLen then .error .nameTruncated
      else
        let name := rest.take nameLen
        let fields := rest.drop nameLen
        if fields.length < 17 then .error (.entryTruncated name)
        else
          let entry : DirectoryEntry :=
            ⟨name, ofLe (fields.take 1), ofLe ((fields.drop 1).take 8),
              ofLe ((fields.drop 9).take 4), ofLe ((fields.drop 13).take 4)⟩
          (unmarshalEntries count (index + 1) (fields.drop 17)).map (entry :: ·)

def unmarshalDirectory (data : Bytes) (expectedCount : ℕ) :
    Except DirectoryError (List DirectoryEntry) :=
  match takeLe 2 data with
  | none => .error .tooShort
  | some (count, rest) =>
    if count ≠ expectedCount then .error (.countMismatch expectedCount count)
    else unmarshalEntries count 0 rest

/-- `OpenReader`, on the contents of the file. An offset of `2 ^ 63` or more is negative as an
`int64`. -/
def openReader (file : Bytes) : Except ChunkError Reader :=
  if file.length < headerSize then .error .readHeader
  else if file.take 4 ≠ chunkMagic then .error (.invalidMagic (file.take 4))
  else
    let version := ofLe ((file.drop 4).take 2)
    if version < minReadableVersion ∨ chunkVersion < version then
      .error (.unsupportedVersion version)
    else
      let entryCount := ofLe ((file.drop 8).take 4)
      let columnCount := ofLe ((file.drop 12).take 2)
      let dirOffset := ofLe ((file.drop 16).take 8)
      if 2 ^ 63 ≤ dirOffset ∨ dirOffset < headerSize ∨ file.length < dirOffset then
        .error (.directoryOffset dirOffset file.length)
      else if maxChunkEntries < entryCount then .error (.entryCount entryCount)
      else if maxChunkColumns < columnCount then .error (.columnCount columnCount)
      else
        match unmarshalDirectory (file.drop dirOffset) columnCount with
        | .error cause => .error (.directory cause)
        | .ok directory => .ok ⟨file, entryCount, version, readerLenFormat version, directory⟩

/-! ### Columns -/

def Reader.lookup (reader : Reader) (name : Bytes) : Option DirectoryEntry :=
  reader.directory.reverse.find? (·.name = name)

/-- The bytes of a column; nothing when the chunk does not have it. Reading no bytes succeeds at
every offset. -/
def Reader.readColumnRaw (reader : Reader) (name : Bytes) : Except ChunkError (Option Bytes) :=
  match reader.lookup name with
  | none => .ok none
  | some entry =>
    if reader.file.length < entry.compressedSize then
      .error (.columnSize name entry.compressedSize reader.file.length)
    else if 2 ^ 63 ≤ entry.offset ∨
        (0 < entry.compressedSize ∧ reader.file.length < entry.offset + entry.compressedSize) then
      .error (.readColumn name entry.offset)
    else .ok (some ((reader.file.drop entry.offset).take entry.compressedSize))

/-- A column that is missing reads as one default value per row. -/
def Reader.readWith {α : Type} (reader : Reader) (column : Column) (missing : α)
    (decode : Bytes → Except ChunkError (List α)) : Except ChunkError (List α) :=
  match reader.readColumnRaw (ascii column.name) with
  | .error error => .error error
  | .ok none => .ok (replicate reader.entryCount missing)
  | .ok (some data) => decode data

/-- The error of a codec, as an error of the chunk. -/
def ofColumn {α : Type} (result : Except ColumnError α) : Except ChunkError α :=
  result.mapError .column

def Reader.readDeltaInt64 (reader : Reader) (zstd : Zstd) (column : Column) :
    Except ChunkError (List Int64) :=
  reader.readWith column 0 fun data ↦ ofColumn (deltaDecode zstd data reader.entryCount)

def Reader.readZstdInt64 (reader : Reader) (zstd : Zstd) (column : Column) :
    Except ChunkError (List Int64) :=
  reader.readWith column 0 fun data ↦ ofColumn (zstdBlockDecodeInt64 zstd data reader.entryCount)

/-- `deserializeDictOnly` -/
def deserializeDict (format : LenFormat) (data : Bytes) : Except ChunkError (List Bytes) :=
  match takeLe 2 data with
  | none => .error .dictTooShort
  | some (count, rest) => (readStrings format .dictEntry count 0 rest).mapError .dictParse

/-- The number of values is the one in front of the packed indices, not the chunk's. -/
def decodeDictBitpack (format : LenFormat) (data : Bytes) : Except ChunkError (List Bytes) :=
  match takeLe 4 data with
  | none => .error .dictBitpackTooShort
  | some (dictLen, rest) =>
    if rest.length < dictLen then .error .dictOverflows
    else
      match deserializeDict format (rest.take dictLen) with
      | .error error => .error error
      | .ok dict =>
        match bitpackDecode (rest.drop dictLen) with
        | .error error => .error (.column error)
        | .ok indices => .ok (indices.map fun index ↦ dict.getD index.toNat [])

section

variable (reader : Reader)

def Reader.readDictBitpack (column : Column) : Except ChunkError (List Bytes) :=
  reader.readWith column [] (decodeDictBitpack reader.lenFormat)

section

variable (zstd : Zstd) (column : Column)

def Reader.readDictZstd : Except ChunkError (List Bytes) :=
  reader.readWith column [] fun data ↦
    (ofColumn (dictUnmarshal zstd reader.lenFormat data reader.entryCount)).map dictLookup

def Reader.readZstdBlockStrings : Except ChunkError (List Bytes) :=
  reader.readWith column [] fun data ↦
    ofColumn (zstdBlockDecodeStrings zstd reader.lenFormat data reader.entryCount)

def Reader.readSparseStrings : Except ChunkError (List Bytes) :=
  reader.readWith column [] fun data ↦
    ofColumn (unsparseStrings zstd reader.lenFormat data reader.entryCount)

def Reader.readSparseInt64 : Except ChunkError (List (Option Int64)) :=
  reader.readWith column none fun data ↦ ofColumn (unsparseInt64 zstd data reader.entryCount)

end

def Reader.readSparseBool (column : Column) : Except ChunkError (List (Option Bool)) :=
  reader.readWith column none fun data ↦ ofColumn (unsparseBool data reader.entryCount)

def Reader.readSparseBytes (zstd : Zstd) (column : Column) :
    Except ChunkError (List (Option Bytes)) :=
  reader.readWith column none fun data ↦ ofColumn (unsparseBytes zstd data reader.entryCount)

end

/-! ### The directory reads back -/

theorem unmarshalEntries_flatMap {entries : List DirectoryEntry}
    (hfits : ∀ entry ∈ entries, entry.Fits) (index : ℕ) :
    unmarshalEntries entries.length index (entries.flatMap marshalDirectoryEntry) = .ok entries := by
  induction entries generalizing index with
  | nil => rfl
  | cons entry entries ih =>
    have hentry := hfits entry mem_cons_self
    have hrest := ih fun other hother ↦ hfits other (mem_cons_of_mem _ hother)
    rw [flatMap_cons, marshalDirectoryEntry, length_cons, unmarshalEntries]
    simp only [append_assoc]
    generalize htail : entries.flatMap marshalDirectoryEntry = tail at hrest ⊢
    rw [takeLe_leBytes_append (lt_of_lt_of_eq hentry.name (by norm_num))]
    set fields := leBytes 1 entry.type ++ (leBytes 8 entry.offset ++
      (leBytes 4 entry.compressedSize ++ (leBytes 4 entry.nullCount ++ tail))) with hfields
    have hname : ¬ (entry.name ++ fields).length < entry.name.length := by
      rw [length_append]
      omega
    have hone : fields.drop 1 = leBytes 8 entry.offset ++
        (leBytes 4 entry.compressedSize ++ (leBytes 4 entry.nullCount ++ tail)) :=
      drop_leBytes_append 1 _ _
    have hnine : fields.drop 9 =
        leBytes 4 entry.compressedSize ++ (leBytes 4 entry.nullCount ++ tail) := by
      rw [show 9 = 1 + 8 from rfl, ← drop_drop, hone, drop_leBytes_append]
    have hthirteen : fields.drop 13 = leBytes 4 entry.nullCount ++ tail := by
      rw [show 13 = 9 + 4 from rfl, ← drop_drop, hnine, drop_leBytes_append]
    have hend : fields.drop 17 = tail := by
      rw [show 17 = 13 + 4 from rfl, ← drop_drop, hthirteen, drop_leBytes_append]
    have htype : ofLe (fields.take 1) = entry.type := by
      rw [take_leBytes_append, ofLe_leBytes_of_lt (lt_of_lt_of_eq hentry.type (by norm_num))]
    have hoffset : ofLe (leBytes 8 entry.offset) = entry.offset :=
      ofLe_leBytes_of_lt (lt_of_lt_of_eq hentry.offset (by norm_num))
    have hsize : ofLe (leBytes 4 entry.compressedSize) = entry.compressedSize :=
      ofLe_leBytes_of_lt (lt_of_lt_of_eq hentry.compressedSize (by norm_num))
    have hnulls : ofLe (leBytes 4 entry.nullCount) = entry.nullCount :=
      ofLe_leBytes_of_lt (lt_of_lt_of_eq hentry.nullCount (by norm_num))
    simp only [if_neg hname, take_left, drop_left, htype, hone, hnine, hthirteen, hend,
      take_leBytes_append, hoffset, hsize, hnulls, hrest]
    rfl

/-- Assumes: a directory of fewer than `2 ^ 16` entries whose fields fit. -/
theorem unmarshalDirectory_marshalDirectory {entries : List DirectoryEntry}
    (hcount : entries.length < 2 ^ 16) (hfits : ∀ entry ∈ entries, entry.Fits) :
    unmarshalDirectory (marshalDirectory entries) entries.length = .ok entries := by
  rw [unmarshalDirectory, marshalDirectory,
    takeLe_leBytes_append (lt_of_lt_of_eq hcount (by norm_num))]
  simp only [ne_eq, not_true_eq_false, if_false, unmarshalEntries_flatMap hfits]

theorem nodup_schema_names : (schema.map fun column ↦ ascii column.name).Nodup := by
  decide +kernel

/-- A name that occurs once is found. -/
theorem lookup_eq_some {reader : Reader} (hnodup : (reader.directory.map DirectoryEntry.name).Nodup)
    {entry : DirectoryEntry} (hentry : entry ∈ reader.directory) :
    reader.lookup entry.name = some entry := by
  have hexists : (reader.lookup entry.name).isSome := by
    rw [Reader.lookup, find?_isSome]
    exact ⟨entry, mem_reverse.mpr hentry, by simp⟩
  obtain ⟨found, hfound⟩ := Option.isSome_iff_exists.mp hexists
  have hname : found.name = entry.name := by simpa using find?_some hfound
  have hmem : found ∈ reader.directory := mem_reverse.mp (mem_of_find?_eq_some hfound)
  rw [hfound, inj_on_of_nodup_map hnodup hmem hentry hname]

/-! ### Opening what was written -/

/-- Every column of the chunk is below 4 GiB. -/
def ColumnsFit (zstd : Zstd) (entries : List Entry) : Prop :=
  ∀ column content nulls, encodeColumn zstd entries column = some (content, nulls) →
    content.length < 2 ^ 32

/-- A reader of the chunk of these entries. -/
structure Opened (zstd : Zstd) (entries : List Entry) (reader : Reader) : Prop where
  entryCount : reader.entryCount = entries.length
  lenFormat : reader.lenFormat = .extended
  readColumnRaw_eq : ∀ column, ∃ content nulls,
    encodeColumn zstd entries column = some (content, nulls) ∧
    reader.readColumnRaw (ascii column.name) = .ok (some content)

theorem openReader_eq {entryCount columnCount : ℕ} {data directoryData : Bytes}
    {directory : List DirectoryEntry} (hentries : entryCount ≤ maxChunkEntries)
    (hcolumns : columnCount ≤ maxChunkColumns) (hdata : headerSize + data.length < 2 ^ 63)
    (hdirectory : unmarshalDirectory directoryData columnCount = .ok directory) :
    let file := chunkHeader entryCount columnCount (headerSize + data.length) ++ data ++ directoryData
    openReader file = .ok ⟨file, entryCount, 2, .extended, directory⟩ := by
  intro file
  unfold maxChunkEntries at hentries
  unfold maxChunkColumns at hcolumns
  have hlength : file.length = headerSize + data.length + directoryData.length := by
    simp only [file, length_append, length_chunkHeader]
  have height : file.drop 8 = leBytes 4 entryCount ++ (leBytes 2 columnCount ++ ([0, 0] ++
      (leBytes 8 (headerSize + data.length) ++ (replicate 40 0 ++ (data ++ directoryData))))) := by
    rfl
  have htwelve : file.drop 12 = leBytes 2 columnCount ++ ([0, 0] ++
      (leBytes 8 (headerSize + data.length) ++ (replicate 40 0 ++ (data ++ directoryData)))) := by
    rw [show 12 = 8 + 4 from rfl, ← drop_drop, height, drop_leBytes_append]
  have hsixteen : file.drop 16 = leBytes 8 (headerSize + data.length) ++
      (replicate 40 0 ++ (data ++ directoryData)) := by
    rfl
  have hdrop : file.drop (headerSize + data.length) = directoryData := by
    have hfront : (chunkHeader entryCount columnCount (headerSize + data.length) ++ data).length =
        headerSize + data.length := by rw [length_append, length_chunkHeader]
    rw [← hfront]
    exact drop_left
  have hcount : ofLe (leBytes 4 entryCount) = entryCount := ofLe_leBytes_of_lt (by omega)
  have hnumber : ofLe (leBytes 2 columnCount) = columnCount := ofLe_leBytes_of_lt (by omega)
  have hoffset : ofLe (leBytes 8 (headerSize + data.length)) = headerSize + data.length :=
    ofLe_leBytes_of_lt (by omega)
  have hinside : ¬ (2 ^ 63 ≤ headerSize + data.length ∨ headerSize + data.length < headerSize ∨
      file.length < headerSize + data.length) := by omega
  have hrows : ¬ maxChunkEntries < entryCount := by unfold maxChunkEntries; omega
  have hwidth : ¬ maxChunkColumns < columnCount := by unfold maxChunkColumns; omega
  simp only [openReader, height, htwelve, hsixteen, take_leBytes_append, hcount, hnumber, hoffset,
    if_neg hinside, if_neg hrows, if_neg hwidth, hdrop, hdirectory]
  rfl

/-- A chunk that was written opens, and a column below 4 GiB is where the directory says. Assumes: at
most `2 ^ 20` entries, and a data section below `2 ^ 63` bytes. -/
theorem openReader_writeColumns {zstd : Zstd} {entries : List Entry} {data : Bytes}
    {directory : List DirectoryEntry} (hentries : entries.length ≤ maxChunkEntries)
    (hwritten : writeColumns zstd entries headerSize schema = some (data, directory))
    (hend : headerSize + data.length < 2 ^ 63) :
    ∃ file reader, writeChunk zstd entries = some file ∧ openReader file = .ok reader ∧
      reader.entryCount = entries.length ∧ reader.lenFormat = .extended ∧
      ∀ column, ∃ content nulls, encodeColumn zstd entries column = some (content, nulls) ∧
        (content.length < 2 ^ 32 →
          reader.readColumnRaw (ascii column.name) = .ok (some content)) := by
  have hnames := map_name_directory hwritten
  have hlength : directory.length = 47 := by
    simpa [show schema.length = 47 from rfl] using congrArg length hnames
  have hfits := directory_fits hwritten (hend.trans (by omega))
  have hopen := openReader_eq hentries (by rw [hlength]; decide) hend
    (unmarshalDirectory_marshalDirectory (by omega) hfits)
  refine ⟨_, _, by rw [writeChunk, hwritten], hopen, rfl, rfl, fun column ↦ ?_⟩
  obtain ⟨before, content, after, nulls, hencoded, hplace, hlisted⟩ :=
    writeColumns_mem hwritten (mem_schema column)
  refine ⟨content, nulls, hencoded, fun hcolumn ↦ ?_⟩
  have hsmall : content.length % 2 ^ 32 = content.length := Nat.mod_eq_of_lt hcolumn
  have hfound := @lookup_eq_some
    ⟨chunkHeader entries.length directory.length (headerSize + data.length) ++ data ++
      marshalDirectory directory, entries.length, 2, .extended, directory⟩
    (hnames ▸ nodup_schema_names) _ hlisted
  simp only [hsmall] at hfound
  have hfile : (chunkHeader entries.length directory.length (headerSize + data.length) ++ data ++
      marshalDirectory directory) = (chunkHeader entries.length directory.length
        (headerSize + data.length) ++ before) ++ (content ++ (after ++ marshalDirectory directory)) := by
    rw [hplace]
    simp only [append_assoc]
  have hbefore : (chunkHeader entries.length directory.length (headerSize + data.length) ++
      before).length = headerSize + before.length := by
    rw [length_append, length_chunkHeader]
  have htotal : (chunkHeader entries.length directory.length (headerSize + data.length) ++ data ++
      marshalDirectory directory).length =
        headerSize + before.length + content.length + (after ++ marshalDirectory directory).length := by
    rw [hfile, length_append, hbefore, length_append]
    omega
  have hdataLength : data.length = before.length + content.length + after.length := by
    rw [hplace, length_append, length_append]
  simp only [Reader.readColumnRaw, hfound]
  rw [if_neg (by rw [htotal]; omega), if_neg (by rw [htotal]; omega)]
  rw [hfile, ← hbefore, drop_left, take_left]

/-- A chunk that was written opens, with every column where the directory says. Assumes: at most
`2 ^ 20` entries, and columns below 4 GiB. -/
theorem openReader_writeChunk {zstd : Zstd} {entries : List Entry}
    (hentries : entries.length ≤ maxChunkEntries) (hcolumns : ColumnsFit zstd entries) :
    ∃ file reader, writeChunk zstd entries = some file ∧ openReader file = .ok reader ∧
      Opened zstd entries reader := by
  obtain ⟨⟨data, directory⟩, hwritten⟩ :=
    Option.isSome_iff_exists.mp (writeColumns_isSome zstd entries headerSize schema)
  have hdata : data.length ≤ schema.length * 2 ^ 32 :=
    length_writeColumns_le hwritten fun column _ content nulls hencoded ↦
      (hcolumns column content nulls hencoded).le
  have hend : headerSize + data.length < 2 ^ 63 := by
    rw [show schema.length = 47 from rfl] at hdata
    unfold headerSize
    omega
  obtain ⟨file, reader, hchunk, hopened, hcount, hformat, hread⟩ :=
    openReader_writeColumns hentries hwritten hend
  refine ⟨file, reader, hchunk, hopened, hcount, hformat, fun column ↦ ?_⟩
  obtain ⟨content, nulls, hencoded, hraw⟩ := hread column
  exact ⟨content, nulls, hencoded, hraw (hcolumns column content nulls hencoded)⟩

end OpenTrace.Chunk
