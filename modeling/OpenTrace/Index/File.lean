import Mathlib.Data.List.Lex
import OpenTrace.Encoding.Framing
import OpenTrace.Index.Tokenizer
import OpenTrace.Library.Search

/-!
# The inverted index file

`builder.go` and `reader.go`. The builder collects the rows of every token; the file holds the terms
in ascending order, each with the place of its compressed row deltas in the postings section; the
reader finds a term by binary search and intersects the rows of the terms of a query.

The widths of the format are kept as they are: a term's length is written as a `uint16`, sizes and
offsets as `uint32`, and the reader adds a posting's offset and length as `uint32`s when it cuts the
posting out.
-/

namespace OpenTrace.Index

open Library Encoding

/-! ### Building -/

/-- The rows of every term, in the order in which the terms were met. The source keeps them in a
map. -/
abbrev Terms := List (Bytes × List ℕ)

/-- `b.terms[token] = append(b.terms[token], row)` -/
def addToken (row : ℕ) : Terms → Bytes → Terms
  | [], token => [(token, [row])]
  | (term, rows) :: rest, token =>
    if term = token then (term, rows ++ [row]) :: rest else (term, rows) :: addToken row rest token

/-- `Builder.Add` -/
def add (unicode : Unicode) (terms : Terms) (row : ℕ) (message : Bytes) : Terms :=
  (tokenizeUnique unicode message).foldl (addToken row) terms

/-- `Builder.Add` for the messages of a chunk, from a row on. -/
def addFrom (unicode : Unicode) : Terms → ℕ → List Bytes → Terms
  | terms, _, [] => terms
  | terms, row, message :: messages => addFrom unicode (add unicode terms row message) (row + 1) messages

def build (unicode : Unicode) (messages : List Bytes) : Terms := addFrom unicode [] 0 messages

/-- Go compares strings byte by byte. -/
def bytesLe (text other : Bytes) : Bool := text.map UInt8.toNat ≤ other.map UInt8.toNat

/-- `sort.Strings` on the terms. -/
def sortTerms (terms : Terms) : Terms := terms.mergeSort fun first second ↦ bytesLe first.1 second.1

/-! ### Writing -/

/-- A row of the term table. -/
structure IndexTerm where
  term : Bytes
  postingsOffset : ℕ
  postingsLen : ℕ
  deriving DecidableEq, Repr

/-- The deltas of ascending row numbers, `uint32`s, from a previous one on. -/
def rowDeltas (prev : ℕ) : List ℕ → Bytes
  | [] => []
  | row :: rows => putUvarint ((row + 2 ^ 32 - prev) % 2 ^ 32) ++ rowDeltas row rows

/-- The term table and the postings section from an offset on. -/
def writeTerms (zstd : Zstd) : ℕ → Terms → List IndexTerm × Bytes
  | _, [] => ([], [])
  | offset, (term, rows) :: terms =>
    let compressed := compress zstd (rowDeltas 0 rows)
    let (table, postings) := writeTerms zstd (offset + compressed.length) terms
    (⟨term, offset % 2 ^ 32, compressed.length % 2 ^ 32⟩ :: table, compressed ++ postings)

def marshalTerm (entry : IndexTerm) : Bytes :=
  leBytes 2 entry.term.length ++ entry.term ++ leBytes 4 entry.postingsOffset ++
    leBytes 4 entry.postingsLen

def indexMagic : Bytes := ascii "OTIX"

/-- `Builder.Write`, as the contents of the file. -/
def writeIndex (zstd : Zstd) (terms : Terms) (entryCount : ℕ) : Bytes :=
  let (table, postings) := writeTerms zstd 0 (sortTerms terms)
  let termTable := table.flatMap marshalTerm
  indexMagic ++ leBytes 4 terms.length ++ leBytes 4 entryCount ++ leBytes 4 termTable.length ++
    termTable ++ postings

/-! ### Reading -/

/-- Why an index could not be opened or searched. `sliceBounds` is the panic of a slice expression
whose end, added as a `uint32`, lies before its start. -/
inductive IndexError
  | tooShort (length : ℕ)
  | invalidMagic (magic : Bytes)
  | tableOverflows
  | tableTruncated (term : ℕ)
  | entryTruncated
  | postingsOverflow (term : Bytes)
  | sliceBounds
  | decompress (term : Bytes)
  | invalidDelta (offset : ℕ)
  deriving DecidableEq, Repr

/-- An open index. -/
structure Reader where
  terms : List IndexTerm
  postingsData : Bytes
  entryCount : ℕ
  deriving DecidableEq, Repr

/-- The loop that parses the term table, from a term on. -/
def parseTerms : ℕ → ℕ → Bytes → Except IndexError (List IndexTerm)
  | 0, _, _ => .ok []
  | count + 1, index, table =>
    match takeLe 2 table with
    | none => .error (.tableTruncated index)
    | some (termLen, rest) =>
      if rest.length < termLen + 8 then .error .entryTruncated
      else
        let fields := rest.drop termLen
        let entry : IndexTerm :=
          ⟨rest.take termLen, ofLe (fields.take 4), ofLe ((fields.drop 4).take 4)⟩
        (parseTerms count (index + 1) (fields.drop 8)).map (entry :: ·)

/-- `OpenReader`, on the contents of the file. -/
def openReader (data : Bytes) : Except IndexError Reader :=
  if data.length < 16 then .error (.tooShort data.length)
  else if data.take 4 ≠ indexMagic then .error (.invalidMagic (data.take 4))
  else
    let termCount := ofLe ((data.drop 4).take 4)
    let entryCount := ofLe ((data.drop 8).take 4)
    let termTableSize := ofLe ((data.drop 12).take 4)
    if data.length < 16 + termTableSize then .error .tableOverflows
    else
      match parseTerms termCount 0 ((data.drop 16).take termTableSize) with
      | .error error => .error error
      | .ok terms => .ok ⟨terms, (data.drop 16).drop termTableSize, entryCount⟩

/-- The loop that decodes row deltas, in at most `fuel` rounds. -/
def rowsFrom : ℕ → ℕ → ℕ → Bytes → Except IndexError (List ℕ)
  | 0, _, _, _ => .ok []
  | fuel + 1, offset, prev, raw =>
    if raw = [] then .ok []
    else
      match takeUvarint raw with
      | none => .error (.invalidDelta offset)
      | some (delta, rest) =>
        let row := (prev + delta) % 2 ^ 32
        (rowsFrom fuel (offset + (raw.length - rest.length)) row rest).map (row :: ·)

/-- The rows of an entry of the term table. -/
def Reader.readPostings (zstd : Zstd) (reader : Reader) (entry : IndexTerm) :
    Except IndexError (List ℕ) :=
  if reader.postingsData.length < entry.postingsOffset + entry.postingsLen then
    .error (.postingsOverflow entry.term)
  else if (entry.postingsOffset + entry.postingsLen) % 2 ^ 32 < entry.postingsOffset then
    .error .sliceBounds
  else
    match decompress zstd ((reader.postingsData.drop entry.postingsOffset).take
        ((entry.postingsOffset + entry.postingsLen) % 2 ^ 32 - entry.postingsOffset)) with
    | none => .error (.decompress entry.term)
    | some raw => rowsFrom raw.length 0 0 raw

/-- The rows of a term; none when the table does not have it. -/
def Reader.lookup (zstd : Zstd) (reader : Reader) (term : Bytes) : Except IndexError (List ℕ) :=
  let index := search reader.terms.length fun index ↦
    (reader.terms[index]?).any fun entry ↦ bytesLe term entry.term
  match reader.terms[index]? with
  | none => .ok []
  | some entry => if entry.term = term then reader.readPostings zstd entry else .ok []

/-- The rows of the terms one after another; nothing as soon as a term has none. -/
def Reader.lookupAll (zstd : Zstd) (reader : Reader) :
    List Bytes → Except IndexError (Option (List (List ℕ)))
  | [] => .ok (some [])
  | term :: terms =>
    match reader.lookup zstd term with
    | .error error => .error error
    | .ok [] => .ok none
    | .ok rows => (reader.lookupAll zstd terms).map (Option.map (rows :: ·))

/-- The intersection of the lists, which stops when it is empty. -/
def intersectAll : List ℕ → List (List ℕ) → List ℕ
  | result, [] => result
  | result, rows :: lists =>
    let both := intersectSorted result rows
    if both = [] then [] else intersectAll both lists

/-- `Search`: the rows that have every term of the query. -/
def Reader.search (zstd : Zstd) (unicode : Unicode) (reader : Reader) (query : Bytes) :
    Except IndexError (List ℕ) :=
  match tokenizeUnique unicode query with
  | [] => .ok []
  | terms =>
    match reader.lookupAll zstd terms with
    | .error error => .error error
    | .ok none => .ok []
    | .ok (some []) => .ok []
    | .ok (some (rows :: lists)) => .ok (intersectAll rows lists)

end OpenTrace.Index
