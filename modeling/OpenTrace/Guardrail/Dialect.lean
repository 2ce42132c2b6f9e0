import OpenTrace.Guardrail.Validate

/-!
# How a database reads a query

The lexical rules of the databases behind the guardrail, and what a query must look like to them.
None of this is in the source: it states what the check is for.

A `Dialect` says how string literals, quoted names and comments are written. `pieces` cuts a query
into literals, quoted names, white space (comments included) and single bytes of code; `tokens` joins
the identifier bytes among these to words. `readOnly` is the property that a query must have: one
statement, no write keyword, no statement use of a keyword that is also a function, no call of a denied
function, all outside literals and comments.

`quirks` lists the places of a query at which the normal form of the guardrail does not follow the
dialect.
-/

namespace OpenTrace.Guardrail

open Library

/-! ### Dialects -/

structure Dialect where
  /-- A backslash in a string literal takes the next byte along. -/
  backslashEscapes : Bool
  /-- Double quotes enclose a string literal, not a name. -/
  doubleQuotedLiterals : Bool
  backquotedNames : Bool
  bracketedNames : Bool
  /-- `$tag$ … $tag$` is a string literal. -/
  dollarQuotes : Bool
  nestedComments : Bool
  /-- The body of a `/*! … */` is executed. -/
  versionedComments : Bool
  /-- `--` starts a comment only before white space. -/
  dashesNeedSpace : Bool
  hashComments : Bool
  carriageReturnEndsLine : Bool
  deriving DecidableEq

def postgres : Dialect where
  backslashEscapes := false
  doubleQuotedLiterals := false
  backquotedNames := false
  bracketedNames := false
  dollarQuotes := true
  nestedComments := true
  versionedComments := false
  dashesNeedSpace := false
  hashComments := false
  carriageReturnEndsLine := true

def sqlite : Dialect where
  backslashEscapes := false
  doubleQuotedLiterals := false
  backquotedNames := true
  bracketedNames := true
  dollarQuotes := false
  nestedComments := false
  versionedComments := false
  dashesNeedSpace := false
  hashComments := false
  carriageReturnEndsLine := false

def mysql : Dialect where
  backslashEscapes := true
  doubleQuotedLiterals := true
  backquotedNames := true
  bracketedNames := false
  dollarQuotes := false
  nestedComments := false
  versionedComments := true
  dashesNeedSpace := true
  hashComments := true
  carriageReturnEndsLine := false

/-! ### Pieces -/

/-- What a query consists of. -/
inductive Piece
  | space
  | literal
  | quoted (name : Bytes)
  | code (byte : UInt8)
  deriving DecidableEq

/-- White space between tokens. -/
def isBlank (byte : UInt8) : Bool := (9 ≤ byte.toNat && byte.toNat ≤ 13) || byte == blank

/-- A byte of an identifier or keyword: `$` and every byte beyond ASCII belong to it. -/
def isWordByte (byte : UInt8) : Bool := isIdentByte byte || byte == dollar || 0x80 ≤ byte.toNat

/-- What a `$` starts: nothing, a string literal that is never closed, or one of so many bytes. -/
inductive DollarQuote
  | absent
  | unclosed
  | closed (count : ℕ)
  deriving DecidableEq

def dollarQuote (text : Bytes) : DollarQuote :=
  let tag := dollarTag (fun byte ↦ isIdentByte byte || 0x80 ≤ byte.toNat) text
  if (text.drop tag.length).head? = some dollar then
    match index (dollar :: tag ++ [dollar]) (text.drop (tag.length + 1)) with
    | some count => .closed (tag.length + 1 + count + (tag.length + 2))
    | none => .unclosed
  else .absent

/-- The bytes up to the end of a comment that is open so many times. -/
def nestedComment : ℕ → Bytes → Option ℕ
  | depth, first :: second :: rest =>
    if first = star ∧ second = slash then
      if depth ≤ 1 then some 2 else (nestedComment (depth - 1) rest).map (· + 2)
    else if first = slash ∧ second = star then (nestedComment (depth + 1) rest).map (· + 2)
    else (nestedComment depth (second :: rest)).map (· + 1)
  | _, _ => none

namespace Dialect

variable (dialect : Dialect)

def startsComment (text : Bytes) : Bool := !dialect.dashesNeedSpace || text.head?.all isBlank

def endsLine (byte : UInt8) : Bool :=
  byte == newline || (dialect.carriageReturnEndsLine && byte == 13)

/-- The bytes before the end of the line. -/
def lineLength (text : Bytes) : ℕ := (text.takeWhile (!dialect.endsLine ·)).length

/-- A piece, the bytes it takes behind its first one, and whether an identifier or a versioned comment
goes on behind it. -/
structure Step where
  piece : Piece
  count : ℕ
  inWord : Bool
  versioned : Bool

/-- The piece at a place of the query, given the first byte and the rest, and whether the place is
inside an identifier or a versioned comment. -/
def step (inWord versioned : Bool) (byte : UInt8) (rest : Bytes) : Option Step :=
  if byte = singleQuote then
    (scanQuoted byte dialect.backslashEscapes rest).map fun count ↦
      ⟨.literal, count, false, versioned⟩
  else if byte = doubleQuote ∧ dialect.doubleQuotedLiterals then
    (scanQuoted byte dialect.backslashEscapes rest).map fun count ↦
      ⟨.literal, count, false, versioned⟩
  else if byte = doubleQuote ∨ byte = backquote ∧ dialect.backquotedNames then
    (scanQuoted byte false rest).map fun count ↦
      ⟨.quoted (undouble byte (rest.take (count - 1))), count, false, versioned⟩
  else if byte = openBracket ∧ dialect.bracketedNames then
    (index [closeBracket] rest).map fun count ↦
      ⟨.quoted (rest.take count), count + 1, false, versioned⟩
  else if byte = dollar ∧ dialect.dollarQuotes ∧ !inWord then
    match dollarQuote rest with
    | .absent => some ⟨.code byte, 0, true, versioned⟩
    | .unclosed => none
    | .closed count => some ⟨.literal, count, false, versioned⟩
  else if byte = slash ∧ rest.head? = some star then
    if dialect.versionedComments ∧ rest.tail.head? = some bang then
      some ⟨.space, 2 + (rest.tail.tail.takeWhile isDigitByte).length, false, true⟩
    else if dialect.nestedComments then
      (nestedComment 1 rest.tail).map fun count ↦ ⟨.space, count + 1, false, versioned⟩
    else
      (index [star, slash] rest.tail).map fun count ↦ ⟨.space, count + 3, false, versioned⟩
  else if versioned ∧ byte = star ∧ rest.head? = some slash then some ⟨.space, 1, false, false⟩
  else if byte = dash ∧ rest.head? = some dash ∧ dialect.startsComment rest.tail then
    some ⟨.space, dialect.lineLength rest, false, versioned⟩
  else if byte = hash ∧ dialect.hashComments then
    some ⟨.space, dialect.lineLength rest, false, versioned⟩
  else if isBlank byte then some ⟨.space, 0, false, versioned⟩
  else some ⟨.code byte, 0, isWordByte byte, versioned⟩

section Dollar

variable {dialect} {inWord : Bool} {rest : Bytes}

theorem step_dollar_plain (hplain : ¬ (dialect.dollarQuotes = true ∧ (!inWord) = true)) :
    dialect.step inWord false dollar rest = some ⟨.code dollar, 0, true, false⟩ := by
  simp only [step, true_and, if_neg hplain]
  rfl

variable (hquoted : dialect.dollarQuotes = true ∧ (!inWord) = true)

include hquoted

theorem step_dollar_absent (habsent : dollarQuote rest = .absent) :
    dialect.step inWord false dollar rest = some ⟨.code dollar, 0, true, false⟩ := by
  simp only [step, habsent, true_and, if_pos hquoted]
  rfl

theorem step_dollar_closed {count : ℕ} (hclosed : dollarQuote rest = .closed count) :
    dialect.step inWord false dollar rest = some ⟨.literal, count, false, false⟩ := by
  simp only [step, hclosed, true_and, if_pos hquoted]
  rfl

end Dollar

/-- The pieces from a place on, with so many bytes still to skip. Nothing, if a literal, a name or a
comment is not closed. -/
def piecesFrom : ℕ → Bool → Bool → Bytes → Option (List Piece)
  | _, _, versioned, [] => if versioned then none else some []
  | skip + 1, inWord, versioned, _ :: rest => piecesFrom skip inWord versioned rest
  | 0, inWord, versioned, byte :: rest =>
    match dialect.step inWord versioned byte rest with
    | none => none
    | some step => (piecesFrom step.count step.inWord step.versioned rest).map (step.piece :: ·)

def pieces (query : Bytes) : Option (List Piece) := dialect.piecesFrom 0 false false query

end Dialect

/-! ### Tokens -/

inductive Token
  | word (text : Bytes)
  | quoted (name : Bytes)
  | literal
  | symbol (byte : UInt8)
  deriving DecidableEq

/-- The word that was read so far, if any. -/
def wordToken (word : Bytes) : List Token := if word = [] then [] else [.word word]

/-- The tokens of some pieces, behind the bytes of a word. -/
def tokensFrom : Bytes → List Piece → List Token
  | word, [] => wordToken word
  | word, .space :: pieces => wordToken word ++ tokensFrom [] pieces
  | word, .literal :: pieces => wordToken word ++ .literal :: tokensFrom [] pieces
  | word, .quoted name :: pieces => wordToken word ++ .quoted name :: tokensFrom [] pieces
  | word, .code byte :: pieces =>
    if isWordByte byte then tokensFrom (word ++ [byte]) pieces
    else wordToken word ++ .symbol byte :: tokensFrom [] pieces

def Dialect.lex (dialect : Dialect) (query : Bytes) : Option (List Token) :=
  (dialect.pieces query).map (tokensFrom [])

/-! ### Reading queries -/

/-- The word is one of these, whatever its case. -/
def isOneOf (words : List String) (text : Bytes) : Bool := words.any (ascii · == text.map upperByte)

/-- A function that is denied by its name or by the family that its name starts with. -/
def isDenied (name : Bytes) : Bool :=
  isOneOf deniedExactFuncs name ||
    (name.all isIdentByte &&
      deniedFuncPrefixes.any fun start ↦ (ascii start).isPrefixOf (name.map upperByte))

/-- A token that must not stand where it stands, given the next one. -/
def Token.writes (token : Token) (next : Option Token) : Bool :=
  match token with
  | .word text =>
    isOneOf writeKeywords text ||
      (isOneOf functionLikeWriteKeywords text && next != some (.symbol openParen)) ||
      (isDenied text && next == some (.symbol openParen))
  | .quoted name => isDenied name && next == some (.symbol openParen)
  | _ => false

def writesAnywhere : List Token → Bool
  | [] => false
  | token :: tokens => token.writes tokens.head? || writesAnywhere tokens

/-- Only semicolons behind the first one. -/
def isSingle (tokens : List Token) : Bool :=
  (tokens.dropWhile (· != .symbol semicolon)).all (· == .symbol semicolon)

/-- The first word is `SELECT`, `WITH` or `EXPLAIN`. -/
def startsReading : List Token → Bool
  | .word text :: _ => isOneOf ["SELECT", "WITH", "EXPLAIN"] text
  | _ => false

def readOnly (tokens : List Token) : Bool := isSingle tokens && !writesAnywhere tokens

/-- The dialect reads the query, and reads a single statement without writes in it, if the first word
is `SELECT`, `WITH` or `EXPLAIN`. -/
def Dialect.sound (dialect : Dialect) (query : Bytes) : Bool :=
  match dialect.lex query with
  | none => false
  | some tokens => !startsReading tokens || readOnly tokens

/-! ### Quirks -/

/-- A construct that the guardrail reads otherwise than a dialect. -/
inductive Quirk
  /-- A string literal that ends elsewhere if backslashes escape, or do not. -/
  | escapedQuote
  /-- A comment of the dialect whose `--` is not followed by white space. -/
  | bareDashes
  /-- A line comment that ends at a carriage return. -/
  | carriageReturn
  /-- A block comment that ends elsewhere if comments nest. -/
  | nestedComment
  /-- A `/*!` that is an ordinary comment to the dialect, or whose body has more than plain words and
  symbols in it. -/
  | versionedComment
  /-- A `$` that starts a literal for one side only. -/
  | dollarQuote
  /-- A backquote that encloses no name. -/
  | backquote
  | bracketedName
  | hashComment
  /-- A quoted name, or a literal in double quotes, whose first byte is none, a blank, a semicolon or
  an opening parenthesis. -/
  | oddName
  /-- A byte beyond ASCII, outside comments and the literals that the normal form masks. -/
  | wideByte
  /-- An `EXPLAIN` with options in parentheses. -/
  | explainOptions
  deriving DecidableEq, Repr

/-- A byte that trimming leaves. -/
def isSolid (byte : UInt8) : Bool := !isBlank byte && byte != semicolon

def nameQuirks (content : Bytes) : List Quirk :=
  (if content.head?.any fun byte ↦ isSolid byte && byte != openParen then [] else [.oddName]) ++
    if isAscii content then [] else [.wideByte]

namespace Dialect

variable (dialect : Dialect)

/-- A byte that does not belong into the body of a versioned comment. -/
def isOddInside (byte : UInt8) (rest : Bytes) : Bool :=
  byte == singleQuote || byte == doubleQuote || byte == backquote || byte == openBracket ||
    byte == dollar || byte == hash || (byte == slash && rest.head? == some star) ||
    (byte == dash && rest.head? == some dash) || byte == 11 || byte == 12 || 0x80 ≤ byte.toNat

def dollarAgrees (inWord : Bool) (rest : Bytes) : Bool :=
  if dialect.dollarQuotes && !inWord then
    match dollarQuote rest with
    | .absent => (scanDollarQuote rest).isNone
    | .unclosed => false
    | .closed count => scanDollarQuote rest == some count
  else (scanDollarQuote rest).isNone

def commentQuirks (body : Bytes) : List Quirk :=
  if body.head? = some bang then if dialect.versionedComments then [] else [.versionedComment]
  else if dialect.nestedComments ∧
      nestedComment 1 body ≠ (index [star, slash] body).map (· + 2) then [.nestedComment]
  else []

def dashQuirks (rest : Bytes) : List Quirk :=
  if startsLineComment rest.tail ≠ dialect.startsComment rest.tail then
    [if dialect.dashesNeedSpace then .wideByte else .bareDashes]
  else if dialect.startsComment rest.tail ∧ dialect.lineLength rest ≠ Guardrail.lineLength rest then
    [.carriageReturn]
  else []

/-- The quirks at a place of the query. -/
def quirksAt (inWord versioned : Bool) (byte : UInt8) (rest : Bytes) : List Quirk :=
  if versioned then if isOddInside byte rest then [.versionedComment] else []
  else if byte = singleQuote then
    if scanQuoted byte true rest = scanQuoted byte dialect.backslashEscapes rest then []
    else [.escapedQuote]
  else if byte = doubleQuote ∧ dialect.doubleQuotedLiterals ∧
      scanQuoted byte false rest ≠ scanQuoted byte dialect.backslashEscapes rest then [.escapedQuote]
  else if byte = doubleQuote ∨ byte = backquote ∧ dialect.backquotedNames then
    match scanQuoted byte false rest with
    | none => []
    | some count => nameQuirks (undouble byte (rest.take (count - 1)))
  else if byte = backquote then [.backquote]
  else if byte = openBracket ∧ dialect.bracketedNames then [.bracketedName]
  else if byte = dollar then if dialect.dollarAgrees inWord rest then [] else [.dollarQuote]
  else if byte = slash ∧ rest.head? = some star then dialect.commentQuirks rest.tail
  else if byte = dash ∧ rest.head? = some dash then dialect.dashQuirks rest
  else if byte = hash ∧ dialect.hashComments then [.hashComment]
  else if 0x80 ≤ byte.toNat then [.wideByte]
  else []

/-- The quirks from a place on, with so many bytes still to skip, as the dialect reads the query. -/
def quirksFrom : ℕ → Bool → Bool → Bytes → List Quirk
  | _, _, _, [] => []
  | skip + 1, inWord, versioned, _ :: rest => quirksFrom skip inWord versioned rest
  | 0, inWord, versioned, byte :: rest =>
    dialect.quirksAt inWord versioned byte rest ++
      match dialect.step inWord versioned byte rest with
      | none => []
      | some step => quirksFrom step.count step.inWord step.versioned rest

def explainQuirks : List Token → List Quirk
  | .word text :: .symbol byte :: _ =>
    if isOneOf ["EXPLAIN"] text ∧ byte = openParen then [.explainOptions] else []
  | _ => []

def quirks (query : Bytes) : List Quirk :=
  dialect.quirksFrom 0 false false query ++ ((dialect.lex query).map explainQuirks).getD []

end Dialect

end OpenTrace.Guardrail
