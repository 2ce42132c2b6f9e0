import OpenTrace.Library.Strings

/-!
# The normal form of a query

`guardrail/sql_normalize.go`: a query is rewritten so that keywords can be matched against it.
Comments become blanks, string literals become empty literals, quoted identifiers are unquoted, and
every white space becomes a blank. `containsWord` and `containsWordNotCall` look for a word in the
result.

The scanners say how many bytes they take, where the source gives the index behind them. The main
loop `normalizeFrom` goes through the text byte by byte and skips what a scanner has taken.
-/

namespace OpenTrace.Guardrail

open Library

/-! ### Bytes -/

abbrev newline : UInt8 := 10
abbrev blank : UInt8 := 32
abbrev bang : UInt8 := 33
abbrev doubleQuote : UInt8 := 34
abbrev hash : UInt8 := 35
abbrev dollar : UInt8 := 36
abbrev singleQuote : UInt8 := 39
abbrev openParen : UInt8 := 40
abbrev closeParen : UInt8 := 41
abbrev star : UInt8 := 42
abbrev dash : UInt8 := 45
abbrev slash : UInt8 := 47
abbrev semicolon : UInt8 := 59
abbrev openBracket : UInt8 := 91
abbrev backslash : UInt8 := 92
abbrev closeBracket : UInt8 := 93
abbrev backquote : UInt8 := 96

def isDigitByte (byte : UInt8) : Bool := 48 ≤ byte.toNat && byte.toNat ≤ 57

def isIdentByte (byte : UInt8) : Bool :=
  byte == 95 || (65 ≤ byte.toNat && byte.toNat ≤ 90) || (97 ≤ byte.toNat && byte.toNat ≤ 122) ||
    isDigitByte byte

def isSpaceByte (byte : UInt8) : Bool := byte == 32 || byte == 9 || byte == 10 || byte == 13

/-! ### Scanners -/

inductive NormalizeError
  | unterminatedQuoted
  | unterminatedComment
  deriving DecidableEq, Repr

def NormalizeError.message : NormalizeError → String
  | .unterminatedQuoted => "unterminated quoted string"
  | .unterminatedComment => "unterminated comment"

/-- The bytes up to the closing quote, that included. A doubled quote stays inside; with
`backslashEscapes` a backslash takes the next byte along. -/
def scanQuoted (quote : UInt8) (backslashEscapes : Bool) : Bytes → Option ℕ
  | [] => none
  | byte :: rest =>
    if backslashEscapes && byte == backslash then
      match rest with
      | [] => none
      | _ :: rest => (scanQuoted quote backslashEscapes rest).map (· + 2)
    else if byte == quote then
      match rest with
      | [] => some 1
      | next :: rest =>
        if next == quote then (scanQuoted quote backslashEscapes rest).map (· + 2) else some 1
    else (scanQuoted quote backslashEscapes rest).map (· + 1)

/-- The tag of a dollar quote, given what follows its first `$`. -/
def dollarTag (isTagByte : UInt8 → Bool) (text : Bytes) : Bytes :=
  if text.head?.any isDigitByte then [] else text.takeWhile isTagByte

/-- The bytes of a dollar-quoted string behind its first `$`. -/
def scanDollarQuote (text : Bytes) : Option ℕ :=
  let tag := dollarTag isIdentByte text
  if (text.drop tag.length).head? = some dollar then
    (index (dollar :: tag ++ [dollar]) (text.drop (tag.length + 1))).map fun count ↦
      tag.length + 1 + count + (tag.length + 2)
  else none

/-- The bytes of a block comment behind its `/*`, and the text that is executed: the body of a
versioned comment, without its version. -/
def scanBlockComment (text : Bytes) : Option (ℕ × Bytes) :=
  (index [star, slash] text).map fun count ↦
    let body := text.take count
    (count + 2, if body.head? = some bang then body.tail.dropWhile isDigitByte else [])

/-- Whether what follows `--` makes it a comment. -/
def startsLineComment : Bytes → Bool
  | [] => true
  | byte :: rest => isSpace (decodeRune byte rest).1

/-- The bytes before the end of the line. -/
def lineLength (text : Bytes) : ℕ := (text.takeWhile (· != newline)).length

/-- `strings.ReplaceAll` of a doubled quote by the quote. -/
def undouble (quote : UInt8) : Bytes → Bytes
  | first :: second :: rest =>
    if first = quote ∧ second = quote then quote :: undouble quote rest
    else first :: undouble quote (second :: rest)
  | text => text

def maskedLiteral : Bytes := [singleQuote, singleQuote]

/-! ### The normal form -/

/-- The loop of `normalizeSQL`, with so many bytes still to skip. -/
def normalizeFrom : ℕ → Bytes → Except NormalizeError Bytes
  | _, [] => .ok []
  | skip + 1, _ :: rest => normalizeFrom skip rest
  | 0, byte :: rest =>
    if byte = singleQuote then
      match scanQuoted singleQuote true rest with
      | none => .error .unterminatedQuoted
      | some count => (normalizeFrom count rest).map (maskedLiteral ++ ·)
    else if byte = doubleQuote ∨ byte = backquote then
      match scanQuoted byte false rest with
      | none => .error .unterminatedQuoted
      | some count => (normalizeFrom count rest).map fun text ↦
          blank :: undouble byte (rest.take (count - 1)) ++ blank :: text
    else if byte = dollar then
      match scanDollarQuote rest with
      | some count => (normalizeFrom count rest).map (maskedLiteral ++ ·)
      | none => (normalizeFrom 0 rest).map (byte :: ·)
    else if byte = slash ∧ rest.head? = some star then
      match scanBlockComment rest.tail with
      | none => .error .unterminatedComment
      | some (count, body) => (normalizeFrom (count + 1) rest).map fun text ↦
          blank :: body ++ blank :: text
    else if byte = dash ∧ rest.head? = some dash ∧ startsLineComment rest.tail then
      (normalizeFrom (lineLength rest) rest).map (blank :: ·)
    else
      let (rune, size) := decodeRune byte rest
      if isSpace rune then (normalizeFrom (size - 1) rest).map (blank :: ·)
      else (normalizeFrom (size - 1) rest).map ((byte :: rest).take size ++ ·)

theorem normalizeFrom_dollar_some {rest : Bytes} {count : ℕ} (hscan : scanDollarQuote rest = some count) :
    normalizeFrom 0 (dollar :: rest) = (normalizeFrom count rest).map (maskedLiteral ++ ·) := by
  rw [normalizeFrom, if_neg (by decide), if_neg (by decide), if_pos rfl, hscan]

theorem normalizeFrom_dollar_none {rest : Bytes} (hscan : scanDollarQuote rest = none) :
    normalizeFrom 0 (dollar :: rest) = (normalizeFrom 0 rest).map (dollar :: ·) := by
  rw [normalizeFrom, if_neg (by decide), if_neg (by decide), if_pos rfl, hscan]

theorem normalizeFrom_comment_some {rest body : Bytes} {count : ℕ}
    (hscan : scanBlockComment rest = some (count, body)) :
    normalizeFrom 0 (slash :: star :: rest) =
      (normalizeFrom count rest).map fun text ↦ blank :: body ++ blank :: text := by
  rw [normalizeFrom, List.tail_cons, hscan]
  rfl

theorem normalizeFrom_comment_none {rest : Bytes} (hscan : scanBlockComment rest = none) :
    normalizeFrom 0 (slash :: star :: rest) = .error .unterminatedComment := by
  rw [normalizeFrom, if_neg (by decide), if_neg (by decide), if_neg (by decide), if_pos ⟨rfl, rfl⟩,
    List.tail_cons, hscan]

/-- The loop of `collapseSpaces`, given whether the byte before was a blank. -/
def collapseFrom : Bool → Bytes → Bytes
  | _, [] => []
  | prevSpace, byte :: rest =>
    if byte = blank then
      if prevSpace then collapseFrom true rest else blank :: collapseFrom true rest
    else byte :: collapseFrom false rest

def collapseSpaces (text : Bytes) : Bytes := collapseFrom false text

def normalizeSQL (query : Bytes) : Except NormalizeError Bytes :=
  (normalizeFrom 0 query).map fun text ↦ trimSpace (collapseSpaces text)

/-! ### Words -/

/-- The search loop of the word matchers: at each place where the word is found behind no identifier
byte, `accepts` decides on what follows; a place that does not count is skipped as a whole. -/
def findWord (word : Bytes) (accepts : Bytes → Bool) : ℕ → Option UInt8 → Bytes → Bool
  | _, _, [] => false
  | skip + 1, _, byte :: rest => findWord word accepts skip (some byte) rest
  | 0, before, byte :: rest =>
    if word.isPrefixOf (byte :: rest) then
      (!before.any isIdentByte && accepts ((byte :: rest).drop word.length)) ||
        findWord word accepts (word.length - 1) (some byte) rest
    else findWord word accepts 0 (some byte) rest

/-- No identifier goes on here. -/
def endsWord (text : Bytes) : Bool := !text.head?.any isIdentByte

def containsWord (upper word : Bytes) : Bool := findWord word endsWord 0 none upper

def containsWordNotCall (upper word : Bytes) : Bool :=
  findWord word
    (fun text ↦ endsWord text && (text.dropWhile (· == blank)).head? != some openParen) 0 none upper

end OpenTrace.Guardrail
