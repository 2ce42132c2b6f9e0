import OpenTrace.Guardrail.Normalize

/-!
# The read-only check

`guardrail/sql_generic.go`: `ValidateReadOnlyGeneric` on the normal form of a query. A query is refused
with the reason that the source gives in its error.
-/

namespace OpenTrace.Guardrail

open Library

/-- Why a query is refused. -/
inductive Refusal
  | emptyQuery
  | malformed (error : NormalizeError)
  | noStatement
  | multipleStatements
  | explainAnalyze
  | emptyExplain
  | explainOther
  | keyword (word : String)
  | sideEffect (function : String)
  | pragmaName
  | pragmaQuery (name : String)
  | pragmaAssignment (name : String)
  | pragmaUnknown
  | notSelect
  deriving DecidableEq, Repr

def Refusal.message : Refusal → String
  | .emptyQuery => "empty query"
  | .malformed error => error.message
  | .noStatement => "query contains no statement"
  | .multipleStatements => "multiple statements are not allowed"
  | .explainAnalyze => "EXPLAIN ANALYZE is not allowed (it executes the query)"
  | .emptyExplain => "empty EXPLAIN statement"
  | .explainOther => "only SELECT statements are allowed inside EXPLAIN"
  | .keyword word => "query rejected: " ++ word ++ " is not allowed in a read-only query"
  | .sideEffect function => "query rejected: calls side-effecting function " ++ function ++ "()"
  | .pragmaName => "PRAGMA name required"
  | .pragmaQuery name => "PRAGMA " ++ name ++ ": only the read/query form is allowed"
  | .pragmaAssignment name =>
    "PRAGMA " ++ name ++ ": only the read/query form is allowed (assignment rejected)"
  | .pragmaUnknown => "PRAGMA not in read-only allowlist"
  | .notSelect => "only SELECT statements are allowed"

/-! ### Writes -/

def writeKeywords : List String :=
  ["DELETE", "UPDATE", "DROP", "ALTER", "CREATE", "MERGE", "UPSERT",
    "GRANT", "REVOKE", "ATTACH", "DETACH", "VACUUM", "REINDEX", "ANALYZE",
    "CALL", "EXEC", "EXECUTE", "PREPARE", "DEALLOCATE", "LOCK", "UNLOCK",
    "COPY", "RENAME", "LOAD", "IMPORT", "RESET", "CLUSTER", "REFRESH",
    "INTO", "OUTFILE", "DUMPFILE"]

def functionLikeWriteKeywords : List String := ["INSERT", "REPLACE", "TRUNCATE"]

def deniedExactFuncs : List String :=
  ["PG_TERMINATE_BACKEND", "PG_CANCEL_BACKEND", "PG_RELOAD_CONF", "PG_ROTATE_LOGFILE",
    "PG_SWITCH_WAL", "PG_SWITCH_XLOG", "SETVAL", "NEXTVAL", "SET_CONFIG", "PG_PROMOTE",
    "PG_STAT_FILE", "PG_STOP_BACKUP", "PG_START_BACKUP", "LOAD_FILE", "READFILE", "WRITEFILE",
    "EDIT", "LOAD_EXTENSION", "FTS3_TOKENIZER"]

def deniedFuncPrefixes : List String :=
  ["PG_STAT_RESET", "PG_READ_FILE", "PG_READ_BINARY_FILE", "PG_LS_", "LO_", "DBLINK",
    "PG_ADVISORY_", "PG_CREATE_", "PG_DROP_", "PG_LOGICAL_", "PG_REPLICATION_", "PG_WAL"]

/-- An opening parenthesis comes next, after white space. -/
def opensCall (text : Bytes) : Bool := (text.dropWhile isSpaceByte).head? == some openParen

/-- `hasFunctionCall`, for a name or, if `family`, for all identifiers that start with it. -/
def hasFunctionCall (upper name : Bytes) (family : Bool) : Bool :=
  findWord name
    (fun text ↦
      if family then opensCall (text.dropWhile isIdentByte) else endsWord text && opensCall text)
    0 none upper

def callsSideEffectingFunction (upper : Bytes) : Option String :=
  (deniedExactFuncs.find? fun name ↦ hasFunctionCall upper (ascii name) false).or
    (deniedFuncPrefixes.find? fun name ↦ hasFunctionCall upper (ascii name) true)

def checkNoWriteAnywhere (upper : Bytes) : Except Refusal Unit :=
  match writeKeywords.find? fun word ↦ containsWord upper (ascii word) with
  | some word => .error (.keyword word)
  | none =>
    match functionLikeWriteKeywords.find? fun word ↦ containsWordNotCall upper (ascii word) with
    | some word => .error (.keyword word)
    | none =>
      match callsSideEffectingFunction upper with
      | some name => .error (.sideEffect name)
      | none => .ok ()

/-! ### EXPLAIN and PRAGMA -/

/-- `strings.HasPrefix` -/
def startsWith (text : Bytes) (start : String) : Bool := (ascii start).isPrefixOf text

/-- `strings.TrimPrefix` -/
def withoutStart (text : Bytes) (start : String) : Bytes :=
  if startsWith text start then text.drop (ascii start).length else text

def stripExplainPrefix (upper : Bytes) : Bytes :=
  let inner := trimSpace (withoutStart upper "EXPLAIN")
  if inner.head? = some openParen then
    match index [closeParen] inner with
    | some close => trimSpace (inner.drop (close + 1))
    | none => inner
  else inner

def isReadOnlyKeyword (upper : Bytes) : Bool :=
  startsWith upper "SELECT" || startsWith upper "WITH" || startsWith upper "SHOW" ||
    startsWith upper "DESCRIBE" || startsWith upper "DESC " || startsWith upper "PRAGMA"

def pragmaAllowsArg : List String :=
  ["TABLE_INFO", "TABLE_XINFO", "TABLE_LIST", "INDEX_LIST", "INDEX_INFO", "INDEX_XINFO",
    "FOREIGN_KEY_LIST", "FOREIGN_KEY_CHECK"]

def pragmaReadOnlyScalar : List String :=
  ["DATABASE_LIST", "COMPILE_OPTIONS", "COLLATION_LIST", "JOURNAL_MODE", "PAGE_COUNT", "PAGE_SIZE",
    "MAX_PAGE_COUNT", "FREELIST_COUNT", "ENCODING", "DATA_VERSION", "SCHEMA_VERSION", "USER_VERSION",
    "APPLICATION_ID"]

/-- `scanPragmaName`, with the bytes of the name so far. A name before a dot is a schema. -/
def scanPragmaName : Bytes → Bytes → Bytes × Bytes
  | name, [] => (name, [])
  | name, byte :: rest =>
    if isIdentByte byte then scanPragmaName (name ++ [byte]) rest
    else if byte = 46 then scanPragmaName [] rest
    else (name, byte :: rest)

def validateReadOnlyPragma (upper : Bytes) : Except Refusal Unit :=
  let (name, rest) := scanPragmaName [] (trimSpace (withoutStart upper "PRAGMA"))
  let after := trimSpace rest
  if name = [] then .error .pragmaName
  else
    match pragmaAllowsArg.find? (ascii · = name) with
    | some known =>
      if after = [] ∨ after.head? = some openParen then .ok () else .error (.pragmaQuery known)
    | none =>
      match pragmaReadOnlyScalar.find? (ascii · = name) with
      | some known => if after = [] then .ok () else .error (.pragmaAssignment known)
      | none => .error .pragmaUnknown

/-! ### The check -/

/-- `strings.TrimRight(text, "; ")` -/
def trimStatementEnd (text : Bytes) : Bytes :=
  (text.reverse.dropWhile fun byte ↦ byte == semicolon || byte == blank).reverse

/-- The part of the check that depends on the first keyword. -/
def checkStatement (upper : Bytes) : Except Refusal Unit :=
  if startsWith upper "SELECT" || startsWith upper "WITH" then checkNoWriteAnywhere upper
  else if startsWith upper "EXPLAIN" then
    if containsWord upper (ascii "ANALYZE") then .error .explainAnalyze
    else
      let inner := stripExplainPrefix upper
      if inner = [] then .error .emptyExplain
      else if !isReadOnlyKeyword inner then .error .explainOther
      else checkNoWriteAnywhere inner
  else if startsWith upper "SHOW" then .ok ()
  else if startsWith upper "DESCRIBE" || startsWith upper "DESC " then .ok ()
  else if startsWith upper "PRAGMA" then validateReadOnlyPragma upper
  else .error .notSelect

/-- `ValidateReadOnlyGeneric`, given the table of `unicode.ToUpper`. -/
def validateReadOnlyGeneric (upper : ℕ → ℕ) (query : Bytes) : Except Refusal Unit :=
  if trimSpace query = [] then .error .emptyQuery
  else
    match normalizeSQL query with
    | .error error => .error (.malformed error)
    | .ok normalized =>
      let cleaned := trimStatementEnd normalized
      if cleaned = [] then .error .noStatement
      else if semicolon ∈ cleaned then .error .multipleStatements
      else checkStatement (toUpper upper cleaned)

end OpenTrace.Guardrail
