import OpenTrace.Chunk.Entry
import OpenTrace.Index.Tokenizer
import OpenTrace.Library.Folding
import OpenTrace.Library.Selection

/-!
# Search parameters

`SearchParams`, the predicate `matchesParams` that decides whether an entry answers a search
(`store.go`, `query.go`), and `entryComesBefore`, the order of the answers.

`Texts` is what the predicate takes from the standard library: case tables, and what
`json.Unmarshal` and `fmt.Sprintf` make of the metadata object in a body. A time is its number of
nanoseconds since the epoch. An offset and a limit are integers.
-/

namespace OpenTrace.Engine.Query

open Library Chunk
open Index (messageMatchesQuery)

structure Texts where
  unicode : Unicode
  /-- The runes beyond ASCII that `unicode.SimpleFold` connects. -/
  folds : ℕ → ℕ → Bool
  /-- The `metadata` object of a body, if it has one, with its values printed. -/
  metadata : Bytes → Option (Bytes → Option Bytes)

/-- ASCII texts, and bodies without metadata. -/
def Texts.ascii : Texts := ⟨Unicode.ascii, fun _ _ ↦ false, fun _ ↦ none⟩

def Texts.equalFold (texts : Texts) (text other : Bytes) : Bool :=
  Library.equalFold texts.folds text other

/-- `time.Time.UnixMilli` -/
def unixMilli (time : ℤ) : ℤ := time / 1000000

structure SearchParams where
  query : Bytes := []
  service : Bytes := []
  level : Bytes := []
  env : Bytes := []
  traceID : Bytes := []
  requestID : Bytes := []
  userID : Bytes := []
  tenantID : Bytes := []
  eventType : Bytes := []
  errorClass : Bytes := []
  errorFingerprint : Bytes := []
  sourceFile : Bytes := []
  commitHash : Bytes := []
  method : Bytes := []
  path : Bytes := []
  handler : Bytes := []
  minDurationMs : Int64 := 0
  positiveDurationOnly : Bool := false
  minSQLCount : Int64 := 0
  nPlusOneOnly : Bool := false
  requestsOnly : Bool := false
  metadataFilter : List (Bytes × Bytes) := []
  exclude : List (Bytes × Bytes) := []
  start : Option ℤ := none
  stop : Option ℤ := none
  sinceID : Int64 := 0
  limit : ℤ := 0
  offset : ℤ := 0
  sortAsc : Bool := false
  omitBody : Bool := false

/-! ### The predicate -/

/-- A string filter: it is off when it is empty. -/
def wants (filter : Bytes) (accepts : Bool) : Bool := filter = [] || accepts

section

variable (texts : Texts)

/-- The case-insensitive substring test of the path filter. -/
def containsFold (stored want : Bytes) : Bool :=
  contains (toLower texts.unicode stored) (toLower texts.unicode want)

/-- A stored handler `Controller#action` also answers to its controller. -/
def handlerMatches (stored want : Bytes) : Bool :=
  texts.equalFold stored want ||
    match index (ascii "#") stored with
    | some count => texts.equalFold (stored.take count) want
    | none => false

def isRequestEntry (entry : Entry) : Bool :=
  texts.equalFold (entry.str .kind) (ascii "request") ||
    texts.equalFold (entry.str .eventType) (ascii "http.request") ||
    (0 < entry.int .durationMs &&
      (entry.str .method ≠ [] || entry.str .path ≠ [] || entry.str .handler ≠ []))

/-- An entry without an environment answers every environment filter. -/
def envMatches (filter entryEnv : Bytes) : Bool :=
  filter = [] || entryEnv = [] || texts.equalFold filter entryEnv

/-- A body is parsed only if there is one. -/
def entryMetadata (entry : Entry) : Option (Bytes → Option Bytes) :=
  if entry.body = [] then none else texts.metadata entry.body

def matchesMetadata (entry : Entry) (filter : List (Bytes × Bytes)) : Bool :=
  filter = [] ||
    match entryMetadata texts entry with
    | none => false
    | some metadata => filter.all fun pair ↦ metadata pair.1 = some pair.2

end

/-- The columns that a dictionary encodes, by name. -/
def dictColumn (name : Bytes) : Option StrField :=
  if name = ascii "service" then some .service
  else if name = ascii "level" then some .level
  else if name = ascii "env" then some .env
  else if name = ascii "event_type" then some .eventType
  else none

/-- The other columns whose distinct values can be asked for, by name. -/
def scanColumn (name : Bytes) : Option StrField :=
  if name = ascii "error_fingerprint" then some .errorFingerprint
  else if name = ascii "error_class" then some .errorClass
  else if name = ascii "user_id" then some .userID
  else if name = ascii "tenant_id" then some .tenantID
  else if name = ascii "trace_id" then some .traceID
  else if name = ascii "request_id" then some .requestID
  else if name = ascii "path" then some .path
  else if name = ascii "handler" then some .handler
  else if name = ascii "host" then some .host
  else none

section

variable (entry : Entry) (name : Bytes)

def dictColumnValue : Bytes := ((dictColumn name).map entry.str).getD []

def scanColumnValue : Bytes := ((scanColumn name).map entry.str).getD []

/-- The value of a field that an exclusion may name; a field that is not known has none. -/
def excludableField : Bytes :=
  if dictColumnValue entry name ≠ [] then dictColumnValue entry name else scanColumnValue entry name

end

/-- `strings.Split(list, ",")`, each part trimmed. -/
def excludedValues (list : Bytes) : List Bytes := (list.splitOn 44).map trimSpace

def matchesExclude (texts : Texts) (entry : Entry) (exclude : List (Bytes × Bytes)) : Bool :=
  exclude.all fun pair ↦
    excludableField entry pair.1 = [] ||
      (excludedValues pair.2).all fun value ↦
        value = [] || !texts.equalFold value (excludableField entry pair.1)

/-- Whether an entry answers the search. -/
def matchesParams (texts : Texts) (entry : Entry) (params : SearchParams) : Bool :=
  wants params.service (texts.equalFold (entry.str .service) params.service) &&
  wants params.level (texts.equalFold (entry.str .level) params.level) &&
  wants params.env (entry.str .env = [] || texts.equalFold (entry.str .env) params.env) &&
  wants params.traceID (entry.str .traceID = params.traceID) &&
  wants params.requestID (entry.str .requestID = params.requestID) &&
  wants params.userID (entry.str .userID = params.userID) &&
  wants params.eventType (texts.equalFold (entry.str .eventType) params.eventType) &&
  wants params.errorClass (texts.equalFold (entry.str .errorClass) params.errorClass) &&
  wants params.errorFingerprint (entry.str .errorFingerprint = params.errorFingerprint) &&
  wants params.tenantID (entry.str .tenantID = params.tenantID) &&
  wants params.sourceFile (texts.equalFold (entry.str .sourceFile) params.sourceFile) &&
  wants params.commitHash (texts.equalFold (entry.str .version) params.commitHash) &&
  (params.sinceID ≤ 0 || params.sinceID < entry.id) &&
  wants params.method (texts.equalFold (entry.str .method) params.method) &&
  wants params.path (containsFold texts (entry.str .path) params.path) &&
  (!params.requestsOnly || isRequestEntry texts entry) &&
  wants params.handler (handlerMatches texts (entry.str .handler) params.handler) &&
  (params.minDurationMs ≤ 0 || params.minDurationMs ≤ entry.int .durationMs) &&
  (!params.positiveDurationOnly || 0 < entry.int .durationMs) &&
  (params.minSQLCount ≤ 0 || params.minSQLCount ≤ entry.int .dbCount) &&
  (!params.nPlusOneOnly || entry.nPlusOne = some true) &&
  wants params.query (messageMatchesQuery texts.unicode (entry.str .message) params.query) &&
  matchesMetadata texts entry params.metadataFilter &&
  matchesExclude texts entry params.exclude &&
  params.start.all (fun start ↦ unixMilli start ≤ entry.ts.toInt) &&
  params.stop.all (fun stop ↦ entry.ts.toInt ≤ unixMilli stop)

/-- The filters that only a materialised row can decide. -/
def needsPostReadFilter (params : SearchParams) : Bool :=
  params.metadataFilter ≠ [] || params.exclude ≠ []

/-! ### The order of the answers -/

section

variable {α : Type} (asc : Bool) (ts : α → Int64)

/-- By time in the direction asked for, and by a second key where the times are the same. -/
def comesBefore (key : α → ℤ) (first second : α) : Bool :=
  if ts first ≠ ts second then
    if asc then ts first < ts second else ts second < ts first
  else key first < key second

theorem ranks_comesBefore (key : α → ℤ) : Ranks (comesBefore asc ts key) where
  asymm {first second} := by
    simp only [comesBefore]
    cases asc <;> grind
  trans {first second third} := by
    simp only [comesBefore]
    cases asc <;> grind

/-- Values with different keys are never level. -/
theorem separates_comesBefore {key : α → ℤ} {list : List α}
    (hkey : ∀ first ∈ list, ∀ second ∈ list, key first = key second → first = second) :
    Separates (comesBefore asc ts key) list := by
  intro first hfirst second hsecond hnot hnot'
  simp only [comesBefore] at hnot hnot'
  cases asc <;> grind

end

/-- The order of `Search`: entries of one time by ascending ID, in either direction. -/
def entryComesBefore (asc : Bool) : Entry → Entry → Bool :=
  comesBefore asc Entry.ts fun entry ↦ entry.id.toInt

theorem separates_entryComesBefore (asc : Bool) {entries : List Entry}
    (hids : (entries.map Entry.id).Nodup) : Separates (entryComesBefore asc) entries :=
  separates_comesBefore asc _ fun _ hfirst _ hsecond hid ↦
    List.inj_on_of_nodup_map hids hfirst hsecond (Int64.toInt_inj.mp hid)

end OpenTrace.Engine.Query
