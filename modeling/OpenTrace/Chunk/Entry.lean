import OpenTrace.Library.Bytes

/-!
# Log entries

`chunk.Entry`: three server-assigned or fixed integers, the string fields, the integer fields, the
nullable `n_plus_one` flag and the opaque body. The string and integer fields are families indexed
by the field they belong to, so that a codec, a column or a filter that treats all fields of one
kind alike is one definition over the index. A Go string is its bytes, and a Go `int` is an `Int64`.

`Field` names the fields a WAL record holds conditionally, and `Field.copy` moves one of them from
an entry to another.
-/

namespace OpenTrace.Chunk

open Library Field

/-- The string fields of an entry. -/
inductive StrField
  | level | service | message
  | env | version | host | kind | eventType
  | traceID | spanID | parentSpanID | requestID | userID | tenantID | sessionID
  | method | path | route | handler
  | errorClass | errorMessage | sourceFile | errorFingerprint
  | jobClass | jobQueue | jobID
  deriving DecidableEq, Repr

/-- The integer fields of an entry. -/
inductive IntField
  | status | durationMs
  | dbMs | dbCount | cacheMs | cacheHits | cacheMisses | extMs | extCount | renderMs
  | allocCount | memDeltaMb | slowQueries | dupQueries
  | sourceLine | queueMs
  deriving DecidableEq, Repr

/-- Every string field, in the order of the struct. -/
def StrField.all : List StrField :=
  [.level, .service, .message, .env, .version, .host, .kind, .eventType, .traceID, .spanID,
    .parentSpanID, .requestID, .userID, .tenantID, .sessionID, .method, .path, .route, .handler,
    .errorClass, .errorMessage, .sourceFile, .errorFingerprint, .jobClass, .jobQueue, .jobID]

/-- Every integer field, in the order of the struct. -/
def IntField.all : List IntField :=
  [.status, .durationMs, .dbMs, .dbCount, .cacheMs, .cacheHits, .cacheMisses, .extMs, .extCount,
    .renderMs, .allocCount, .memDeltaMb, .slowQueries, .dupQueries, .sourceLine, .queueMs]

theorem StrField.mem_all (field : StrField) : field ∈ StrField.all := by
  cases field <;> decide

theorem IntField.mem_all (field : IntField) : field ∈ IntField.all := by
  cases field <;> decide

/-- A log entry. -/
@[ext]
structure Entry where
  id : Int64
  /-- Event time, in milliseconds since the epoch. -/
  ts : Int64
  /-- Server receive time, in milliseconds since the epoch. -/
  receivedAt : Int64
  str : StrField → Bytes
  int : IntField → Int64
  nPlusOne : Option Bool
  body : Bytes

/-- The zero value of the struct. -/
def Entry.zero : Entry where
  id := 0
  ts := 0
  receivedAt := 0
  str := fun _ ↦ []
  int := fun _ ↦ 0
  nPlusOne := none
  body := []

instance : Inhabited Entry := ⟨Entry.zero⟩

/-- Entries are compared field by field, the two families over their finite index lists. -/
def Entry.agree (entry other : Entry) : Prop :=
  entry.id = other.id ∧ entry.ts = other.ts ∧ entry.receivedAt = other.receivedAt ∧
    StrField.all.map entry.str = StrField.all.map other.str ∧
    IntField.all.map entry.int = IntField.all.map other.int ∧
    entry.nPlusOne = other.nPlusOne ∧ entry.body = other.body

theorem Entry.agree_iff_eq (entry other : Entry) : entry.agree other ↔ entry = other := by
  constructor
  · rintro ⟨hid, hts, hreceived, hstr, hint, hn, hbody⟩
    refine Entry.ext hid hts hreceived ?_ ?_ hn hbody
    · funext field
      exact List.map_inj_left.mp hstr field (StrField.mem_all field)
    · funext field
      exact List.map_inj_left.mp hint field (IntField.mem_all field)
  · rintro rfl
    exact ⟨rfl, rfl, rfl, rfl, rfl, rfl, rfl⟩

instance (entry other : Entry) : Decidable (entry.agree other) :=
  inferInstanceAs (Decidable (_ ∧ _))

instance : DecidableEq Entry := fun entry other ↦
  decidable_of_iff (entry.agree other) (entry.agree_iff_eq other)

/-! ### Conditionally stored fields -/

/-- A field that a WAL record holds only when it is set. -/
inductive Field
  | str (field : StrField)
  | int (field : IntField)
  | nPlusOne
  deriving DecidableEq, Repr

/-- The name that decoding errors and the column schema use for a string field. -/
def StrField.name : StrField → String
  | .level => "level"
  | .service => "service"
  | .message => "message"
  | .env => "env"
  | .version => "version"
  | .host => "host"
  | .kind => "kind"
  | .eventType => "event_type"
  | .traceID => "trace_id"
  | .spanID => "span_id"
  | .parentSpanID => "parent_span_id"
  | .requestID => "request_id"
  | .userID => "user_id"
  | .tenantID => "tenant_id"
  | .sessionID => "session_id"
  | .method => "method"
  | .path => "path"
  | .route => "route"
  | .handler => "handler"
  | .errorClass => "error_class"
  | .errorMessage => "error_message"
  | .sourceFile => "source_file"
  | .errorFingerprint => "error_fingerprint"
  | .jobClass => "job_class"
  | .jobQueue => "job_queue"
  | .jobID => "job_id"

/-- The name that decoding errors and the column schema use for an integer field. -/
def IntField.name : IntField → String
  | .status => "status"
  | .durationMs => "duration_ms"
  | .dbMs => "db_ms"
  | .dbCount => "db_count"
  | .cacheMs => "cache_ms"
  | .cacheHits => "cache_hits"
  | .cacheMisses => "cache_misses"
  | .extMs => "ext_ms"
  | .extCount => "ext_count"
  | .renderMs => "render_ms"
  | .allocCount => "alloc_count"
  | .memDeltaMb => "mem_delta_mb"
  | .slowQueries => "slow_queries"
  | .dupQueries => "dup_queries"
  | .sourceLine => "source_line"
  | .queueMs => "queue_ms"

def Field.name : Field → String
  | .str field => field.name
  | .int field => field.name
  | .nPlusOne => "n_plus_one"

def Entry.setStr (entry : Entry) (field : StrField) (value : Bytes) : Entry :=
  { entry with str := Function.update entry.str field value }

def Entry.setInt (entry : Entry) (field : IntField) (value : Int64) : Entry :=
  { entry with int := Function.update entry.int field value }

/-- Overwrite one field of `target` by the source entry's. -/
def Field.copy (source target : Entry) : Field → Entry
  | .str field => target.setStr field (source.str field)
  | .int field => target.setInt field (source.int field)
  | .nPlusOne => { target with nPlusOne := source.nPlusOne }

/-- The contents of one field. -/
inductive FieldValue
  | str (value : Bytes)
  | int (value : Int64)
  | flag (value : Option Bool)
  deriving DecidableEq

def Field.read (entry : Entry) : Field → FieldValue
  | .str field => .str (entry.str field)
  | .int field => .int (entry.int field)
  | .nPlusOne => .flag entry.nPlusOne

/-- The fields that are not a `Field`. -/
def Entry.fixed (entry : Entry) : Int64 × Int64 × Int64 × Bytes :=
  (entry.id, entry.ts, entry.receivedAt, entry.body)

theorem Entry.ext_of_read {entry other : Entry} (hfixed : entry.fixed = other.fixed)
    (hread : ∀ field : Field, field.read entry = field.read other) : entry = other := by
  simp only [Entry.fixed, Prod.mk.injEq] at hfixed
  obtain ⟨hid, hts, hreceived, hbody⟩ := hfixed
  refine Entry.ext hid hts hreceived ?_ ?_ ?_ hbody
  · funext field
    simpa [Field.read] using hread (.str field)
  · funext field
    simpa [Field.read] using hread (.int field)
  · simpa [Field.read] using hread .nPlusOne

theorem Field.read_copy (source target : Entry) (field other : Field) :
    other.read (field.copy source target) =
      if field = other then other.read source else other.read target := by
  cases field with
  | str strField =>
    cases other with
    | str otherField =>
      by_cases hsame : strField = otherField
      · subst hsame
        simp [read, copy, Entry.setStr]
      · have hne : otherField ≠ strField := fun heq ↦ hsame heq.symm
        simp [read, copy, Entry.setStr, hsame, Function.update_of_ne hne]
    | int otherField => simp [read, copy, Entry.setStr]
    | nPlusOne => simp [read, copy, Entry.setStr]
  | int intField =>
    cases other with
    | str otherField => simp [read, copy, Entry.setInt]
    | int otherField =>
      by_cases hsame : intField = otherField
      · subst hsame
        simp [read, copy, Entry.setInt]
      · have hne : otherField ≠ intField := fun heq ↦ hsame heq.symm
        simp [read, copy, Entry.setInt, hsame, Function.update_of_ne hne]
    | nPlusOne => simp [read, copy, Entry.setInt]
  | nPlusOne => cases other <;> simp [read, copy]

theorem Field.fixed_copy (source target : Entry) (field : Field) :
    (field.copy source target).fixed = target.fixed := by
  cases field <;> rfl

section CopyWhen

variable (source : Entry) (present : Field → Bool)

/-- Overwrite one field of `target` if it is present. -/
def Field.copyWhen (target : Entry) (field : Field) : Entry :=
  if present field then field.copy source target else target

theorem read_foldl_copyWhen (fields : List Field) (target : Entry) (other : Field) :
    other.read (fields.foldl (Field.copyWhen source present) target) =
      if other ∈ fields ∧ present other then other.read source else other.read target := by
  induction fields generalizing target with
  | nil => simp
  | cons field fields ih =>
    rw [List.foldl_cons, ih, Field.copyWhen]
    by_cases hhead : field = other
    · subst hhead
      by_cases hpresent : present field <;> simp [hpresent, Field.read_copy]
    · have htail : other ≠ field := fun heq ↦ hhead heq.symm
      by_cases hpresent : present field <;> simp [hpresent, hhead, htail, Field.read_copy]

theorem fixed_foldl_copyWhen (fields : List Field) (target : Entry) :
    (fields.foldl (Field.copyWhen source present) target).fixed = target.fixed := by
  induction fields generalizing target with
  | nil => rfl
  | cons field fields ih =>
    rw [List.foldl_cons, ih, Field.copyWhen]
    split_ifs
    · exact Field.fixed_copy source target field
    · rfl

end CopyWhen

end OpenTrace.Chunk
