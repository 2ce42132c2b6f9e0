import OpenTrace.Library.Interleaving
import OpenTrace.Mcp.EnvScope

/-!
# Catch-up

`overview.catchup` returns what was recorded since a user's cursor, in one environment, and then moves
the cursor. The calls of one user come one after the other; alerts, error groups and deploys are
recorded at any time between their steps. A step is one store call or one reading of the clock, which
another call moves on.

The clock counts nanoseconds; the database keeps times in whole seconds (RFC 3339). Rows of the three
tables have one type: `stamp` is `created_at` of an alert and `first_seen_at` of the others, and
columns that only a text of the response shows are left out. The order of rows that a query leaves
open is chosen by the environment. A row that is ignored as a duplicate is not recorded.

Fields that the code does not have: in a row whether it was recorded when the user had a cursor
(`tracked`), whether it has been unresolved ever since (`still`) and when it was recorded; the call in
progress and what it has collected; what the responses so far have shown; the time of the last call,
and up to when each table has been listed.

Two premises are marked as lapses: a response that is truncated, and a call more than seven days after
the last one. A `careful` system also marks the steps that make a call lose something: a store call
of a catch-up that fails before the response; a call for another environment than `target`, and a row
recorded in another one that the user may read; a row whose stamp is not after what was listed already;
and more than 200 alerts to look through.
-/

namespace OpenTrace.Mcp.Catchup

open Library

/-! ### State -/

def second : ℤ := 1000000000

/-- A time as the database keeps it. -/
def seconds (time : ℤ) : ℤ := time / second

def firstCatchupWindow : ℤ := 24 * 3600 * second

def maxCatchupWindow : ℤ := 7 * 24 * 3600 * second

def maxCatchupItems : ℕ := 50

def catchupFetchLimit : ℕ := maxCatchupItems + 1

def catchupAlertScanLimit : ℕ := 200

inductive Kind
  | errorGroup
  | watchAlert
  | deploy
  deriving DecidableEq, Repr

inductive ErrorGroupStatus
  | unresolved
  | resolved
  | ignored
  deriving DecidableEq, Repr

structure Row where
  id : ℕ
  environment : Bytes
  stamp : ℤ
  /-- Of an error group. -/
  status : ErrorGroupStatus
  occurrenceCount : ℕ
  /-- Of an alert: its status is pending, and its urgency is critical. -/
  pending : Bool
  urgent : Bool
  tracked : Bool
  still : Bool
  recordedAt : ℤ
  deriving DecidableEq, Repr

structure State where
  clock : ℤ
  cursor : Option ℤ
  tables : Kind → List Row
  busy : Option ℕ
  listed : Kind → Option ℤ
  lastCall : Option ℤ
  collected : List (Kind × ℕ)
  reported : List (Kind × ℕ)

/-- Whether a store call succeeds, and in which order a table is read. -/
structure Input where
  ok : Bool
  arrange : List Row → List Row

def Input.read (input : Input) (rows : List Row) : List Row :=
  if (input.arrange rows).isPerm rows then input.arrange rows else rows

inductive Severity
  | critical
  | warning
  | info
  deriving DecidableEq, Repr

def sevOrder : Severity → ℕ
  | .critical => 0
  | .warning => 1
  | .info => 2

structure TriageEntry where
  critical : Bool
  type : Kind
  severity : Severity
  time : ℤ
  id : ℕ
  environment : Bytes
  deriving DecidableEq, Repr

def TriageEntry.key (entry : TriageEntry) : Kind × ℕ := (entry.type, entry.id)

/-- The caller's scope, the server's default environment and critical paths; and which steps count as
lapses. -/
structure Setting where
  scope : EnvScope
  defaultEnv : Bytes
  isCriticalPath : TriageEntry → Bool
  careful : Bool
  target : Bytes

/-! ### Collectors -/

def matchesEnv (env : Bytes) (row : Row) : Bool := env = [] || row.environment = env

def catchupErrorGroups (env : Bytes) (since : ℤ) (rows : List Row) : List TriageEntry :=
  let groups := ((rows.filter fun row ↦
    row.status = .unresolved && matchesEnv env row && seconds since ≤ row.stamp).mergeSort
      fun first second ↦ second.occurrenceCount ≤ first.occurrenceCount).take catchupFetchLimit
  groups.map fun eg ↦ ⟨false, .errorGroup, .critical, eg.stamp, eg.id, eg.environment⟩

/-- The alert was created after the start of the window. -/
def isAfter (since : ℤ) (row : Row) : Bool := since < row.stamp * second

def catchupAlerts (env : Bytes) (since : ℤ) (rows : List Row) : List TriageEntry :=
  let alerts := (rows.mergeSort fun first second ↦ second.stamp ≤ first.stamp).take
    catchupAlertScanLimit
  (alerts.filter fun a ↦ isAfter since a && matchesEnv env a).map fun a ↦
    ⟨a.urgent, .watchAlert, if a.pending then .critical else .warning, a.stamp, a.id, a.environment⟩

def catchupDeploys (env : Bytes) (since : ℤ) (rows : List Row) : List TriageEntry :=
  let deploys := ((rows.filter fun row ↦
    matchesEnv env row && seconds since ≤ row.stamp).mergeSort fun first second ↦
      second.stamp < first.stamp || second.stamp = first.stamp && second.id ≤ first.id).take
        catchupFetchLimit
  deploys.map fun dep ↦ ⟨false, .deploy, .info, dep.stamp, dep.id, dep.environment⟩

def collector : Kind → Bytes → ℤ → List Row → List TriageEntry
  | .errorGroup => catchupErrorGroups
  | .watchAlert => catchupAlerts
  | .deploy => catchupDeploys

/-- The order of the response: critical paths first, then severity, then the newest. -/
def entryLess (first second : TriageEntry) : Bool :=
  if first.critical ≠ second.critical then first.critical
  else if sevOrder first.severity ≠ sevOrder second.severity then
    sevOrder first.severity < sevOrder second.severity
  else second.time < first.time

/-- `CollectCatchup`: the entries of the response, and whether some are missing. -/
def collectCatchup (isCriticalPath : TriageEntry → Bool) (items : List TriageEntry) :
    List TriageEntry × Bool :=
  let marked := items.map fun item ↦
    if isCriticalPath item then { item with critical := true } else item
  let sorted := marked.mergeSort fun first second ↦ !entryLess second first
  if maxCatchupItems < sorted.length then (sorted.take maxCatchupItems, true) else (sorted, false)

/-- `catchupSince`, from the clock and from the cursor, if it could be read. -/
def catchupSince (now : ℤ) : Option (Option ℤ) → ℤ
  | none => now - firstCatchupWindow
  | some none => now - firstCatchupWindow
  | some (some cursor) =>
    if cursor * second < now - maxCatchupWindow then now - maxCatchupWindow else cursor * second

/-! ### Store calls -/

abbrev Action (α : Type) := Prog Input State α

def act {α : Type} (update : Input → State → State) (result : Input → State → α) : Action α :=
  Prog.atomically (fun _ _ ↦ true) (fun _ _ ↦ false) update result

def load {α : Type} (result : Input → State → α) : Action α := act (fun _ state ↦ state) result

section Calls

variable (setting : Setting) (thread : ℕ)

/-- A call starts when no other one of the user is in progress, and reads the clock. -/
def start (env : Bytes) : Action ℤ :=
  Prog.atomically (fun _ state ↦ state.busy.isNone)
    (fun _ state ↦ (state.lastCall.any fun last ↦ last + maxCatchupWindow < state.clock) ||
      setting.careful && env ≠ setting.target)
    (fun _ state ↦ { state with busy := some thread }) fun _ state ↦ state.clock

def catchupCursor : Action (Option (Option ℤ)) :=
  Prog.atomically (fun _ _ ↦ true) (fun input _ ↦ setting.careful && !input.ok)
    (fun _ state ↦ state) fun input state ↦ if input.ok then some state.cursor else none

def State.list (state : State) (kind : Kind) (now : ℤ) (found : List TriageEntry) : State :=
  { state with
    listed := fun other ↦ if other = kind then some (seconds now) else state.listed other
    collected := found.map TriageEntry.key ++ state.collected }

/-- One collector. A failure gives an empty list. -/
def collect (kind : Kind) (env : Bytes) (since now : ℤ) : Action (List TriageEntry) :=
  let found := fun (input : Input) (state : State) ↦
    if input.ok then collector kind env since (input.read (state.tables kind)) else []
  Prog.atomically (fun _ _ ↦ true)
    (fun input state ↦ setting.careful && (!input.ok || kind = .watchAlert &&
      catchupAlertScanLimit < (state.tables kind).countP (isAfter since)))
    (fun input state ↦ state.list kind now (found input state)) found

def State.respond (state : State) (items : List TriageEntry) (now : ℤ) : State :=
  { state with
    reported := items.map TriageEntry.key ++ state.reported
    collected := []
    lastCall := some now }

/-- The response is assembled, which all paths return from here on. -/
def respond (items : List TriageEntry) (now : ℤ) : Action Unit :=
  Prog.atomically (fun _ _ ↦ true)
    (fun _ _ ↦ (collectCatchup setting.isCriticalPath items).2)
    (fun _ state ↦ state.respond (collectCatchup setting.isCriticalPath items).1 now) fun _ _ ↦ ()

/-- The cursor only ever moves forward. -/
def State.setCatchupCursor (state : State) (now : ℤ) : State :=
  if state.cursor.all fun cursor ↦ cursor < seconds now then
    { state with cursor := some (seconds now) }
  else state

def setCatchupCursor (now : ℤ) : Action Unit :=
  act (fun input state ↦ if input.ok then state.setCatchupCursor now else state) fun _ _ ↦ ()

def finish : Action Unit := act (fun _ state ↦ { state with busy := none }) fun _ _ ↦ ()

def handleCatchup (requested : Bytes) (peek : Bool) : Action Unit := do
  match resolveEnv setting.defaultEnv (some setting.scope) requested with
  | .error _ => return
  | .ok env =>
    let started ← start setting thread env
    let cursor ← catchupCursor setting
    let since := catchupSince started cursor
    let now ← load fun _ state ↦ state.clock
    let groups ← collect setting .errorGroup env since now
    let alerts ← collect setting .watchAlert env since now
    let deploys ← collect setting .deploy env since now
    respond setting (groups ++ alerts ++ deploys) now
    if peek then finish
    else
      setCatchupCursor now
      finish

/-! ### What is recorded -/

/-- The stamp is after what has been listed of the table. -/
def isAhead (kind : Kind) (stamp : ℤ) (state : State) : Bool :=
  (state.listed kind).all fun last ↦
    match kind with
    | .watchAlert => last < stamp
    | _ => last ≤ stamp

def State.insert (state : State) (kind : Kind) (environment : Bytes) (stamp : ℤ) (urgent : Bool) :
    State :=
  { state with
    tables := fun other ↦
      if other = kind then
        ⟨(state.tables kind).length, environment, stamp, .unresolved, 1, true, urgent,
          state.cursor.isSome, true, state.clock⟩ :: state.tables kind
      else state.tables other }

def insert (kind : Kind) (environment : Bytes) (stamp : ℤ) (urgent : Bool) : Action Unit :=
  Prog.atomically (fun _ _ ↦ true)
    (fun _ state ↦ setting.careful && state.cursor.isSome && setting.scope.allows environment &&
      (environment ≠ setting.target || !isAhead kind stamp state))
    (fun input state ↦ if input.ok then state.insert kind environment stamp urgent else state)
    fun _ _ ↦ ()

/-- `CreateAlert`: the clock is read before the row is inserted. -/
def createAlert (environment : Bytes) (urgent : Bool) : Action Unit := do
  let stamp ← load fun _ state ↦ seconds state.clock
  insert setting .watchAlert environment stamp urgent

/-- The rows with an ID are rewritten. -/
def State.revise (state : State) (kind : Kind) (id : ℕ) (change : Row → Row) : State :=
  { state with
    tables := fun other ↦
      if other = kind then (state.tables kind).map fun row ↦ if row.id = id then change row else row
      else state.tables other }

def Row.setStatus (status : ErrorGroupStatus) (row : Row) : Row :=
  { row with status := status, still := row.still && status = .unresolved }

/-- Another occurrence of an error: a resolved group is reopened. -/
def Row.occur (row : Row) : Row :=
  { row with
    occurrenceCount := row.occurrenceCount + 1
    status := if row.status = .resolved then .unresolved else row.status }

def Row.handled (row : Row) : Row := { row with pending := false }

def revise (kind : Kind) (id : ℕ) (change : Row → Row) : Action Unit :=
  act (fun input state ↦ if input.ok then state.revise kind id change else state) fun _ _ ↦ ()

end Calls

inductive Call
  | handleCatchup (requested : Bytes) (peek : Bool)
  | createAlert (environment : Bytes) (urgent : Bool)
  | upsertErrorGroup (environment : Bytes) (timestamp : ℤ)
  | recordDeploy (environment : Bytes) (timestamp : ℤ)
  | occur (id : ℕ)
  | changeStatus (id : ℕ) (status : ErrorGroupStatus)
  | handleAlert (id : ℕ)
  | wait (time : ℕ)

def system (setting : Setting) : System Call Input State where
  program := fun call thread ↦
    match call with
    | .handleCatchup requested peek => handleCatchup setting thread requested peek
    | .createAlert environment urgent => createAlert setting environment urgent
    | .upsertErrorGroup environment timestamp =>
      insert setting .errorGroup environment (seconds timestamp) false
    | .recordDeploy environment timestamp =>
      insert setting .deploy environment (seconds timestamp) false
    | .occur id => revise .errorGroup id Row.occur
    | .changeStatus id status => revise .errorGroup id (Row.setStatus status)
    | .handleAlert id => revise .watchAlert id Row.handled
    | .wait time => act (fun _ state ↦ { state with clock := state.clock + time }) fun _ _ ↦ ()
  admits := fun _ _ ↦ true
  crash := fun _ _ ↦ none

/-- The user's cursor has just been set, or they have none yet. Rows recorded before are not
tracked. -/
def opened (clock : ℤ) (hasCursor : Bool) (earlier : Kind → List Row) : State where
  clock := clock
  cursor := if hasCursor then some (seconds clock) else none
  tables := fun kind ↦ (earlier kind).map fun row ↦ { row with tracked := false }
  busy := none
  listed := fun _ ↦ if hasCursor then some (seconds clock) else none
  lastCall := if hasCursor then some clock else none
  collected := []
  reported := []

end OpenTrace.Mcp.Catchup
