import OpenTrace.Library.Bytes
import OpenTrace.Library.Interleaving
import OpenTrace.Library.KeyedMutex

/-!
# Watch evaluation

A watch is a row with a status and a counter of consecutive breaches. The scheduler and the stream
evaluator list active watches and evaluate them; an evaluation takes the watch's keyed lock, reads the
row again, measures, writes the counter, and moves the status to triggered when there were enough
breaches in a row. The caller then creates an alert. Meanwhile watches are resolved, by a user or
because a metric is back at its baseline, and expire. Each store call is one step, and so is each
section under the mutex of the lock table.

What is measured and whether the times and services of a listing match are decided by the
environment. Measured values and summaries are only copied into records and are left out, and so are
the records of runs. A tick or a stream pass over several watches is one call for each watch.

Fields that the code does not have: in a row its evaluations, newest first, as each was when it
released the lock; the `transitions` to triggered; which threads are between the start of an
evaluation and its end (`inProgress`) and between the read under the lock and its release
(`reading`). A `Setting` says whether store calls may fail and which steps are lapses: a
failed creation of an alert, or an evaluation that meets a resolved or expired watch (it reads one, or
the watch becomes so between its read and its release).
-/

namespace OpenTrace.Watcher

open Library

/-! ### State -/

inductive WatchStatus
  | active
  | triggered
  | resolved
  | expired
  deriving DecidableEq, Repr

def WatchStatus.isTerminal : WatchStatus → Bool
  | .resolved | .expired => true
  | .active | .triggered => false

structure Watch where
  status : WatchStatus
  minConsecutive : ℕ
  consecutiveBreaches : ℕ
  expiresAt : Option ℤ
  deriving DecidableEq, Repr

/-- What an evaluation has come to when it releases the lock. -/
structure Evaluation where
  thread : ℕ
  /-- Whether it breached; nothing if it failed. -/
  outcome : Option Bool
  /-- The stored counter. -/
  stored : ℕ
  hasAlert : Bool
  deriving DecidableEq, Repr

structure Row where
  watch : Watch
  evaluations : List Evaluation
  deriving DecidableEq, Repr

/-- An evaluation writes the status triggered. -/
structure Transition where
  thread : ℕ
  watch : Bytes
  before : WatchStatus
  deriving DecidableEq, Repr

/-- An alert of a watch, with the evaluation that created it. -/
structure Alert where
  watchID : Bytes
  thread : ℕ
  deriving DecidableEq, Repr

structure State where
  locks : KeyedMutex Bytes
  watches : Table Bytes Row
  alerts : List Alert
  transitions : List Transition
  inProgress : Table ℕ Bytes
  reading : Table ℕ Bytes

inductive Failure
  | invalidConfig
  | transient
  deriving DecidableEq, Repr

/-- What the environment decides at a step: whether a store call succeeds, the clock in seconds,
whether a watch is due or matches the services of a batch, the result of a measurement, and whether
a metric is back at its baseline. -/
structure Input where
  ok : Bool
  now : ℤ
  listed : Bool
  measured : Except Failure Bool
  recovered : Bool

structure Setting where
  storeFails : Bool
  alertLapses : Bool
  terminalLapses : Bool
  deriving DecidableEq

def Setting.succeeds (setting : Setting) (input : Input) : Bool := !setting.storeFails || input.ok

/-- A row is rewritten, if it is there. -/
def State.changeRow (state : State) (id : Bytes) (change : Row → Row) : State :=
  { state with watches := state.watches.update fun other row ↦ if other = id then change row else row }

def Row.setStatus (status : WatchStatus) (row : Row) : Row :=
  { row with watch := { row.watch with status := status } }

def Row.setBreaches (breaches : ℕ) (row : Row) : Row :=
  { row with watch := { row.watch with consecutiveBreaches := breaches } }

/-- An evaluation ends under the lock. -/
def Row.record (thread : ℕ) (outcome : Option Bool) (hasAlert : Bool) (row : Row) : Row :=
  { row with
    evaluations := ⟨thread, outcome, row.watch.consecutiveBreaches, hasAlert⟩ :: row.evaluations }

/-! ### Store calls -/

abbrev Action (α : Type) := Prog Input State α

def act {α : Type} (update : Input → State → State) (result : Input → State → α) : Action α :=
  Prog.atomically (fun _ _ ↦ true) (fun _ _ ↦ false) update result

def load {α : Type} (result : Input → State → α) : Action α := act (fun _ state ↦ state) result

section Calls

variable (setting : Setting) (thread : ℕ) (id : Bytes)

/-- `GetByID`, by an evaluation that holds the lock. -/
def getByID : Action (Option Watch) :=
  Prog.atomically (fun _ _ ↦ true)
    (fun input state ↦ setting.terminalLapses && setting.succeeds input &&
      (state.watches.get id).any fun row ↦ row.watch.status.isTerminal)
    (fun input state ↦
      if setting.succeeds input then { state with reading := state.reading.set thread id } else state)
    fun input state ↦ if setting.succeeds input then (state.watches.get id).map Row.watch else none

/-- `UpdateAfterCheck`: whether it succeeded. -/
def updateAfterCheck (breaches : ℕ) : Action Bool :=
  act
    (fun input state ↦
      if setting.succeeds input then state.changeRow id (Row.setBreaches breaches) else state)
    fun input state ↦ setting.succeeds input && (state.watches.get id).isSome

/-- `UpdateStatus` to triggered, by an evaluation. -/
def State.trigger (state : State) (thread : ℕ) (id : Bytes) : State :=
  { state.changeRow id (Row.setStatus .triggered) with
    transitions := match state.watches.get id with
      | some row => ⟨thread, id, row.watch.status⟩ :: state.transitions
      | none => state.transitions }

def updateTriggered : Action Bool :=
  act
    (fun input state ↦ if setting.succeeds input then state.trigger thread id else state)
    fun input state ↦ setting.succeeds input && (state.watches.get id).isSome

/-- `UpdateStatus` to expired, by an evaluation that holds the lock. -/
def disable : Action Unit :=
  act
    (fun input state ↦
      if setting.succeeds input then state.changeRow id (Row.setStatus .expired) else state)
    fun _ _ ↦ ()

/-- `UpdateStatus` to resolved or expired, by anybody else. -/
def close (status : WatchStatus) : Action Unit :=
  Prog.atomically (fun _ _ ↦ true)
    (fun input state ↦ setting.terminalLapses && setting.succeeds input &&
      state.reading.rows.any fun reader ↦ reader.2 = id)
    (fun input state ↦
      if setting.succeeds input then state.changeRow id (Row.setStatus status) else state)
    fun _ _ ↦ ()

def Watch.expires (watch : Watch) (now : ℤ) : Bool := watch.expiresAt.any fun expiresAt ↦ expiresAt ≤ now

def State.expireWatches (state : State) (now : ℤ) : State :=
  { state with
    watches := state.watches.update fun _ row ↦
      if row.watch.status = .active && row.watch.expires now then row.setStatus .expired else row }

def expireWatches : Action Unit :=
  Prog.atomically (fun _ _ ↦ true)
    (fun input state ↦ setting.terminalLapses && setting.succeeds input &&
      state.reading.rows.any fun reader ↦ (state.watches.get reader.2).any fun row ↦
        row.watch.status = .active && row.watch.expires input.now)
    (fun input state ↦ if setting.succeeds input then state.expireWatches input.now else state)
    fun _ _ ↦ ()

/-- `CreateAlert`; a failure is only logged. -/
def createAlert : Action Unit :=
  Prog.atomically (fun _ _ ↦ true)
    (fun input _ ↦ setting.alertLapses && !setting.succeeds input)
    (fun input state ↦
      if setting.succeeds input then { state with alerts := ⟨id, thread⟩ :: state.alerts } else state)
    fun _ _ ↦ ()

/-! ### Evaluate -/

/-- The first half of `keyedMutex.lock`: the mutex of the watch is looked up or made. -/
def enterLock : Action ℕ :=
  act (fun _ state ↦ { state with locks := state.locks.enter thread id })
    fun _ state ↦ state.locks.address id

def acquireLock (address : ℕ) : Action Unit :=
  Prog.atomically (fun _ state ↦ (state.locks.mutexes address).holder.isNone) (fun _ _ ↦ false)
    (fun _ state ↦ { state with locks := state.locks.acquire thread address }) fun _ _ ↦ ()

/-- The mutex is released; what the evaluation has come to is recorded. -/
def State.release (state : State) (thread : ℕ) (id : Bytes) (address : ℕ) (outcome : Option Bool)
    (hasAlert : Bool) : State :=
  { state.changeRow id (Row.record thread outcome hasAlert) with
    locks := state.locks.release address
    reading := state.reading.erase thread }

/-- The function that `keyedMutex.lock` returns. -/
def unlock (address : ℕ) (outcome : Option Bool) (hasAlert : Bool) : Action Unit := do
  act (fun _ state ↦ state.release thread id address outcome hasAlert) fun _ _ ↦ ()
  act (fun _ state ↦ { state with locks := state.locks.leave thread id address }) fun _ _ ↦ ()

structure WatchEvalResult where
  breached : Bool
  hasAlert : Bool
  deriving DecidableEq, Repr

def evaluateLocked (w : Watch) : Action (Except Failure WatchEvalResult) := do
  let measured ← load fun input _ ↦ input.measured
  match measured with
  | .error failure => return .error failure
  | .ok breached =>
    let breaches := if breached then w.consecutiveBreaches + 1 else 0
    let ok ← updateAfterCheck setting id breaches
    if !ok then return .error .transient
    else if !breached then return .ok ⟨breached, false⟩
    else if breaches < w.minConsecutive then return .ok ⟨breached, false⟩
    else if w.status = .triggered then return .ok ⟨breached, false⟩
    else
      let ok ← updateTriggered setting thread id
      if !ok then return .error .transient
      else return .ok ⟨breached, true⟩

/-- An invalid definition is disabled; any other failure keeps the counter. -/
def recordFailedCheck (w : Watch) (failure : Failure) : Action Unit := do
  match failure with
  | .invalidConfig => disable setting id
  | .transient =>
    let _ ← updateAfterCheck setting id w.consecutiveBreaches

/-- `Evaluate`: the result, or nothing if it failed. -/
def evaluate : Action (Option WatchEvalResult) := do
  let address ← enterLock thread id
  acquireLock thread address
  let cur ← getByID setting thread id
  match cur with
  | none =>
    unlock thread id address none false
    return none
  | some cur =>
    let result ← evaluateLocked setting thread id cur
    match result with
    | .error failure =>
      recordFailedCheck setting id cur failure
      unlock thread id address none false
      return none
    | .ok result =>
      unlock thread id address (some result.breached) result.hasAlert
      return some result

/-! ### Scheduler and stream evaluator -/

/-- `CreateRun`; the evaluation is in progress from here on. -/
def createRun : Action Bool :=
  act
    (fun input state ↦
      if setting.succeeds input then { state with inProgress := state.inProgress.set thread id }
      else state)
    fun input _ ↦ setting.succeeds input

def finish : Action Unit :=
  act (fun _ state ↦ { state with inProgress := state.inProgress.erase thread }) fun _ _ ↦ ()

/-- What both evaluators do with a listed watch. Completing or failing the run may fail, which changes
nothing here. -/
def evaluateAndAlert : Action Unit := do
  let run ← createRun setting thread id
  if run then
    let result ← evaluate setting thread id
    match result with
    | none => finish thread
    | some result =>
      if result.hasAlert then createAlert setting thread id
      finish thread

/-- `evaluateWatch` of the scheduler. -/
def evaluateWatch : Action Unit := evaluateAndAlert setting thread id

/-- `evaluateOne` of the stream evaluator. -/
def evaluateOne : Action Unit := evaluateAndAlert setting thread id

/-- A watch is listed if it is active and the times and services match. -/
def listActive : Action Bool :=
  load fun input state ↦ setting.succeeds input && input.listed &&
    (state.watches.get id).any fun row ↦ row.watch.status = .active

/-- A tick of the scheduler, as far as this watch is due. -/
def tick : Action Unit := do
  let due ← listActive setting id
  if due then evaluateWatch setting thread id

/-- A pass of the stream evaluator, as far as this watch matches. -/
def evaluateMatching : Action Unit := do
  let matching ← listActive setting id
  if matching then evaluateOne setting thread id

/-- `checkTriggeredWatches`, for one watch: expire it or resolve it again. -/
def checkTriggeredWatch : Action Unit := do
  let listed ← load fun input state ↦
    if setting.succeeds input then
      (state.watches.get id).filter fun row ↦ row.watch.status = .triggered
    else none
  match listed with
  | none => return
  | some row =>
    let now ← load fun input _ ↦ input.now
    if row.watch.expires now then close setting id .expired
    else
      let recovered ← load fun input _ ↦ input.recovered
      if recovered then close setting id .resolved

end Calls

inductive Call
  | tick (id : Bytes)
  | evaluateMatching (id : Bytes)
  | checkTriggeredWatch (id : Bytes)
  | cleanup
  | resolve (id : Bytes)

def system (setting : Setting) : System Call Input State where
  program := fun call thread ↦
    match call with
    | .tick id => tick setting thread id
    | .evaluateMatching id => evaluateMatching setting thread id
    | .checkTriggeredWatch id => checkTriggeredWatch setting id
    | .cleanup => expireWatches setting
    | .resolve id => close setting id .resolved
  admits := fun _ _ ↦ true
  crash := fun _ _ ↦ none

/-- The watches as a process finds them, with no evaluation on its way. -/
def opened (watches : Table Bytes Watch) : State where
  locks := .empty
  watches := ⟨watches.rows.map fun row ↦ (row.1, ⟨row.2, []⟩), by
    rw [List.map_map]
    exact watches.distinct⟩
  alerts := []
  transitions := []
  inProgress := .empty
  reading := .empty

end OpenTrace.Watcher
