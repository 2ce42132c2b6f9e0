import OpenTrace.Library.Bytes
import OpenTrace.Library.Interleaving
import OpenTrace.Library.Table

/-!
# Job queue

Jobs are rows of a SQLite table. A worker claims the first pending row of its queue in a transaction,
runs the handler of the job's type, and writes the outcome back by the row's id. A reaper takes rows
back that have been running for too long, and an operator can send dead jobs through the queue again.
Every SQL statement is one step, and so is the claiming transaction; between two statements any other
worker, reaper or retry may run.

A claim leaves no trace of its worker in the row. The model adds to each row the list of its status
changes, newest first, with what caused them, and with it the `holder`: the worker that claimed the
job, as long as nothing has been written to the row since. One kind of step is marked as a lapse: the
outcome that a worker writes to a row it no longer holds.
-/

namespace OpenTrace.Jobs

open Library

/-! ### The table -/

inductive Status
  | pending
  | running
  | completed
  | failed
  | dead
  deriving DecidableEq, Repr

/-- A job. Times are RFC 3339 texts in UTC, which are ordered as the seconds they name. -/
structure Job where
  queue : Bytes
  jobType : Bytes
  payload : Bytes
  status : Status
  priority : ℤ
  attempts : ℕ
  maxAttempts : ℕ
  runAt : ℤ
  startedAt : Option ℤ
  completedAt : Option ℤ
  lastError : Option Bytes
  createdAt : ℤ
  deriving DecidableEq, Repr

/-- What wrote to a row. Workers are named by the thread that runs `processNext`. -/
inductive Cause
  | claim (worker : ℕ)
  | complete (worker : ℕ)
  | fail (worker : ℕ)
  | reap
  | retry
  deriving DecidableEq, Repr

structure Change where
  cause : Cause
  before : Status
  after : Status
  deriving DecidableEq, Repr

/-- A row with its status changes, newest first. -/
structure Row where
  job : Job
  history : List Change
  deriving DecidableEq, Repr

/-- The worker that claimed the job, if the claim is the last thing that happened. -/
def holder : List Change → Option ℕ
  | ⟨.claim worker, _, _⟩ :: _ => some worker
  | _ => none

def Row.write (row : Row) (cause : Cause) (job : Job) : Row :=
  ⟨job, ⟨cause, row.job.status, job.status⟩ :: row.history⟩

structure State where
  jobs : Table ℤ Row
  nextID : ℤ

/-- `UPDATE jobs SET … WHERE …` -/
def State.updateJobs (state : State) (cause : Cause) (selects : ℤ → Job → Bool) (set : Job → Job) :
    State :=
  { state with
    jobs := state.jobs.update fun id row ↦
      if selects id row.job then row.write cause (set row.job) else row }

/-! ### Steps -/

/-- What the environment decides at a step: whether the database call succeeds, the clock in
nanoseconds, the row that a query returns among equals, and the error of a handler. -/
structure Input where
  ok : Bool
  now : ℤ
  row : ℤ
  error : Option Bytes

abbrev Action (α : Type) := Prog Input State α

/-- `Format(time.RFC3339)`, which drops the part below a second. -/
def seconds (time : ℤ) : ℤ := time / 10 ^ 9

/-- A step that leaves the table as it is. -/
def load {α : Type} (result : Input → State → α) : Action α :=
  Prog.atomically (fun _ _ ↦ true) (fun _ _ ↦ false) (fun _ state ↦ state) result

/-- `time.Now()` -/
def timeNow : Action ℤ := load fun input _ ↦ input.now

/-- `ExecContext` of an update: whether it succeeded. A statement that fails changes nothing. -/
def exec (lapses : State → Bool) (update : State → State) : Action Bool :=
  Prog.atomically (fun _ _ ↦ true) (fun input state ↦ input.ok && lapses state)
    (fun input state ↦ if input.ok then update state else state) fun input _ ↦ input.ok

def getByID (id : ℤ) : Action (Option Job) :=
  load fun input state ↦ if input.ok then (state.jobs.get id).map Row.job else none

/-! ### Queue -/

/-- The row that an `INSERT` of `EnqueueAt` makes, with the defaults of the other columns. -/
def newJob (jobType payload : Bytes) (runAt now : ℤ) : Job where
  queue := ascii "default"
  jobType := jobType
  payload := payload
  status := .pending
  priority := 0
  attempts := 0
  maxAttempts := 3
  runAt := runAt
  startedAt := none
  completedAt := none
  lastError := none
  createdAt := now

def State.insertJob (state : State) (job : Job) : State where
  jobs := state.jobs.set state.nextID ⟨job, []⟩
  nextID := state.nextID + 1

/-- `EnqueueAt` of a payload that is already marshalled. -/
def enqueueAt (jobType payload : Bytes) (runAt : ℤ) : Action Unit := do
  let now ← timeNow
  let _ ← exec (fun _ ↦ false) fun state ↦
    state.insertJob (newJob jobType payload (seconds runAt) (seconds now))

/-- `WHERE queue = ? AND status = 'pending' AND run_at <= ?` -/
def claimable (queue : Bytes) (now : ℤ) (job : Job) : Bool :=
  job.queue = queue && job.status = .pending && job.runAt ≤ now

/-- `ORDER BY priority DESC, created_at ASC` -/
def Job.before (job other : Job) : Bool :=
  other.priority < job.priority || (job.priority = other.priority && job.createdAt < other.createdAt)

/-- The query of `ClaimNext` can return this row: it leaves open which of several first rows. -/
def State.firstClaimable (state : State) (queue : Bytes) (now id : ℤ) : Bool :=
  match state.jobs.get id with
  | some row => claimable queue now row.job &&
      state.jobs.rows.all fun other ↦ !(claimable queue now other.2.job && other.2.job.before row.job)
  | none => false

/-- The claiming transaction: the id of the claimed row. -/
def claimRow (thread : ℕ) (queue : Bytes) (now : ℤ) : Action (Option ℤ) :=
  Prog.atomically
    (fun input state ↦ !input.ok || state.firstClaimable queue now input.row ||
      !state.jobs.rows.any fun row ↦ claimable queue now row.2.job)
    (fun _ _ ↦ false)
    (fun input state ↦
      if input.ok && state.firstClaimable queue now input.row then
        state.updateJobs (.claim thread) (fun id _ ↦ id = input.row) fun job ↦
          { job with status := .running, startedAt := some now }
      else state)
    fun input state ↦
      if input.ok && state.firstClaimable queue now input.row then some input.row else none

def claimNext (thread : ℕ) (queue : Bytes) : Action (Option (ℤ × Job)) := do
  let now ← timeNow
  let claimed ← claimRow thread queue (seconds now)
  match claimed with
  | none => return none
  | some id =>
    let job ← getByID id
    return job.map fun job ↦ (id, job)

/-- Another worker may hold the row, or the reaper has taken it back. -/
def State.lost (state : State) (thread : ℕ) (id : ℤ) : Bool :=
  (state.jobs.get id).any fun row ↦ holder row.history ≠ some thread

def complete (thread : ℕ) (id : ℤ) : Action Unit := do
  let now ← timeNow
  let _ ← exec (fun state ↦ state.lost thread id) fun state ↦
    state.updateJobs (.complete thread) (fun other _ ↦ other = id) fun job ↦
      { job with status := .completed, completedAt := some (seconds now) }

/-- The retry delay in nanoseconds, in the arithmetic of `int64`. -/
def backoff (newAttempts : ℕ) : ℤ :=
  min ((2 ^ newAttempts * 5 * 10 ^ 9 : ℤ).bmod (2 ^ 64)) (300 * 10 ^ 9)

/-- What `Fail` writes, given the number of attempts it has counted. -/
def failJob (newAttempts maxAttempts : ℕ) (errMsg : Bytes) (now : ℤ) (job : Job) : Job :=
  if maxAttempts ≤ newAttempts then
    { job with status := .dead, attempts := newAttempts, lastError := some errMsg }
  else
    { job with
      status := .pending
      attempts := newAttempts
      lastError := some errMsg
      runAt := seconds (now + backoff newAttempts) }

def fail (thread : ℕ) (id : ℤ) (errMsg : Bytes) : Action Unit := do
  let found ← getByID id
  match found with
  | none => return
  | some job =>
    let now ← timeNow
    let _ ← exec (fun state ↦ state.lost thread id) fun state ↦
      state.updateJobs (.fail thread) (fun other _ ↦ other = id)
        (failJob (job.attempts + 1) job.maxAttempts errMsg now)

def retry (id : ℤ) : Action Unit := do
  let now ← timeNow
  let _ ← exec (fun _ ↦ false) fun state ↦
    state.updateJobs .retry (fun other job ↦ other = id && (job.status = .dead || job.status = .failed))
      fun job ↦ { job with status := .pending, runAt := seconds now }

def reapReason : Bytes := ascii "reclaimed: worker stopped or crashed while running"

/-- `timePred`: with a deadline, only rows that started before it or have no start. -/
def timePred (cutoff : Option ℤ) (job : Job) : Bool :=
  match cutoff, job.startedAt with
  | some cutoff, some started => started < cutoff
  | _, _ => true

/-- Orphaned jobs that have exhausted their retry budget become dead. -/
def State.reapDead (state : State) (cutoff : Option ℤ) : State :=
  state.updateJobs .reap
    (fun _ job ↦ job.status = .running && job.maxAttempts ≤ job.attempts + 1 && timePred cutoff job)
    fun job ↦ { job with
      status := .dead, attempts := job.attempts + 1, lastError := some reapReason }

/-- Orphaned jobs with retry budget left run again. -/
def State.reapPending (state : State) (now : ℤ) (cutoff : Option ℤ) : State :=
  state.updateJobs .reap
    (fun _ job ↦ job.status = .running && job.attempts + 1 < job.maxAttempts && timePred cutoff job)
    fun job ↦ { job with
      status := .pending, runAt := now, attempts := job.attempts + 1, lastError := some reapReason }

/-- `ReapOrphaned`, with the timeout in nanoseconds. -/
def reapOrphaned (olderThan : ℤ) : Action Unit := do
  let now ← timeNow
  let deadline ← timeNow
  let cutoff := if 0 < olderThan then some (seconds (deadline - olderThan)) else none
  let ok ← exec (fun _ ↦ false) fun state ↦ state.reapDead cutoff
  if ok then
    let _ ← exec (fun _ ↦ false) fun state ↦ state.reapPending (seconds now) cutoff

/-! ### Worker -/

/-- `processNext` of a worker with handlers for these job types. A handler's panic is an error too. -/
def processNext (thread : ℕ) (queueName : Bytes) (handlers : List Bytes) : Action Unit := do
  let claimed ← claimNext thread queueName
  match claimed with
  | none => return
  | some (id, job) =>
    if job.jobType ∈ handlers then
      let handlerErr ← load fun input _ ↦ input.error
      match handlerErr with
      | some errMsg => fail thread id errMsg
      | none => complete thread id
    else fail thread id (ascii "unknown job type: " ++ job.jobType)

inductive Call
  | enqueueAt (jobType payload : Bytes) (runAt : ℤ)
  | processNext (queueName : Bytes) (handlers : List Bytes)
  | reapOrphaned (olderThan : ℤ)
  | retry (id : ℤ)

def system : System Call Input State where
  program := fun call thread ↦
    match call with
    | .enqueueAt jobType payload runAt => enqueueAt jobType payload runAt
    | .processNext queueName handlers => processNext thread queueName handlers
    | .reapOrphaned olderThan => reapOrphaned olderThan
    | .retry id => retry id
  admits := fun _ _ ↦ true
  crash := fun _ _ ↦ none

/-- A table of jobs as a process finds it. -/
def opened (jobs : Table ℤ Job) (nextID : ℤ) : State where
  jobs := ⟨jobs.rows.map fun row ↦ (row.1, ⟨row.2, []⟩), by
    rw [List.map_map]
    exact jobs.distinct⟩
  nextID := nextID

end OpenTrace.Jobs
