import Mathlib.Data.Int.Notation
import OpenTrace.Library.Interleaving
import OpenTrace.Library.Table

/-!
# Ingest queue

The queue buffers log entries and writes them to the store in batches. `Enqueue` buffers its entries,
flushing when enough have come together or when they do not fit; a background loop flushes on a timer;
`Stop` marks the queue as stopped, tells the loop to flush once more and waits for it. The buffer and
the flag are only used under the mutex, so each section under it is one step; the counters are
atomic, and each call of `BatchInsert` is a step that may fail.

Entries are told apart by the call they came with and their place in it. Fields that the code does not
have record where an entry went: `batches` holds what each goroutine has taken out of the buffer and
not yet dealt with, `inserted` and `dropped` what was written and given up, and `acked` the entries of
the calls that returned without error.

Two kinds of steps are marked as lapses: `Stop` marks the queue as stopped while a flush other than
the loop's owns a batch, and such a flush takes the buffer of a stopped queue.
-/

namespace OpenTrace.Ingest

open Library

/-! ### State -/

/-- The sizes of `QueueConfig`. -/
structure QueueConfig where
  maxQueueSize : ℤ
  maxBatchSize : ℤ

/-- `maxQueueSize` with the default of `NewQueue`. -/
def QueueConfig.queueSize (cfg : QueueConfig) : ℕ :=
  if cfg.maxQueueSize ≤ 0 then 10000 else cfg.maxQueueSize.toNat

/-- `maxBatchSize` with the default of `NewQueue`. -/
def QueueConfig.batchSize (cfg : QueueConfig) : ℕ :=
  if cfg.maxBatchSize ≤ 0 then 1000 else cfg.maxBatchSize.toNat

/-- An entry with the `Enqueue` call it came with and its place in it. -/
structure Item (ε : Type) where
  call : ℕ
  place : ℕ
  entry : ε
  deriving DecidableEq, Repr

structure State (ε : Type) where
  buffer : List (Item ε)
  stopped : Bool
  /-- `stopCh` is closed. -/
  stopCh : Bool
  /-- The loop has called `wg.Done`. -/
  loopDone : Bool
  flushCount : ℕ
  overflowCount : ℕ
  dropCount : ℕ
  /-- The thread of `flushLoop`. -/
  loop : Option ℕ
  /-- What each thread has taken out of the buffer and not yet dealt with. -/
  batches : Table ℕ (List (Item ε))
  inserted : List (Item ε)
  dropped : List (Item ε)
  acked : List (Item ε)
  /-- The thread of `Stop`, and what was acknowledged when it was called. -/
  stop : Option (ℕ × List (Item ε))
  /-- `Stop` has returned. -/
  returned : Bool

variable {ε : Type}

def newQueue : State ε where
  buffer := []
  stopped := false
  stopCh := false
  loopDone := false
  flushCount := 0
  overflowCount := 0
  dropCount := 0
  loop := none
  batches := .empty
  inserted := []
  dropped := []
  acked := []
  stop := none
  returned := false

section

variable (state : State ε)

def State.owned (thread : ℕ) : List (Item ε) := (state.batches.get thread).getD []

def State.setOwned (thread : ℕ) (batch : List (Item ε)) : State ε :=
  { state with batches := state.batches.set thread batch }

/-- A thread has dealt with so many of the entries it has taken. -/
def State.settle (thread count : ℕ) : State ε :=
  state.setOwned thread ((state.owned thread).drop count)

def State.insert (items : List (Item ε)) : State ε :=
  { state with inserted := state.inserted ++ items }

def State.append (items : List (Item ε)) : State ε := { state with buffer := state.buffer ++ items }

def State.putBack (chunk : List (Item ε)) : State ε :=
  { state with buffer := chunk ++ state.buffer }

def State.giveUp (chunk : List (Item ε)) : State ε :=
  { state with
    dropCount := state.dropCount + chunk.length
    dropped := state.dropped ++ chunk }

def State.addFlush : State ε := { state with flushCount := state.flushCount + 1 }

def State.addOverflow : State ε := { state with overflowCount := state.overflowCount + 1 }

end

/-! ### Steps -/

/-- What the environment decides at a step: whether an insert succeeds, and which case of the loop's
`select` is taken, the timer if `true`. -/
abbrev Input := Bool

abbrev Action (ε α : Type) := Prog Input (State ε) α

def act {α : Type} (update : Input → State ε → State ε) (result : Input → State ε → α) : Action ε α :=
  Prog.atomically (fun _ _ ↦ true) (fun _ _ ↦ false) update result

section Flush

variable (cfg : QueueConfig) (thread : ℕ)

/-- One `BatchInsert` of a chunk that the thread owns. -/
def batchInsert (chunk : List (Item ε)) : Action ε Bool :=
  act
    (fun ok state ↦ if ok then (state.insert chunk).settle thread chunk.length else state)
    fun ok _ ↦ ok

def insertWithRetry (chunk : List (Item ε)) : ℕ → Action ε Bool
  | 0 => return false
  | attempts + 1 => do
    let ok ← batchInsert thread chunk
    act (fun _ ↦ State.addFlush) fun _ _ ↦ ()
    if ok then return true else insertWithRetry chunk attempts

def flushMaxAttempts : ℕ := 3

/-- The chunk goes back to the front of the buffer if the queue is not stopped and has room. -/
def requeue (chunk : List (Item ε)) : Action ε Bool :=
  act
    (fun _ state ↦
      if !state.stopped && state.buffer.length + chunk.length ≤ cfg.queueSize then
        (state.putBack chunk).settle thread chunk.length
      else state)
    fun _ state ↦ !state.stopped && state.buffer.length + chunk.length ≤ cfg.queueSize

def requeueOrDrop (chunk : List (Item ε)) : Action ε Unit := do
  let requeued ← requeue cfg thread chunk
  if !requeued then
    act (fun _ state ↦ (state.giveUp chunk).settle thread chunk.length) fun _ _ ↦ ()

/-- `flushBatch`; there are at most as many chunks as entries. -/
def flushBatch : ℕ → List (Item ε) → Action ε Unit
  | 0, _ => return
  | chunks + 1, entries => do
    if entries.isEmpty then return
    else
      let ok ← insertWithRetry thread (entries.take cfg.batchSize) flushMaxAttempts
      if !ok then requeueOrDrop cfg thread (entries.take cfg.batchSize)
      flushBatch chunks (entries.drop cfg.batchSize)

/-- Take ownership of the buffer and replace it. -/
def takeBuffer : Action ε (List (Item ε)) :=
  Prog.atomically (fun _ _ ↦ true)
    (fun _ state ↦ state.stopped && !state.buffer.isEmpty && state.loop ≠ some thread)
    (fun _ state ↦
      if state.buffer.isEmpty then state
      else { state with buffer := [] }.setOwned thread state.buffer)
    fun _ state ↦ state.buffer

def flush : Action ε Unit := do
  let batch ← takeBuffer thread
  flushBatch cfg thread batch.length batch

/-! ### Enqueue -/

/-- What a section of `Enqueue` under the mutex finds. -/
inductive Intake
  | stopped
  | buffered (depth : ℕ)
  | full

section

variable (items : List (Item ε))

/-- The section under the mutex: `tryBuffer`, unless the queue is stopped. -/
def tryBuffer : Action ε Intake :=
  act
    (fun _ state ↦
      if !state.stopped && state.buffer.length + items.length ≤ cfg.queueSize then
        state.append items
      else state)
    fun _ state ↦
      if state.stopped then .stopped
      else if state.buffer.length + items.length ≤ cfg.queueSize then
        .buffered (state.buffer.length + items.length)
      else .full

/-- `Enqueue` returns without error. -/
def ack : Action ε Unit :=
  act (fun _ state ↦ { state with acked := state.acked ++ items }) fun _ _ ↦ ()

/-- The synchronous `BatchInsert` of a whole call. -/
def insertSync : Action ε Unit := do
  let ok ← act
    (fun ok state ↦ if ok then state.insert items else state)
    fun ok _ ↦ ok
  if ok then ack items

/-- After the entries were buffered: flush if there are enough, and return. -/
def flushIfDeep (depth : ℕ) : Action ε Unit := do
  if cfg.batchSize ≤ depth then flush cfg thread
  ack items

end

def items (entries : List ε) : List (Item ε) :=
  entries.zipIdx.map fun (entry, place) ↦ ⟨thread, place, entry⟩

def enqueue (entries : List ε) : Action ε Unit := do
  if entries.isEmpty then return
  else
    let intake ← tryBuffer cfg (items thread entries)
    match intake with
    | .stopped => insertSync (items thread entries)
    | .buffered depth => flushIfDeep cfg thread (items thread entries) depth
    | .full =>
      act (fun _ ↦ State.addOverflow) fun _ _ ↦ ()
      flush cfg thread
      let intake ← tryBuffer cfg (items thread entries)
      match intake with
      | .buffered depth => flushIfDeep cfg thread (items thread entries) depth
      | _ => insertSync (items thread entries)

/-! ### The loop and Stop -/

/-- The `select` of the loop: whether the timer fired. -/
def selectTick : Action ε Bool :=
  Prog.atomically (fun tick state ↦ tick || state.stopCh) (fun _ _ ↦ false) (fun _ state ↦ state)
    fun tick _ ↦ tick

/-- `wg.Done` -/
def endLoop : Action ε Unit := act (fun _ state ↦ { state with loopDone := true }) fun _ _ ↦ ()

/-- So many rounds of the loop, the last of which ends it if `stopCh` is closed. -/
def flushRounds : ℕ → Action ε Unit
  | 0 => return
  | rounds + 1 => do
    let tick ← selectTick
    flush cfg thread
    if tick then flushRounds rounds
    else endLoop

/-- `NewQueue` starts one loop. -/
def startLoop : Action ε Unit :=
  Prog.atomically (fun _ state ↦ state.loop = none) (fun _ _ ↦ false)
    (fun _ state ↦ { state with loop := some thread }) fun _ _ ↦ ()

def flushLoop (rounds : ℕ) : Action ε Unit := do
  startLoop thread
  flushRounds cfg thread rounds

/-- The one call of `Stop`. -/
def callStop : Action ε Unit :=
  Prog.atomically (fun _ state ↦ state.stop.isNone) (fun _ _ ↦ false)
    (fun _ state ↦ { state with stop := some (thread, state.acked) }) fun _ _ ↦ ()

/-- The section of `Stop` under the mutex: whether the queue was stopped before. -/
def markStopped : Action ε Bool :=
  Prog.atomically (fun _ _ ↦ true)
    (fun _ state ↦ state.batches.rows.any fun row ↦ !row.2.isEmpty && state.loop ≠ some row.1)
    (fun _ state ↦ { state with stopped := true }) fun _ state ↦ state.stopped

/-- `wg.Wait` -/
def waitLoop : Action ε Unit :=
  Prog.atomically (fun _ state ↦ state.loopDone) (fun _ _ ↦ false) (fun _ state ↦ state) fun _ _ ↦ ()

/-- `close(q.stopCh)` -/
def closeStopCh : Action ε Unit := act (fun _ state ↦ { state with stopCh := true }) fun _ _ ↦ ()

def returnStop : Action ε Unit := act (fun _ state ↦ { state with returned := true }) fun _ _ ↦ ()

def stop : Action ε Unit := do
  callStop thread
  let stopped ← markStopped
  if !stopped then
    closeStopCh
    waitLoop
  returnStop

end Flush

inductive Call (ε : Type)
  | enqueue (entries : List ε)
  | flushLoop (rounds : ℕ)
  | stop

def system (cfg : QueueConfig) : System (Call ε) Input (State ε) where
  program := fun call thread ↦
    match call with
    | .enqueue entries => enqueue cfg thread entries
    | .flushLoop rounds => flushLoop cfg thread rounds
    | .stop => stop thread
  admits := fun _ _ ↦ true
  crash := fun _ _ ↦ none

end OpenTrace.Ingest
