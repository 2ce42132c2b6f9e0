import OpenTrace.Engine.Writer
import OpenTrace.Library.Interleaving

/-!
# Group commit

The concurrent side of `engine/writer.go`: any number of `Append` calls with `Rotate` and `Close`,
interleaved at every lock, system call and atomic access. Appends write under `mu` and make their
bytes durable under `syncMu`, where one fsync serves every batch written before it; rotation flushes
the file, closes it and moves the writer to another one while fsyncs of other goroutines may be on
their way.

A file is the number of bytes in it and the number of these that a successful fsync has covered. Two
fields that the code does not have say which file a set of offsets belongs to: `current` for
`fileSize` and `validBytes`, `syncFile` for `writtenBytes` and `syncedBytes`. Between the two stores
of a rotation they differ.

Three failures are marked as lapses: the fsync before a rotation, whose error is only logged; the
fsync of a rollback, also only logged, when bytes below the offset are not durable yet; and the
truncate of a rollback when the failed write left bytes behind.
-/

namespace OpenTrace.Engine.GroupCommit

open Library

/-! ### State and environment -/

/-- A WAL file: its bytes, those covered by a successful fsync since they were written, and whether
the writer's handle to it is open. -/
structure WalFile where
  size : ℕ
  durable : ℕ
  isOpen : Bool
  deriving DecidableEq, Repr

structure State where
  mu : Option ℕ
  syncMu : Option ℕ
  offsets : Offsets
  entryCount : ℕ
  /-- The file behind the writer's handle. -/
  walFile : ℕ
  files : ℕ → WalFile
  fileCount : ℕ
  /-- The file that `fileSize` and `validBytes` describe. -/
  current : ℕ
  /-- The file that `writtenBytes` and `syncedBytes` describe. -/
  syncFile : ℕ
  /-- The batches whose `Append` returned without error: the file and the end offset in it. -/
  acked : List (ℕ × ℕ)

/-- What the environment decides at a step: whether a system call succeeds, and a number of bytes or
records where one is needed. -/
structure Input where
  ok : Bool
  bytes : ℕ
  records : ℕ

section

variable (state : State)

def State.setFile (file : ℕ) (value : WalFile) : State :=
  { state with files := Function.update state.files file value }

/-- The bytes of a file below an offset become durable. -/
def State.harden (file offset : ℕ) : State :=
  state.setFile file
    { state.files file with durable := max (state.files file).durable offset }

/-- The writer's file is cut at an offset. -/
def State.cut (offset : ℕ) : State :=
  state.setFile state.walFile
    { state.files state.walFile with
      size := offset
      durable := min (state.files state.walFile).durable offset }

/-- The group commit moves to the file that `fileSize` describes. -/
def State.moveSync : State :=
  { state with
    offsets := { state.offsets with
      writtenBytes := state.offsets.fileSize
      syncedBytes := state.offsets.fileSize }
    syncFile := state.current }

/-- The writer opens the file that `fileSize` describes. -/
def State.openCurrent : State :=
  { state.setFile state.current { state.files state.current with isOpen := true } with
    walFile := state.current }

end

abbrev Action (α : Type) := Prog Input State α

/-- A step that is always enabled and covered by the argument. -/
def act {α : Type} (update : Input → State → State) (result : Input → State → α) : Action α :=
  Prog.atomically (fun _ _ ↦ true) (fun _ _ ↦ false) update result

/-- A step that only reads. -/
def load {α : Type} (result : State → α) : Action α :=
  act (fun _ state ↦ state) fun _ state ↦ result state

section Thread

variable (thread : ℕ)

def lockMu : Action Unit :=
  Prog.atomically (fun _ state ↦ state.mu = none) (fun _ _ ↦ false)
    (fun _ state ↦ { state with mu := some thread }) fun _ _ ↦ ()

def unlockMu : Action Unit := act (fun _ state ↦ { state with mu := none }) fun _ _ ↦ ()

def lockSyncMu : Action Unit :=
  Prog.atomically (fun _ state ↦ state.syncMu = none) (fun _ _ ↦ false)
    (fun _ state ↦ { state with syncMu := some thread }) fun _ _ ↦ ()

def unlockSyncMu : Action Unit := act (fun _ state ↦ { state with syncMu := none }) fun _ _ ↦ ()

/-! ### Fsync -/

/-- An fsync starts: the file it works on with the bytes in it, or nothing on a closed handle. -/
def beginSync : Action (Option (ℕ × ℕ)) :=
  load fun state ↦
    if (state.files state.walFile).isOpen then
      some (state.walFile, (state.files state.walFile).size)
    else none

/-- An fsync returns: if it succeeds, the bytes that were in the file when it started are durable. -/
def endSync (begun : Option (ℕ × ℕ)) : Action Bool :=
  act
    (fun input state ↦
      match begun with
      | some (file, size) => if input.ok then state.harden file size else state
      | none => state)
    fun input _ ↦ begun.isSome && input.ok

def syncThrough (target : ℕ) : Action Bool := do
  lockSyncMu thread
  let synced ← load fun state ↦ state.offsets.syncedBytes
  if target ≤ synced then
    unlockSyncMu
    return true
  else
    let covered ← load fun state ↦ state.offsets.writtenBytes
    let begun ← beginSync
    let ok ← endSync begun
    if ok then
      act (fun _ state ↦ { state with offsets := state.offsets.synced covered }) fun _ _ ↦ ()
      unlockSyncMu
      return true
    else
      unlockSyncMu
      return false

/-! ### Append -/

/-- `Truncate` to the last known good size: whether it succeeded. -/
def truncate (offset : ℕ) : Action Bool :=
  Prog.atomically (fun _ _ ↦ true)
    (fun input state ↦
      (state.files state.walFile).isOpen && !input.ok &&
        (state.files state.walFile).size ≠ state.offsets.fileSize)
    (fun input state ↦
      if input.ok && (state.files state.walFile).isOpen then state.cut offset else state)
    fun input state ↦ input.ok && (state.files state.walFile).isOpen

/-- The fsync after a rollback's truncate, with both locks held. Its error is only logged. -/
def syncTruncated : Action Unit :=
  Prog.atomically (fun _ _ ↦ true)
    (fun input state ↦
      !input.ok && (state.files state.walFile).durable < (state.files state.walFile).size)
    (fun input state ↦
      if input.ok then state.harden state.walFile (state.files state.walFile).size else state)
    fun _ _ ↦ ()

def rollback (offset : ℕ) : Action Unit := do
  lockSyncMu thread
  let truncated ← truncate offset
  if truncated then
    syncTruncated
    act (fun _ state ↦ { state with offsets := state.offsets.rolledBack offset }) fun _ _ ↦ ()
  unlockSyncMu

/-- The single write of a batch: the good size before it, the file, and whether it succeeded. A write
to a closed handle fails and leaves nothing behind. -/
def write (bytes : ℕ) : Action (ℕ × ℕ × Bool) :=
  act
    (fun input state ↦
      let file := state.files state.walFile
      let added := if input.ok then bytes else min input.bytes bytes
      if file.isOpen then state.setFile state.walFile { file with size := file.size + added }
      else state)
    fun input state ↦ (state.offsets.fileSize, state.walFile,
      input.ok && (state.files state.walFile).isOpen)

/-- `Append` of a batch of `entries + 1` entries that take `bytes` bytes. -/
def append (bytes entries : ℕ) : Action Unit := do
  lockMu thread
  let count ← load fun state ↦ state.entryCount
  if segmentHasRoom count (entries + 1 : ℕ) then
    let (lastGood, file, written) ← write bytes
    if written then
      act (fun _ state ↦ { state with
        offsets := state.offsets.wrote (lastGood + bytes)
        entryCount := state.entryCount + (entries + 1) }) fun _ _ ↦ ()
      unlockMu
      let ok ← syncThrough thread (lastGood + bytes)
      if ok then
        act (fun _ state ↦ { state with acked := (file, lastGood + bytes) :: state.acked })
          fun _ _ ↦ ()
    else
      rollback thread lastGood
      unlockMu
  else unlockMu

/-! ### Rotate and Close -/

def closeFile : Action Unit :=
  act (fun _ state ↦ state.setFile state.walFile { state.files state.walFile with isOpen := false })
    fun _ _ ↦ ()

/-- The first half of `ensureWAL`: the WAL of the new hour is replayed, if there is one, and the
counters, `validBytes` and `fileSize` are set from it. -/
def replay : Action Unit :=
  act
    (fun input state ↦
      let found : WalFile := ⟨input.bytes, input.bytes, false⟩
      { state.setFile state.fileCount found with
        entryCount := input.records
        offsets := { state.offsets with validBytes := input.bytes, fileSize := input.bytes }
        fileCount := state.fileCount + 1
        current := state.fileCount })
    fun _ _ ↦ ()

/-- `setSyncOffsets`, with the size found by `replay`. -/
def setSyncOffsets : Action Unit := do
  lockSyncMu thread
  act (fun _ state ↦ state.moveSync) fun _ _ ↦ ()
  unlockSyncMu

/-- The new file is opened, or the old closed handle stays. -/
def openFile : Action Unit :=
  act
    (fun input state ↦ if input.ok then state.openCurrent else state)
    fun _ _ ↦ ()

/-- `ensureWAL` for another hour. The environment decides whether the directory can be made and a
torn tail be cut. -/
def ensureWAL : Action Unit := do
  let ready ← act (fun _ state ↦ state) fun input _ ↦ input.ok
  if ready then
    replay
    setSyncOffsets thread
    openFile

/-- `flushBeforeHandoff`: whether the fsync succeeded. -/
def flushBeforeHandoff : Action Bool := do
  let written ← load fun state ↦ state.offsets.writtenBytes
  syncThrough thread written

/-- The error of `flushBeforeHandoff` is logged and the rotation goes on. -/
def logHandoffError : Action Unit :=
  Prog.atomically (fun _ _ ↦ true) (fun _ _ ↦ true) (fun _ state ↦ state) fun _ _ ↦ ()

def advanceEmpty : Action Unit := do
  closeFile
  ensureWAL thread

/-- The unexported `rotate`. The environment decides whether the rename succeeds. -/
def rotateFile : Action Unit := do
  let flushed ← flushBeforeHandoff thread
  if !flushed then logHandoffError
  closeFile
  let renamed ← act (fun _ state ↦ state) fun input _ ↦ input.ok
  if renamed then ensureWAL thread

/-- `Rotate`. The environment decides whether the clock has passed the hour of an empty WAL and
whether a free hour is found. -/
def rotate : Action Unit := do
  lockMu thread
  let count ← load fun state ↦ state.entryCount
  let go ← act (fun _ state ↦ state) fun input _ ↦ input.ok
  if go then
    if count = 0 then advanceEmpty thread else rotateFile thread
  unlockMu

/-- `Close`. The error of its flush is only logged. -/
def close : Action Unit := do
  lockMu thread
  let _ ← flushBeforeHandoff thread
  closeFile
  unlockMu

end Thread

/-! ### The system -/

inductive Call
  | append (bytes entries : ℕ)
  | rotate
  | close

/-- Any call may be started at any time, and there is no crash. -/
def system : System Call Input State where
  program := fun call thread ↦
    match call with
    | .append bytes entries => append thread bytes entries
    | .rotate => rotate thread
    | .close => close thread
  admits := fun _ _ ↦ true
  crash := fun _ _ ↦ none

/-- A writer that has just opened a WAL of so many valid bytes and records. -/
def opened (bytes records : ℕ) : State where
  mu := none
  syncMu := none
  offsets := Offsets.opened bytes
  entryCount := records
  walFile := 0
  files := fun file ↦ if file = 0 then ⟨bytes, bytes, true⟩ else ⟨0, 0, false⟩
  fileCount := 1
  current := 0
  syncFile := 0
  acked := []

end OpenTrace.Engine.GroupCommit
