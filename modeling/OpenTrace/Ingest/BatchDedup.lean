import OpenTrace.Library.Bytes
import OpenTrace.Library.Interleaving
import OpenTrace.Library.Table

/-!
# Batch deduplication

A client sends a batch with a batch ID and repeats the request with the same ID when it is not
answered. Both ingest endpoints look the ID up (`checkBatchDup`), insert the entries and record the ID
(`storeAndRespond`); the adapter keeps the last 20000 IDs in memory. The lookup, the insert and the
recording are separate steps. An insert makes its entries visible first and reports success or
failure later; it may fail with the entries visible.

A request is given by its header and by what its body decodes to. Requests without the header take no
part in deduplication and are not modelled. Fields that the code does not have: `recorded`, every
recording, newest first; `visible`, the batch ID of every insert whose entries became visible; and
`active`, the requests that have looked their ID up without finding it and have not recorded it yet.

Two kinds of steps are marked as lapses: a request does not find its ID while another one with the
same ID is active, and an insert fails after its entries became visible. `batch_visible_once` is about
the runs without them.
-/

namespace OpenTrace.Ingest.BatchDedup

open Library List Prog

/-! ### The adapter's memory of batches -/

def maxTrackedBatches : ℕ := 20000

structure BatchRecord where
  logCount : ℕ
  deriving DecidableEq, Repr

structure State where
  batchSeen : Table Bytes BatchRecord
  batchOrder : List Bytes
  recorded : List Bytes
  visible : List Bytes
  active : Table ℕ Bytes

def State.empty : State := ⟨.empty, [], [], [], .empty⟩

/-- Evict the oldest IDs once there are too many. -/
def evict (seen : Table Bytes BatchRecord) : List Bytes → Table Bytes BatchRecord × List Bytes
  | [] => (seen, [])
  | oldest :: order =>
    if maxTrackedBatches < order.length + 1 then evict (seen.erase oldest) order
    else (seen, oldest :: order)

/-- An ID that is not remembered is added as the newest. -/
def State.remember (state : State) (batchID : Bytes) (logCount : ℕ) : State :=
  { state with
    batchSeen := (evict (state.batchSeen.set batchID ⟨logCount⟩) (state.batchOrder ++ [batchID])).1
    batchOrder := (evict (state.batchSeen.set batchID ⟨logCount⟩) (state.batchOrder ++ [batchID])).2
    recorded := batchID :: state.recorded }

/-- `RecordBatch`, where the request of the thread ends its part in deduplication. -/
def State.recordBatch (state : State) (thread : ℕ) (batchID : Bytes) (logCount : ℕ) : State :=
  if (state.batchSeen.get batchID).isSome then
    { state with active := state.active.erase thread }
  else
    { state.remember batchID logCount with active := state.active.erase thread }

/-! ### Requests -/

/-- The header `X-Batch-ID`, and the number of entries, if the body decodes and all are valid. -/
structure Request where
  batchID : Bytes
  entries : Option ℕ

inductive Response
  | badRequest
  | deduplicated (count : ℕ)
  | insertFailed
  | stored (count : ℕ) (sampled : Bool)

/-- What the environment decides at a step: whether an insert writes its entries, whether it succeeds,
and a number of entries where one is needed. -/
structure Input where
  wrote : Bool
  ok : Bool
  count : ℕ

abbrev Action (α : Type) := Prog Input State α

def act {α : Type} (update : Input → State → State) (result : Input → State → α) : Action α :=
  atomically (fun _ _ ↦ true) (fun _ _ ↦ false) update result

def isHex (byte : UInt8) : Bool :=
  (48 ≤ byte && byte ≤ 57) || (97 ≤ byte && byte ≤ 102) || (65 ≤ byte && byte ≤ 70)

/-- A UUID in 8-4-4-4-12 hex format. -/
def isValidBatchID (id : Bytes) : Bool :=
  id.length = 36 && id.zipIdx.all fun (byte, place) ↦
    if place ∈ [8, 13, 18, 23] then byte = 45 else isHex byte

section Request

variable (thread : ℕ)

def getBatch (batchID : Bytes) : Action (Option BatchRecord) :=
  atomically (fun _ _ ↦ true)
    (fun _ state ↦ (state.batchSeen.get batchID).isNone &&
      state.active.rows.any fun row ↦ row.2 = batchID)
    (fun _ state ↦
      if (state.batchSeen.get batchID).isSome then state
      else { state with active := state.active.set thread batchID })
    fun _ state ↦ state.batchSeen.get batchID

/-- The request ends without recording its batch. -/
def leave : Action Unit :=
  act (fun _ state ↦ { state with active := state.active.erase thread }) fun _ _ ↦ ()

/-- `BatchInsert` writes its entries, or fails before it does. -/
def writeEntries (batchID : Bytes) : Action Bool :=
  act (fun input state ↦ if input.wrote then { state with visible := batchID :: state.visible } else state)
    fun input _ ↦ input.wrote

/-- `BatchInsert` returns: the number of entries, or nothing if it fails. The pipeline before the
write may leave no entry, and then there is nothing to write. -/
def endInsert (wrote : Bool) : Action (Option ℕ) :=
  atomically (fun _ _ ↦ true)
    (fun input _ ↦ wrote && !(input.ok && (wrote || input.count = 0)))
    (fun _ state ↦ state)
    fun input _ ↦ if input.ok && (wrote || input.count = 0) then some input.count else none

def batchInsert (batchID : Bytes) (entries : ℕ) : Action (Option ℕ) := do
  if entries = 0 then return some 0
  else
    let wrote ← writeEntries batchID
    endInsert wrote

def storeAndRespond (batchID : Bytes) (entries : ℕ) : Action Response := do
  -- The sampling rules keep some of the entries.
  let kept ← act (fun _ state ↦ state) fun input _ ↦ min input.count entries
  let inserted ← batchInsert batchID kept
  match inserted with
  | none =>
    leave thread
    return .insertFailed
  | some count =>
    act (fun _ state ↦ state.recordBatch thread batchID count) fun _ _ ↦ ()
    return .stored count (kept < entries)

/-- The shared part of the two ingest handlers. -/
def ingest (request : Request) : Action Response := do
  if !isValidBatchID request.batchID then return .badRequest
  else
    let existing ← getBatch thread request.batchID
    match existing, request.entries with
    | some record, _ => return .deduplicated record.logCount
    | none, none =>
      leave thread
      return .badRequest
    | none, some entries => storeAndRespond thread request.batchID entries

end Request

def system : System Request Input State where
  program := fun request thread ↦ do
    let _ ← ingest thread request
  admits := fun _ _ ↦ true
  crash := fun _ _ ↦ none

/-! ### What the adapter remembers -/

/-- Fewer than 20000 recordings came after any recording of this ID. -/
def Recent (state : State) (batchID : Bytes) : Prop :=
  ∀ later earlier, state.recorded = later ++ batchID :: earlier → later.length < maxTrackedBatches

structure Sound (state : State) : Prop where
  order : state.batchOrder = (state.recorded.take maxTrackedBatches).reverse
  seen : ∀ batchID, (state.batchSeen.get batchID).isSome = true ↔ batchID ∈ state.batchOrder
  nodup : state.batchOrder.Nodup
  single : ∀ first second batchID, state.active.get first = some batchID →
    state.active.get second = some batchID → first = second
  once : ∀ batchID, Recent state batchID → state.visible.count batchID ≤ 1 ∧
    (0 < state.visible.count batchID → batchID ∈ state.recorded ∨
      ∃ thread, state.active.get thread = some batchID)

/-- What a request can rely on when another one steps: its own part stays as it is, and nobody else
makes its batch visible. -/
structure Rely (thread : ℕ) (before after : State) : Prop where
  active : after.active.get thread = before.active.get thread
  visible : ∀ batchID, before.active.get thread = some batchID →
    after.visible.count batchID = before.visible.count batchID
  recorded : ∃ new, after.recorded = new ++ before.recorded

theorem Recent.of_append {before after : State} {batchID : Bytes} {new : List Bytes}
    (hrecorded : after.recorded = new ++ before.recorded) (hrecent : Recent after batchID) :
    Recent before batchID := by
  intro later earlier hsplit
  have hlength := hrecent (new ++ later) earlier (by rw [hrecorded, hsplit, append_assoc])
  rw [length_append] at hlength
  omega

/-- A recent recording is still remembered. -/
theorem Sound.seen_of_recent {state : State} (hstate : Sound state) {batchID : Bytes}
    (hrecent : Recent state batchID) (hrecorded : batchID ∈ state.recorded) :
    (state.batchSeen.get batchID).isSome = true := by
  obtain ⟨later, earlier, hsplit⟩ := append_of_mem hrecorded
  rw [hstate.seen, hstate.order, mem_reverse, hsplit, take_append, mem_append]
  have hlength := hrecent later earlier hsplit
  obtain ⟨more, hmore⟩ : ∃ more, maxTrackedBatches - later.length = more + 1 :=
    ⟨maxTrackedBatches - later.length - 1, by omega⟩
  rw [hmore]
  exact .inr mem_cons_self

/-- Eviction keeps the newest IDs, and forgets the others. -/
theorem evict_spec {seen : Table Bytes BatchRecord} {order : List Bytes} (hnodup : order.Nodup)
    (hseen : ∀ batchID, (seen.get batchID).isSome = true ↔ batchID ∈ order) :
    (evict seen order).2 = order.drop (order.length - maxTrackedBatches) ∧
      ∀ batchID, ((evict seen order).1.get batchID).isSome = true ↔
        batchID ∈ (evict seen order).2 := by
  induction order generalizing seen with
  | nil => exact ⟨rfl, hseen⟩
  | cons oldest order ih =>
    unfold evict
    split_ifs with hfull
    · have herased : ∀ batchID,
          ((seen.erase oldest).get batchID).isSome = true ↔ batchID ∈ order := by
        intro batchID
        by_cases hsame : batchID = oldest
        · subst hsame
          simp [(nodup_cons.mp hnodup).1]
        · rw [Table.get_erase_of_ne _ hsame, hseen, mem_cons]
          exact or_iff_right hsame
      have hrest := ih (nodup_cons.mp hnodup).2 herased
      refine ⟨hrest.1.trans ?_, hrest.2⟩
      have hdrop : (oldest :: order).length - maxTrackedBatches =
          order.length - maxTrackedBatches + 1 := by
        rw [length_cons]
        omega
      rw [hdrop, drop_succ_cons]
    · refine ⟨?_, hseen⟩
      have hdrop : (oldest :: order).length - maxTrackedBatches = 0 := by
        rw [length_cons]
        omega
      rw [hdrop, drop_zero]

/-- The newest IDs after one more recording. -/
theorem drop_reverse_cons (recorded : List Bytes) (batchID : Bytes) :
    let order := (recorded.take maxTrackedBatches).reverse ++ [batchID]
    order.drop (order.length - maxTrackedBatches) =
      ((batchID :: recorded).take maxTrackedBatches).reverse := by
  intro order
  have horder : order = ((batchID :: recorded.take maxTrackedBatches)).reverse := by
    rw [reverse_cons]
  rw [horder, length_reverse, ← reverse_take]
  obtain ⟨more, hmore⟩ : ∃ more, maxTrackedBatches = more + 1 := ⟨19999, rfl⟩
  rw [hmore, take_succ_cons, take_succ_cons, take_take, Nat.min_eq_left (Nat.le_succ _)]

section Steps

variable {thread : ℕ} {state : State} {batchID : Bytes}

/-- The request is between its lookup and its recording, and its batch is visible if it wrote it. -/
def Begun (thread : ℕ) (batchID : Bytes) (wrote : Bool) (state : State) : Prop :=
  state.active.get thread = some batchID ∧
    (Recent state batchID → state.visible.count batchID = if wrote then 1 else 0)

theorem stable_begun (wrote : Bool) : Stable Sound Rely thread (Begun thread batchID wrote) := by
  rintro before after - - hrely ⟨hactive, hvisible⟩
  obtain ⟨new, hnew⟩ := hrely.recorded
  refine ⟨hrely.active.trans hactive, fun hrecent ↦ ?_⟩
  rw [hrely.visible batchID hactive]
  exact hvisible (hrecent.of_append hnew)

theorem guarantee_same (hstate : Sound state) : Guarantee Sound Rely thread state state :=
  ⟨hstate, fun _ _ ↦ ⟨rfl, fun _ _ ↦ rfl, [], rfl⟩⟩

/-- A request that does not find its ID begins. -/
theorem begin_guarantee (hstate : Sound state) (hfresh : state.active.get thread = none)
    (hunseen : (state.batchSeen.get batchID).isSome = false)
    (hidle : ∀ other, state.active.get other ≠ some batchID) :
    Guarantee Sound Rely thread state { state with active := state.active.set thread batchID } ∧
      Begun thread batchID false { state with active := state.active.set thread batchID } := by
  have hother : ∀ other, other ≠ thread →
      (state.active.set thread batchID).get other = state.active.get other :=
    fun other hne ↦ Table.get_set_of_ne _ hne _
  have hcount : Recent state batchID → state.visible.count batchID = 0 := by
    intro hrecent
    by_contra hcount
    rcases (hstate.once batchID hrecent).2 (Nat.pos_of_ne_zero hcount) with hrecorded | ⟨other, hactive⟩
    · simp [hstate.seen_of_recent hrecent hrecorded] at hunseen
    · exact hidle other hactive
  refine ⟨⟨{ hstate with single := ?_, once := ?_ }, fun other hne ↦ ⟨hother other hne, fun _ _ ↦ rfl,
    [], rfl⟩⟩, Table.get_set_self _ _ _, hcount⟩
  · intro first second other hfirst hsecond
    by_cases hone : first = thread <;> by_cases htwo : second = thread
    · rw [hone, htwo]
    · rw [hone, Table.get_set_self] at hfirst
      rw [hother second htwo, ← hfirst] at hsecond
      exact absurd hsecond (hidle second)
    · rw [htwo, Table.get_set_self] at hsecond
      rw [hother first hone, ← hsecond] at hfirst
      exact absurd hfirst (hidle first)
    · rw [hother first hone] at hfirst
      rw [hother second htwo] at hsecond
      exact hstate.single first second other hfirst hsecond
  · intro other hrecent
    refine ⟨(hstate.once other hrecent).1, fun hvisible ↦ ?_⟩
    rcases (hstate.once other hrecent).2 hvisible with hrecorded | ⟨owner, hactive⟩
    · exact .inl hrecorded
    · refine .inr ⟨owner, ?_⟩
      have howner : owner ≠ thread := fun hsame ↦ by simp [hsame, hfresh] at hactive
      exact (hother owner howner).trans hactive

/-- A request may end when its batch is recorded or not visible. -/
theorem erase_sound (hstate : Sound state) (hactive : state.active.get thread = some batchID)
    (hended : Recent state batchID → 0 < state.visible.count batchID → batchID ∈ state.recorded) :
    Sound { state with active := state.active.erase thread } := by
  have hget : ∀ owner other, (state.active.erase thread).get owner = some other →
      state.active.get owner = some other := by
    intro owner other howner
    by_cases hsame : owner = thread
    · simp [hsame] at howner
    · rwa [Table.get_erase_of_ne _ hsame] at howner
  refine { hstate with single := ?_, once := ?_ }
  · exact fun first second other hfirst hsecond ↦
      hstate.single first second other (hget first other hfirst) (hget second other hsecond)
  · intro other hrecent
    refine ⟨(hstate.once other hrecent).1, fun hvisible ↦ ?_⟩
    rcases (hstate.once other hrecent).2 hvisible with hrecorded | ⟨owner, howner⟩
    · exact .inl hrecorded
    · by_cases hsame : owner = thread
      · rw [hsame, hactive, Option.some.injEq] at howner
        subst howner
        exact .inl (hended hrecent hvisible)
      · exact .inr ⟨owner, (Table.get_erase_of_ne _ hsame).trans howner⟩

theorem erase_rely {other : ℕ} (hother : other ≠ thread) :
    Rely other state { state with active := state.active.erase thread } :=
  ⟨Table.get_erase_of_ne _ hother, fun _ _ ↦ rfl, [], rfl⟩

theorem write_guarantee (hstate : Sound state) (hbegun : Begun thread batchID false state) :
    Guarantee Sound Rely thread state { state with visible := batchID :: state.visible } ∧
      Begun thread batchID true { state with visible := batchID :: state.visible } := by
  obtain ⟨hactive, hcount⟩ := hbegun
  have hone : Recent state batchID → (batchID :: state.visible).count batchID = 1 := by
    intro hrecent
    rw [count_cons_self, hcount hrecent]
    rfl
  refine ⟨⟨{ hstate with once := ?_ }, fun other hother ↦ ⟨rfl, ?_, [], rfl⟩⟩, hactive, hone⟩
  · intro other hrecent
    by_cases hsame : other = batchID
    · subst hsame
      exact ⟨Nat.le_of_eq (hone hrecent), fun _ ↦ .inr ⟨thread, hactive⟩⟩
    · simp only [count_cons_of_ne (Ne.symm hsame)]
      exact hstate.once other hrecent
  · intro theirs htheirs
    refine count_cons_of_ne fun hsame ↦ hother ?_
    exact hstate.single other thread batchID (hsame ▸ htheirs) hactive

theorem remember_sound (hstate : Sound state)
    (hunseen : (state.batchSeen.get batchID).isSome = false) (logCount : ℕ) :
    Sound (state.remember batchID logCount) := by
  have hnew : batchID ∉ state.batchOrder := fun hmem ↦ by
    simp [(hstate.seen batchID).mpr hmem] at hunseen
  have hnodup : (state.batchOrder ++ [batchID]).Nodup :=
    nodup_append_comm.mp (nodup_cons.mpr ⟨hnew, hstate.nodup⟩)
  have hseen : ∀ other, ((state.batchSeen.set batchID ⟨logCount⟩).get other).isSome = true ↔
      other ∈ state.batchOrder ++ [batchID] := by
    intro other
    rw [mem_append, mem_singleton]
    by_cases hsame : other = batchID
    · simp [hsame]
    · rw [Table.get_set_of_ne _ hsame, hstate.seen]
      exact (or_iff_left hsame).symm
  obtain ⟨horder, hget⟩ := evict_spec hnodup hseen
  refine
    { order := ?_
      seen := hget
      nodup := ?_
      single := hstate.single
      once := fun other hrecent ↦ ?_ }
  · change (evict _ _).2 = _
    rw [horder, hstate.order]
    exact drop_reverse_cons state.recorded batchID
  · change (evict _ _).2.Nodup
    rw [horder]
    exact hnodup.sublist (drop_sublist _ _)
  · have hbefore : Recent state other :=
      hrecent.of_append (show (state.remember batchID logCount).recorded = [batchID] ++ _ from rfl)
    refine ⟨(hstate.once other hbefore).1, fun hvisible ↦ ?_⟩
    rcases (hstate.once other hbefore).2 hvisible with hrecorded | hactive
    · exact .inl (mem_cons_of_mem _ hrecorded)
    · exact .inr hactive

theorem recordBatch_guarantee (hstate : Sound state) (hactive : state.active.get thread = some batchID)
    (logCount : ℕ) : Guarantee Sound Rely thread state (state.recordBatch thread batchID logCount) := by
  unfold State.recordBatch
  split_ifs with hseen
  · refine ⟨erase_sound hstate hactive fun _ _ ↦ ?_, fun other ↦ erase_rely⟩
    have hmem := (hstate.seen batchID).mp hseen
    rw [hstate.order, mem_reverse] at hmem
    exact mem_of_mem_take hmem
  · have hunseen : (state.batchSeen.get batchID).isSome = false := by simpa using hseen
    refine ⟨erase_sound (remember_sound hstate hunseen logCount) hactive
      fun _ _ ↦ mem_cons_self, fun other hother ↦ ⟨?_, fun _ _ ↦ rfl, [batchID], rfl⟩⟩
    exact Table.get_erase_of_ne _ hother

end Steps

/-! ### Requests -/

section Requests

variable {thread : ℕ} {batchID : Bytes}

/-- What is true of a thread before its request begins. -/
def Unbegun (thread : ℕ) (state : State) : Prop := state.active.get thread = none

theorem stable_unbegun : Stable Sound Rely thread (Unbegun thread) :=
  fun _ _ _ _ hrely ↦ hrely.active.trans

theorem getBatch_ok : (getBatch thread batchID).Ok Sound Rely thread (Unbegun thread)
      fun existing state ↦ existing = none → Begun thread batchID false state := by
  refine Ok.atomically stable_unbegun ?_
  rintro _ state hstate hfresh - hcovered
  cases hseen : state.batchSeen.get batchID with
  | some record => exact ⟨by simpa [hseen] using guarantee_same hstate, by simp⟩
  | none =>
    simp only [hseen, Option.isNone_none, Bool.true_and, any_eq_true, decide_eq_true_eq, not_exists,
      not_and] at hcovered ⊢
    obtain ⟨hguarantee, hbegun⟩ := begin_guarantee hstate hfresh (by simp [hseen])
      fun other hother ↦ hcovered (other, batchID) (state.active.mem_rows.mpr hother) rfl
    exact ⟨hguarantee, fun _ ↦ hbegun⟩

theorem leave_ok :
    (leave thread).Ok Sound Rely thread (Begun thread batchID false) fun _ _ ↦ True := by
  refine Ok.atomically (stable_begun false) ?_
  rintro _ state hstate ⟨hactive, hcount⟩ - -
  refine ⟨⟨erase_sound hstate hactive fun hrecent hvisible ↦ ?_, fun _ ↦ erase_rely⟩, trivial⟩
  simp [hcount hrecent] at hvisible

theorem writeEntries_ok : (writeEntries batchID).Ok Sound Rely thread (Begun thread batchID false)
      fun wrote ↦ Begun thread batchID wrote := by
  refine Ok.atomically (stable_begun false) ?_
  rintro input state hstate hbegun - -
  cases hwrote : input.wrote with
  | false => simpa [hwrote] using ⟨guarantee_same hstate, hbegun⟩
  | true => simpa [hwrote] using write_guarantee hstate hbegun

/-- An insert that fails has not made its entries visible. -/
theorem endInsert_ok (wrote : Bool) :
    (endInsert wrote).Ok Sound Rely thread (Begun thread batchID wrote)
      fun inserted state ↦ Begun thread batchID wrote state ∧ (inserted = none → wrote = false) := by
  refine Ok.atomically (stable_begun wrote) ?_
  rintro input state hstate hbegun - hcovered
  refine ⟨guarantee_same hstate, hbegun, fun hfailed ↦ ?_⟩
  split_ifs at hfailed with hsucceeded
  cases wrote with
  | false => rfl
  | true =>
    have hok : input.ok = true := by simpa using hcovered
    simp [hok] at hsucceeded

theorem batchInsert_ok (entries : ℕ) :
    (batchInsert batchID entries).Ok Sound Rely thread (Begun thread batchID false)
      fun inserted state ↦ ∃ wrote, Begun thread batchID wrote state ∧
        (inserted = none → wrote = false) := by
  refine Ok.ite (fun _ ↦ Ok.ret fun _ _ hholds ↦ ⟨false, hholds, by simp⟩) fun _ ↦ ?_
  refine writeEntries_ok.bind fun wrote ↦ (endInsert_ok wrote).post ?_
  exact fun _ _ _ hholds ↦ ⟨wrote, hholds⟩

theorem recordBatch_ok (wrote : Bool) (count : ℕ) :
    (act (fun _ state ↦ state.recordBatch thread batchID count) fun _ _ ↦ ()).Ok Sound Rely thread
      (Begun thread batchID wrote) fun _ _ ↦ True :=
  Ok.atomically (stable_begun wrote)
    fun _ _ hstate hbegun _ _ ↦ ⟨recordBatch_guarantee hstate hbegun.1 count, trivial⟩

theorem storeAndRespond_ok (entries : ℕ) :
    (storeAndRespond thread batchID entries).Ok Sound Rely thread (Begun thread batchID false)
      fun _ _ ↦ True := by
  have hsample : (act (fun _ state ↦ state) fun input _ ↦ min input.count entries).Ok Sound Rely
      thread (Begun thread batchID false) fun _ ↦ Begun thread batchID false :=
    Ok.atomically (stable_begun false)
      fun _ _ hstate hbegun _ _ ↦ ⟨guarantee_same hstate, hbegun⟩
  refine hsample.bind fun kept ↦ (batchInsert_ok kept).bind fun inserted ↦ Ok.exists fun wrote ↦ ?_
  cases inserted with
  | none =>
    refine Ok.assume (fun _ _ hholds ↦ hholds.2 rfl) fun hwrote ↦ ?_
    subst hwrote
    exact (leave_ok.pre fun _ _ hholds ↦ hholds.1).bind fun _ ↦ Ok.ret fun _ _ _ ↦ trivial
  | some count =>
    exact ((recordBatch_ok wrote count).pre fun _ _ hholds ↦ hholds.1).bind
      fun _ ↦ Ok.ret fun _ _ _ ↦ trivial

theorem ingest_ok (request : Request) :
    (ingest thread request).Ok Sound Rely thread (Unbegun thread) fun _ _ ↦ True := by
  refine Ok.ite (fun _ ↦ Ok.ret fun _ _ _ ↦ trivial) fun _ ↦ ?_
  refine getBatch_ok.bind fun existing ↦ ?_
  cases existing with
  | some record => exact Ok.ret fun _ _ _ ↦ trivial
  | none =>
    refine Ok.pre (fun _ _ hholds ↦ hholds rfl) ?_
    cases request.entries with
    | none => exact leave_ok.bind fun _ ↦ Ok.ret fun _ _ _ ↦ trivial
    | some entries => exact storeAndRespond_ok entries

end Requests

/-! ### Idempotence -/

theorem system_verified : system.VerifiedFresh Sound Rely Unbegun where
  call := fun request _ ↦ ((ingest_ok request).pre fun _ _ hholds ↦ hholds.2).bind
    fun _ ↦ Ok.ret fun _ _ _ ↦ trivial
  stable := fun _ ↦ stable_unbegun
  crash := fun _ _ _ _ hcrash ↦ by cases hcrash

theorem sound_empty : Sound .empty where
  order := rfl
  seen := by simp [State.empty]
  nodup := nodup_nil
  single := by simp [State.empty]
  once := by simp [State.empty]

/-- In every schedule of ingest requests, with any of their inserts failing, the entries of a batch
become visible at most once, if fewer than 20000 batches are recorded after it.

Assumes: no step of the schedule lapsed. A request that does not find its batch is the only one with
this batch between its lookup and its recording, and an insert that fails has written nothing. -/
theorem batch_visible_once (events : List (Event Request Input))
    (hlapsed : (system.run (System.start .empty) events).lapsed = false) (batchID : Bytes)
    (hrecent : Recent (system.run (System.start .empty) events).state batchID) :
    (system.run (System.start .empty) events).state.visible.count batchID ≤ 1 := by
  have hstate := system_verified.run sound_empty (fun _ ↦ rfl) events hlapsed
  exact (hstate.once batchID hrecent).1

section Runs

def sampleID : Bytes := ascii "01234567-89ab-cdef-0123-456789abcdef"

/-- So many steps of a thread in which its insert of two entries succeeds. -/
def succeed (thread steps : ℕ) : List (Event Request Input) :=
  replicate steps (.run thread ⟨true, true, 2⟩)

/-- So many steps of a thread in which its insert fails before it writes. -/
def fail (thread steps : ℕ) : List (Event Request Input) :=
  replicate steps (.run thread ⟨false, false, 2⟩)

def send : Event Request Input := .call ⟨sampleID, some 2⟩

/-- A request fails, its retry succeeds, and one more retry is answered from memory. -/
def retried : List (Event Request Input) :=
  [send, send, send] ++ fail 0 5 ++ succeed 1 5 ++ succeed 2 1

theorem batch_visible_once_witness :
    (system.run (System.start .empty) retried).state.recorded = [sampleID] ∧
      (system.run (System.start .empty) retried).state.visible.count sampleID ≤ 1 := by
  have hrecorded : (system.run (System.start .empty) retried).state.recorded = [sampleID] := by
    decide +kernel
  refine ⟨hrecorded, batch_visible_once retried (by decide +kernel) sampleID ?_⟩
  intro later earlier hsplit
  have hlength := congrArg length (hrecorded.symm.trans hsplit)
  rw [length_singleton, length_append, length_cons] at hlength
  exact Nat.lt_of_le_of_lt (show later.length ≤ 0 by omega) (by decide)

/-- The client sends the batch again before the first request has recorded it. -/
def overlapping : List (Event Request Input) :=
  [send, send] ++ succeed 0 1 ++ succeed 1 1 ++ succeed 0 4 ++ succeed 1 4

/-- Both requests insert the batch, and its entries are visible twice. -/
theorem concurrent_requests_store_twice : isValidBatchID sampleID = true ∧
      (system.run (System.start .empty) overlapping).state.recorded = [sampleID] ∧
      (system.run (System.start .empty) overlapping).state.visible.count sampleID = 2 := by
  decide +kernel

end Runs

end OpenTrace.Ingest.BatchDedup
