import OpenTrace.Ingest.Queue

/-!
# Conservation of entries

No entry of a call that returned without error gets lost inside the queue: it was written, given up,
or is in the buffer or in a batch that some goroutine owns (`Kept`). Every step keeps that. Once the
queue is stopped only the loop owns a batch, and when the loop ends the buffer is empty, so that
`stop_conserves` follows.
-/

namespace OpenTrace.Ingest

open Library List Prog

variable {ε : Type}

/-! ### Where an entry is -/

/-- The entry was written, given up, or is on its way. -/
def Kept (state : State ε) (item : Item ε) : Prop :=
  (item ∈ state.inserted ∨ item ∈ state.dropped) ∨ item ∈ state.buffer ∨
    ∃ thread, item ∈ state.owned thread

structure Sound (state : State ε) : Prop where
  acked : ∀ item ∈ state.acked, Kept state item
  dropCount : state.dropCount = state.dropped.length
  closed : state.stopCh = true → state.stopped = true
  idle : state.stopped = true → ∀ thread, state.loop ≠ some thread → state.owned thread = []
  done : state.loopDone = true → state.stopped = true ∧ state.buffer = [] ∧
    ∀ thread, state.owned thread = []
  promised : ∀ thread items, state.stop = some (thread, items) → items ⊆ state.acked
  started : state.loopDone = true → state.loop ≠ none
  asked : state.stopped = true → state.stop ≠ none
  returned : state.returned = true → state.loopDone = true

/-- What a thread can rely on when another one steps. -/
structure Rely (thread : ℕ) (before after : State ε) : Prop where
  kept : ∀ item, Kept before item → Kept after item
  owned : after.owned thread = before.owned thread
  stopped : before.stopped = true → after.stopped = true
  drained : before.stopped = true → before.buffer = [] → after.buffer = []
  loop : after.loop = some thread ↔ before.loop = some thread
  loopDone : before.loop = some thread → after.loopDone = before.loopDone
  ended : before.loopDone = true → after.loopDone = true
  stop : ∀ items, before.stop = some (thread, items) →
    after.stop = before.stop ∧ after.stopped = before.stopped

@[simp] theorem owned_setOwned_self (state : State ε) (thread : ℕ) (batch : List (Item ε)) :
    (state.setOwned thread batch).owned thread = batch := by
  simp [State.owned, State.setOwned]

theorem owned_setOwned_of_ne (state : State ε) {thread other : ℕ} (hother : other ≠ thread)
    (batch : List (Item ε)) : (state.setOwned thread batch).owned other = state.owned other := by
  simp [State.owned, State.setOwned, Table.get_set_of_ne _ hother]

/-- A step that moves entries around: flags, threads and acknowledgements stay as they are, and no
entry is lost. -/
structure Moves (before after : State ε) : Prop where
  stopped : after.stopped = before.stopped
  stopCh : after.stopCh = before.stopCh
  loopDone : after.loopDone = before.loopDone
  loop : after.loop = before.loop
  acked : after.acked = before.acked
  stop : after.stop = before.stop
  returned : after.returned = before.returned
  kept : ∀ item, Kept before item → Kept after item
  drained : before.stopped = true → before.buffer = [] → after.buffer = []

theorem Moves.refl (state : State ε) : Moves state state :=
  ⟨rfl, rfl, rfl, rfl, rfl, rfl, rfl, fun _ hkept ↦ hkept, fun _ hbuffer ↦ hbuffer⟩

section Guarantees

variable {thread : ℕ} {before after : State ε}

theorem Moves.rely {other : ℕ} (hmoves : Moves before after)
    (howned : after.owned other = before.owned other) : Rely other before after where
  kept := hmoves.kept
  owned := howned
  stopped := hmoves.stopped.trans
  drained := hmoves.drained
  loop := by rw [hmoves.loop]
  loopDone := fun _ ↦ hmoves.loopDone
  ended := hmoves.loopDone.trans
  stop := fun _ _ ↦ ⟨hmoves.stop, hmoves.stopped⟩

theorem Rely.refl (thread : ℕ) (state : State ε) : Rely thread state state := (Moves.refl state).rely rfl

/-- A step that moves entries owes only what it does to the thread's own batch and to the count. -/
theorem Moves.guarantee (hbefore : Sound before) (hmoves : Moves before after)
    (hothers : ∀ other, other ≠ thread → after.owned other = before.owned other)
    (hcount : after.dropCount = after.dropped.length)
    (hmine : before.stopped = true → before.loop ≠ some thread ∨ before.loopDone = true →
      before.owned thread = [] → after.owned thread = []) :
    Guarantee Sound Rely thread before after := by
  have hempty : ∀ other, before.stopped = true →
      before.loop ≠ some other ∨ before.loopDone = true → after.owned other = [] := by
    intro other hstopped hidle
    have hold : before.owned other = [] := by
      rcases hidle with hloop | hdone
      · exact hbefore.idle hstopped other hloop
      · exact (hbefore.done hdone).2.2 other
    by_cases hsame : other = thread
    · subst hsame
      exact hmine hstopped hidle hold
    · exact (hothers other hsame).trans hold
  refine ⟨?_, fun other hother ↦ hmoves.rely (hothers other hother)⟩
  exact
    { acked := fun item hitem ↦ hmoves.kept item (hbefore.acked item (hmoves.acked ▸ hitem))
      dropCount := hcount
      closed := fun hclosed ↦ by
        rw [hmoves.stopped]
        exact hbefore.closed (hmoves.stopCh ▸ hclosed)
      idle := fun hstopped other hloop ↦
        hempty other (hmoves.stopped ▸ hstopped) (.inl (hmoves.loop ▸ hloop))
      done := fun hdone ↦ by
        rw [hmoves.loopDone] at hdone
        obtain ⟨hstopped, hbuffer, -⟩ := hbefore.done hdone
        exact ⟨hmoves.stopped.trans hstopped, hmoves.drained hstopped hbuffer,
          fun other ↦ hempty other hstopped (.inr hdone)⟩
      promised := by
        rw [hmoves.stop, hmoves.acked]
        exact hbefore.promised
      started := by
        rw [hmoves.loop, hmoves.loopDone]
        exact hbefore.started
      asked := by
        rw [hmoves.stop, hmoves.stopped]
        exact hbefore.asked
      returned := by
        rw [hmoves.returned, hmoves.loopDone]
        exact hbefore.returned }

theorem guarantee_same (hstate : Sound before) : Guarantee Sound Rely thread before before :=
  ⟨hstate, fun _ _ ↦ Rely.refl _ _⟩

end Guarantees

/-! ### Steps of a flush -/

/-- An assertion that neither the others nor the thread's own moves break. -/
structure Framed (assertion : State ε → Prop) (thread : ℕ) : Prop where
  stable : Stable Sound Rely thread assertion
  moves : ∀ before after, Moves before after → assertion before → assertion after

variable {thread : ℕ}

theorem framed_true : Framed (fun _ : State ε ↦ True) thread := ⟨Stable.true, fun _ _ _ _ ↦ trivial⟩

theorem Framed.and {first second : State ε → Prop} (hfirst : Framed first thread)
    (hsecond : Framed second thread) :
    Framed (fun state ↦ first state ∧ second state) thread :=
  ⟨hfirst.stable.and hsecond.stable, fun before after hmoves hholds ↦
    ⟨hfirst.moves before after hmoves hholds.1, hsecond.moves before after hmoves hholds.2⟩⟩

theorem framed_kept (items : List (Item ε)) :
    Framed (fun state ↦ ∀ item ∈ items, Kept state item) thread :=
  ⟨fun _ _ _ _ hrely hholds item hitem ↦ hrely.kept item (hholds item hitem),
    fun _ _ hmoves hholds item hitem ↦ hmoves.kept item (hholds item hitem)⟩

section Flush

variable {thread : ℕ}

variable (batch : List (Item ε)) {chunk rest : List (Item ε)} (cfg : QueueConfig)

/-- The assertion holds, and the thread owns the batch. -/
abbrev Owning (thread : ℕ) (assertion : State ε → Prop) (batch : List (Item ε)) (state : State ε) : Prop :=
  assertion state ∧ state.owned thread = batch

theorem Framed.owning {assertion : State ε → Prop} (hframed : Framed assertion thread) :
    Stable Sound Rely thread (Owning thread assertion batch) :=
  hframed.stable.and fun _ _ _ _ hrely ↦ hrely.owned.trans

/-- The first part of what a thread owns goes somewhere else; the rest stays with it. -/
theorem Kept.settle {state : State ε} (after : State ε)
    (howned : state.owned thread = chunk ++ rest) (hbatches : after.batches = state.batches)
    (hinserted : ∀ item ∈ state.inserted, item ∈ after.inserted)
    (hdropped : ∀ item ∈ state.dropped, item ∈ after.dropped)
    (hbuffer : ∀ item ∈ state.buffer, item ∈ after.buffer)
    (hchunk : ∀ item ∈ chunk, (item ∈ after.inserted ∨ item ∈ after.dropped) ∨ item ∈ after.buffer)
    {item : Item ε} (hkept : Kept state item) : Kept (after.settle thread chunk.length) item := by
  have hsame : ∀ other, after.owned other = state.owned other := fun other ↦ by
    simp only [State.owned, hbatches]
  rcases hkept with (hitem | hitem) | hitem | ⟨owner, hitem⟩
  · exact .inl (.inl (hinserted item hitem))
  · exact .inl (.inr (hdropped item hitem))
  · exact .inr (.inl (hbuffer item hitem))
  · by_cases howner : owner = thread
    · subst howner
      rw [howned, mem_append] at hitem
      rcases hitem with hitem | hitem
      · rcases hchunk item hitem with hdone | hbuffered
        · exact .inl hdone
        · exact .inr (.inl hbuffered)
      · refine .inr (.inr ⟨owner, ?_⟩)
        rw [State.settle, owned_setOwned_self, hsame, howned, drop_left]
        exact hitem
    · refine .inr (.inr ⟨owner, ?_⟩)
      rw [State.settle, owned_setOwned_of_ne _ howner, hsame]
      exact hitem

/-- What settling a chunk leaves with the thread and with the others. -/
theorem owned_settle {state after : State ε} (howned : state.owned thread = chunk ++ rest)
    (hbatches : after.batches = state.batches) :
    (after.settle thread chunk.length).owned thread = rest ∧
      ∀ other, other ≠ thread → (after.settle thread chunk.length).owned other = state.owned other := by
  have hsame : ∀ other, after.owned other = state.owned other := fun other ↦ by
    simp only [State.owned, hbatches]
  refine ⟨?_, fun other hother ↦ ?_⟩
  · rw [State.settle, owned_setOwned_self, hsame, howned, drop_left]
  · rw [State.settle, owned_setOwned_of_ne _ hother, hsame]

/-- A step that settles a chunk meets its guarantee, and the frame stays. -/
theorem settle_step {assertion : State ε → Prop} (hframed : Framed assertion thread)
    {state after : State ε} (hstate : Sound state) (hholds : assertion state)
    (howned : state.owned thread = chunk ++ rest) (hbatches : after.batches = state.batches)
    (hmoves : Moves state (after.settle thread chunk.length))
    (hcount : after.dropCount = after.dropped.length) :
    Guarantee Sound Rely thread state (after.settle thread chunk.length) ∧
      assertion (after.settle thread chunk.length) ∧
      (after.settle thread chunk.length).owned thread = rest := by
  obtain ⟨hrest, hothers⟩ := owned_settle howned hbatches
  refine ⟨hmoves.guarantee hstate hothers hcount fun _ _ hnone ↦ ?_,
    hframed.moves state _ hmoves hholds, hrest⟩
  rw [hrest]
  exact (append_eq_nil_iff.mp (howned.symm.trans hnone)).2

variable {assertion : State ε → Prop}

theorem batchInsert_ok (hframed : Framed assertion thread) (chunk rest : List (Item ε)) :
    (batchInsert thread chunk).Ok Sound Rely thread (Owning thread assertion (chunk ++ rest))
      fun ok ↦ Owning thread assertion (if ok then rest else chunk ++ rest) := by
  refine Ok.atomically (hframed.owning _) ?_
  rintro ok state hstate ⟨hholds, howned⟩ - -
  cases ok with
  | false => exact ⟨guarantee_same hstate, hholds, howned⟩
  | true =>
    refine settle_step hframed hstate hholds howned rfl ?_ hstate.dropCount
    refine { Moves.refl state with kept := fun item hkept ↦ ?_ }
    exact Kept.settle (state.insert chunk) howned rfl (fun _ hitem ↦ mem_append_left _ hitem)
      (fun _ hitem ↦ hitem) (fun _ hitem ↦ hitem)
      (fun _ hitem ↦ .inl (.inl (mem_append_right _ hitem))) hkept

/-- A step that changes only what no assertion is about. -/
theorem count_ok (update : State ε → State ε) (hframed : Framed assertion thread)
    (hmoves : ∀ state, Moves state (update state))
    (hbatches : ∀ state, (update state).batches = state.batches)
    (hcount : ∀ state, Sound state → (update state).dropCount = (update state).dropped.length)
    (batch : List (Item ε)) :
    (act (fun _ ↦ update) fun _ _ ↦ ()).Ok Sound Rely thread (Owning thread assertion batch)
      fun _ ↦ Owning thread assertion batch := by
  refine Ok.atomically (hframed.owning _) ?_
  rintro _ state hstate ⟨hholds, howned⟩ - -
  have hsame : ∀ other, (update state).owned other = state.owned other := fun other ↦ by
    simp only [State.owned, hbatches]
  exact ⟨(hmoves state).guarantee hstate (fun other _ ↦ hsame other) (hcount state hstate)
    fun _ _ hnone ↦ (hsame thread).trans hnone,
    hframed.moves state _ (hmoves state) hholds, (hsame thread).trans howned⟩

section

variable (hframed : Framed assertion thread)

include hframed

theorem addFlush_ok (batch : List (Item ε)) :
    (act (fun _ ↦ State.addFlush) fun _ _ ↦ ()).Ok Sound Rely thread (Owning thread assertion batch)
      fun _ ↦ Owning thread assertion batch :=
  count_ok State.addFlush hframed (fun state ↦ { Moves.refl state with }) (fun _ ↦ rfl) (fun _ hstate ↦ hstate.dropCount) batch

theorem insertWithRetry_ok (chunk rest : List (Item ε)) (attempts : ℕ) :
    (insertWithRetry thread chunk attempts).Ok Sound Rely thread
      (Owning thread assertion (chunk ++ rest))
      fun ok ↦ Owning thread assertion (if ok then rest else chunk ++ rest) := by
  induction attempts with
  | zero => exact Ok.ret fun _ _ hholds ↦ by simpa using hholds
  | succ attempts ih =>
    refine (batchInsert_ok hframed chunk rest).bind fun ok ↦ (addFlush_ok hframed _).bind fun _ ↦ ?_
    cases ok with
    | true => exact Ok.ret fun _ _ hholds ↦ hholds
    | false => exact ih

theorem requeueOrDrop_ok (chunk rest : List (Item ε)) :
    (requeueOrDrop cfg thread chunk).Ok Sound Rely thread (Owning thread assertion (chunk ++ rest))
      fun _ ↦ Owning thread assertion rest := by
  have hrequeue : (requeue cfg thread chunk).Ok Sound Rely thread
      (Owning thread assertion (chunk ++ rest))
      fun requeued ↦ Owning thread assertion (if requeued then rest else chunk ++ rest) := by
    refine Ok.atomically (hframed.owning _) ?_
    rintro _ state hstate ⟨hholds, howned⟩ - -
    cases hroom : !state.stopped && decide (state.buffer.length + chunk.length ≤ cfg.queueSize) with
    | false =>
      exact ⟨guarantee_same hstate, hholds, howned⟩
    | true =>
      refine settle_step hframed hstate hholds howned rfl ?_ hstate.dropCount
      refine { Moves.refl state with kept := fun item hkept ↦ ?_, drained := fun hstopped ↦ ?_ }
      · exact Kept.settle (state.putBack chunk) howned rfl (fun _ hitem ↦ hitem) (fun _ hitem ↦ hitem)
          (fun _ hitem ↦ mem_append_right _ hitem)
          (fun _ hitem ↦ .inr (mem_append_left _ hitem)) hkept
      · simp [hstopped] at hroom
  refine hrequeue.bind fun requeued ↦ ?_
  cases requeued with
  | true => exact Ok.ret fun _ _ hholds ↦ hholds
  | false =>
    refine Ok.atomically (hframed.owning _) ?_
    rintro _ state hstate ⟨hholds, howned⟩ - -
    refine settle_step hframed hstate hholds howned rfl ?_ ?_
    · refine { Moves.refl state with kept := fun item hkept ↦ ?_ }
      exact Kept.settle (state.giveUp chunk) howned rfl (fun _ hitem ↦ hitem)
        (fun _ hitem ↦ mem_append_left _ hitem) (fun _ hitem ↦ hitem)
        (fun _ hitem ↦ .inl (.inr (mem_append_right _ hitem))) hkept
    · simp [State.giveUp, hstate.dropCount]

end

theorem batchSize_pos : 0 < cfg.batchSize := by
  unfold QueueConfig.batchSize
  split_ifs <;> omega

variable (hframed : Framed assertion thread)

include hframed

/-- `flushBatch` deals with all that the thread owns. -/
theorem flushBatch_ok (chunks : ℕ) (entries : List (Item ε)) (hchunks : entries.length ≤ chunks) :
    (flushBatch cfg thread chunks entries).Ok Sound Rely thread (Owning thread assertion entries)
      fun _ ↦ Owning thread assertion [] := by
  induction chunks generalizing entries with
  | zero =>
    have hnil : entries = [] := length_eq_zero_iff.mp (Nat.le_zero.mp hchunks)
    exact Ok.ret fun _ _ hholds ↦ hnil ▸ hholds
  | succ chunks ih =>
    refine Ok.ite (fun hempty ↦ ?_) fun hempty ↦ ?_
    · exact Ok.ret fun _ _ hholds ↦ isEmpty_iff.mp hempty ▸ hholds
    · have hrest : (entries.drop cfg.batchSize).length ≤ chunks := by
        have hpos := batchSize_pos cfg
        rw [length_drop]
        omega
      have hsplit := take_append_drop cfg.batchSize entries
      refine ((insertWithRetry_ok hframed (entries.take cfg.batchSize) (entries.drop cfg.batchSize)
        flushMaxAttempts).pre fun _ _ hholds ↦ ?_).bind fun ok ↦ ?_
      · rwa [hsplit]
      cases ok with
      | true => exact ih _ hrest
      | false => exact (requeueOrDrop_ok cfg hframed _ _).bind fun _ ↦ ih _ hrest

theorem takeBuffer_ok : (takeBuffer thread).Ok Sound Rely thread (Owning thread assertion [])
      fun batch state ↦ (assertion state ∧ (state.stopped = true → state.buffer = [])) ∧
        state.owned thread = batch := by
  refine Ok.atomically (hframed.owning _) ?_
  rintro _ state hstate ⟨hholds, howned⟩ - hcovered
  cases hbuffer : state.buffer with
  | nil =>
    exact ⟨guarantee_same hstate, ⟨hholds, fun _ ↦ hbuffer⟩, howned⟩
  | cons item buffer =>
    simp only [hbuffer, isEmpty_cons, Bool.not_false, Bool.and_true, Bool.and_eq_true,
      decide_eq_true_eq, not_and, not_not] at hcovered ⊢
    have hmoves : Moves state ({ state with buffer := [] }.setOwned thread (item :: buffer)) := by
      refine { Moves.refl state with kept := fun moved hkept ↦ ?_, drained := fun _ _ ↦ rfl }
      rcases hkept with hdone | hmoved | ⟨owner, hmoved⟩
      · exact .inl hdone
      · exact .inr (.inr ⟨thread, by rw [owned_setOwned_self, ← hbuffer]; exact hmoved⟩)
      · have howner : owner ≠ thread := fun hsame ↦ by simp [hsame, howned] at hmoved
        exact .inr (.inr ⟨owner, by rw [owned_setOwned_of_ne _ howner]; exact hmoved⟩)
    refine ⟨hmoves.guarantee hstate (fun other hother ↦ owned_setOwned_of_ne _ hother _)
      hstate.dropCount fun hstopped hidle _ ↦ ?_,
      ⟨hframed.moves state _ hmoves hholds, fun _ ↦ rfl⟩, owned_setOwned_self _ _ _⟩
    rcases hidle with hloop | hdone
    · exact absurd (hcovered hstopped) hloop
    · exact absurd ((hbuffer.symm.trans (hstate.done hdone).2.1)) (by simp)

/-- A flush leaves the thread without entries, and a stopped queue with an empty buffer. -/
theorem flush_ok {drained : State ε → Prop} (hdrained : Framed drained thread)
    (htaken : ∀ state, assertion state → (state.stopped = true → state.buffer = []) → drained state) :
    (flush cfg thread).Ok Sound Rely thread (Owning thread assertion [])
      fun _ ↦ Owning thread drained [] :=
  (takeBuffer_ok hframed).bind fun batch ↦
    (flushBatch_ok cfg hdrained batch.length batch (Nat.le_refl _)).pre fun state _ hholds ↦
      ⟨htaken state hholds.1.1 hholds.1.2, hholds.2⟩

theorem flush_framed : (flush cfg thread).Ok Sound Rely thread (Owning thread assertion [])
      fun _ ↦ Owning thread assertion [] :=
  flush_ok cfg hframed hframed fun _ hholds _ ↦ hholds

end Flush

/-! ### Enqueue -/

section Enqueue

variable {thread : ℕ}

/-- What an `Enqueue` call knows before and after its entries are with the queue. -/
def Idle (thread : ℕ) (state : State ε) : Prop := True ∧ state.owned thread = []

def Taken (thread : ℕ) (items : List (Item ε)) (state : State ε) : Prop :=
  (∀ item ∈ items, Kept state item) ∧ state.owned thread = []

variable (cfg : QueueConfig) (items : List (Item ε))

theorem tryBuffer_ok : (tryBuffer cfg items).Ok Sound Rely thread (Idle thread)
      fun intake state ↦ Idle thread state ∧
        ∀ depth, intake = .buffered depth → Taken thread items state := by
  refine Ok.atomically (framed_true.owning _) ?_
  rintro _ state hstate ⟨-, howned⟩ - -
  cases hstopped : state.stopped with
  | true =>
    exact ⟨guarantee_same hstate, ⟨trivial, howned⟩, by simp⟩
  | false =>
    simp only [Bool.not_false, Bool.true_and, decide_eq_true_eq, Bool.false_eq_true, ↓reduceIte]
    split_ifs with hroom
    · have hmoves : Moves state (state.append items) := by
        refine { Moves.refl state with kept := fun item hkept ↦ ?_, drained := by simp [hstopped] }
        rcases hkept with hdone | hitem | hitem
        · exact .inl hdone
        · exact .inr (.inl (mem_append_left _ hitem))
        · exact .inr (.inr hitem)
      exact ⟨hmoves.guarantee hstate (fun _ _ ↦ rfl) hstate.dropCount fun _ _ hnone ↦ hnone,
        ⟨trivial, howned⟩,
        fun _ _ ↦ ⟨fun item hitem ↦ .inr (.inl (mem_append_right _ hitem)), howned⟩⟩
    · exact ⟨guarantee_same hstate, ⟨trivial, howned⟩, by simp⟩

theorem ack_ok : (ack items).Ok Sound Rely thread (Taken thread items) fun _ _ ↦ True := by
  refine Ok.atomically ((framed_kept items).owning _) ?_
  rintro _ state hstate ⟨hkept, -⟩ - -
  refine ⟨⟨?_, fun _ _ ↦ { Rely.refl _ state with }⟩, trivial⟩
  exact
    { hstate with
      acked := fun item hitem ↦ (mem_append.mp hitem).elim (hstate.acked item) (hkept item)
      promised := fun owner promised hstop ↦
        Subset.trans (hstate.promised owner promised hstop) (subset_append_left _ _) }

theorem insertSync_ok : (insertSync items).Ok Sound Rely thread (Idle thread) fun _ _ ↦ True := by
  have hinsert : (act (fun ok (state : State ε) ↦ if ok then state.insert items else state)
      fun ok _ ↦ ok).Ok Sound Rely thread (Idle thread)
      fun ok state ↦ ok = true → Taken thread items state := by
    refine Ok.atomically (framed_true.owning _) ?_
    rintro ok state hstate ⟨-, howned⟩ - -
    cases ok with
    | false => exact ⟨guarantee_same hstate, by simp⟩
    | true =>
      have hmoves : Moves state (state.insert items) := by
        refine { Moves.refl state with kept := fun item hkept ↦ ?_ }
        rcases hkept with (hitem | hitem) | hrest
        · exact .inl (.inl (mem_append_left _ hitem))
        · exact .inl (.inr hitem)
        · exact .inr hrest
      exact ⟨hmoves.guarantee hstate (fun _ _ ↦ rfl) hstate.dropCount fun _ _ hnone ↦ hnone,
        fun _ ↦ ⟨fun item hitem ↦ .inl (.inl (mem_append_right _ hitem)), howned⟩⟩
  refine hinsert.bind fun ok ↦ Ok.ite (fun hok ↦ ?_) fun _ ↦ Ok.ret fun _ _ _ ↦ trivial
  exact (ack_ok items).pre fun _ _ hholds ↦ hholds hok

theorem flushIfDeep_ok (depth : ℕ) :
    (flushIfDeep cfg thread items depth).Ok Sound Rely thread (Taken thread items)
      fun _ _ ↦ True := by
  unfold flushIfDeep
  split_ifs
  · exact (flush_framed cfg (framed_kept items)).bind fun _ ↦ ack_ok items
  · exact ack_ok items

theorem enqueue_ok (entries : List ε) :
    (enqueue cfg thread entries).Ok Sound Rely thread (Idle thread) fun _ _ ↦ True := by
  refine Ok.ite (fun _ ↦ Ok.ret fun _ _ _ ↦ trivial) fun _ ↦ ?_
  refine (tryBuffer_ok cfg _).bind fun intake ↦ ?_
  cases intake with
  | stopped => exact (insertSync_ok _).pre fun _ _ hholds ↦ hholds.1
  | buffered depth => exact (flushIfDeep_ok cfg _ depth).pre fun _ _ hholds ↦ hholds.2 depth rfl
  | full =>
    have hcount : (act (fun _ ↦ State.addOverflow) fun _ _ ↦ ()).Ok Sound Rely thread
        (Idle thread : State ε → Prop) fun _ ↦ Idle thread :=
      count_ok State.addOverflow framed_true (fun state ↦ { Moves.refl state with }) (fun _ ↦ rfl)
        (fun _ hstate ↦ hstate.dropCount) []
    refine (hcount.pre fun _ _ hholds ↦ hholds.1).bind fun _ ↦
      (flush_framed cfg framed_true).bind fun _ ↦ (tryBuffer_ok cfg _).bind fun intake ↦ ?_
    cases intake with
    | buffered depth => exact (flushIfDeep_ok cfg _ depth).pre fun _ _ hholds ↦ hholds.2 depth rfl
    | stopped => exact (insertSync_ok _).pre fun _ _ hholds ↦ hholds.1
    | full => exact (insertSync_ok _).pre fun _ _ hholds ↦ hholds.1

end Enqueue

/-! ### The loop and Stop -/

section Loop

variable {thread : ℕ}

/-- What the loop knows until it ends. -/
def Looping (thread : ℕ) (state : State ε) : Prop :=
  state.loop = some thread ∧ state.loopDone = false

theorem framed_looping : Framed (Looping thread : State ε → Prop) thread :=
  ⟨fun _ _ _ _ hrely hholds ↦
    ⟨hrely.loop.mpr hholds.1, (hrely.loopDone hholds.1).trans hholds.2⟩,
    fun _ _ hmoves hholds ↦ ⟨hmoves.loop.trans hholds.1, hmoves.loopDone.trans hholds.2⟩⟩

theorem framed_stopped : Framed (fun state : State ε ↦ state.stopped = true) thread :=
  ⟨fun _ _ _ _ hrely ↦ hrely.stopped, fun _ _ hmoves ↦ hmoves.stopped.trans⟩

theorem framed_drained :
    Framed (fun state : State ε ↦ state.stopped = true ∧ state.buffer = []) thread :=
  ⟨fun _ _ _ _ hrely hholds ↦ ⟨hrely.stopped hholds.1, hrely.drained hholds.1 hholds.2⟩,
    fun _ _ hmoves hholds ↦ ⟨hmoves.stopped.trans hholds.1, hmoves.drained hholds.1 hholds.2⟩⟩

theorem selectTick_ok : selectTick.Ok Sound Rely thread
      (Owning thread (Looping thread : State ε → Prop) [])
      fun tick state ↦ (Looping thread state ∧ (tick = false → state.stopped = true)) ∧
        state.owned thread = [] := by
  refine Ok.atomically (framed_looping.owning _) ?_
  rintro tick state hstate ⟨hlooping, howned⟩ henabled -
  refine ⟨guarantee_same hstate, ⟨hlooping, fun htick ↦ hstate.closed ?_⟩, howned⟩
  simpa [htick] using henabled

/-- The loop ends when it has emptied the buffer of a stopped queue. -/
theorem endLoop_ok : endLoop.Ok Sound Rely thread
      (fun state : State ε ↦ (Looping thread state ∧ state.stopped = true ∧ state.buffer = []) ∧
        state.owned thread = []) fun _ _ ↦ True := by
  refine Ok.atomically ((framed_looping.and framed_drained).owning _) ?_
  rintro _ state hstate ⟨⟨⟨hloop, -⟩, hstopped, hbuffer⟩, howned⟩ - -
  have hempty : ∀ other, state.owned other = [] := by
    intro other
    by_cases hother : other = thread
    · rw [hother, howned]
    · refine hstate.idle hstopped other ?_
      rw [hloop]
      simpa using Ne.symm hother
  refine ⟨⟨?_, fun other hother ↦ ?_⟩, trivial⟩
  · exact
      { hstate with
        done := fun _ ↦ ⟨hstopped, hbuffer, hempty⟩
        started := fun _ ↦ by simp [hloop]
        returned := fun _ ↦ rfl }
  · exact { Rely.refl other state with
      loopDone := fun hsame ↦ absurd (hsame.symm.trans hloop) (by simpa using hother)
      ended := fun _ ↦ rfl }

theorem flushRounds_ok (cfg : QueueConfig) (rounds : ℕ) :
    (flushRounds cfg thread rounds).Ok Sound Rely thread
      (Owning thread (Looping thread : State ε → Prop) []) fun _ _ ↦ True := by
  induction rounds with
  | zero => exact Ok.ret fun _ _ _ ↦ trivial
  | succ rounds ih =>
    refine selectTick_ok.bind fun tick ↦ ?_
    cases tick with
    | true =>
      exact ((flush_framed cfg framed_looping).pre fun _ _ hholds ↦ ⟨hholds.1.1, hholds.2⟩).bind
        fun _ ↦ ih
    | false =>
      refine Ok.bind ?_ fun _ ↦ endLoop_ok
      refine (flush_ok cfg (framed_looping.and framed_stopped) (framed_looping.and framed_drained)
        ?_).pre fun _ _ hholds ↦ ⟨⟨hholds.1.1, hholds.1.2 rfl⟩, hholds.2⟩
      exact fun _ hholds hbuffer ↦ ⟨hholds.1, hholds.2, hbuffer hholds.2⟩

theorem flushLoop_ok (cfg : QueueConfig) (rounds : ℕ) :
    (flushLoop cfg thread rounds).Ok Sound Rely thread (Idle thread : State ε → Prop)
      fun _ _ ↦ True := by
  refine Ok.bind (Ok.atomically
    (framed_true.owning _) ?_) fun _ ↦ flushRounds_ok cfg rounds
  rintro _ state hstate ⟨-, howned⟩ hnone -
  rw [decide_eq_true_eq] at hnone
  have hdone : state.loopDone = false := by
    by_contra hdone
    exact hstate.started (by simpa using hdone) hnone
  refine ⟨⟨?_, fun other hother ↦ ?_⟩, ⟨rfl, hdone⟩, howned⟩
  · exact
      { hstate with
        idle := fun hstopped other _ ↦ hstate.idle hstopped other (by simp [hnone])
        started := by simp }
  · refine { Rely.refl other state with loop := ?_ }
    simp [hnone, Ne.symm hother]

/-- The stopping thread, from its call until the queue is marked and beyond. -/
def Stopping (thread : ℕ) (stopped : Bool) (state : State ε) : Prop :=
  (∃ items, state.stop = some (thread, items)) ∧ state.stopped = stopped

theorem stable_stopping (stopped : Bool) :
    Stable Sound Rely thread (Stopping thread stopped : State ε → Prop) := by
  rintro before after - - hrely ⟨⟨items, hstop⟩, hstopped⟩
  obtain ⟨hstop', hstopped'⟩ := hrely.stop items hstop
  exact ⟨⟨items, hstop'.trans hstop⟩, hstopped'.trans hstopped⟩

theorem callStop_ok : (callStop thread).Ok Sound Rely thread (fun _ : State ε ↦ True)
      fun _ ↦ Stopping thread false := by
  refine Ok.atomically Stable.true ?_
  rintro _ state hstate - hnone -
  rw [Option.isNone_iff_eq_none] at hnone
  have hrunning : state.stopped = false := by
    by_contra hstopped
    exact hstate.asked (by simpa using hstopped) hnone
  refine ⟨⟨?_, fun other _ ↦ ?_⟩, ⟨state.acked, rfl⟩, hrunning⟩
  · exact
      { hstate with
        promised := fun owner items hstop ↦ by
          cases hstop
          exact Subset.refl _
        asked := by simp }
  · exact { Rely.refl other state with stop := fun items hstop ↦ by simp [hnone] at hstop }

/-- When the queue is marked as stopped, nobody but the loop owns a batch. -/
theorem markStopped_ok : markStopped.Ok Sound Rely thread (Stopping thread false : State ε → Prop)
      fun stopped state ↦ stopped = false ∧ Stopping thread true state := by
  refine Ok.atomically (stable_stopping false) ?_
  rintro _ state hstate ⟨⟨items, hstop⟩, hrunning⟩ - hcovered
  refine ⟨⟨?_, fun other hother ↦ ?_⟩, hrunning, ⟨items, hstop⟩, rfl⟩
  · refine
      { hstate with
        closed := fun _ ↦ rfl
        idle := fun _ owner hloop ↦ ?_
        done := fun hdone ↦ ⟨rfl, (hstate.done hdone).2⟩
        asked := fun _ ↦ by simp [hstop] }
    simp only [any_eq_true, Bool.and_eq_true, decide_eq_true_eq, not_exists, not_and, not_not] at hcovered
    cases hbatch : state.batches.get owner with
    | none => exact congrArg (·.getD []) hbatch
    | some batch =>
      have hempty : batch = [] := by
        by_contra hbatch'
        exact hloop (hcovered (owner, batch) (state.batches.mem_rows.mpr hbatch) (by simpa using hbatch'))
      exact (congrArg (·.getD []) hbatch).trans hempty
  · exact { Rely.refl other state with
      stopped := fun _ ↦ rfl, stop := fun promised hother' ↦ by
        cases hstop.symm.trans hother'
        exact absurd rfl hother }

theorem stop_ok : (stop thread).Ok Sound Rely thread (fun _ : State ε ↦ True) fun _ _ ↦ True := by
  have hclose : closeStopCh.Ok Sound Rely thread (Stopping thread true : State ε → Prop)
      fun _ _ ↦ True := by
    refine Ok.atomically (stable_stopping true) ?_
    rintro _ state hstate ⟨-, hstopped⟩ - -
    exact ⟨⟨{ hstate with closed := fun _ ↦ hstopped }, fun _ _ ↦ { Rely.refl _ state with }⟩, trivial⟩
  have hwait : waitLoop.Ok Sound Rely thread (fun _ : State ε ↦ True)
      fun _ state ↦ state.loopDone = true :=
    Ok.atomically Stable.true
      fun _ _ hstate _ hdone _ ↦ ⟨guarantee_same hstate, hdone⟩
  have hreturn : returnStop.Ok Sound Rely thread (fun state : State ε ↦ state.loopDone = true)
      fun _ _ ↦ True := by
    refine Ok.atomically (fun _ _ _ _ hrely ↦ hrely.ended) ?_
    rintro _ state hstate hdone - -
    exact ⟨⟨{ hstate with returned := fun _ ↦ hdone }, fun _ _ ↦ { Rely.refl _ state with }⟩, trivial⟩
  refine callStop_ok.bind fun _ ↦ markStopped_ok.bind fun stopped ↦ ?_
  refine Ok.assume (fun _ _ hholds ↦ hholds.1) fun hrunning ↦ ?_
  subst hrunning
  exact (hclose.pre fun _ _ hholds ↦ hholds.2).bind fun _ ↦ hwait.bind fun _ ↦ hreturn

end Loop

/-! ### Conservation -/

theorem system_verified (cfg : QueueConfig) :
    (system cfg).VerifiedFresh Sound Rely (Idle : ℕ → State ε → Prop) where
  call := fun call _ ↦
    match call with
    | .enqueue entries => (enqueue_ok cfg entries).pre fun _ _ hholds ↦ hholds.2
    | .flushLoop rounds => (flushLoop_ok cfg rounds).pre fun _ _ hholds ↦ hholds.2
    | .stop => stop_ok.pre fun _ _ _ ↦ trivial
  stable := fun _ ↦ framed_true.owning _
  crash := fun _ _ _ _ hcrash ↦ by cases hcrash

theorem sound_newQueue : Sound (newQueue : State ε) where
  acked := by simp [newQueue]
  dropCount := rfl
  closed := by simp [newQueue]
  idle := by simp [newQueue]
  done := by simp [newQueue]
  promised := by simp [newQueue]
  started := by simp [newQueue]
  asked := by simp [newQueue]
  returned := by simp [newQueue]

/-- In every schedule of `Enqueue` calls, rounds of the loop and one `Stop`, with any inserts failing:
when `Stop` has returned, every entry of a call that had returned without error before `Stop` was
called is among those written by a successful `BatchInsert` or among the dropped ones, which
`dropCount` counts.

Assumes: no step of the schedule lapsed. When `Stop` marks the queue as stopped, no flush of an
`Enqueue` owns a batch, and none takes a batch out of the buffer afterwards. -/
theorem stop_conserves (cfg : QueueConfig) (events : List (Event (Call ε) Input))
    (hlapsed : ((system cfg).run (System.start newQueue) events).lapsed = false) :
    let state := ((system cfg).run (System.start newQueue) events).state
    state.dropCount = state.dropped.length ∧
      (state.returned = true → ∀ thread items, state.stop = some (thread, items) →
        ∀ item ∈ items, item ∈ state.inserted ∨ item ∈ state.dropped) := by
  have hstate := (system_verified cfg).run sound_newQueue (fun _ ↦ ⟨trivial, rfl⟩) events hlapsed
  refine ⟨hstate.dropCount, fun hreturned thread items hstop item hitem ↦ ?_⟩
  obtain ⟨-, hbuffer, howned⟩ := hstate.done (hstate.returned hreturned)
  rcases hstate.acked item (hstate.promised thread items hstop hitem) with hdone | hmem | ⟨owner, hmem⟩
  · exact hdone
  · simp [hbuffer] at hmem
  · simp [howned] at hmem

section Runs

/-- A queue that flushes when it holds two entries. -/
def pairs : QueueConfig := ⟨10, 2⟩

/-- So many steps of a thread in which inserts succeed and the timer fires. -/
def succeed (thread steps : ℕ) : List (Event (Call ℕ) Input) := replicate steps (.run thread true)

/-- So many steps of a thread in which inserts fail and the timer does not fire. -/
def fail (thread steps : ℕ) : List (Event (Call ℕ) Input) := replicate steps (.run thread false)

/-- Two calls; the second one flushes, and its insert fails three times, so that the entries go back
to the buffer. `Stop` follows, and the last flush of the loop drops them. -/
def droppedAtStop : List (Event (Call ℕ) Input) :=
  [.call (.flushLoop 1), .call (.enqueue [7]), .call (.enqueue [8]), .call .stop] ++ succeed 0 1 ++
    succeed 1 2 ++ fail 2 9 ++ succeed 2 1 ++ succeed 3 3 ++ fail 0 11 ++ succeed 3 2

theorem stop_conserves_witness :
    let state := ((system pairs).run (System.start newQueue) droppedAtStop).state
    (state.returned = true ∧ state.stop = some (3, [⟨1, 0, 7⟩, ⟨2, 0, 8⟩]) ∧ state.dropCount = 2) ∧
      state.dropCount = state.dropped.length ∧
      (state.returned = true → ∀ thread items, state.stop = some (thread, items) →
        ∀ item ∈ items, item ∈ state.inserted ∨ item ∈ state.dropped) :=
  ⟨by decide +kernel, stop_conserves pairs droppedAtStop (by decide +kernel)⟩

/-- The second call has taken both entries out of the buffer and has not inserted them yet when
`Stop` runs to its end. -/
def overtaken : List (Event (Call ℕ) Input) :=
  [.call (.flushLoop 1), .call (.enqueue [7]), .call (.enqueue [8]), .call .stop] ++ succeed 0 1 ++
    succeed 1 2 ++ succeed 2 2 ++ succeed 3 3 ++ fail 0 3 ++ succeed 3 2

/-- `Stop` has returned, and an entry acknowledged before it was called is neither written nor counted
as dropped. -/
theorem stop_overtakes_flush :
    let state := ((system pairs).run (System.start newQueue) overtaken).state
    state.returned = true ∧ state.stop = some (3, [⟨1, 0, 7⟩]) ∧ state.inserted = [] ∧
      state.dropped = [] ∧ state.dropCount = 0 := by
  decide +kernel

end Runs

end OpenTrace.Ingest
