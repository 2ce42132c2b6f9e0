import OpenTrace.Watcher.Model

/-!
# What evaluations keep true

The invariant of the watch evaluation and what a thread may rely on. A row whose lock is free has
counted its run of breaches; every evaluation recorded in a row had counted its own, and asked for an
alert exactly if it has a transition. The row of a watch whose lock a thread holds is changed by the
others only in that they close it, which they do not do (or lapse) while the thread is reading.

Each kind of step has one lemma that says it meets its guarantee.
-/

namespace OpenTrace.Watcher

open Library List

/-! ### Runs of breaches -/

/-- The length of the current run of breached results, newest first, after a run of `initial`. -/
def runLength (initial : ℕ) : List Bool → ℕ
  | [] => initial
  | false :: _ => 0
  | true :: results => runLength initial results + 1

theorem runLength_cons (initial : ℕ) (breached : Bool) (results : List Bool) :
    runLength initial (breached :: results) =
      if breached then runLength initial results + 1 else 0 := by
  cases breached <;> rfl

def Row.results (row : Row) : List Bool := row.evaluations.filterMap Evaluation.outcome

/-- The row's counter, when an evaluation with this outcome is about to be recorded. -/
def Row.Checked (initial : ℕ) (outcome : Option Bool) (row : Row) : Prop :=
  row.watch.consecutiveBreaches = runLength initial (outcome.toList ++ row.results)

/-- Every evaluation has stored its run of breaches. -/
def Row.Counted (initial : ℕ) (row : Row) : Prop :=
  ∀ later evaluation earlier, row.evaluations = later ++ evaluation :: earlier →
    evaluation.stored = runLength initial ((evaluation :: earlier).filterMap Evaluation.outcome)

theorem Row.results_record (thread : ℕ) (outcome : Option Bool) (hasAlert : Bool) (row : Row) :
    (row.record thread outcome hasAlert).results = outcome.toList ++ row.results := by
  cases outcome <;> rfl

section

variable {initial : ℕ} {outcome : Option Bool} {row : Row}

theorem Row.Checked.record (hrow : row.Checked initial outcome) (thread : ℕ) (hasAlert : Bool) :
    (row.record thread outcome hasAlert).Checked initial none := by
  unfold Row.Checked at hrow ⊢
  rw [Row.results_record]
  exact hrow

theorem Row.Counted.record
    (hcounted : row.Counted initial) (hrow : row.Checked initial outcome) (thread : ℕ)
    (hasAlert : Bool) : (row.record thread outcome hasAlert).Counted initial := by
  intro later evaluation earlier hsplit
  cases later with
  | nil =>
    obtain ⟨hevaluation, hearlier⟩ := cons.inj hsplit
    have hstored := congrArg Evaluation.stored hevaluation
    have hresults := Row.results_record thread outcome hasAlert row
    rw [Row.results, hsplit] at hresults
    rw [← hstored]
    exact hrow.trans (congrArg (runLength initial) hresults.symm)
  | cons newest later => exact hcounted later evaluation earlier (cons.inj hsplit).2

end

/-! ### Invariant and rely -/

/-- The thread has not ended an evaluation yet. -/
def Unrecorded (thread : ℕ) (state : State) : Prop :=
  ∀ id row, state.watches.get id = some row → ∀ evaluation ∈ row.evaluations,
    evaluation.thread ≠ thread

/-- The transitions of the thread: one of this watch if it has an alert to raise, and no others. -/
structure Moves (thread : ℕ) (id : Bytes) (hasAlert : Bool) (state : State) : Prop where
  moved : hasAlert = true → ∃ t ∈ state.transitions, t.thread = thread ∧ t.watch = id
  only : ∀ t ∈ state.transitions, t.thread = thread → hasAlert = true ∧ t.watch = id

section Invariant

variable (setting : Setting) (initial : Bytes → ℕ)

structure RowSound (transitions : List Transition) (id : Bytes) (row : Row) : Prop where
  counted : setting.storeFails = false → row.Counted (initial id)
  alerts : ∀ evaluation ∈ row.evaluations,
    evaluation.hasAlert = true ↔ ∃ t ∈ transitions, t.thread = evaluation.thread ∧ t.watch = id

structure Sound (state : State) : Prop where
  locks : state.locks.Sound
  rows : ∀ id row, state.watches.get id = some row →
    RowSound setting initial state.transitions id row
  free : setting.storeFails = false → ∀ id row, state.watches.get id = some row →
    state.locks.Free id → row.Checked (initial id) none
  moved : ∀ t ∈ state.transitions, t.before ≠ .triggered
  pending : setting.alertLapses = true → ∀ t ∈ state.transitions,
    ⟨t.watch, t.thread⟩ ∈ state.alerts ∨ state.inProgress.get t.thread = some t.watch
  terminal : setting.terminalLapses = true → ∀ t ∈ state.transitions, t.before.isTerminal = false

structure Rely (thread : ℕ) (before after : State) : Prop where
  locks : before.locks.Frame after.locks thread
  row : ∀ id address row', before.locks.Holds thread id address →
    after.watches.get id = some row' → ∃ row, before.watches.get id = some row ∧
      (row' = row ∨ ¬ (setting.terminalLapses = true ∧ before.reading.get thread = some id) ∧
        ∃ status : WatchStatus, status.isTerminal = true ∧ row' = row.setStatus status)
  transitions : ∀ t ∈ after.transitions, t.thread = thread → t ∈ before.transitions
  kept : before.transitions ⊆ after.transitions
  alerts : before.alerts ⊆ after.alerts
  unrecorded : Unrecorded thread before → Unrecorded thread after
  inProgress : after.inProgress.get thread = before.inProgress.get thread
  reading : after.reading.get thread = before.reading.get thread

theorem sound_opened (watches : Table Bytes Watch)
    (hinitial : ∀ id watch, watches.get id = some watch → initial id = watch.consecutiveBreaches) :
    Sound setting initial (opened watches) := by
  have hrow : ∀ id row, (opened watches).watches.get id = some row →
      ∃ watch, watches.get id = some watch ∧ row = ⟨watch, []⟩ := by
    intro id row hget
    rw [← Table.mem_rows] at hget
    obtain ⟨found, hfound, heq⟩ := mem_map.mp hget
    obtain ⟨rfl, rfl⟩ := Prod.mk.inj heq
    exact ⟨found.2, watches.mem_rows.mp hfound, rfl⟩
  refine ⟨KeyedMutex.sound_empty, fun id row hget ↦ ?_, fun _ id row hget _ ↦ ?_, ?_, ?_, ?_⟩
  · obtain ⟨watch, -, rfl⟩ := hrow id row hget
    exact ⟨fun _ later evaluation earlier hsplit ↦ by simp at hsplit, by simp⟩
  · obtain ⟨watch, hwatch, rfl⟩ := hrow id row hget
    exact (hinitial id watch hwatch).symm
  all_goals simp [opened]

variable {setting initial} {state after : State} {thread : ℕ} {id : Bytes} {address : ℕ}

theorem RowSound.congr {transitions : List Transition} {row row' : Row}
    (hrow : RowSound setting initial transitions id row) (hsame : row'.evaluations = row.evaluations) :
    RowSound setting initial transitions id row' := by
  refine ⟨fun hfails later evaluation earlier hsplit ↦ ?_, fun evaluation hmem ↦ ?_⟩
  · exact hrow.counted hfails later evaluation earlier (hsame ▸ hsplit)
  · exact hrow.alerts evaluation (hsame ▸ hmem)

theorem Rely.refl : Rely setting thread state state where
  locks := KeyedMutex.Frame.refl
  row := fun _ _ row' _ hget ↦ ⟨row', hget, .inl rfl⟩
  transitions := fun _ hmem _ ↦ hmem
  kept := fun _ hmem ↦ hmem
  alerts := fun _ hmem ↦ hmem
  unrecorded := fun hunrecorded ↦ hunrecorded
  inProgress := rfl
  reading := rfl

/-! ### Steps that change no row -/

section

variable (hstate : Sound setting initial state)

include hstate

theorem guarantee_refl : Guarantee (Sound setting initial) (Rely setting) thread state state :=
  ⟨hstate, fun _ _ ↦ Rely.refl⟩

/-- A step at the lock table. -/
theorem guarantee_locks {locks : KeyedMutex Bytes}
    (hlocks : locks.Sound) (hframe : ∀ other, other ≠ thread → state.locks.Frame locks other)
    (hfree : ∀ id, locks.Free id → state.locks.Free id) :
    Guarantee (Sound setting initial) (Rely setting) thread state
      { state with locks := locks } := by
  refine ⟨{ hstate with locks := hlocks, free := fun hfails id row hget hid ↦ ?_ },
    fun other hother ↦ { Rely.refl with locks := hframe other hother }⟩
  exact hstate.free hfails id row hget (hfree id hid)

theorem guarantee_reading : Guarantee (Sound setting initial) (Rely setting) thread state
      { state with reading := state.reading.set thread id } :=
  ⟨{ hstate with }, fun _ hother ↦ { Rely.refl with reading := Table.get_set_of_ne _ hother _ }⟩

theorem guarantee_alert (alert : Alert) :
    Guarantee (Sound setting initial) (Rely setting) thread state
      { state with alerts := alert :: state.alerts } := by
  refine ⟨{ hstate with pending := fun hlapses t ht ↦ ?_ },
    fun _ _ ↦ { Rely.refl with alerts := subset_cons_self _ _ }⟩
  exact (hstate.pending hlapses t ht).imp_left (mem_cons_of_mem _)

/-- The start or the end of an evaluation; at its end its transitions have their alerts. -/
theorem guarantee_inProgress {inProgress : Table ℕ Bytes}
    (hothers : ∀ other, other ≠ thread → inProgress.get other = state.inProgress.get other)
    (hreported : setting.alertLapses = true → ∀ t ∈ state.transitions, t.thread = thread →
      ⟨t.watch, t.thread⟩ ∈ state.alerts) :
    Guarantee (Sound setting initial) (Rely setting) thread state
      { state with inProgress := inProgress } := by
  refine ⟨{ hstate with pending := fun hlapses t ht ↦ ?_ },
    fun other hother ↦ { Rely.refl with inProgress := hothers other hother }⟩
  by_cases hown : t.thread = thread
  · exact .inl (hreported hlapses t ht hown)
  · exact (hstate.pending hlapses t ht).imp_right fun hget ↦ (hothers _ hown).trans hget

end

/-! ### Steps that change rows -/

theorem get_changeRow_self {row : Row} (hget : state.watches.get id = some row)
    (change : Row → Row) : (state.changeRow id change).watches.get id = some (change row) := by
  simp [State.changeRow, hget]

theorem get_changeRow_of_ne {other : Bytes} (hne : other ≠ id) (change : Row → Row) :
    (state.changeRow id change).watches.get other = state.watches.get other := by
  simp only [State.changeRow, Table.get_update, if_neg hne]
  exact Option.map_id'

/-- A row after the change of one. -/
theorem of_get_changeRow {change : Row → Row} {other : Bytes} {row' : Row}
    (hget : (state.changeRow id change).watches.get other = some row') :
    ∃ row, state.watches.get other = some row ∧
      (other = id ∧ row' = change row ∨ other ≠ id ∧ row' = row) := by
  by_cases hsame : other = id
  · subst hsame
    cases hrow : state.watches.get other with
    | none => simp [State.changeRow, hrow] at hget
    | some row =>
      rw [get_changeRow_self hrow, Option.some.injEq] at hget
      exact ⟨row, rfl, .inl ⟨rfl, hget.symm⟩⟩
  · rw [get_changeRow_of_ne hsame] at hget
    exact ⟨row', hget, .inr ⟨hsame, rfl⟩⟩

theorem unrecorded_changeRow {change : Row → Row} (hunrecorded : Unrecorded thread state)
    (hchange : ∀ row, ∀ evaluation ∈ (change row).evaluations,
      evaluation ∈ row.evaluations ∨ evaluation.thread ≠ thread) :
    Unrecorded thread (state.changeRow id change) := by
  intro other row' hget evaluation hmem
  obtain ⟨row, hrow, ⟨rfl, rfl⟩ | ⟨-, rfl⟩⟩ := of_get_changeRow hget
  · exact (hchange row evaluation hmem).elim (hunrecorded other row hrow evaluation) id
  · exact hunrecorded other row' hrow evaluation hmem

variable (hstate : Sound setting initial state)

include hstate

section

variable (hholds : state.locks.Holds thread id address)

include hholds

/-- What the others see of a change that the holder of the lock makes to a row. -/
theorem rely_changeRow {other : ℕ} (hother : other ≠ thread)
    (change : Row → Row) (hchange : ∀ row, ∀ evaluation ∈ (change row).evaluations,
      evaluation ∈ row.evaluations ∨ evaluation.thread ≠ other) :
    Rely setting other state (state.changeRow id change) where
  locks := KeyedMutex.Frame.refl
  row := fun held address' row' hheld hget ↦ by
    have hne : held ≠ id := by
      rintro rfl
      exact hother (hstate.locks.holds_unique hheld hholds)
    rw [get_changeRow_of_ne hne] at hget
    exact ⟨row', hget, .inl rfl⟩
  transitions := fun _ hmem _ ↦ hmem
  kept := fun _ hmem ↦ hmem
  alerts := fun _ hmem ↦ hmem
  unrecorded := fun hunrecorded ↦ unrecorded_changeRow hunrecorded hchange
  inProgress := rfl
  reading := rfl

/-- The holder of the lock writes the counter or the status. -/
theorem guarantee_changeRow (change : Row → Row)
    (hchange : ∀ row, (change row).evaluations = row.evaluations) :
    Guarantee (Sound setting initial) (Rely setting) thread state (state.changeRow id change) := by
  refine ⟨{ hstate with rows := fun other row' hget ↦ ?_, free := fun hfails other row' hget hfree ↦ ?_ },
    fun other hother ↦ rely_changeRow hstate hholds hother change fun row evaluation hmem ↦
      .inl (hchange row ▸ hmem)⟩
  · obtain ⟨row, hrow, ⟨rfl, rfl⟩ | ⟨-, rfl⟩⟩ := of_get_changeRow hget
    · exact (hstate.rows other row hrow).congr (hchange row)
    · exact hstate.rows other row' hrow
  · obtain ⟨row, hrow, ⟨rfl, rfl⟩ | ⟨-, rfl⟩⟩ := of_get_changeRow hget
    · exact absurd hfree (hstate.locks.not_free hholds)
    · exact hstate.free hfails other row' hrow hfree

/-- The holder of the lock moves the watch to triggered. -/
theorem guarantee_trigger (hunrecorded : Unrecorded thread state)
    (hprogress : state.inProgress.get thread = some id)
    (hmoved : ∀ row, state.watches.get id = some row → row.watch.status ≠ .triggered)
    (hterminal : setting.terminalLapses = true → ∀ row, state.watches.get id = some row →
      row.watch.status.isTerminal = false) :
    Guarantee (Sound setting initial) (Rely setting) thread state (state.trigger thread id) := by
  obtain ⟨hsound, hrely⟩ := guarantee_changeRow hstate hholds (Row.setStatus .triggered)
    fun _ ↦ rfl
  have hrecorded : Unrecorded thread (state.changeRow id (Row.setStatus .triggered)) :=
    unrecorded_changeRow hunrecorded fun _ _ ↦ .inl
  unfold State.trigger
  cases hget : state.watches.get id with
  | none => exact ⟨hsound, hrely⟩
  | some row =>
    have hold : ∀ t, t ∈ (⟨thread, id, row.watch.status⟩ :: state.transitions : List Transition) →
        t.thread ≠ thread → t ∈ state.transitions := by
      rintro t ht hne
      rcases mem_cons.mp ht with rfl | ht
      · exact absurd rfl hne
      · exact ht
    refine ⟨{ hsound with rows := ?_, moved := ?_, pending := ?_, terminal := ?_ },
      fun other hother ↦ { hrely other hother with
        transitions := fun t ht hown ↦ hold t ht (hown ▸ hother)
        kept := subset_cons_self _ _ }⟩
    · intro other row' hget'
      refine ⟨(hsound.rows other row' hget').counted, fun evaluation hmem ↦ ?_⟩
      rw [(hsound.rows other row' hget').alerts evaluation hmem]
      -- An evaluation that is recorded is not one of this thread.
      have hne : evaluation.thread ≠ thread := hrecorded other row' hget' evaluation hmem
      constructor
      · rintro ⟨t, ht, hthread, hwatch⟩
        exact ⟨t, mem_cons_of_mem _ ht, hthread, hwatch⟩
      · rintro ⟨t, ht, hthread, hwatch⟩
        exact ⟨t, hold t ht (hthread ▸ hne), hthread, hwatch⟩
    · exact forall_mem_cons.mpr ⟨hmoved row hget, hstate.moved⟩
    · exact fun hlapses ↦ forall_mem_cons.mpr ⟨.inr hprogress, hstate.pending hlapses⟩
    · exact fun hlapses ↦ forall_mem_cons.mpr ⟨hterminal hlapses row hget, hstate.terminal hlapses⟩

/-- The holder records its evaluation and releases the lock. -/
theorem guarantee_release {outcome : Option Bool} {hasAlert : Bool}
    (hmoves : Moves thread id hasAlert state)
    (hrow : setting.storeFails = false → ∀ row, state.watches.get id = some row →
      row.Checked (initial id) outcome) :
    Guarantee (Sound setting initial) (Rely setting) thread state
      (state.release thread id address outcome hasAlert) := by
  refine ⟨{ hstate with
    locks := hstate.locks.release
    rows := fun other row' hget ↦ ?_
    free := fun hfails other row' hget hfree ↦ ?_ }, fun other hother ↦
    { rely_changeRow hstate hholds hother (Row.record thread outcome hasAlert)
        fun row evaluation hmem ↦ ?_ with
      locks := KeyedMutex.frame_release hother hholds
      reading := Table.get_erase_of_ne _ hother }⟩
  · obtain ⟨row, hget', ⟨rfl, rfl⟩ | ⟨-, rfl⟩⟩ := of_get_changeRow hget
    · have hold := hstate.rows other row hget'
      refine ⟨fun hfails ↦ (hold.counted hfails).record (hrow hfails row hget') thread hasAlert,
        forall_mem_cons.mpr ⟨⟨hmoves.moved, ?_⟩, hold.alerts⟩⟩
      rintro ⟨t, ht, hthread, -⟩
      exact (hmoves.only t ht hthread).1
    · exact hstate.rows other row' hget'
  · obtain ⟨row, hget', ⟨rfl, rfl⟩ | ⟨hne, rfl⟩⟩ := of_get_changeRow hget
    · exact (hrow hfails row hget').record thread hasAlert
    · exact hstate.free hfails other row' hget' (hstate.locks.free_of_release hholds hne hfree)
  · rcases mem_cons.mp hmem with rfl | hmem
    · exact .inr (Ne.symm hother)
    · exact .inl hmem

end

/-- Watches are closed by somebody who need not hold their locks. -/
theorem guarantee_close {change : Bytes → Row → Row}
    (hchange : ∀ id row, state.watches.get id = some row → change id row = row ∨
      (setting.terminalLapses = true → ∀ reader, state.reading.get reader ≠ some id) ∧
        ∃ status : WatchStatus, status.isTerminal = true ∧ change id row = row.setStatus status) :
    Guarantee (Sound setting initial) (Rely setting) thread state
      { state with watches := state.watches.update change } := by
  have hrow : ∀ id row', (state.watches.update change).get id = some row' →
      ∃ row, state.watches.get id = some row ∧ row' = change id row := by
    intro id row' hget
    rw [Table.get_update, Option.map_eq_some_iff] at hget
    obtain ⟨row, hget, rfl⟩ := hget
    exact ⟨row, hget, rfl⟩
  have hsame : ∀ id row, state.watches.get id = some row →
      (change id row).evaluations = row.evaluations ∧
        (change id row).watch.consecutiveBreaches = row.watch.consecutiveBreaches := by
    intro id row hget
    rcases hchange id row hget with heq | ⟨-, status, -, heq⟩ <;> rw [heq] <;> exact ⟨rfl, rfl⟩
  refine ⟨{ hstate with
    rows := fun id row' hget ↦ ?_
    free := fun hfails id row' hget hfree ↦ ?_ }, fun other hother ↦
    { (Rely.refl : Rely setting other state state) with
      row := fun id address row' hheld hget ↦ ?_
      unrecorded := fun hunrecorded id row' hget evaluation hmem ↦ ?_ }⟩
  · obtain ⟨row, hold, rfl⟩ := hrow id row' hget
    exact (hstate.rows id row hold).congr (hsame id row hold).1
  · obtain ⟨row, hold, rfl⟩ := hrow id row' hget
    have hchecked := hstate.free hfails id row hold hfree
    unfold Row.Checked Row.results at hchecked ⊢
    rwa [(hsame id row hold).1, (hsame id row hold).2]
  · obtain ⟨row, hold, rfl⟩ := hrow id row' hget
    refine ⟨row, hold, (hchange id row hold).imp_right fun ⟨hreader, hstatus⟩ ↦ ⟨?_, hstatus⟩⟩
    exact fun ⟨hlapses, hreading⟩ ↦ hreader hlapses other hreading
  · obtain ⟨row, hold, rfl⟩ := hrow id row' hget
    rw [(hsame id row hold).1] at hmem
    exact hunrecorded id row hold evaluation hmem

end Invariant

end OpenTrace.Watcher
