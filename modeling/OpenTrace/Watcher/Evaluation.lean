import OpenTrace.Watcher.Invariant

/-!
# Evaluations meet their guarantees

One specification for each program of the watch evaluation, from the store calls up to the scheduler
and the stream evaluator, and from them that no run breaks the invariant unless a step lapses.
-/

namespace OpenTrace.Watcher

open Library Option Bool Prog

/-! ### Assertions -/

/-- The thread holds the lock of the watch and has not ended its evaluation. -/
structure Under (thread : ℕ) (id : Bytes) (address : ℕ) (hasAlert : Bool) (onRow : Row → Prop)
    (state : State) : Prop where
  holds : state.locks.Holds thread id address
  unrecorded : Unrecorded thread state
  moves : Moves thread id hasAlert state
  inProgress : state.inProgress.get thread = some id
  row : ∀ row, state.watches.get id = some row → onRow row

/-- It has also read the row. -/
structure Reading (thread : ℕ) (id : Bytes) (address : ℕ) (onRow : Row → Prop) (state : State) : Prop
    extends Under thread id address false onRow state where
  reading : state.reading.get thread = some id

/-- The row counts an outcome, as far as the store does not fail. -/
def Counts (setting : Setting) (initial : ℕ) (outcome : Option Bool) (row : Row) : Prop :=
  setting.storeFails = false → row.Checked initial outcome

/-- What is left of the row as the evaluation read it. -/
structure AsRead (setting : Setting) (initial : ℕ) (w : Watch) (outcome : Option Bool) (row : Row) :
    Prop where
  counts : Counts setting initial outcome row
  read : setting.storeFails = false → w.consecutiveBreaches = runLength initial row.results
  status : row.watch.status = .triggered → w.status = .triggered
  terminal : setting.terminalLapses = true → row.watch.status.isTerminal = false

/-- The evaluation has started. -/
structure Ready (thread : ℕ) (id : Bytes) (state : State) : Prop where
  unrecorded : Unrecorded thread state
  moves : Moves thread id false state
  inProgress : state.inProgress.get thread = some id

/-- The evaluation has ended, and its alert is not created yet. -/
structure Ended (thread : ℕ) (id : Bytes) (hasAlert : Bool) (state : State) : Prop where
  moves : Moves thread id hasAlert state
  inProgress : state.inProgress.get thread = some id

/-- Every transition of the thread has its alert, if failures to create one are lapses. -/
def Reported (setting : Setting) (thread : ℕ) (state : State) : Prop :=
  setting.alertLapses = true → ∀ t ∈ state.transitions, t.thread = thread →
    ⟨t.watch, t.thread⟩ ∈ state.alerts

/-- A thread before its first step. -/
structure Fresh (thread : ℕ) (state : State) : Prop where
  unrecorded : Unrecorded thread state
  unmoved : ∀ t ∈ state.transitions, t.thread ≠ thread

section Programs

variable {setting : Setting} {initial : Bytes → ℕ} {thread : ℕ} {id : Bytes} {address : ℕ}

theorem Moves.congr {hasAlert : Bool} {state after : State} (hmoves : Moves thread id hasAlert state)
    (hsame : after.transitions = state.transitions) : Moves thread id hasAlert after :=
  ⟨hsame ▸ hmoves.moved, hsame ▸ hmoves.only⟩

theorem stable_moves (hasAlert : Bool) :
    Stable (Sound setting initial) (Rely setting) thread (Moves thread id hasAlert) := by
  intro before after _ _ hrely hmoves
  refine ⟨fun halert ↦ ?_, fun t ht hthread ↦ ?_⟩
  · obtain ⟨t, ht, hboth⟩ := hmoves.moved halert
    exact ⟨t, hrely.kept ht, hboth⟩
  · exact hmoves.only t (hrely.transitions t ht hthread) hthread

theorem stable_fresh : Stable (Sound setting initial) (Rely setting) thread (Fresh thread) :=
  fun _ _ _ _ hrely hfresh ↦ ⟨hrely.unrecorded hfresh.unrecorded, fun t ht hthread ↦
    hfresh.unmoved t (hrely.transitions t ht hthread) hthread⟩

theorem stable_ready : Stable (Sound setting initial) (Rely setting) thread (Ready thread id) :=
  fun before after hbefore hafter hrely hready ↦ ⟨hrely.unrecorded hready.unrecorded,
    stable_moves _ before after hbefore hafter hrely hready.moves,
    hrely.inProgress.trans hready.inProgress⟩

theorem stable_ended (hasAlert : Bool) :
    Stable (Sound setting initial) (Rely setting) thread (Ended thread id hasAlert) :=
  fun before after hbefore hafter hrely hended ↦
    ⟨stable_moves _ before after hbefore hafter hrely hended.moves,
      hrely.inProgress.trans hended.inProgress⟩

theorem stable_reported :
    Stable (Sound setting initial) (Rely setting) thread (Reported setting thread) :=
  fun _ _ _ _ hrely hreported hlapses t ht hthread ↦
    hrely.alerts (hreported hlapses t (hrely.transitions t ht hthread) hthread)

theorem stable_entered : Stable (Sound setting initial) (Rely setting) thread
    fun state ↦ state.locks.Entered thread id address :=
  fun _ _ _ _ hrely hentered ↦ (hrely.locks.entered _ _).mpr hentered

/-- Under the lock the others can only close the row. -/
theorem stable_under (hasAlert : Bool) {onRow : Row → Prop}
    (hlasting : ∀ row status, onRow row → onRow (row.setStatus status)) :
    Stable (Sound setting initial) (Rely setting) thread
      (Under thread id address hasAlert onRow) := by
  intro before after hbefore hafter hrely hunder
  refine ⟨(hrely.locks.holds _ _).mpr hunder.holds, hrely.unrecorded hunder.unrecorded,
    stable_moves _ before after hbefore hafter hrely hunder.moves,
    hrely.inProgress.trans hunder.inProgress, fun row' hget ↦ ?_⟩
  obtain ⟨row, hrow, rfl | ⟨-, status, -, rfl⟩⟩ := hrely.row id address row' hunder.holds hget
  · exact hunder.row _ hrow
  · exact hlasting row status (hunder.row row hrow)

theorem stable_reading {w : Watch} {outcome : Option Bool} :
    Stable (Sound setting initial) (Rely setting) thread
      (Reading thread id address (AsRead setting (initial id) w outcome)) := by
  intro before after hbefore hafter hrely hreading
  refine ⟨⟨(hrely.locks.holds _ _).mpr hreading.holds, hrely.unrecorded hreading.unrecorded,
    stable_moves _ before after hbefore hafter hrely hreading.moves,
    hrely.inProgress.trans hreading.inProgress, fun row' hget ↦ ?_⟩,
    hrely.reading.trans hreading.reading⟩
  obtain ⟨row, hrow, hsame | ⟨hunread, status, hstatus, rfl⟩⟩ :=
    hrely.row id address row' hreading.holds hget
  · exact hsame ▸ hreading.row _ hrow
  · have hread := hreading.row row hrow
    refine ⟨hread.counts, hread.read, fun htriggered ↦ ?_, fun hlapses ↦ ?_⟩
    · simp only [Row.setStatus] at htriggered
      rw [htriggered] at hstatus
      cases hstatus
    · exact absurd ⟨hlapses, hreading.reading⟩ hunread

/-! ### Store calls of an evaluation -/

theorem load_ok {α : Type} {assertion : State → Prop}
    (hstable : Stable (Sound setting initial) (Rely setting) thread assertion)
    (result : Input → State → α) :
    (load result).Ok (Sound setting initial) (Rely setting) thread assertion fun _ ↦ assertion :=
  Ok.atomically hstable
    fun _ _ hstate hholds _ _ ↦ ⟨guarantee_refl hstate, hholds⟩

theorem Under.changeRow {hasAlert : Bool} {onRow onRow' : Row → Prop} {change : Row → Row}
    {state : State} (hunder : Under thread id address hasAlert onRow state)
    (hchange : ∀ row, (change row).evaluations = row.evaluations)
    (hrow : ∀ row, onRow row → onRow' (change row)) :
    Under thread id address hasAlert onRow' (state.changeRow id change) where
  holds := hunder.holds
  unrecorded := unrecorded_changeRow hunder.unrecorded fun row _ hmem ↦ .inl (hchange row ▸ hmem)
  moves := hunder.moves.congr rfl
  inProgress := hunder.inProgress
  row := fun row' hget ↦ by
    obtain ⟨row, hold, ⟨-, rfl⟩ | ⟨hne, -⟩⟩ := of_get_changeRow hget
    · exact hrow row (hunder.row row hold)
    · exact absurd rfl hne

/-- Without a row there is nothing to say of it. -/
theorem Under.of_missing {hasAlert : Bool} {onRow : Row → Prop} {state : State}
    (hunder : Under thread id address hasAlert onRow state)
    (hmissing : state.watches.get id = none) (onRow' : Row → Prop) :
    Under thread id address hasAlert onRow' state :=
  { hunder with row := fun row hget ↦ by simp [hmissing] at hget }

/-- A store call changes something only if it may and does succeed. -/
theorem succeeds_eq_false {input : Input} (hfails : setting.succeeds input = false) :
    setting.storeFails = true := by
  unfold Setting.succeeds at hfails
  cases hstore : setting.storeFails with
  | false => rw [hstore] at hfails; cases hfails
  | true => rfl

theorem updateAfterCheck_ok {w : Watch} (outcome : Option Bool) {breaches : ℕ}
    (hbreaches : ∀ results, w.consecutiveBreaches = runLength (initial id) results →
      breaches = runLength (initial id) (outcome.toList ++ results)) :
    (updateAfterCheck setting id breaches).Ok (Sound setting initial) (Rely setting) thread
      (Reading thread id address (AsRead setting (initial id) w none))
      fun ok ↦ Reading thread id address
        (AsRead setting (initial id) w (if ok then outcome else none)) := by
  refine Ok.atomically stable_reading
    fun input state hstate hreading _ _ ↦ ?_
  cases hok : setting.succeeds input with
  | false => simpa [hok] using ⟨guarantee_refl hstate, hreading⟩
  | true =>
    refine ⟨guarantee_changeRow hstate hreading.holds _ fun _ ↦ rfl, ?_, hreading.reading⟩
    cases hget : state.watches.get id with
    | none =>
      exact (hreading.toUnder.of_missing hget fun _ ↦ False).changeRow (fun _ ↦ rfl) fun _ ↦ False.elim
    | some row =>
      refine hreading.toUnder.changeRow (fun _ ↦ rfl) fun row hread ↦ ?_
      exact ⟨fun hfails ↦ hbreaches _ (hread.read hfails), hread.read, hread.status, hread.terminal⟩

theorem updateTriggered_ok {w : Watch} (hstatus : w.status ≠ .triggered) :
    (updateTriggered setting thread id).Ok (Sound setting initial) (Rely setting) thread
      (Reading thread id address (AsRead setting (initial id) w (some true)))
      fun ok state ↦ if ok then Under thread id address true (Counts setting (initial id) (some true)) state
        else Reading thread id address (AsRead setting (initial id) w none) state := by
  refine Ok.atomically stable_reading
    fun input state hstate hreading _ _ ↦ ?_
  cases hok : setting.succeeds input with
  | false =>
    have hfails := succeeds_eq_false hok
    refine ⟨by simpa using guarantee_refl hstate, ?_⟩
    refine { hreading with row := fun row hget ↦ ?_ }
    have hread := hreading.row row hget
    exact ⟨fun hsound ↦ by simp [hfails] at hsound, hread.read, hread.status, hread.terminal⟩
  | true =>
    refine ⟨guarantee_trigger hstate hreading.holds hreading.unrecorded hreading.inProgress
      (fun row hget htriggered ↦ hstatus ((hreading.row row hget).status htriggered))
      fun hlapses row hget ↦ (hreading.row row hget).terminal hlapses, ?_⟩
    unfold State.trigger
    cases hget : state.watches.get id with
    | none =>
      exact ⟨(hreading.toUnder.of_missing hget fun _ ↦ False).changeRow (fun _ ↦ rfl)
        fun _ ↦ False.elim, hreading.reading⟩
    | some row =>
      have hafter : Under thread id address false (Counts setting (initial id) (some true))
          (state.changeRow id (Row.setStatus .triggered)) :=
        hreading.toUnder.changeRow (fun _ ↦ rfl) fun row hread ↦ hread.counts
      refine { hafter with moves := ⟨fun _ ↦ ⟨_, List.mem_cons_self, rfl, rfl⟩, fun t ht hthread ↦ ?_⟩ }
      rcases List.mem_cons.mp ht with rfl | ht
      · exact ⟨rfl, rfl⟩
      · exact absurd (hreading.moves.only t ht hthread).1 false_ne_true

theorem disable_ok {w : Watch} :
    (disable setting id).Ok (Sound setting initial) (Rely setting) thread
      (Reading thread id address (AsRead setting (initial id) w none))
      fun _ ↦ Under thread id address false (Counts setting (initial id) none) := by
  refine Ok.atomically stable_reading
    fun input state hstate hreading _ _ ↦ ?_
  split_ifs
  · exact ⟨guarantee_changeRow hstate hreading.holds _ fun _ ↦ rfl,
      hreading.toUnder.changeRow (fun _ ↦ rfl) fun _ hread ↦ hread.counts⟩
  · exact ⟨guarantee_refl hstate,
      { hreading.toUnder with row := fun row hget ↦ (hreading.row row hget).counts }⟩

theorem stable_counts (hasAlert : Bool) (outcome : Option Bool) :
    Stable (Sound setting initial) (Rely setting) thread
      (Under thread id address hasAlert (Counts setting (initial id) outcome)) :=
  stable_under hasAlert fun _ _ hcounts ↦ hcounts

/-- What `GetByID` leaves under the lock. -/
def Read (setting : Setting) (initial : Bytes → ℕ) (thread : ℕ) (id : Bytes) (address : ℕ) :
    Option Watch → State → Prop
  | none => Under thread id address false (Counts setting (initial id) none)
  | some w => Reading thread id address (AsRead setting (initial id) w none)

theorem getByID_ok : (getByID setting thread id).Ok (Sound setting initial) (Rely setting) thread
      (Under thread id address false (Counts setting (initial id) none))
      (Read setting initial thread id address) := by
  refine Ok.atomically (stable_counts _ _)
    fun input state hstate hunder _ hlapses ↦ ?_
  cases hok : setting.succeeds input with
  | false => exact ⟨guarantee_refl hstate, hunder⟩
  | true =>
    refine ⟨guarantee_reading hstate, ?_⟩
    have hafter : Under thread id address false (Counts setting (initial id) none)
        { state with reading := state.reading.set thread id } :=
      { hunder with moves := hunder.moves.congr rfl }
    cases hget : state.watches.get id with
    | none => exact hafter
    | some row =>
      refine ⟨{ hafter with row := fun row' hget' ↦ ?_ }, Table.get_set_self ..⟩
      obtain rfl : row = row' := some.inj (hget.symm.trans hget')
      have hcounts := hunder.row row hget
      refine ⟨hcounts, hcounts, fun htriggered ↦ htriggered, fun hterminal ↦ ?_⟩
      simpa [hterminal, hok, hget] using hlapses

/-! ### Evaluate -/

/-- What an evaluation leaves under the lock. -/
def Evaluated (setting : Setting) (initial : Bytes → ℕ) (thread : ℕ) (id : Bytes) (address : ℕ)
    (w : Watch) : Except Failure WatchEvalResult → State → Prop
  | .error _ => Reading thread id address (AsRead setting (initial id) w none)
  | .ok result =>
    Under thread id address result.hasAlert (Counts setting (initial id) (some result.breached))

theorem evaluateLocked_ok (w : Watch) :
    (evaluateLocked setting thread id w).Ok (Sound setting initial) (Rely setting) thread
      (Reading thread id address (AsRead setting (initial id) w none))
      (Evaluated setting initial thread id address w) := by
  refine (load_ok stable_reading _).bind fun measured ↦ ?_
  cases measured with
  | error failure => exact Ok.ret fun _ _ hholds ↦ hholds
  | ok breached =>
    refine (updateAfterCheck_ok (some breached) fun results hread ↦ ?_).bind fun ok ↦ ?_
    · rw [toList_some, List.singleton_append, runLength_cons, ← hread]
    · cases ok with
      | false => exact Ok.ret fun _ _ hholds ↦ hholds
      | true =>
        have hquiet : (pure (.ok ⟨breached, false⟩) : Action (Except Failure WatchEvalResult)).Ok
            (Sound setting initial) (Rely setting) thread
            (Reading thread id address (AsRead setting (initial id) w (some breached)))
            (Evaluated setting initial thread id address w) :=
          Ok.ret fun _ _ hreading ↦
            { hreading.toUnder with row := fun row hget ↦ (hreading.row row hget).counts }
        refine Ok.ite (fun hfailed ↦ absurd hfailed (by decide)) fun _ ↦ ?_
        cases breached with
        | false => exact hquiet
        | true =>
          refine Ok.ite (fun hcalm ↦ absurd hcalm (by decide)) fun _ ↦
            Ok.ite (fun _ ↦ hquiet) fun _ ↦ Ok.ite (fun _ ↦ hquiet) fun hstatus ↦ ?_
          refine (updateTriggered_ok hstatus).bind fun ok ↦ ?_
          cases ok <;> exact Ok.ret fun _ _ hholds ↦ hholds

theorem recordFailedCheck_ok (w : Watch) (failure : Failure) :
    (recordFailedCheck setting id w failure).Ok (Sound setting initial) (Rely setting) thread
      (Reading thread id address (AsRead setting (initial id) w none))
      fun _ ↦ Under thread id address false (Counts setting (initial id) none) := by
  cases failure with
  | invalidConfig => exact disable_ok
  | transient =>
    refine (updateAfterCheck_ok none fun _ hread ↦ hread).bind fun ok ↦ ?_
    refine Ok.ret fun _ _ hreading ↦ { hreading.toUnder with row := fun row hget ↦ ?_ }
    have hcounts := (hreading.row row hget).counts
    rwa [ite_self] at hcounts

theorem enterLock_ok :
    (enterLock thread id).Ok (Sound setting initial) (Rely setting) thread (Ready thread id)
      fun address state ↦ state.locks.Entered thread id address ∧ Ready thread id state := by
  refine Ok.atomically stable_ready
    fun _ state hstate hready _ _ ↦ ⟨?_, KeyedMutex.entered_enter hstate.locks,
      { hready with moves := hready.moves.congr rfl }⟩
  exact guarantee_locks hstate hstate.locks.enter
    (fun _ ↦ KeyedMutex.frame_enter hstate.locks)
    fun _ ↦ hstate.locks.free_of_enter

theorem acquireLock_ok :
    (acquireLock thread address).Ok (Sound setting initial) (Rely setting) thread
      (fun state ↦ state.locks.Entered thread id address ∧ Ready thread id state)
      fun _ ↦ Under thread id address false (Counts setting (initial id) none) := by
  refine Ok.atomically (stable_entered.and stable_ready)
    fun _ state hstate ⟨hentered, hready⟩ hfree _ ↦ ?_
  have hholder : (state.locks.mutexes address).holder = none := isNone_iff_eq_none.mp hfree
  refine ⟨guarantee_locks hstate (hstate.locks.acquire hentered)
      (fun _ hother ↦ KeyedMutex.frame_acquire hother hholder) fun _ ↦ KeyedMutex.free_of_acquire,
    { hready with
      holds := KeyedMutex.holds_acquire hentered
      moves := hready.moves.congr rfl
      row := fun row hget hfails ↦ ?_ }⟩
  exact hstate.free hfails id row hget (hstate.locks.free_of_holder hentered hholder)

/-- The lock is released, and the thread has not left it yet. -/
structure Released (thread : ℕ) (id : Bytes) (address : ℕ) (hasAlert : Bool) (state : State) : Prop
    extends Ended thread id hasAlert state where
  entered : state.locks.Entered thread id address
  released : ¬ state.locks.Holds thread id address

theorem stable_released (hasAlert : Bool) :
    Stable (Sound setting initial) (Rely setting) thread (Released thread id address hasAlert) :=
  fun before after hbefore hafter hrely hreleased ↦
    ⟨stable_ended _ before after hbefore hafter hrely hreleased.toEnded,
      (hrely.locks.entered _ _).mpr hreleased.entered,
      mt (hrely.locks.holds _ _).mp hreleased.released⟩

theorem unlock_ok {outcome : Option Bool} {hasAlert : Bool} :
    (unlock thread id address outcome hasAlert).Ok (Sound setting initial) (Rely setting) thread
      (Under thread id address hasAlert (Counts setting (initial id) outcome))
      fun _ ↦ Ended thread id hasAlert := by
  have hrelease : (act (fun _ state ↦ state.release thread id address outcome hasAlert)
      fun _ _ ↦ () : Action Unit).Ok (Sound setting initial) (Rely setting) thread
      (Under thread id address hasAlert (Counts setting (initial id) outcome))
      fun _ ↦ Released thread id address hasAlert := by
    refine Ok.atomically (stable_counts _ _)
      fun _ state hstate hunder _ _ ↦ ⟨?_, ⟨hunder.moves.congr rfl, hunder.inProgress⟩,
        KeyedMutex.entered_release hunder.holds, fun hholds ↦ ?_⟩
    · exact guarantee_release hstate hunder.holds hunder.moves
        fun hfails row hget ↦ hunder.row row hget hfails
    · have hholder := hholds.holder
      simp [State.release, KeyedMutex.release] at hholder
  refine hrelease.bind fun _ ↦ Ok.atomically
    (stable_released hasAlert) fun _ state hstate hreleased _ _ ↦
      ⟨?_, hreleased.moves.congr rfl, hreleased.inProgress⟩
  have hholder : (state.locks.mutexes address).holder ≠ some thread :=
    fun hholder ↦ hreleased.released ⟨hreleased.entered, hholder⟩
  exact guarantee_locks hstate (hstate.locks.leave hreleased.entered hholder)
    (fun _ ↦ KeyedMutex.frame_leave)
    fun _ ↦ hstate.locks.free_of_leave hreleased.entered hholder

theorem evaluate_ok :
    (evaluate setting thread id).Ok (Sound setting initial) (Rely setting) thread (Ready thread id)
      fun result ↦ Ended thread id (result.any WatchEvalResult.hasAlert) := by
  refine enterLock_ok.bind fun address ↦ acquireLock_ok.bind fun _ ↦ getByID_ok.bind fun cur ↦ ?_
  cases cur with
  | none => exact unlock_ok.bind fun _ ↦ Ok.ret fun _ _ hended ↦ hended
  | some w =>
    refine (evaluateLocked_ok w).bind fun result ↦ ?_
    cases result with
    | error failure =>
      exact (recordFailedCheck_ok w failure).bind fun _ ↦ unlock_ok.bind fun _ ↦
        Ok.ret fun _ _ hended ↦ hended
    | ok result => exact unlock_ok.bind fun _ ↦ Ok.ret fun _ _ hended ↦ hended

/-! ### Scheduler and stream evaluator -/

theorem createRun_ok :
    (createRun setting thread id).Ok (Sound setting initial) (Rely setting) thread (Fresh thread)
      fun ok state ↦ ok = true → Ready thread id state := by
  refine Ok.atomically stable_fresh
    fun input state hstate hfresh _ _ ↦ ?_
  cases hok : setting.succeeds input with
  | false => exact ⟨guarantee_refl hstate, fun hfailed ↦ by cases hfailed⟩
  | true =>
    refine ⟨guarantee_inProgress hstate (fun _ hother ↦ Table.get_set_of_ne _ hother _)
        fun _ t ht hthread ↦ absurd hthread (hfresh.unmoved t ht), fun _ ↦
      ⟨hfresh.unrecorded, ⟨fun halert ↦ absurd halert false_ne_true, fun t ht hthread ↦ ?_⟩,
        Table.get_set_self ..⟩⟩
    exact absurd hthread (hfresh.unmoved t ht)

theorem createAlert_ok :
    (createAlert setting thread id).Ok (Sound setting initial) (Rely setting) thread
      (Ended thread id true) fun _ ↦ Reported setting thread := by
  refine Ok.atomically (stable_ended true)
    fun input state hstate hended _ hlapses ↦ ?_
  cases hok : setting.succeeds input with
  | false =>
    refine ⟨guarantee_refl hstate, fun halert ↦ ?_⟩
    simp [hok, halert] at hlapses
  | true =>
    refine ⟨guarantee_alert hstate _, fun _ t ht hthread ↦ ?_⟩
    rw [(hended.moves.only t ht hthread).2, hthread]
    exact List.mem_cons_self

theorem finish_ok :
    (finish thread).Ok (Sound setting initial) (Rely setting) thread (Reported setting thread)
      fun _ _ ↦ True :=
  Ok.atomically stable_reported
    fun _ _ hstate hreported _ _ ↦ ⟨guarantee_inProgress hstate
      (fun _ hother ↦ Table.get_erase_of_ne _ hother) hreported, trivial⟩

/-- An evaluation without an alert has nothing to report. -/
theorem Ended.reported {state : State} (hended : Ended thread id false state) :
    Reported setting thread state :=
  fun _ t ht hthread ↦ absurd (hended.moves.only t ht hthread).1 false_ne_true

theorem evaluateAndAlert_ok :
    (evaluateAndAlert setting thread id).Ok (Sound setting initial) (Rely setting) thread
      (Fresh thread) fun _ _ ↦ True := by
  refine createRun_ok.bind fun run ↦ Ok.ite (fun hrun ↦ ?_) fun _ ↦ Ok.ret fun _ _ _ ↦ trivial
  refine (evaluate_ok.pre fun _ _ hready ↦ hready hrun).bind fun result ↦ ?_
  cases result with
  | none => exact finish_ok.pre fun _ _ hended ↦ hended.reported
  | some result =>
    refine Ok.ite (fun halert ↦ ?_) fun hquiet ↦ ?_
    · refine (createAlert_ok.pre fun _ _ hended ↦ ?_).bind fun _ ↦ finish_ok
      rwa [any_some, halert] at hended
    · refine finish_ok.pre fun _ _ hended ↦ ?_
      rw [any_some, eq_false_of_not_eq_true hquiet] at hended
      exact hended.reported

theorem listed_ok : (listActive setting id >>= fun listed ↦
      if listed then evaluateAndAlert setting thread id else pure ()).Ok
      (Sound setting initial) (Rely setting) thread (Fresh thread) fun _ _ ↦ True :=
  (load_ok stable_fresh _).bind fun _ ↦
    Ok.ite (fun _ ↦ evaluateAndAlert_ok) fun _ ↦ Ok.ret fun _ _ _ ↦ trivial

theorem close_ok {status : WatchStatus} (hstatus : status.isTerminal = true) :
    (close setting id status).Ok (Sound setting initial) (Rely setting) thread (fun _ ↦ True)
      fun _ _ ↦ True := by
  refine Ok.atomically Stable.true
    fun input state hstate _ _ hlapses ↦ ⟨?_, trivial⟩
  split_ifs with hok
  · refine guarantee_close hstate fun id' row _ ↦ ?_
    split_ifs with hsame
    · refine .inr ⟨fun hterminal reader hreading ↦ hlapses ?_, status, hstatus, rfl⟩
      simp only [hterminal, hok, Bool.true_and, List.any_eq_true, decide_eq_true_eq]
      exact ⟨(reader, id'), (Table.mem_rows _).mpr hreading, hsame⟩
    · exact .inl rfl
  · exact guarantee_refl hstate

theorem expireWatches_ok :
    (expireWatches setting).Ok (Sound setting initial) (Rely setting) thread (fun _ ↦ True)
      fun _ _ ↦ True := by
  refine Ok.atomically Stable.true
    fun input state hstate _ _ hlapses ↦ ⟨?_, trivial⟩
  split_ifs with hok
  · refine guarantee_close hstate fun id' row hget ↦ ?_
    split_ifs with hexpires
    · refine .inr ⟨fun hterminal reader hreading ↦ hlapses ?_, .expired, rfl, rfl⟩
      simp only [hterminal, hok, Bool.true_and, List.any_eq_true]
      refine ⟨(reader, id'), (Table.mem_rows _).mpr hreading, ?_⟩
      rw [hget]
      exact hexpires
    · exact .inl rfl
  · exact guarantee_refl hstate

theorem checkTriggeredWatch_ok :
    (checkTriggeredWatch setting id).Ok (Sound setting initial) (Rely setting) thread (fun _ ↦ True)
      fun _ _ ↦ True := by
  refine (load_ok Stable.true _).bind fun listed ↦ ?_
  cases listed with
  | none => exact Ok.ret fun _ _ _ ↦ trivial
  | some row =>
    refine (load_ok Stable.true _).bind fun now ↦ Ok.ite (fun _ ↦ close_ok rfl) fun _ ↦ ?_
    exact (load_ok Stable.true _).bind fun _ ↦
      Ok.ite (fun _ ↦ close_ok rfl) fun _ ↦ Ok.ret fun _ _ _ ↦ trivial

theorem verified (setting : Setting) (initial : Bytes → ℕ) :
    (system setting).VerifiedFresh (Sound setting initial) (Rely setting) Fresh where
  call := fun call thread ↦ by
    cases call with
    | tick id => exact listed_ok.pre fun _ _ hholds ↦ hholds.2
    | evaluateMatching id => exact listed_ok.pre fun _ _ hholds ↦ hholds.2
    | checkTriggeredWatch id => exact checkTriggeredWatch_ok.pre fun _ _ _ ↦ trivial
    | cleanup => exact expireWatches_ok.pre fun _ _ _ ↦ trivial
    | resolve id => exact (close_ok rfl).pre fun _ _ _ ↦ trivial
  stable := fun _ ↦ stable_fresh
  crash := fun _ _ _ _ hcrash ↦ by cases hcrash

end Programs

end OpenTrace.Watcher
