import OpenTrace.Watcher.Evaluation

/-!
# Counting, alerting and closing under concurrency

What holds in every run of the scheduler, the stream evaluator and the writers that close watches.

* `breach_counting_exact`: as long as the store does not fail, every evaluation stores the length of
  the current run of breaches, in the order of the lock, and asks for an alert exactly if it moved the
  watch to triggered.
* `triggered_has_alert`: a transition has its alert once no evaluation of the watch is in progress,
  unless the creation of an alert fails.
* `terminal_stays_terminal`: no evaluation moves a resolved or expired watch to triggered, unless it
  reads such a watch or the watch is closed while it is being evaluated.
-/

namespace OpenTrace.Watcher

open Library List System

/-! ### Settings without lapses -/

section NeverLapses

variable {setting : Setting} {thread : ℕ} {id : Bytes}

theorem act_neverLapses {α : Type} (update : Input → State → State) (result : Input → State → α) :
    (act update result).NeverLapses :=
  Prog.NeverLapses.atomically fun _ _ ↦ rfl

theorem close_neverLapses (hterminal : setting.terminalLapses = false) (status : WatchStatus) :
    (close setting id status).NeverLapses :=
  Prog.NeverLapses.atomically fun _ _ ↦ by rw [hterminal]; rfl

theorem unlock_neverLapses (address : ℕ) (outcome : Option Bool) (hasAlert : Bool) :
    (unlock thread id address outcome hasAlert).NeverLapses :=
  (act_neverLapses _ _).bind fun _ ↦ act_neverLapses _ _

theorem evaluateLocked_neverLapses (w : Watch) :
    (evaluateLocked setting thread id w).NeverLapses := by
  refine (act_neverLapses _ _).bind fun measured ↦ ?_
  cases measured with
  | error failure => exact .ret _
  | ok breached =>
    refine (act_neverLapses _ _).bind fun ok ↦ .ite (.ret _) (.ite (.ret _) (.ite (.ret _)
      (.ite (.ret _) ?_)))
    exact (act_neverLapses _ _).bind fun ok ↦ .ite (.ret _) (.ret _)

theorem recordFailedCheck_neverLapses (w : Watch) (failure : Failure) :
    (recordFailedCheck setting id w failure).NeverLapses := by
  cases failure with
  | invalidConfig => exact act_neverLapses _ _
  | transient => exact (act_neverLapses _ _).bind fun _ ↦ .ret _

theorem evaluate_neverLapses (hterminal : setting.terminalLapses = false) :
    (evaluate setting thread id).NeverLapses := by
  have hacquire : ∀ address, (acquireLock thread address).NeverLapses :=
    fun _ ↦ Prog.NeverLapses.atomically fun _ _ ↦ rfl
  have hread : (getByID setting thread id).NeverLapses :=
    Prog.NeverLapses.atomically fun _ _ ↦ by rw [hterminal]; rfl
  refine (act_neverLapses _ _).bind fun address ↦ (hacquire address).bind fun _ ↦ hread.bind fun cur ↦ ?_
  cases cur with
  | none => exact (unlock_neverLapses _ _ _).bind fun _ ↦ .ret _
  | some w =>
    refine (evaluateLocked_neverLapses w).bind fun result ↦ ?_
    cases result with
    | error failure =>
      exact (recordFailedCheck_neverLapses w failure).bind fun _ ↦
        (unlock_neverLapses _ _ _).bind fun _ ↦ .ret _
    | ok result => exact (unlock_neverLapses _ _ _).bind fun _ ↦ .ret _

section

variable (halert : setting.alertLapses = false) (hterminal : setting.terminalLapses = false)

include halert hterminal

theorem evaluateAndAlert_neverLapses : (evaluateAndAlert setting thread id).NeverLapses := by
  have hcreate : (createAlert setting thread id).NeverLapses :=
    Prog.NeverLapses.atomically fun _ _ ↦ by rw [halert]; rfl
  refine (act_neverLapses _ _).bind fun run ↦ .ite ?_ (.ret _)
  refine (evaluate_neverLapses hterminal).bind fun result ↦ ?_
  cases result with
  | none => exact act_neverLapses _ _
  | some result =>
    exact .ite (hcreate.bind fun _ ↦ act_neverLapses _ _) (act_neverLapses _ _)

theorem lapsed_eq_false (state : State) (events : List (Event Call Input)) :
    ((system setting).run (start state) events).lapsed = false := by
  have hlisted : ∀ thread id, (listActive setting id >>= fun listed ↦
      if listed then evaluateAndAlert setting thread id else pure ()).NeverLapses :=
    fun _ _ ↦ (act_neverLapses _ _).bind fun _ ↦
      .ite (evaluateAndAlert_neverLapses halert hterminal) (.ret _)
  refine lapsed_run (fun call thread ↦ ?_) state events
  cases call with
  | tick id => exact hlisted thread id
  | evaluateMatching id => exact hlisted thread id
  | checkTriggeredWatch id =>
    refine (act_neverLapses _ _).bind fun listed ↦ ?_
    cases listed with
    | none => exact .ret _
    | some row =>
      refine (act_neverLapses _ _).bind fun now ↦ .ite (close_neverLapses hterminal _) ?_
      exact (act_neverLapses _ _).bind fun _ ↦ .ite (close_neverLapses hterminal _) (.ret _)
  | cleanup => exact Prog.NeverLapses.atomically fun _ _ ↦ by rw [hterminal]; rfl
  | resolve id => exact close_neverLapses hterminal _

end

end NeverLapses

/-! ### Runs -/

/-- The counter of each watch at the start. -/
def initialCounter (watches : Table Bytes Watch) (id : Bytes) : ℕ :=
  ((watches.get id).map Watch.consecutiveBreaches).getD 0

theorem sound_run (setting : Setting) (watches : Table Bytes Watch) (events : List (Event Call Input))
    (hlapsed : ((system setting).run (start (opened watches)) events).lapsed = false) :
    Sound setting (initialCounter watches)
      ((system setting).run (start (opened watches)) events).state := by
  refine (verified setting (initialCounter watches)).run (sound_opened _ _ watches ?_) (fun thread ↦ ?_)
    events hlapsed
  · intro id watch hget
    rw [initialCounter, hget]
    rfl
  · refine ⟨fun id row hget evaluation hmem ↦ ?_, fun t ht ↦ absurd ht not_mem_nil⟩
    rw [← Table.mem_rows] at hget
    obtain ⟨found, -, heq⟩ := mem_map.mp hget
    rw [← (Prod.mk.inj heq).2] at hmem
    cases hmem

/-- A failed evaluation stores what its predecessor stored. -/
theorem Row.Counted.stored_of_failed {initial : ℕ} {row : Row} (hrow : row.Counted initial)
    {later : List Evaluation} {evaluation : Evaluation} {earlier : List Evaluation}
    (hsplit : row.evaluations = later ++ evaluation :: earlier) (hfailed : evaluation.outcome = none) :
    evaluation.stored = (earlier.head?.map Evaluation.stored).getD initial := by
  rw [hrow later evaluation earlier hsplit, filterMap_cons_none hfailed]
  cases earlier with
  | nil => rfl
  | cons previous earlier =>
    rw [← hrow (later ++ [evaluation]) previous earlier (by simp [hsplit])]
    rfl

theorem breach_counting_exact (watches : Table Bytes Watch) (events : List (Event Call Input))
    (id : Bytes) (watch : Watch) (row : Row) (hwatch : watches.get id = some watch)
    (hrow : ((system ⟨false, false, false⟩).run (start (opened watches)) events).state.watches.get
      id = some row) :
    (∀ later evaluation earlier, row.evaluations = later ++ evaluation :: earlier →
      evaluation.stored = runLength watch.consecutiveBreaches
        ((evaluation :: earlier).filterMap Evaluation.outcome) ∧
      (evaluation.outcome = none → evaluation.stored =
        (earlier.head?.map Evaluation.stored).getD watch.consecutiveBreaches) ∧
      (evaluation.hasAlert = true ↔
        ∃ t ∈ ((system ⟨false, false, false⟩).run (start (opened watches)) events).state.transitions,
          t.thread = evaluation.thread ∧ t.watch = id ∧ t.before ≠ .triggered)) ∧
    (((system ⟨false, false, false⟩).run (start (opened watches)) events).state.locks.Free id →
      row.watch.consecutiveBreaches = runLength watch.consecutiveBreaches row.results) := by
  have hsound := sound_run ⟨false, false, false⟩ watches events (lapsed_eq_false rfl rfl _ events)
  have hinitial : initialCounter watches id = watch.consecutiveBreaches := by
    rw [initialCounter, hwatch]
    rfl
  have hcounted := (hsound.rows id row hrow).counted rfl
  rw [hinitial] at hcounted
  refine ⟨fun later evaluation earlier hsplit ↦ ⟨hcounted later evaluation earlier hsplit,
    hcounted.stored_of_failed hsplit, ?_⟩, fun hfree ↦ hinitial ▸ hsound.free rfl id row hrow hfree⟩
  rw [(hsound.rows id row hrow).alerts evaluation (by simp [hsplit])]
  constructor
  · rintro ⟨t, ht, hthread, hid⟩
    exact ⟨t, ht, hthread, hid, hsound.moved t ht⟩
  · rintro ⟨t, ht, hthread, hid, -⟩
    exact ⟨t, ht, hthread, hid⟩

/-- A watch that triggers on its first breach. -/
def sampleWatch : Watch := ⟨.active, 1, 0, some 50⟩

def sampleWatches : Table Bytes Watch := Table.empty.set (ascii "w") sampleWatch

/-- A store call that succeeds, at time 0, with a measurement. -/
def measuring (measured : Except Failure Bool) : Input := ⟨true, 0, true, measured, false⟩

/-- A stream evaluation that breaches, then one by the scheduler that fails. -/
def breachThenFailure : List (Event Call Input) :=
  [.call (.evaluateMatching (ascii "w")), .call (.tick (ascii "w")), .run 1 (measuring (.ok true))] ++
    replicate 12 (.run 0 (measuring (.ok true))) ++
    replicate 12 (.run 1 (measuring (.error .transient)))

def sampleRow : Row := ⟨⟨.triggered, 1, 1, some 50⟩, [⟨1, none, 1, false⟩, ⟨0, some true, 1, true⟩]⟩

theorem breach_counting_exact_witness :
    ((system ⟨false, false, false⟩).run (start (opened sampleWatches))
      breachThenFailure).state.watches.get (ascii "w") = some sampleRow ∧
    sampleRow.watch.consecutiveBreaches = runLength 0 sampleRow.results := by
  have hrow : ((system ⟨false, false, false⟩).run (start (opened sampleWatches))
      breachThenFailure).state.watches.get (ascii "w") = some sampleRow := by decide +kernel
  refine ⟨hrow, (breach_counting_exact sampleWatches breachThenFailure (ascii "w") sampleWatch
    sampleRow (by decide +kernel) hrow).2 fun address hget ↦ ?_⟩
  cases hget

theorem triggered_has_alert (watches : Table Bytes Watch) (events : List (Event Call Input))
    (hlapsed : ((system ⟨true, true, false⟩).run (start (opened watches)) events).lapsed = false) :
    ∀ t ∈ ((system ⟨true, true, false⟩).run (start (opened watches)) events).state.transitions,
      (∀ thread, ((system ⟨true, true, false⟩).run (start (opened watches))
        events).state.inProgress.get thread ≠ some t.watch) →
      ⟨t.watch, t.thread⟩ ∈
        ((system ⟨true, true, false⟩).run (start (opened watches)) events).state.alerts := by
  intro t ht hidle
  exact ((sound_run _ watches events hlapsed).pending rfl t ht).resolve_right (hidle t.thread)

theorem triggered_has_alert_witness :
    ⟨ascii "w", 0⟩ ∈ ((system ⟨true, true, false⟩).run (start (opened sampleWatches))
      breachThenFailure).state.alerts := by
  refine triggered_has_alert sampleWatches breachThenFailure (by decide +kernel)
    ⟨0, ascii "w", .active⟩ (by decide +kernel) fun thread ↦ ?_
  intro hget
  cases hget

/-- A stream evaluation whose alert cannot be created. -/
def alertFails : List (Event Call Input) :=
  .call (.evaluateMatching (ascii "w")) :: replicate 10 (.run 0 (measuring (.ok true))) ++
    [.run 0 { measuring (.ok true) with ok := false }, .run 0 (measuring (.ok true))]

/-- The watch is triggered for good, nothing is in progress, and there is no alert. -/
theorem failed_alert_is_lost : (((system ⟨true, true, false⟩).run (start (opened sampleWatches))
      alertFails).state.watches.get (ascii "w")).map (fun row ↦ row.watch.status) = some .triggered ∧
    ((system ⟨true, true, false⟩).run (start (opened sampleWatches))
      alertFails).state.transitions = [⟨0, ascii "w", .active⟩] ∧
    ((system ⟨true, true, false⟩).run (start (opened sampleWatches))
      alertFails).state.inProgress.rows = [] ∧
    ((system ⟨true, true, false⟩).run (start (opened sampleWatches))
      alertFails).state.alerts = [] := by
  decide +kernel

theorem terminal_stays_terminal (watches : Table Bytes Watch) (events : List (Event Call Input))
    (hlapsed : ((system ⟨true, false, true⟩).run (start (opened watches)) events).lapsed = false) :
    ∀ t ∈ ((system ⟨true, false, true⟩).run (start (opened watches)) events).state.transitions,
      t.before ≠ .resolved ∧ t.before ≠ .expired := by
  intro t ht
  have hterminal := (sound_run _ watches events hlapsed).terminal rfl t ht
  constructor <;> rintro hbefore <;> rw [hbefore] at hterminal <;> cases hterminal

/-- A watch triggers, and only then expires. -/
def triggerThenExpire : List (Event Call Input) :=
  breachThenFailure ++ [.call (.checkTriggeredWatch (ascii "w"))] ++
    replicate 4 (.run 2 { measuring (.ok true) with now := 60 })

theorem terminal_stays_terminal_witness :
    (((system ⟨true, false, true⟩).run (start (opened sampleWatches))
      triggerThenExpire).state.watches.get (ascii "w")).map (fun row ↦ row.watch.status) =
        some .expired ∧
    (⟨0, ascii "w", .active⟩ : Transition).before ≠ .expired :=
  ⟨by decide +kernel, (terminal_stays_terminal sampleWatches triggerThenExpire (by decide +kernel)
    ⟨0, ascii "w", .active⟩ (by decide +kernel)).2⟩

/-- The stream evaluator lists the watch, the scheduler expires it, and the evaluation goes on. -/
def expiresAfterListing : List (Event Call Input) :=
  [.call (.evaluateMatching (ascii "w")), .call .cleanup, .run 0 (measuring (.ok true)),
    .run 1 { measuring (.ok true) with now := 60 }] ++
    replicate 12 (.run 0 { measuring (.ok true) with now := 60 })

theorem expired_watch_triggers :
    ⟨0, ascii "w", .expired⟩ ∈ ((system ⟨true, false, true⟩).run (start (opened sampleWatches))
      expiresAfterListing).state.transitions ∧
    (((system ⟨true, false, true⟩).run (start (opened sampleWatches))
      expiresAfterListing).state.watches.get (ascii "w")).map (fun row ↦ row.watch.status) =
        some .triggered := by
  decide +kernel

end OpenTrace.Watcher
