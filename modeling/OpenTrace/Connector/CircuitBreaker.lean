import Mathlib.Tactic.NormNum.Basic
import OpenTrace.Library.Machine

/-!
# Circuit breaker

The breaker that guards a connector. Every method holds the breaker's mutex from its first line to
its last and reads the clock once, so the breaker is a machine whose inputs are calls with the
instant at which they read the clock. `breaker_protocol` ties its counters to the history of calls: the
failure counter of a closed breaker counts the failures since the last success or reset, a request
is refused exactly while the last recorded failure is recent, and a breaker that has opened closes
again only by a reset or by enough successes in a half-open phase without a failure.
-/

namespace OpenTrace.Connector

open Library List

/-! ### The breaker -/

inductive CircuitState
  | closed
  | opened
  | halfOpen
  deriving DecidableEq, Repr

/-- `ErrCircuitOpen`. -/
inductive CircuitError
  | circuitOpen
  deriving DecidableEq, Repr

/-- Durations are in nanoseconds. -/
structure CircuitBreakerConfig where
  threshold : ℤ
  resetTimeout : ℤ
  halfOpenMax : ℤ
  deriving DecidableEq, Repr

def defaultCircuitBreakerConfig : CircuitBreakerConfig := ⟨5, 30 * 1000000000, 2⟩

/-- A configuration in which every field is positive. -/
structure Settings extends CircuitBreakerConfig where
  threshold_pos : 0 < threshold
  resetTimeout_pos : 0 < resetTimeout
  halfOpenMax_pos : 0 < halfOpenMax

/-- What `NewCircuitBreaker` makes of a configuration: a field that is not positive is replaced by
its default. -/
def CircuitBreakerConfig.settings (config : CircuitBreakerConfig) : Settings where
  threshold := if config.threshold ≤ 0 then 5 else config.threshold
  resetTimeout := if config.resetTimeout ≤ 0 then 30 * 1000000000 else config.resetTimeout
  halfOpenMax := if config.halfOpenMax ≤ 0 then 2 else config.halfOpenMax
  threshold_pos := by split <;> omega
  resetTimeout_pos := by split <;> omega
  halfOpenMax_pos := by split <;> omega

structure CircuitBreaker where
  state : CircuitState
  failCount : ℤ
  successCount : ℤ
  lastFailTime : ℤ
  settings : Settings

/-- The zero value of `lastFailTime` is never compared with: only a failure opens the breaker. -/
def newCircuitBreaker (config : CircuitBreakerConfig) : CircuitBreaker :=
  ⟨.closed, 0, 0, 0, config.settings⟩

namespace CircuitBreaker

/-- `State`: an open breaker whose timeout has passed shows as half-open. -/
def currentState (now : ℤ) (breaker : CircuitBreaker) : CircuitState :=
  if breaker.state = .opened ∧ breaker.settings.resetTimeout ≤ now - breaker.lastFailTime then
    .halfOpen
  else breaker.state

def allow (now : ℤ) (breaker : CircuitBreaker) : CircuitBreaker × Except CircuitError Unit :=
  match breaker.state with
  | .closed => (breaker, .ok ())
  | .opened =>
    if breaker.settings.resetTimeout ≤ now - breaker.lastFailTime then
      ({ breaker with state := .halfOpen, successCount := 0 }, .ok ())
    else (breaker, .error .circuitOpen)
  | .halfOpen => (breaker, .ok ())

def recordSuccess (breaker : CircuitBreaker) : CircuitBreaker :=
  match breaker.state with
  | .halfOpen =>
    if breaker.settings.halfOpenMax ≤ breaker.successCount + 1 then
      { breaker with state := .closed, failCount := 0, successCount := 0 }
    else { breaker with successCount := breaker.successCount + 1 }
  | .closed => { breaker with failCount := 0 }
  | .opened => breaker

def recordFailure (now : ℤ) (breaker : CircuitBreaker) : CircuitBreaker :=
  match breaker.state with
  | .closed =>
    if breaker.settings.threshold ≤ breaker.failCount + 1 then
      { breaker with
        state := .opened, failCount := breaker.failCount + 1, lastFailTime := now }
    else { breaker with failCount := breaker.failCount + 1, lastFailTime := now }
  | .halfOpen => { breaker with state := .opened, successCount := 0, lastFailTime := now }
  | .opened => { breaker with lastFailTime := now }

def reset (breaker : CircuitBreaker) : CircuitBreaker :=
  { breaker with state := .closed, failCount := 0, successCount := 0 }

end CircuitBreaker

/-! ### Histories -/

inductive Method
  | allow
  | recordSuccess
  | recordFailure
  | state
  | reset
  deriving DecidableEq, Repr

/-- A call and the instant it read the clock. -/
structure Call where
  time : ℤ
  method : Method
  deriving DecidableEq, Repr

/-- What a call returns, if anything. -/
inductive Answer
  | none
  | allowed (result : Except CircuitError Unit)
  | state (state : CircuitState)

def breakerMachine : Machine Call Answer CircuitBreaker where
  step := fun breaker call ↦
    match call.method with
    | .allow => ((breaker.allow call.time).1, .allowed (breaker.allow call.time).2)
    | .recordSuccess => (breaker.recordSuccess, .none)
    | .recordFailure => (breaker.recordFailure call.time, .none)
    | .state => (breaker, .state (breaker.currentState call.time))
    | .reset => (breaker.reset, .none)

/-- The breaker after the calls, from its creation. -/
def breakerAfter (config : CircuitBreakerConfig) (calls : List Call) : CircuitBreaker :=
  breakerMachine.after (newCircuitBreaker config) calls

/-- The number of failures recorded after the last success and after the last reset. A breaker that
closes does so by one of the two. -/
def failuresSince (calls : List Call) : ℕ :=
  (calls.reverse.takeWhile fun call ↦
    call.method ≠ .recordSuccess ∧ call.method ≠ .reset).countP (·.method = .recordFailure)

/-- When the last failure was recorded. -/
def lastFailure (calls : List Call) : Option ℤ :=
  (calls.reverse.find? (·.method = .recordFailure)).map Call.time

def successes (calls : List Call) : ℕ := calls.countP (·.method = .recordSuccess)

/-- After `earlier` the breaker is open, and each of the calls of `phase` leaves it half-open. -/
def HalfOpenPhase (config : CircuitBreakerConfig) (earlier phase : List Call) : Prop :=
  (breakerAfter config earlier).state = .opened ∧ ∀ count, 0 < count → count ≤ phase.length →
      (breakerAfter config (earlier ++ phase.take count)).state = .halfOpen

variable (calls : List Call) (call : Call) {config : CircuitBreakerConfig}
  {breaker : CircuitBreaker}

theorem failuresSince_concat : failuresSince (calls ++ [call]) =
      if call.method = .recordSuccess ∨ call.method = .reset then 0
      else if call.method = .recordFailure then failuresSince calls + 1
      else failuresSince calls := by
  obtain ⟨time, method⟩ := call
  simp only [failuresSince]
  cases method <;> simp

theorem lastFailure_concat : lastFailure (calls ++ [call]) =
      if call.method = .recordFailure then some call.time else lastFailure calls := by
  simp only [lastFailure]
  split_ifs with hfailure <;> simp [hfailure]

theorem successes_concat : successes (calls ++ [call]) =
      successes calls + if call.method = .recordSuccess then 1 else 0 := by
  simp [successes]

theorem HalfOpenPhase.concat {config : CircuitBreakerConfig} {earlier phase : List Call}
    (hphase : HalfOpenPhase config earlier phase) (call : Call)
    (hstate : (breakerAfter config (earlier ++ phase ++ [call])).state = .halfOpen) :
    HalfOpenPhase config earlier (phase ++ [call]) := by
  refine ⟨hphase.1, fun count hpos hcount ↦ ?_⟩
  rcases Nat.lt_or_ge phase.length count with hlong | hshort
  · have hwhole : (phase ++ [call]).take count = phase ++ [call] :=
      take_of_length_le (by rw [length_append, length_singleton]; omega)
    rw [hwhole, ← append_assoc]
    exact hstate
  · rw [take_append_of_le_length hshort]
    exact hphase.2 count hpos hshort

/-! ### What each state says about the history -/

/-- How the counters of the breaker stand to the calls that led to it. -/
structure Recorded (config : CircuitBreakerConfig) (calls : List Call) (breaker : CircuitBreaker) :
    Prop where
  settings : breaker.settings = config.settings
  closed : breaker.state = .closed →
    breaker.failCount = failuresSince calls ∧ breaker.failCount < config.settings.threshold
  opened : breaker.state = .opened → lastFailure calls = some breaker.lastFailTime
  halfOpen : breaker.state = .halfOpen → breaker.successCount < config.settings.halfOpenMax ∧
      ∃ earlier phase, calls = earlier ++ phase ∧ HalfOpenPhase config earlier phase ∧
        (∀ call ∈ phase, call.method ≠ .recordFailure) ∧ breaker.successCount = successes phase

theorem Recorded.of_closed {calls : List Call} (hsettings : breaker.settings = config.settings)
    (hstate : breaker.state = .closed) (hcount : breaker.failCount = failuresSince calls)
    (hbelow : breaker.failCount < config.settings.threshold) : Recorded config calls breaker where
  settings := hsettings
  closed := fun _ ↦ ⟨hcount, hbelow⟩
  opened := fun hother ↦ by cases hstate.symm.trans hother
  halfOpen := fun hother ↦ by cases hstate.symm.trans hother

theorem Recorded.of_opened {calls : List Call} (hsettings : breaker.settings = config.settings)
    (hstate : breaker.state = .opened) (hlast : lastFailure calls = some breaker.lastFailTime) :
    Recorded config calls breaker where
  settings := hsettings
  closed := fun hother ↦ by cases hstate.symm.trans hother
  opened := fun _ ↦ hlast
  halfOpen := fun hother ↦ by cases hstate.symm.trans hother

theorem Recorded.of_halfOpen {earlier phase : List Call}
    (hsettings : breaker.settings = config.settings) (hstate : breaker.state = .halfOpen)
    (hbelow : breaker.successCount < config.settings.halfOpenMax)
    (hphase : HalfOpenPhase config earlier phase)
    (hclean : ∀ call ∈ phase, call.method ≠ .recordFailure)
    (hcount : breaker.successCount = successes phase) :
    Recorded config (earlier ++ phase) breaker where
  settings := hsettings
  closed := fun hother ↦ by cases hstate.symm.trans hother
  opened := fun hother ↦ by cases hstate.symm.trans hother
  halfOpen := fun _ ↦ ⟨hbelow, earlier, phase, rfl, hphase, hclean, hcount⟩

section Steps

variable {config : CircuitBreakerConfig} {calls : List Call} {breaker : CircuitBreaker}
  (hrecorded : Recorded config calls breaker)

include hrecorded

variable (time : ℤ)

theorem Recorded.reset : Recorded config (calls ++ [⟨time, .reset⟩]) breaker.reset := by
  refine .of_closed hrecorded.settings rfl ?_ config.settings.threshold_pos
  rw [failuresSince_concat]
  rfl

section

variable (hbreaker : breakerAfter config calls = breaker)

include hbreaker

/-- A call in a half-open phase that is no failure and leaves the breaker half-open. -/
theorem Recorded.stay {call : Call} {next : CircuitBreaker} (hstate : breaker.state = .halfOpen)
    (hfailure : call.method ≠ .recordFailure) (hstep : (breakerMachine.step breaker call).1 = next)
    (hsettings : next.settings = breaker.settings) (hnext : next.state = .halfOpen)
    (hbelow : next.successCount < config.settings.halfOpenMax)
    (hcount : next.successCount =
      breaker.successCount + if call.method = .recordSuccess then 1 else 0) :
    Recorded config (calls ++ [call]) next := by
  obtain ⟨-, earlier, phase, rfl, hphase, hclean, hsuccesses⟩ := hrecorded.halfOpen hstate
  rw [append_assoc]
  refine .of_halfOpen (hsettings.trans hrecorded.settings) hnext hbelow (hphase.concat call ?_) ?_ ?_
  · rw [breakerAfter, Machine.after_concat, ← breakerAfter, hbreaker, hstep]
    exact hnext
  · simp only [mem_append, mem_singleton]
    rintro other (hother | rfl)
    · exact hclean other hother
    · exact hfailure
  · rw [hcount, hsuccesses, successes_concat]
    push_cast
    rfl

/-- A call that leaves the breaker as it is, and is neither a success, a failure nor a reset. -/
theorem Recorded.skip (call : Call)
    (hsuccess : call.method ≠ .recordSuccess) (hfailure : call.method ≠ .recordFailure)
    (hreset : call.method ≠ .reset) (hstep : (breakerMachine.step breaker call).1 = breaker) :
    Recorded config (calls ++ [call]) breaker := by
  cases hstate : breaker.state with
  | closed =>
    obtain ⟨hcount, hbelow⟩ := hrecorded.closed hstate
    refine .of_closed hrecorded.settings hstate ?_ hbelow
    rw [failuresSince_concat, if_neg (by simp [hsuccess, hreset]), if_neg hfailure, hcount]
  | opened =>
    refine .of_opened hrecorded.settings hstate ?_
    rw [lastFailure_concat, if_neg hfailure]
    exact hrecorded.opened hstate
  | halfOpen =>
    refine hrecorded.stay hbreaker hstate hfailure hstep rfl hstate (hrecorded.halfOpen hstate).1 ?_
    rw [if_neg hsuccess, add_zero]

theorem Recorded.allow (time : ℤ) :
    Recorded config (calls ++ [⟨time, .allow⟩]) (breaker.allow time).1 := by
  -- Only an open breaker whose timeout has passed changes: a half-open phase begins.
  by_cases hopens : breaker.state = .opened ∧
      breaker.settings.resetTimeout ≤ time - breaker.lastFailTime
  · have hallow : (breaker.allow time).1 = { breaker with state := .halfOpen, successCount := 0 } := by
      simp only [CircuitBreaker.allow, hopens.1, if_pos hopens.2]
    have hphase : HalfOpenPhase config calls [⟨time, .allow⟩] := by
      refine ⟨by rw [hbreaker]; exact hopens.1, fun count hpos hcount ↦ ?_⟩
      obtain rfl : count = 1 := by rw [length_singleton] at hcount; omega
      rw [take_succ_cons, take_zero, breakerAfter, Machine.after_concat, ← breakerAfter, hbreaker]
      change (breaker.allow time).1.state = .halfOpen
      rw [hallow]
    rw [hallow]
    exact .of_halfOpen hrecorded.settings rfl config.settings.halfOpenMax_pos hphase (by simp) rfl
  · have hsame : (breaker.allow time).1 = breaker := by
      unfold CircuitBreaker.allow
      split
      · rfl
      · next hstate =>
        rw [if_neg fun hpassed ↦ hopens ⟨hstate, hpassed⟩]
      · rfl
    rw [hsame]
    exact hrecorded.skip hbreaker ⟨time, .allow⟩ (by simp) (by simp) (by simp) hsame

theorem Recorded.recordSuccess (time : ℤ) :
    Recorded config (calls ++ [⟨time, .recordSuccess⟩]) breaker.recordSuccess := by
  have hnone : failuresSince (calls ++ [⟨time, .recordSuccess⟩]) = 0 := by
    rw [failuresSince_concat, if_pos (.inl rfl)]
  cases hstate : breaker.state with
  | closed =>
    simp only [CircuitBreaker.recordSuccess, hstate]
    refine .of_closed hrecorded.settings rfl ?_ config.settings.threshold_pos
    rw [hnone]
    rfl
  | opened =>
    simp only [CircuitBreaker.recordSuccess, hstate]
    refine .of_opened hrecorded.settings hstate ?_
    rw [lastFailure_concat]
    exact hrecorded.opened hstate
  | halfOpen =>
    by_cases hcloses : breaker.settings.halfOpenMax ≤ breaker.successCount + 1
    · simp only [CircuitBreaker.recordSuccess, hstate, if_pos hcloses]
      refine .of_closed hrecorded.settings rfl ?_ config.settings.threshold_pos
      rw [hnone]
      rfl
    · have hsuccess : breaker.recordSuccess =
          { breaker with successCount := breaker.successCount + 1 } := by
        simp only [CircuitBreaker.recordSuccess, hstate, if_neg hcloses]
      rw [hsuccess]
      refine hrecorded.stay hbreaker hstate (by simp) hsuccess rfl hstate ?_ rfl
      rw [hrecorded.settings] at hcloses
      exact Int.not_le.mp hcloses

end

theorem Recorded.recordFailure :
    Recorded config (calls ++ [⟨time, .recordFailure⟩]) (breaker.recordFailure time) := by
  have hlast : lastFailure (calls ++ [⟨time, .recordFailure⟩]) = some time := by
    rw [lastFailure_concat, if_pos rfl]
  cases hstate : breaker.state with
  | closed =>
    obtain ⟨hcount, -⟩ := hrecorded.closed hstate
    simp only [CircuitBreaker.recordFailure, hstate]
    split_ifs with hopens
    · exact .of_opened hrecorded.settings rfl hlast
    · refine .of_closed hrecorded.settings rfl ?_ ?_
      · rw [failuresSince_concat, hcount]
        rfl
      · rw [hrecorded.settings] at hopens
        exact Int.not_le.mp hopens
  | opened =>
    simp only [CircuitBreaker.recordFailure, hstate]
    exact .of_opened hrecorded.settings rfl hlast
  | halfOpen =>
    simp only [CircuitBreaker.recordFailure, hstate]
    exact .of_opened hrecorded.settings rfl hlast

end Steps

theorem recorded_breakerAfter (config : CircuitBreakerConfig) (calls : List Call) :
    Recorded config calls (breakerAfter config calls) := by
  refine breakerMachine.induction (motive := Recorded config) ?_ (fun calls call hrecorded ↦ ?_) calls
  · exact .of_closed rfl rfl rfl config.settings.threshold_pos
  · obtain ⟨time, method⟩ := call
    cases method with
    | allow => exact hrecorded.allow rfl time
    | recordSuccess => exact hrecorded.recordSuccess rfl time
    | recordFailure => exact hrecorded.recordFailure time
    | state => exact hrecorded.skip rfl ⟨time, .state⟩ (by simp) (by simp) (by simp) rfl
    | reset => exact hrecorded.reset time

/-! ### The protocol -/

theorem allow_eq_error (now : ℤ) (breaker : CircuitBreaker) :
    (breaker.allow now).2 = .error .circuitOpen ↔
      breaker.state = .opened ∧ now - breaker.lastFailTime < breaker.settings.resetTimeout := by
  unfold CircuitBreaker.allow
  split
  · next hstate => simp [hstate]
  · next hstate =>
    split_ifs with hpassed
    · simp [hpassed]
    · simp only [hstate, true_and, true_iff]
      omega
  · next hstate => simp [hstate]

/-- Only a reset, or the last success that a half-open breaker waits for, closes the breaker. -/
theorem closed_of_step {call : Call} (hstate : breaker.state ≠ .closed)
    (hcloses : (breakerMachine.step breaker call).1.state = .closed) :
    call.method = .reset ∨ (call.method = .recordSuccess ∧ breaker.state = .halfOpen ∧
      breaker.settings.halfOpenMax ≤ breaker.successCount + 1) := by
  obtain ⟨time, method⟩ := call
  cases method with
  | reset => exact .inl rfl
  | state => exact absurd hcloses hstate
  | allow =>
    change (breaker.allow time).1.state = .closed at hcloses
    cases hbefore : breaker.state with
    | closed => exact absurd hbefore hstate
    | opened =>
      simp only [CircuitBreaker.allow, hbefore] at hcloses
      split_ifs at hcloses
      exact absurd hcloses hstate
    | halfOpen => simp [CircuitBreaker.allow, hbefore] at hcloses
  | recordFailure =>
    change (breaker.recordFailure time).state = .closed at hcloses
    cases hbefore : breaker.state with
    | closed => exact absurd hbefore hstate
    | opened => simp [CircuitBreaker.recordFailure, hbefore] at hcloses
    | halfOpen => simp [CircuitBreaker.recordFailure, hbefore] at hcloses
  | recordSuccess =>
    change breaker.recordSuccess.state = .closed at hcloses
    cases hbefore : breaker.state with
    | closed => exact absurd hbefore hstate
    | opened => simp [CircuitBreaker.recordSuccess, hbefore] at hcloses
    | halfOpen =>
      simp only [CircuitBreaker.recordSuccess, hbefore] at hcloses
      split_ifs at hcloses with henough
      · exact .inr ⟨rfl, rfl, henough⟩

/-- The breaker's protocol, for every configuration and every sequence of calls. -/
theorem breaker_protocol (config : CircuitBreakerConfig) (calls : List Call) :
    ((breakerAfter config calls).state = .closed →
      (breakerAfter config calls).failCount < config.settings.threshold ∧
        (breakerAfter config calls).failCount = failuresSince calls) ∧
    (∀ now, ((breakerAfter config calls).allow now).2 = .error .circuitOpen ↔
      (breakerAfter config calls).state = .opened ∧ ∃ failure, lastFailure calls = some failure ∧
          now - failure < config.settings.resetTimeout) ∧
    ∀ call, (breakerAfter config calls).state ≠ .closed →
      (breakerAfter config (calls ++ [call])).state = .closed →
        call.method = .reset ∨ (call.method = .recordSuccess ∧
          ∃ earlier phase, calls = earlier ++ phase ∧ HalfOpenPhase config earlier phase ∧
            (∀ other ∈ phase, other.method ≠ .recordFailure) ∧
            successes (phase ++ [call]) = config.settings.halfOpenMax) := by
  have hrecorded := recorded_breakerAfter config calls
  refine ⟨fun hstate ↦ (hrecorded.closed hstate).symm, fun now ↦ ?_, fun call hstate hcloses ↦ ?_⟩
  · rw [allow_eq_error, hrecorded.settings]
    constructor
    · rintro ⟨hopened, hrecent⟩
      exact ⟨hopened, _, hrecorded.opened hopened, hrecent⟩
    · rintro ⟨hopened, failure, hfailure, hrecent⟩
      rw [hrecorded.opened hopened, Option.some.injEq] at hfailure
      exact ⟨hopened, hfailure ▸ hrecent⟩
  · rw [breakerAfter, Machine.after_concat] at hcloses
    rcases closed_of_step hstate hcloses with hreset | ⟨hsuccess, hhalf, henough⟩
    · exact .inl hreset
    · obtain ⟨hbound, earlier, phase, hcalls, hphase, hclean, hcount⟩ := hrecorded.halfOpen hhalf
      refine .inr ⟨hsuccess, earlier, phase, hcalls, hphase, hclean, ?_⟩
      rw [hrecorded.settings] at henough
      rw [successes_concat, if_pos hsuccess]
      omega

end OpenTrace.Connector
