import Mathlib.Data.List.Basic

/-!
# Interleaved programs

Programs that share a state and take atomic steps, run by any number of threads in any order. A
`Prog` is a tree of steps: a step waits until it is enabled, updates the state, and goes on in a way
that may depend on the state it found and on an input that the environment chooses (whether a system
call fails, how much of a write goes through). Programs compose by `bind`, so code is written with
`do`. A step can be marked to lapse on some inputs and states: a behaviour the program has, but that
a correctness argument sets aside. A run records whether any step lapsed.

A `System` says which calls may be started and what a crash does to the state. `System.run` executes
a schedule: a list of events, each of them the start of a call, one step of one thread, or a crash
that discards every thread.

Reasoning is rely-guarantee. `Prog.Ok` says of one thread's program that every step keeps the
invariant and does to the state only what the other threads rely on, each thread resting at
assertions that survive the others' steps; `Ok.bind` and `Ok.atomically` build such proofs along the
program text. `System.Verified.run` and `System.VerifiedFresh.run` are the soundness theorems: the
invariant holds after every schedule in which no step lapsed.
-/

namespace OpenTrace.Library

open List

/-- A program over a shared state `σ`, with environment inputs `ι`. -/
inductive Prog (ι σ α : Type) : Type
  | ret (value : α)
  | step (enabled lapses : ι → σ → Bool) (update : ι → σ → σ) (next : ι → σ → Prog ι σ α)

namespace Prog

variable {ι σ α β : Type}

def bind : Prog ι σ α → (α → Prog ι σ β) → Prog ι σ β
  | .ret value, rest => rest value
  | .step enabled lapses update next, rest =>
    .step enabled lapses update fun input state ↦ (next input state).bind rest

instance : Monad (Prog ι σ) where
  pure := .ret
  bind := bind

/-- One atomic step with a result. -/
def atomically (enabled lapses : ι → σ → Bool) (update : ι → σ → σ) (result : ι → σ → α) :
    Prog ι σ α :=
  .step enabled lapses update fun input state ↦ .ret (result input state)

end Prog

/-! ### Systems and schedules -/

/-- What runs: the program of each call, when a call may be started, and the state a crash leaves,
if one may happen. The program of a call is given the index of its thread. -/
structure System (κ ι σ : Type) where
  program : κ → ℕ → Prog ι σ Unit
  admits : κ → σ → Bool
  crash : ι → σ → Option σ

/-- The shared state, the threads, finished ones included, and whether a step has lapsed. -/
structure Threads (ι σ : Type) where
  state : σ
  threads : List (Prog ι σ Unit)
  lapsed : Bool

inductive Event (κ ι : Type)
  | call (call : κ)
  | run (thread : ℕ) (input : ι)
  | crash (input : ι)

namespace System

variable {κ ι σ : Type} (system : System κ ι σ)

/-- One event. An event that is not enabled changes nothing. -/
def step (config : Threads ι σ) : Event κ ι → Threads ι σ
  | .call call =>
    if system.admits call config.state then
      { config with
        threads := config.threads ++ [system.program call config.threads.length] }
    else config
  | .run thread input =>
    match config.threads[thread]? with
    | some (.step enabled lapses update next) =>
      if enabled input config.state then
        ⟨update input config.state, config.threads.set thread (next input config.state),
          config.lapsed || lapses input config.state⟩
      else config
    | _ => config
  | .crash input =>
    match system.crash input config.state with
    | none => config
    | some state => ⟨state, [], config.lapsed⟩

def start (state : σ) : Threads ι σ := ⟨state, [], false⟩

def run (config : Threads ι σ) (events : List (Event κ ι)) : Threads ι σ :=
  events.foldl system.step config

end System

/-! ### Rely-guarantee reasoning -/

section Logic

variable {κ ι σ α β : Type} (invariant : σ → Prop) (rely : ℕ → σ → σ → Prop) (thread : ℕ)

/-- An assertion that the steps of the other threads keep. -/
def Stable (assertion : σ → Prop) : Prop :=
  ∀ before after, invariant before → invariant after → rely thread before after →
    assertion before → assertion after

/-- What one step of a thread owes: it keeps the invariant, and every other thread can rely on it. -/
def Guarantee (before after : σ) : Prop :=
  invariant after ∧ ∀ other, other ≠ thread → rely other before after

/-- From `precondition`, every step of the program meets its guarantee, and the program ends in
`postcondition`, unless a step lapses. Before each step the thread rests at an assertion that the
others keep. -/
def Prog.Ok : (σ → Prop) → Prog ι σ α → (α → σ → Prop) → Prop
  | precondition, .ret value, postcondition =>
    ∀ state, invariant state → precondition state → postcondition value state
  | precondition, .step enabled lapses update next, postcondition =>
    ∃ rest : σ → Prop, (∀ state, invariant state → precondition state → rest state) ∧
      Stable invariant rely thread rest ∧
      ∀ input state, invariant state → rest state → enabled input state → ¬ lapses input state →
        Guarantee invariant rely thread state (update input state) ∧
          (next input state).Ok (fun after ↦ after = update input state) postcondition

section Rules

variable {invariant rely thread}

theorem Stable.and {first second : σ → Prop} (hfirst : Stable invariant rely thread first)
    (hsecond : Stable invariant rely thread second) :
    Stable invariant rely thread fun state ↦ first state ∧ second state :=
  fun before after hbefore hafter hrely hholds ↦
    ⟨hfirst before after hbefore hafter hrely hholds.1,
      hsecond before after hbefore hafter hrely hholds.2⟩

theorem Stable.true : Stable invariant rely thread fun _ ↦ True := fun _ _ _ _ _ _ ↦ trivial

variable {program : Prog ι σ α} {postcondition : α → σ → Prop} {precondition : σ → Prop}

theorem Prog.Ok.pre {precondition precondition' : σ → Prop}
    (hpre : ∀ state, invariant state → precondition' state → precondition state)
    (hprogram : program.Ok invariant rely thread precondition postcondition) :
    program.Ok invariant rely thread precondition' postcondition := by
  cases program with
  | ret value => exact fun state hstate hholds ↦ hprogram state hstate (hpre state hstate hholds)
  | step enabled lapses update next =>
    obtain ⟨rest, hrest, hstable, hnext⟩ := hprogram
    exact ⟨rest, fun state hstate hholds ↦ hrest state hstate (hpre state hstate hholds), hstable,
      hnext⟩

theorem Prog.Ok.post {postcondition postcondition' : α → σ → Prop}
    (hpost : ∀ value state, invariant state → postcondition value state → postcondition' value state)
    (hprogram : program.Ok invariant rely thread precondition postcondition) :
    program.Ok invariant rely thread precondition postcondition' := by
  induction program generalizing precondition with
  | ret value =>
    exact fun state hstate hholds ↦ hpost value state hstate (hprogram state hstate hholds)
  | step enabled lapses update next ih =>
    obtain ⟨rest, hrest, hstable, hnext⟩ := hprogram
    refine ⟨rest, hrest, hstable, fun input state hstate hholds henabled hcovered ↦ ?_⟩
    obtain ⟨hguarantee, hcontinue⟩ := hnext input state hstate hholds henabled hcovered
    exact ⟨hguarantee, ih input state hcontinue⟩

/-- Sequential composition. -/
theorem Prog.Ok.bind {middle : α → σ → Prop} {rest : α → Prog ι σ β} {postcondition : β → σ → Prop}
    (hprogram : program.Ok invariant rely thread precondition middle)
    (hrest : ∀ value, (rest value).Ok invariant rely thread (middle value) postcondition) :
    (program >>= rest).Ok invariant rely thread precondition postcondition := by
  induction program generalizing precondition with
  | ret value => exact (hrest value).pre hprogram
  | step enabled lapses update next ih =>
    obtain ⟨resting, hresting, hstable, hnext⟩ := hprogram
    refine ⟨resting, hresting, hstable, fun input state hstate hholds henabled hcovered ↦ ?_⟩
    obtain ⟨hguarantee, hcontinue⟩ := hnext input state hstate hholds henabled hcovered
    exact ⟨hguarantee, ih input state hcontinue⟩

theorem Prog.Ok.ret {value : α}
    (hpost : ∀ state, invariant state → precondition state → postcondition value state) :
    (pure value : Prog ι σ α).Ok invariant rely thread precondition postcondition :=
  hpost

theorem Prog.Ok.ite {condition : Prop} [Decidable condition] {program alternative : Prog ι σ α}
    (hprogram : condition → program.Ok invariant rely thread precondition postcondition)
    (halternative : ¬ condition → alternative.Ok invariant rely thread precondition postcondition) :
    (if condition then program else alternative).Ok invariant rely thread precondition
      postcondition := by
  split_ifs with hcondition
  · exact hprogram hcondition
  · exact halternative hcondition

/-- A precondition may name something that the program does not compute. -/
theorem Prog.Ok.exists {γ : Type} {precondition : γ → σ → Prop}
    (hprogram : ∀ name, program.Ok invariant rely thread (precondition name) postcondition) :
    program.Ok invariant rely thread (fun state ↦ ∃ name, precondition name state)
      postcondition := by
  cases program with
  | ret value => exact fun state hstate ⟨name, hholds⟩ ↦ hprogram name state hstate hholds
  | step enabled lapses update next =>
    choose rest hrest hstable hnext using hprogram
    exact ⟨fun state ↦ ∃ name, rest name state,
      fun state hstate ⟨name, hholds⟩ ↦ ⟨name, hrest name state hstate hholds⟩,
      fun before after hbefore hafter hrely ⟨name, hholds⟩ ↦
        ⟨name, hstable name before after hbefore hafter hrely hholds⟩,
      fun input state hstate ⟨name, hholds⟩ ↦ hnext name input state hstate hholds⟩

/-- What the precondition says about the values at hand can be used to prove the program. -/
theorem Prog.Ok.assume {precondition : σ → Prop} {program : Prog ι σ α}
    {postcondition : α → σ → Prop} {fact : Prop}
    (hfact : ∀ state, invariant state → precondition state → fact)
    (hprogram : fact → program.Ok invariant rely thread precondition postcondition) :
    program.Ok invariant rely thread precondition postcondition := by
  refine Prog.Ok.pre (fun state hstate hholds ↦ ⟨⟨hfact state hstate hholds⟩, hholds⟩)
    (Prog.Ok.exists fun given : PLift fact ↦ hprogram given.down)

theorem Prog.Ok.given {precondition : σ → Prop} {program : Prog ι σ α}
    {postcondition : α → σ → Prop} {fact : Prop}
    (hprogram : fact → program.Ok invariant rely thread precondition postcondition) :
    program.Ok invariant rely thread (fun state ↦ precondition state ∧ fact) postcondition :=
  Prog.Ok.assume (fun _ _ hholds ↦ hholds.2) fun hfact ↦
    (hprogram hfact).pre fun _ _ hholds ↦ hholds.1

/-- One atomic step, taken from an assertion that the other threads keep. -/
theorem Prog.Ok.atomically {enabled lapses : ι → σ → Bool} {update : ι → σ → σ} {result : ι → σ → α}
    (hstable : Stable invariant rely thread precondition)
    (hstep : ∀ input state, invariant state → precondition state → enabled input state → ¬ lapses input state → Guarantee invariant rely thread state (update input state) ∧ postcondition (result input state) (update input state)) :
    (Prog.atomically enabled lapses update result).Ok invariant rely thread precondition
      postcondition := by
  refine ⟨precondition, fun _ _ hholds ↦ hholds, hstable,
    fun input state hstate hholds henabled hcovered ↦ ?_⟩
  obtain ⟨hguarantee, hpost⟩ := hstep input state hstate hholds henabled hcovered
  exact ⟨hguarantee, fun after _ hafter ↦ hafter ▸ hpost⟩

end Rules

/-- The thread can take its next step from this state, whatever the others do before. -/
def Prog.Poised (state : σ) : Prog ι σ α → Prop
  | .ret _ => True
  | .step enabled lapses update next =>
    ∃ rest : σ → Prop, rest state ∧ Stable invariant rely thread rest ∧
      ∀ input state, invariant state → rest state → enabled input state → ¬ lapses input state →
        Guarantee invariant rely thread state (update input state) ∧
          (next input state).Ok invariant rely thread (fun after ↦ after = update input state)
            fun _ _ ↦ True

variable {invariant rely thread}

variable {state : σ}

theorem Prog.Ok.poised {precondition : σ → Prop} {program : Prog ι σ α}
    (hprogram : program.Ok invariant rely thread precondition fun _ _ ↦ True)
    (hstate : invariant state) (hholds : precondition state) :
    program.Poised invariant rely thread state := by
  cases program with
  | ret value => trivial
  | step enabled lapses update next =>
    obtain ⟨rest, hrest, hstable, hnext⟩ := hprogram
    exact ⟨rest, hrest state hstate hholds, hstable, hnext⟩

theorem Prog.Poised.mono {program : Prog ι σ α} {before after : σ}
    (hprogram : program.Poised invariant rely thread before) (hbefore : invariant before)
    (hafter : invariant after) (hrely : rely thread before after) :
    program.Poised invariant rely thread after := by
  cases program with
  | ret value => trivial
  | step enabled lapses update next =>
    obtain ⟨rest, hholds, hstable, hnext⟩ := hprogram
    exact ⟨rest, hstable before after hbefore hafter hrely hholds, hstable, hnext⟩

/-- The proof obligations of a system: every call's program meets its guarantees, and a crash keeps
the invariant. -/
structure System.Verified (system : System κ ι σ) (invariant : σ → Prop)
    (rely : ℕ → σ → σ → Prop) : Prop where
  call : ∀ call thread, (system.program call thread).Ok invariant rely thread
    (fun state ↦ system.admits call state) fun _ _ ↦ True
  crash : ∀ input before after, invariant before → system.crash input before = some after →
    invariant after

/-- Unless a step has lapsed, the invariant holds and every thread can go on. -/
structure Threads.Safe (config : Threads ι σ) (invariant : σ → Prop)
    (rely : ℕ → σ → σ → Prop) : Prop where
  state : config.lapsed = false → invariant config.state
  threads : config.lapsed = false → ∀ (thread : ℕ) (program : Prog ι σ Unit),
    config.threads[thread]? = some program → program.Poised invariant rely thread config.state

/-- As `System.Verified`, where a call may also start from what is true of a thread that does not run
yet. -/
structure System.VerifiedFresh (system : System κ ι σ) (invariant : σ → Prop)
    (rely : ℕ → σ → σ → Prop) (fresh : ℕ → σ → Prop) : Prop where
  call : ∀ call thread, (system.program call thread).Ok invariant rely thread
    (fun state ↦ system.admits call state ∧ fresh thread state) fun _ _ ↦ True
  stable : ∀ thread, Stable invariant rely thread (fresh thread)
  crash : ∀ input before after, invariant before → system.crash input before = some after →
    invariant after ∧ ∀ thread, fresh thread after

/-- The threads can go on, and those that are still to come are fresh. -/
structure Threads.SafeFresh (config : Threads ι σ) (invariant : σ → Prop)
    (rely : ℕ → σ → σ → Prop) (fresh : ℕ → σ → Prop) : Prop where
  safe : config.Safe invariant rely
  fresh : config.lapsed = false → ∀ thread, config.threads.length ≤ thread →
    fresh thread config.state

variable {fresh : ℕ → σ → Prop} {system : System κ ι σ} {config : Threads ι σ}

section

variable (hsystem : system.VerifiedFresh invariant rely fresh)

include hsystem

section

variable (hconfig : config.SafeFresh invariant rely fresh)

include hconfig

theorem System.VerifiedFresh.call_step (call : κ) :
    (system.step config (.call call)).SafeFresh invariant rely fresh := by
  simp only [System.step]
  split_ifs with hadmits
  · refine ⟨⟨hconfig.safe.state, fun hcovered thread program hprogram ↦ ?_⟩,
      fun hcovered thread hthread ↦ hconfig.fresh hcovered thread ?_⟩
    · rcases Nat.lt_trichotomy thread config.threads.length with hold | rfl | hbeyond
      · rw [getElem?_append_left hold] at hprogram
        exact hconfig.safe.threads hcovered thread program hprogram
      · simp only [getElem?_concat_length, Option.some.injEq] at hprogram
        subst hprogram
        exact (hsystem.call call _).poised (hconfig.safe.state hcovered)
          ⟨hadmits, hconfig.fresh hcovered _ (Nat.le_refl _)⟩
      · have hnone : (config.threads ++
            [system.program call config.threads.length])[thread]? = none := by
          rw [getElem?_eq_none_iff, length_append, length_singleton]
          omega
        rw [hnone] at hprogram
        cases hprogram
    · rw [length_append] at hthread
      omega
  · exact hconfig

theorem System.VerifiedFresh.run_step (thread : ℕ) (input : ι) :
    (system.step config (.run thread input)).SafeFresh invariant rely fresh := by
  simp only [System.step]
  split
  · next enabled lapses update next hthread =>
    split_ifs with henabled
    · have hbound : thread < config.threads.length := (List.getElem?_eq_some_iff.mp hthread).choose
      suffices hsuffices : config.lapsed = false → lapses input config.state = false →
          invariant (update input config.state) ∧ (∀ (other : ℕ) (program : Prog ι σ Unit),
            (config.threads.set thread (next input config.state))[other]? = some program →
              program.Poised invariant rely other (update input config.state)) ∧
          ∀ other, config.threads.length ≤ other → fresh other (update input config.state) by
        refine ⟨⟨fun hlapsed ↦ ?_, fun hlapsed ↦ ?_⟩, fun hlapsed other hother ↦ ?_⟩
        all_goals simp only [Bool.or_eq_false_iff] at hlapsed
        · exact (hsuffices hlapsed.1 hlapsed.2).1
        · exact (hsuffices hlapsed.1 hlapsed.2).2.1
        · rw [length_set] at hother
          exact (hsuffices hlapsed.1 hlapsed.2).2.2 other hother
      intro hcovered hlapses
      have hstate := hconfig.safe.state hcovered
      obtain ⟨rest, hholds, -, hnext⟩ := hconfig.safe.threads hcovered thread _ hthread
      obtain ⟨⟨hinvariant, hothers⟩, hcontinue⟩ :=
        hnext input config.state hstate hholds henabled (by simp [hlapses])
      refine ⟨hinvariant, fun other program hprogram ↦ ?_, fun other hother ↦ ?_⟩
      · by_cases hsame : other = thread
        · subst hsame
          rw [getElem?_set_self hbound, Option.some.injEq] at hprogram
          exact hprogram ▸ hcontinue.poised hinvariant rfl
        · rw [getElem?_set_ne (Ne.symm hsame)] at hprogram
          exact (hconfig.safe.threads hcovered other program hprogram).mono hstate hinvariant
            (hothers other hsame)
      · exact hsystem.stable other _ _ hstate hinvariant (hothers other (by omega))
          (hconfig.fresh hcovered other hother)
    · exact hconfig
  · exact hconfig

theorem System.VerifiedFresh.crash_step (input : ι) :
    (system.step config (.crash input)).SafeFresh invariant rely fresh := by
  simp only [System.step]
  cases hcrash : system.crash input config.state with
  | none => exact hconfig
  | some state =>
    have hafter := fun hcovered ↦
      hsystem.crash input config.state state (hconfig.safe.state hcovered) hcrash
    exact ⟨⟨fun hcovered ↦ (hafter hcovered).1, fun _ thread program hprogram ↦ by
      simp at hprogram⟩, fun hcovered thread _ ↦ (hafter hcovered).2 thread⟩

end

/-- Soundness: the invariant holds after every schedule in which no step lapsed. -/
theorem System.VerifiedFresh.run
    (hstate : invariant state) (hfresh : ∀ thread, fresh thread state) (events : List (Event κ ι))
    (hlapsed : (system.run (System.start state) events).lapsed = false) :
    invariant (system.run (System.start state) events).state := by
  suffices hsafe : ∀ config : Threads ι σ, config.SafeFresh invariant rely fresh →
      (system.run config events).SafeFresh invariant rely fresh from
    (hsafe (System.start state) ⟨⟨fun _ ↦ hstate, fun _ thread program hprogram ↦ by
      simp [System.start] at hprogram⟩, fun _ thread _ ↦ hfresh thread⟩).safe.state hlapsed
  clear hlapsed
  induction events with
  | nil => exact fun config hconfig ↦ hconfig
  | cons event events ih =>
    intro config hconfig
    refine ih _ ?_
    cases event with
    | call call => exact hsystem.call_step hconfig call
    | run thread input => exact hsystem.run_step hconfig thread input
    | crash input => exact hsystem.crash_step hconfig input

end

theorem System.Verified.run {system : System κ ι σ} (hsystem : system.Verified invariant rely)
    (hstate : invariant state) (events : List (Event κ ι))
    (hlapsed : (system.run (System.start state) events).lapsed = false) :
    invariant (system.run (System.start state) events).state := by
  have hfresh : system.VerifiedFresh invariant rely fun _ _ ↦ True :=
    { call := fun call thread ↦ (hsystem.call call thread).pre fun _ _ hholds ↦ hholds.1
      stable := fun _ ↦ Stable.true
      crash := fun input before after hbefore hafter ↦
        ⟨hsystem.crash input before after hbefore hafter, fun _ ↦ trivial⟩ }
  exact hfresh.run hstate (fun _ ↦ trivial) events hlapsed

end Logic

/-! ### Programs that never lapse -/

section NeverLapses

variable {κ ι σ α β : Type}

def Prog.NeverLapses : Prog ι σ α → Prop
  | .ret _ => True
  | .step _ lapses _ next =>
    ∀ input state, lapses input state = false ∧ (next input state).NeverLapses

theorem Prog.NeverLapses.ret (value : α) : (pure value : Prog ι σ α).NeverLapses := trivial

theorem Prog.NeverLapses.atomically {enabled lapses : ι → σ → Bool} {update : ι → σ → σ}
    {result : ι → σ → α} (hlapses : ∀ input state, lapses input state = false) :
    (Prog.atomically enabled lapses update result).NeverLapses :=
  fun input state ↦ ⟨hlapses input state, trivial⟩

theorem Prog.NeverLapses.ite {condition : Prop} [Decidable condition]
    {program alternative : Prog ι σ α} (hprogram : program.NeverLapses)
    (halternative : alternative.NeverLapses) :
    (if condition then program else alternative).NeverLapses := by
  split_ifs
  · exact hprogram
  · exact halternative

theorem Prog.NeverLapses.bind {program : Prog ι σ α} {rest : α → Prog ι σ β}
    (hprogram : program.NeverLapses) (hrest : ∀ value, (rest value).NeverLapses) :
    (program >>= rest).NeverLapses := by
  induction program with
  | ret value => exact hrest value
  | step enabled lapses update next ih =>
    exact fun input state ↦ ⟨(hprogram input state).1, ih input state (hprogram input state).2⟩

/-- A system of such programs has no lapse in any run. -/
theorem System.lapsed_run {system : System κ ι σ}
    (hsystem : ∀ call thread, (system.program call thread).NeverLapses) (state : σ)
    (events : List (Event κ ι)) : (system.run (System.start state) events).lapsed = false := by
  suffices hrun : ∀ config : Threads ι σ, config.lapsed = false →
      (∀ program ∈ config.threads, program.NeverLapses) →
      (system.run config events).lapsed = false from
    hrun (System.start state) rfl fun _ hmem ↦ absurd hmem not_mem_nil
  induction events with
  | nil => exact fun config hlapsed _ ↦ hlapsed
  | cons event events ih =>
    intro config hlapsed hthreads
    suffices hstep : (system.step config event).lapsed = false ∧
        ∀ program ∈ (system.step config event).threads, program.NeverLapses from
      ih _ hstep.1 hstep.2
    cases event with
    | call call =>
      simp only [System.step]
      split_ifs
      · refine ⟨hlapsed, fun program hmem ↦ ?_⟩
        rcases mem_append.mp hmem with hmem | hmem
        · exact hthreads program hmem
        · exact mem_singleton.mp hmem ▸ hsystem call _
      · exact ⟨hlapsed, hthreads⟩
    | run thread input =>
      simp only [System.step]
      split
      · next enabled lapses update next hthread =>
        have hnever := hthreads _ (mem_of_getElem? hthread) input config.state
        split_ifs
        · refine ⟨by rw [hlapsed, hnever.1, Bool.or_false], fun program hmem ↦ ?_⟩
          rcases mem_or_eq_of_mem_set hmem with hmem | rfl
          · exact hthreads program hmem
          · exact hnever.2
        · exact ⟨hlapsed, hthreads⟩
      · exact ⟨hlapsed, hthreads⟩
    | crash input =>
      simp only [System.step]
      split
      · exact ⟨hlapsed, hthreads⟩
      · exact ⟨hlapsed, fun _ hmem ↦ absurd hmem not_mem_nil⟩

end NeverLapses

end OpenTrace.Library
