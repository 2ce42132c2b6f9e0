import Mathlib.Data.List.Induction

/-!
# Machines

A machine reads one input at a time, changes its state and gives an answer. Code whose calls all run
under one lock, or each in one transaction, is a machine: the inputs are the calls in the order in
which they take effect. `after` is the state that a list of inputs leads to and `log` pairs every
input with its answer. `Machine.induction` is the rule for properties that tie the state to the
history: it asks what one more step does to both.
-/

namespace OpenTrace.Library

/-- A machine with inputs `ι`, answers `ο` and states `σ`. -/
structure Machine (ι ο σ : Type) where
  step : σ → ι → σ × ο

namespace Machine

variable {ι ο σ : Type} (machine : Machine ι ο σ)

/-- The state that the inputs lead to. -/
def after (state : σ) (inputs : List ι) : σ :=
  inputs.foldl (fun state input ↦ (machine.step state input).1) state

/-- The inputs with their answers. -/
def log (state : σ) : List ι → List (ι × ο)
  | [] => []
  | input :: inputs =>
    (input, (machine.step state input).2) :: log (machine.step state input).1 inputs

@[simp] theorem after_nil (state : σ) : machine.after state [] = state := rfl

theorem after_cons (state : σ) (input : ι) (inputs : List ι) :
    machine.after state (input :: inputs) = machine.after (machine.step state input).1 inputs := rfl

theorem after_append (state : σ) (first second : List ι) :
    machine.after state (first ++ second) = machine.after (machine.after state first) second :=
  List.foldl_append

@[simp] theorem after_concat (state : σ) (inputs : List ι) (input : ι) :
    machine.after state (inputs ++ [input]) =
      (machine.step (machine.after state inputs) input).1 := by
  rw [after_append]
  rfl

theorem log_append (state : σ) (first second : List ι) : machine.log state (first ++ second) =
      machine.log state first ++ machine.log (machine.after state first) second := by
  induction first generalizing state with
  | nil => rfl
  | cons input first ih =>
    rw [List.cons_append, log, log, ih, after_cons, List.cons_append]

@[simp] theorem log_concat (state : σ) (inputs : List ι) (input : ι) :
    machine.log state (inputs ++ [input]) =
      machine.log state inputs ++ [(input, (machine.step (machine.after state inputs) input).2)] := by
  rw [log_append]
  rfl

/-- What holds of the empty history at the start, and is kept when a step extends the history, holds
of every history and the state it leads to. -/
theorem induction {motive : List ι → σ → Prop} {start : σ} (hstart : motive [] start)
    (hstep : ∀ inputs input, motive inputs (machine.after start inputs) →
      motive (inputs ++ [input]) (machine.step (machine.after start inputs) input).1)
    (inputs : List ι) : motive inputs (machine.after start inputs) := by
  induction inputs using List.reverseRecOn with
  | nil => exact hstart
  | append_singleton inputs input ih =>
    rw [after_concat]
    exact hstep inputs input ih

/-- An invariant of single steps holds in every state that is reached. -/
theorem invariant {motive : σ → Prop} {start : σ} (hstart : motive start)
    (hstep : ∀ state input, motive state → motive (machine.step state input).1)
    (inputs : List ι) : motive (machine.after start inputs) :=
  machine.induction (motive := fun _ ↦ motive) hstart
    (fun _ input hholds ↦ hstep _ input hholds) inputs

end Machine

end OpenTrace.Library
