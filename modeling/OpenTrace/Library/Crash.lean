import Mathlib.Data.List.Basic

/-!
# Programs that crash between their steps

A `Script` is a sequential program of atomic steps. `Script.run` executes it to its end, and
`Script.after` gives the state in which a crash finds it. `Survives safe pre script post` is a triple
for such programs: from `pre` every state on the way is `safe`, and the script ends in `post`. The
rules of the triple follow the text of a script.

What a crash leaves is described by cells. A `Cell` holds the value that a process sees and the
values that a crash may leave behind: setting the cell adds one, syncing it keeps the visible one
only. A `Directory` is a cell for every file name; a file that is being written is `torn`, which
stands for any content, until it is fsynced.
-/

namespace OpenTrace.Library

/-! ### Scripts -/

/-- A sequential program over a state `σ`. -/
inductive Script (σ α : Type) : Type
  | ret (value : α)
  | step (update : σ → σ) (next : σ → Script σ α)

namespace Script

variable {σ α β : Type}

def bind : Script σ α → (α → Script σ β) → Script σ β
  | .ret value, rest => rest value
  | .step update next, rest => .step update fun state ↦ (next state).bind rest

instance : Monad (Script σ) where
  pure := .ret
  bind := bind

/-- A step that looks at the state. -/
def read (result : σ → α) : Script σ α := .step id fun state ↦ .ret (result state)

/-- A step that changes the state. -/
def change (update : σ → σ) : Script σ Unit := .step update fun _ ↦ .ret ()

def run : Script σ α → σ → α × σ
  | .ret value, state => (value, state)
  | .step update next, state => (next state).run (update state)

/-- The state after so many steps, or at the end. -/
def after : Script σ α → ℕ → σ → σ
  | .step update next, count + 1, state => (next state).after count (update state)
  | _, _, state => state

/-- From `pre` the script passes through `safe` states only, and it ends in `post`. -/
def Survives (safe pre : σ → Prop) (script : Script σ α) (post : α → σ → Prop) : Prop :=
  ∀ state, pre state →
    (∀ count, safe (script.after count state)) ∧ post (script.run state).1 (script.run state).2

variable {safe pre : σ → Prop} {post : α → σ → Prop}

section

variable (hsafe : ∀ state, pre state → safe state)

include hsafe

theorem Survives.ret {value : α} (hpost : ∀ state, pre state → post value state) :
    Survives safe pre (pure value : Script σ α) post :=
  fun state hstate ↦ ⟨fun _ ↦ hsafe state hstate, hpost state hstate⟩

theorem Survives.change {update : σ → σ} {post : Unit → σ → Prop} (hupdate : ∀ state, pre state → safe (update state))
    (hpost : ∀ state, pre state → post () (update state)) :
    Survives safe pre (Script.change update) post := by
  refine fun state hstate ↦ ⟨fun count ↦ ?_, hpost state hstate⟩
  cases count with
  | zero => exact hsafe state hstate
  | succ count => exact hupdate state hstate

theorem Survives.read {result : σ → α} (hpost : ∀ state, pre state → post (result state) state) :
    Survives safe pre (Script.read result) post := by
  refine fun state hstate ↦ ⟨fun count ↦ ?_, hpost state hstate⟩
  cases count <;> exact hsafe state hstate

end

theorem run_bind (script : Script σ α) (rest : α → Script σ β) (state : σ) :
    (script >>= rest).run state = (rest (script.run state).1).run (script.run state).2 := by
  induction script generalizing state with
  | ret value => rfl
  | step update next ih => exact ih state (update state)

theorem run_pure (value : α) (state : σ) : (pure value : Script σ α).run state = (value, state) := rfl

theorem run_change (update : σ → σ) (state : σ) : (change update).run state = ((), update state) := rfl

/-- A crash of a sequence falls into its first part or into its second. -/
theorem after_bind (script : Script σ α) (rest : α → Script σ β) (count : ℕ) (state : σ) :
    (∃ steps, (script >>= rest).after count state = script.after steps state) ∨
      ∃ steps, (script >>= rest).after count state =
        (rest (script.run state).1).after steps (script.run state).2 := by
  induction script generalizing count state with
  | ret value => exact .inr ⟨count, rfl⟩
  | step update next ih =>
    cases count with
    | zero => exact .inl ⟨0, rfl⟩
    | succ count =>
      rcases ih state count (update state) with ⟨steps, hfirst⟩ | ⟨steps, hsecond⟩
      · exact .inl ⟨steps + 1, hfirst⟩
      · exact .inr ⟨steps, hsecond⟩

/-- Sequential composition. -/
theorem Survives.bind {script : Script σ α} {rest : α → Script σ β} {middle : α → σ → Prop}
    {post : β → σ → Prop} (hscript : Survives safe pre script middle)
    (hrest : ∀ value, Survives safe (middle value) (rest value) post) :
    Survives safe pre (script >>= rest) post := by
  intro state hstate
  obtain ⟨hsafe, hmiddle⟩ := hscript state hstate
  obtain ⟨hlater, hpost⟩ := hrest _ _ hmiddle
  refine ⟨fun count ↦ ?_, by rwa [run_bind]⟩
  rcases after_bind script rest count state with ⟨steps, heq⟩ | ⟨steps, heq⟩
  · exact heq ▸ hsafe steps
  · exact heq ▸ hlater steps

theorem Survives.weaken {pre' : σ → Prop} {script : Script σ α} (hpre : ∀ state, pre' state → pre state)
    (hscript : Survives safe pre script post) : Survives safe pre' script post :=
  fun state hstate ↦ hscript state (hpre state hstate)

theorem Survives.imp {post' : α → σ → Prop} {script : Script σ α}
    (hscript : Survives safe pre script post)
    (hpost : ∀ value state, post value state → post' value state) : Survives safe pre script post' :=
  fun state hstate ↦ ⟨(hscript state hstate).1, hpost _ _ (hscript state hstate).2⟩

theorem Survives.ite {condition : Prop} [Decidable condition] {script alternative : Script σ α}
    (hscript : condition → Survives safe pre script post)
    (halternative : ¬ condition → Survives safe pre alternative post) :
    Survives safe pre (if condition then script else alternative) post := by
  split_ifs with hcondition
  · exact hscript hcondition
  · exact halternative hcondition

/-- What the precondition says about the values at hand can be used to prove the script. -/
theorem Survives.assume {fact : Prop} {script : Script σ α} (hfact : ∀ state, pre state → fact)
    (hscript : fact → Survives safe pre script post) : Survives safe pre script post :=
  fun state hstate ↦ hscript (hfact state hstate) state hstate

end Script

/-! ### Cells -/

/-- A value, and the values that a crash may leave in its place. -/
structure Cell (α : Type) where
  now : α
  survivors : List α
  deriving DecidableEq

namespace Cell

variable {α : Type}

/-- A cell whose value is durable. -/
def durable (value : α) : Cell α := ⟨value, [value]⟩

def set (value : α) (cell : Cell α) : Cell α := ⟨value, cell.survivors ++ [value]⟩

def sync (cell : Cell α) : Cell α := durable cell.now

def crash (pick : ℕ) (cell : Cell α) : Cell α := durable (cell.survivors.getD pick cell.now)

/-- The visible value and every value that a crash may leave. -/
structure All (holds : α → Prop) (cell : Cell α) : Prop where
  now : holds cell.now
  survivors : ∀ value ∈ cell.survivors, holds value

variable {holds : α → Prop} {cell : Cell α}

theorem all_durable {value : α} : (durable value).All holds ↔ holds value :=
  ⟨fun hall ↦ hall.now, fun hvalue ↦ ⟨hvalue, fun other hother ↦ by
    rwa [List.mem_singleton.mp hother]⟩⟩

theorem All.set (hcell : cell.All holds) {value : α} (hvalue : holds value) :
    (cell.set value).All holds :=
  ⟨hvalue, fun other hother ↦ (List.mem_append.mp hother).elim (hcell.survivors other)
    fun hnew ↦ List.mem_singleton.mp hnew ▸ hvalue⟩

theorem all_sync : cell.sync.All holds ↔ holds cell.now := all_durable

theorem All.crash (hcell : cell.All holds) (pick : ℕ) : (cell.crash pick).All holds := by
  refine all_durable.mpr ?_
  rw [List.getD_eq_getElem?_getD]
  cases hvalue : cell.survivors[pick]? with
  | none => exact hcell.now
  | some value => exact hcell.survivors value (List.mem_of_getElem? hvalue)

end Cell

/-! ### Directories -/

/-- A file: its content once it is fsynced, and before that anything. -/
inductive File (κ : Type)
  | torn
  | whole (content : κ)
  deriving DecidableEq

/-- The files of a directory under the names that were ever used in it. -/
structure Directory (ν κ : Type) where
  names : List ν
  cell : ν → Cell (Option (File κ))

namespace Directory

variable {ν κ : Type} [DecidableEq ν]

/-- What a process finds under a name. -/
def now (directory : Directory ν κ) (name : ν) : Option (File κ) := (directory.cell name).now

def set (name : ν) (file : Option (File κ)) (directory : Directory ν κ) : Directory ν κ where
  names := if name ∈ directory.names then directory.names else directory.names ++ [name]
  cell := Function.update directory.cell name ((directory.cell name).set file)

/-- A file is created, or truncated if it exists. -/
def create (name : ν) (directory : Directory ν κ) : Directory ν κ := directory.set name (some .torn)

/-- The content of a file is complete and fsynced. -/
def flush (name : ν) (content : κ) (directory : Directory ν κ) : Directory ν κ :=
  directory.set name (some (.whole content))

def remove (name : ν) (directory : Directory ν κ) : Directory ν κ :=
  if directory.now name = none then directory else directory.set name none

/-- The directory is fsynced. -/
def sync (directory : Directory ν κ) : Directory ν κ :=
  { directory with cell := fun name ↦ (directory.cell name).sync }

def crash (pick : ν → ℕ) (directory : Directory ν κ) : Directory ν κ :=
  { directory with cell := fun name ↦ (directory.cell name).crash (pick name) }

/-- The names of files that exist and match a pattern. -/
def glob (pattern : ν → Bool) (directory : Directory ν κ) : List ν :=
  directory.names.filter fun name ↦ pattern name && (directory.now name).isSome

variable {directory : Directory ν κ} {name other : ν} {file : Option (File κ)}

@[simp] theorem cell_set_self : (directory.set name file).cell name = (directory.cell name).set file :=
  Function.update_self ..

theorem cell_set_of_ne (hne : other ≠ name) :
    (directory.set name file).cell other = directory.cell other :=
  Function.update_of_ne hne ..

theorem all_set_of_ne {holds : Option (File κ) → Prop} (hne : other ≠ name)
    (hcell : (directory.cell other).All holds) : ((directory.set name file).cell other).All holds :=
  (cell_set_of_ne hne).symm ▸ hcell

@[simp] theorem now_set_self : (directory.set name file).now name = file := by
  rw [now, cell_set_self]
  rfl

theorem now_set_of_ne (hne : other ≠ name) : (directory.set name file).now other = directory.now other := by
  rw [now, cell_set_of_ne hne, now]

theorem cell_remove_of_ne (hne : other ≠ name) :
    (directory.remove name).cell other = directory.cell other := by
  rw [remove]
  split_ifs
  · rfl
  · exact cell_set_of_ne hne

end Directory

end OpenTrace.Library
