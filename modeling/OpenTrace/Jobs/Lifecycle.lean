import OpenTrace.Jobs.Queue

/-!
# Job lifecycle

What every write to a row must respect (`Legal`), that such writes keep the lifecycle of a job, and
the result for every schedule of workers, reapers, retries and enqueues (`job_lifecycle`).
-/

namespace OpenTrace.Jobs

open Library List Prog

/-! ### The lifecycle of one row -/

/-- The history leads to this status: every change starts where the one before it ended. -/
def LeadsTo : List Change → Status → Prop
  | [], _ => True
  | change :: earlier, status => change.after = status ∧ LeadsTo earlier change.before

/-- A worker's claim ends by a reap or by the worker's own report. -/
def Ends (worker : ℕ) (cause : Cause) : Prop :=
  cause = .reap ∨ cause = .complete worker ∨ cause = .fail worker

/-- Nothing happens to a claimed row except what ends the claim. -/
def Exclusive : List Change → Prop
  | [] => True
  | change :: earlier =>
    (∀ worker, holder earlier = some worker → Ends worker change.cause) ∧ Exclusive earlier

def retries (history : List Change) : ℕ := history.countP (·.cause = .retry)

/-- The attempt that a job still has before it, if it is waiting or running. -/
def Job.due (job : Job) : ℕ := if job.status = .pending ∨ job.status = .running then 1 else 0

/-- The attempts made, with the one to come, are within the limit and what retries have added. -/
def Job.WithinBudget (job : Job) (added : ℕ) : Prop :=
  job.attempts + job.due ≤ job.maxAttempts + added

structure Lifecycle (row : Row) : Prop where
  leadsTo : LeadsTo row.history row.job.status
  completed : ∀ change ∈ row.history, change.before ≠ .completed
  dead : ∀ change ∈ row.history, change.before = .dead → change.cause = .retry
  exclusive : Exclusive row.history
  held : ∀ worker, holder row.history = some worker → row.job.status = .running
  budget : row.job.WithinBudget (retries row.history)

/-- What a write to a row must respect. -/
structure Legal (row : Row) (cause : Cause) (job : Job) : Prop where
  completed : row.job.status ≠ .completed
  dead : row.job.status = .dead → cause = .retry
  ends : ∀ worker, holder row.history = some worker → Ends worker cause
  claims : ∀ worker, cause = .claim worker → job.status = .running
  budget : job.WithinBudget (retries (row.write cause job).history)

theorem lifecycle_new (job : Job) (hbudget : job.WithinBudget 0) : Lifecycle ⟨job, []⟩ where
  leadsTo := trivial
  completed := by simp
  dead := by simp
  exclusive := trivial
  held := by simp [holder]
  budget := hbudget

section

variable {row : Row} {cause : Cause}

theorem holder_write {job : Job} {worker : ℕ}
    (hholder : holder (row.write cause job).history = some worker) : cause = .claim worker := by
  cases cause with
  | claim claimant => simpa [holder, Row.write] using hholder
  | complete | fail | reap | retry => simp [holder, Row.write] at hholder

theorem Lifecycle.write {job : Job} (hrow : Lifecycle row)
    (hlegal : Legal row cause job) : Lifecycle (row.write cause job) where
  leadsTo := ⟨rfl, hrow.leadsTo⟩
  completed := forall_mem_cons.mpr ⟨hlegal.completed, hrow.completed⟩
  dead := forall_mem_cons.mpr ⟨hlegal.dead, hrow.dead⟩
  exclusive := ⟨hlegal.ends, hrow.exclusive⟩
  held := fun worker hholder ↦ hlegal.claims worker (holder_write hholder)
  budget := hlegal.budget

theorem retries_write_of_ne (hcause : cause ≠ .retry) (job : Job) :
    retries (row.write cause job).history = retries row.history :=
  countP_cons_of_neg (by simpa using hcause)

end

theorem Exclusive.of_append {later earlier : List Change} (hhistory : Exclusive (later ++ earlier)) :
    Exclusive earlier := by
  induction later with
  | nil => exact hhistory
  | cons change later ih => exact ih hhistory.2

/-- Between two claims of a job lies what ended the first of them. -/
theorem Exclusive.between {later middle earlier : List Change} {second first : Change}
    {worker other : ℕ} (hsecond : second.cause = .claim other) (hfirst : first.cause = .claim worker)
    (hhistory : Exclusive (later ++ second :: (middle ++ first :: earlier))) :
    ∃ change ∈ middle, Ends worker change.cause := by
  have hholder : holder (first :: earlier) = some worker := by
    obtain ⟨cause, before, after⟩ := first
    cases hfirst
    rfl
  rcases eq_nil_or_concat middle with rfl | ⟨newer, change, rfl⟩
  · have hends := hhistory.of_append.1 worker hholder
    rw [hsecond] at hends
    simp [Ends] at hends
  · have hmiddle := hhistory.of_append.2
    rw [concat_eq_append, append_assoc] at hmiddle
    exact ⟨change, by simp, hmiddle.of_append.1 worker hholder⟩

/-! ### Statements -/

def Sound (state : State) : Prop := ∀ id row, state.jobs.get id = some row → Lifecycle row

/-- The other threads do not touch a row that a worker goes on holding, and do not claim for it. -/
def Rely (thread : ℕ) (before after : State) : Prop :=
  ∀ id row, after.jobs.get id = some row → holder row.history = some thread →
    before.jobs.get id = some row

section Steps

variable {thread : ℕ} {state : State}

theorem guarantee_same (hstate : Sound state) : Guarantee Sound Rely thread state state :=
  ⟨hstate, fun _ _ _ _ hrow _ ↦ hrow⟩

theorem get_updateJobs (cause : Cause) (selects : ℤ → Job → Bool) (set : Job → Job) (id : ℤ) :
    (state.updateJobs cause selects set).jobs.get id = (state.jobs.get id).map fun row ↦
      if selects id row.job then row.write cause (set row.job) else row :=
  Table.get_update _ _ _

variable {cause : Cause} {row : Row}

/-- An update whose writes are all legal and that claims for nobody else. -/
theorem updateJobs_guarantee (hstate : Sound state) {selects : ℤ → Job → Bool} {set : Job → Job}
    (hclaims : ∀ other, other ≠ thread → cause ≠ .claim other)
    (hlegal : ∀ id row, state.jobs.get id = some row → selects id row.job = true → Legal row cause (set row.job)) :
    Guarantee Sound Rely thread state (state.updateJobs cause selects set) := by
  refine ⟨fun id row hget ↦ ?_, fun other hother id row hget hholder ↦ ?_⟩
  all_goals
    rw [get_updateJobs, Option.map_eq_some_iff] at hget
    obtain ⟨old, hold, hrow⟩ := hget
    split_ifs at hrow with hselects
  · subst hrow
    exact (hstate id old hold).write (hlegal id old hold hselects)
  · exact hrow ▸ hstate id old hold
  · subst hrow
    exact absurd (holder_write hholder) (hclaims other hother)
  · exact hrow ▸ hold

theorem insertJob_guarantee (hstate : Sound state) {job : Job} (hjob : job.WithinBudget 0) :
    Guarantee Sound Rely thread state (state.insertJob job) := by
  have hget : ∀ id row, (state.insertJob job).jobs.get id = some row →
      row = ⟨job, []⟩ ∨ state.jobs.get id = some row := by
    intro id row hrow
    by_cases hid : id = state.nextID
    · subst hid
      rw [State.insertJob, Table.get_set_self, Option.some.injEq] at hrow
      exact .inl hrow.symm
    · rw [State.insertJob, Table.get_set_of_ne _ hid] at hrow
      exact .inr hrow
  refine ⟨fun id row hrow ↦ ?_, fun other _ id row hrow hholder ↦ ?_⟩
  · rcases hget id row hrow with rfl | hold
    · exact lifecycle_new job hjob
    · exact hstate id row hold
  · rcases hget id row hrow with rfl | hold
    · simp [holder] at hholder
    · exact hold

theorem Lifecycle.attempts_le (hrow : Lifecycle row) (hstatus : row.job.status = .running) :
    row.job.attempts + 1 ≤ row.job.maxAttempts + retries row.history := by
  have hbudget := hrow.budget
  simpa only [Job.WithinBudget, Job.due, hstatus, or_true, ↓reduceIte] using hbudget

/-- A write to a running row that ends its claim and keeps the job within its limit. -/
theorem legal_of_running {job : Job} (hstatus : row.job.status = .running)
    (hends : ∀ worker, holder row.history = some worker → Ends worker cause)
    (hretry : cause ≠ .retry) (hclaim : ∀ worker, cause ≠ .claim worker)
    (hbudget : job.WithinBudget (retries row.history)) : Legal row cause job where
  completed := by simp [hstatus]
  dead := by simp [hstatus]
  ends := hends
  claims := fun worker hcause ↦ absurd hcause (hclaim worker)
  budget := by rwa [retries_write_of_ne hretry]

/-- The first claimable row is claimable. -/
theorem claimable_of_firstClaimable {queue : Bytes} {now id : ℤ}
    (hfirst : state.firstClaimable queue now id = true) (hrow : state.jobs.get id = some row) :
    row.job.status = .pending := by
  simp only [State.firstClaimable, hrow, claimable, Bool.and_eq_true, decide_eq_true_eq] at hfirst
  exact hfirst.1.1.2

theorem claim_guarantee (hstate : Sound state) {queue : Bytes} {now id : ℤ}
    (hfirst : state.firstClaimable queue now id = true) :
    Guarantee Sound Rely thread state
      (state.updateJobs (.claim thread) (fun other _ ↦ other = id) fun job ↦
        { job with status := .running, startedAt := some now }) := by
  refine updateJobs_guarantee hstate (fun other hother hclaim ↦ hother (by simpa using hclaim.symm)) ?_
  intro other row hrow hselects
  rw [decide_eq_true_eq] at hselects
  subst hselects
  have hpending := claimable_of_firstClaimable hfirst hrow
  have hlife := hstate other row hrow
  exact
    { completed := by simp [hpending]
      dead := by simp [hpending]
      ends := fun worker hholder ↦ by simp [hlife.held worker hholder] at hpending
      claims := fun _ _ ↦ rfl
      budget := by
        have hbudget := hlife.budget
        rw [retries_write_of_ne (by simp)]
        simpa only [Job.WithinBudget, Job.due, hpending, true_or, or_true] using hbudget }

/-- The row a worker holds is running, and so its report may be written. -/
theorem report_guarantee (hstate : Sound state) {id : ℤ} {set : Job → Job}
    (hlost : state.lost thread id = false)
    (hcause : cause = .complete thread ∨ cause = .fail thread)
    (hbudget : ∀ row, state.jobs.get id = some row → Lifecycle row → holder row.history = some thread → row.job.status = .running → (set row.job).WithinBudget (retries row.history)) :
    Guarantee Sound Rely thread state (state.updateJobs cause (fun other _ ↦ other = id) set) := by
  refine updateJobs_guarantee hstate (fun other _ ↦ by rcases hcause with rfl | rfl <;> simp) ?_
  intro other row hrow hselects
  rw [decide_eq_true_eq] at hselects
  subst hselects
  have hholder : holder row.history = some thread := by
    simpa [State.lost, hrow] using hlost
  have hlife := hstate other row hrow
  have hrunning := hlife.held thread hholder
  refine legal_of_running hrunning (fun worker hworker ↦ ?_) (by rcases hcause with rfl | rfl <;> simp)
    (fun worker ↦ by rcases hcause with rfl | rfl <;> simp) (hbudget row hrow hlife hholder hrunning)
  cases hholder.symm.trans hworker
  exact .inr hcause

theorem failJob_withinBudget (hrow : Lifecycle row) (hrunning : row.job.status = .running)
    (errMsg : Bytes) (now : ℤ) :
    (failJob (row.job.attempts + 1) row.job.maxAttempts errMsg now row.job).WithinBudget
      (retries row.history) := by
  have hattempts := hrow.attempts_le hrunning
  unfold failJob
  split_ifs with hlimit
  · simpa [Job.WithinBudget, Job.due] using hattempts
  · simp only [Job.WithinBudget, Job.due, true_or, ↓reduceIte]
    omega

theorem reapDead_guarantee (hstate : Sound state) (cutoff : Option ℤ) :
    Guarantee Sound Rely thread state (state.reapDead cutoff) := by
  refine updateJobs_guarantee hstate (by simp) fun id row hrow hselects ↦ ?_
  simp only [Bool.and_eq_true, decide_eq_true_eq] at hselects
  have hattempts := (hstate id row hrow).attempts_le hselects.1.1
  exact legal_of_running hselects.1.1 (fun _ _ ↦ .inl rfl) (by simp) (by simp)
    (by simpa [Job.WithinBudget, Job.due] using hattempts)

theorem reapPending_guarantee (hstate : Sound state) (now : ℤ) (cutoff : Option ℤ) :
    Guarantee Sound Rely thread state (state.reapPending now cutoff) := by
  refine updateJobs_guarantee hstate (by simp) fun id row hrow hselects ↦ ?_
  simp only [Bool.and_eq_true, decide_eq_true_eq] at hselects
  refine legal_of_running hselects.1.1 (fun _ _ ↦ .inl rfl) (by simp) (by simp) ?_
  simp only [Job.WithinBudget, Job.due, true_or, ↓reduceIte]
  omega

theorem retry_guarantee (hstate : Sound state) (id now : ℤ) : Guarantee Sound Rely thread state
      (state.updateJobs .retry
        (fun other job ↦ other = id && (job.status = .dead || job.status = .failed))
        fun job ↦ { job with status := .pending, runAt := now }) := by
  refine updateJobs_guarantee hstate (by simp) fun other row hrow hselects ↦ ?_
  simp only [Bool.and_eq_true, Bool.or_eq_true, decide_eq_true_eq] at hselects
  have hlife := hstate other row hrow
  have hidle : row.job.status = .dead ∨ row.job.status = .failed := hselects.2
  exact
    { completed := by rcases hidle with hstatus | hstatus <;> simp [hstatus]
      dead := fun _ ↦ rfl
      ends := fun worker hholder ↦ by simp [hlife.held worker hholder] at hidle
      claims := by simp
      budget := by
        have hbudget := hlife.budget
        have hcount : ∀ job, retries (row.write .retry job).history = retries row.history + 1 :=
          fun job ↦ countP_cons_of_pos (by simp)
        rw [hcount]
        simp only [Job.WithinBudget, Job.due, true_or, ↓reduceIte] at hbudget ⊢
        omega }

end Steps

/-! ### Programs -/

section Programs

variable {thread : ℕ}

theorem stable_true : Stable Sound Rely thread fun _ ↦ True := Stable.true

variable {precondition : State → Prop} (id : ℤ)

section

variable (hstable : Stable Sound Rely thread precondition)

include hstable

theorem load_ok {α : Type} {result : Input → State → α} {postcondition : α → State → Prop}
    (hpost : ∀ input state, precondition state → postcondition (result input state) state) :
    (load result).Ok Sound Rely thread precondition postcondition :=
  Ok.atomically hstable
    fun input state hstate hholds _ _ ↦ ⟨guarantee_same hstate, hpost input state hholds⟩

theorem timeNow_ok : timeNow.Ok Sound Rely thread precondition fun _ ↦ precondition :=
  load_ok hstable fun _ _ hholds ↦ hholds

theorem exec_ok {lapses : State → Bool} {update : State → State}
    (hupdate : ∀ state, Sound state → precondition state → lapses state = false → Guarantee Sound Rely thread state (update state)) :
    (exec lapses update).Ok Sound Rely thread precondition fun _ _ ↦ True := by
  refine Ok.atomically hstable ?_
  intro input state hstate hholds _ hcovered
  cases hok : input.ok with
  | false => simpa [hok] using guarantee_same hstate
  | true =>
    simp only [hok, Bool.not_eq_true] at hcovered
    simpa [hok] using hupdate state hstate hholds hcovered

end

/-- The row is as it was read, as long as the worker holds it. -/
def Unchanged (thread : ℕ) (id : ℤ) (job : Job) (state : State) : Prop :=
  ∀ row, state.jobs.get id = some row → holder row.history = some thread → row.job = job

theorem stable_unchanged (job : Job) : Stable Sound Rely thread (Unchanged thread id job) :=
  fun _ _ _ _ hrely hholds row hrow hholder ↦ hholds row (hrely id row hrow hholder) hholder

theorem complete_ok : (complete thread id).Ok Sound Rely thread (fun _ ↦ True) fun _ _ ↦ True := by
  refine (timeNow_ok stable_true).bind fun now ↦
    (exec_ok stable_true fun state hstate _ hlost ↦ ?_).bind fun _ ↦ Ok.ret fun _ _ _ ↦ trivial
  refine report_guarantee hstate hlost (.inl rfl) fun row _ hlife _ hrunning ↦ ?_
  have hattempts := hlife.attempts_le hrunning
  simp only [Job.WithinBudget, Job.due, reduceCtorEq, or_self, ↓reduceIte]
  omega

theorem getByID_ok : (getByID id).Ok Sound Rely thread (fun _ ↦ True)
      fun found state ↦ ∀ job, found = some job → Unchanged thread id job state := by
  refine load_ok stable_true fun input state _ job hfound row hrow _ ↦ ?_
  split_ifs at hfound
  simpa [hrow] using hfound

theorem fail_ok (errMsg : Bytes) :
    (fail thread id errMsg).Ok Sound Rely thread (fun _ ↦ True) fun _ _ ↦ True := by
  refine (getByID_ok id).bind fun found ↦ ?_
  cases found with
  | none => exact Ok.ret fun _ _ _ ↦ trivial
  | some job =>
    refine Ok.pre (fun state _ hread ↦ hread job rfl) ?_
    refine (timeNow_ok (stable_unchanged id job)).bind fun now ↦
      (exec_ok (stable_unchanged id job) fun state hstate hread hlost ↦ ?_).bind
        fun _ ↦ Ok.ret fun _ _ _ ↦ trivial
    refine report_guarantee hstate hlost (.inr rfl) fun row hrow hlife hholder hrunning ↦ ?_
    rw [← hread row hrow hholder]
    exact failJob_withinBudget hlife hrunning errMsg now

theorem claimNext_ok (queue : Bytes) :
    (claimNext thread queue).Ok Sound Rely thread (fun _ ↦ True) fun _ _ ↦ True := by
  have hclaim : ∀ now, (claimRow thread queue now).Ok Sound Rely thread (fun _ ↦ True)
      fun _ _ ↦ True := by
    refine fun now ↦ Ok.atomically stable_true ?_
    intro input state hstate _ _ _
    refine ⟨?_, trivial⟩
    split_ifs with hfirst
    · rw [Bool.and_eq_true] at hfirst
      exact claim_guarantee hstate hfirst.2
    · exact guarantee_same hstate
  refine (timeNow_ok stable_true).bind fun now ↦ (hclaim _).bind fun claimed ↦ ?_
  cases claimed with
  | none => exact Ok.ret fun _ _ _ ↦ trivial
  | some id => exact (getByID_ok id).bind fun _ ↦ Ok.ret fun _ _ _ ↦ trivial

theorem processNext_ok (queueName : Bytes) (handlers : List Bytes) :
    (processNext thread queueName handlers).Ok Sound Rely thread (fun _ ↦ True) fun _ _ ↦ True := by
  refine (claimNext_ok queueName).bind fun claimed ↦ ?_
  cases claimed with
  | none => exact Ok.ret fun _ _ _ ↦ trivial
  | some claimed =>
    have hhandler : (load fun input _ ↦ input.error).Ok Sound Rely thread (fun _ ↦ True)
        fun _ _ ↦ True := load_ok stable_true fun _ _ _ ↦ trivial
    refine Ok.ite (fun _ ↦ hhandler.bind fun handlerErr ↦ ?_) fun _ ↦ fail_ok _ _
    cases handlerErr with
    | none => exact complete_ok _
    | some errMsg => exact fail_ok _ _

theorem reapOrphaned_ok (olderThan : ℤ) :
    (reapOrphaned olderThan).Ok Sound Rely thread (fun _ ↦ True) fun _ _ ↦ True := by
  refine (timeNow_ok stable_true).bind fun now ↦ (timeNow_ok stable_true).bind fun deadline ↦
    (exec_ok stable_true fun _ hstate _ _ ↦ reapDead_guarantee hstate _).bind fun ok ↦ ?_
  refine Ok.ite (fun _ ↦ ?_) fun _ ↦ Ok.ret fun _ _ _ ↦ trivial
  exact (exec_ok stable_true fun _ hstate _ _ ↦ reapPending_guarantee hstate _ _).bind
    fun _ ↦ Ok.ret fun _ _ _ ↦ trivial

theorem retry_ok : (retry id).Ok Sound Rely thread (fun _ ↦ True) fun _ _ ↦ True :=
  (timeNow_ok stable_true).bind fun _ ↦
    (exec_ok stable_true fun _ hstate _ _ ↦ retry_guarantee hstate id _).bind
      fun _ ↦ Ok.ret fun _ _ _ ↦ trivial

theorem enqueueAt_ok (jobType payload : Bytes) (runAt : ℤ) :
    (enqueueAt jobType payload runAt).Ok Sound Rely thread (fun _ ↦ True) fun _ _ ↦ True :=
  (timeNow_ok stable_true).bind fun _ ↦
    (exec_ok stable_true fun _ hstate _ _ ↦ insertJob_guarantee hstate (Nat.le_of_ble_eq_true rfl)).bind
      fun _ ↦ Ok.ret fun _ _ _ ↦ trivial

end Programs

/-! ### The lifecycle in every run -/

theorem system_verified : system.Verified Sound Rely where
  call := fun call _ ↦
    match call with
    | .enqueueAt jobType payload runAt => (enqueueAt_ok jobType payload runAt).pre fun _ _ _ ↦ trivial
    | .processNext queueName handlers => (processNext_ok queueName handlers).pre fun _ _ _ ↦ trivial
    | .reapOrphaned olderThan => (reapOrphaned_ok olderThan).pre fun _ _ _ ↦ trivial
    | .retry id => (retry_ok id).pre fun _ _ _ ↦ trivial
  crash := fun _ _ _ _ hcrash ↦ by cases hcrash

theorem sound_opened (jobs : Table ℤ Job) (nextID : ℤ)
    (hjobs : ∀ id job, jobs.get id = some job → job.WithinBudget 0) : Sound (opened jobs nextID) := by
  intro id row hrow
  rw [← Table.mem_rows] at hrow
  obtain ⟨⟨key, job⟩, hjob, heq⟩ := mem_map.mp hrow
  cases heq
  exact lifecycle_new job (hjobs key job (jobs.mem_rows.mp hjob))

/-- In every schedule of enqueues, workers, reapers and retries, the changes of a job's status lead to
the status it has, none of them starts from completed, those that start from dead are retries, between
two claims lies a reap or the report of the first worker, and the attempts are at most `max_attempts`
and the number of retries.

Assumes: the jobs found in the table are within their limit, and no step of the schedule lapsed, so
that every report finds the row as its worker claimed it. -/
theorem job_lifecycle (jobs : Table ℤ Job) (nextID : ℤ)
    (hjobs : ∀ id job, jobs.get id = some job → job.WithinBudget 0)
    (events : List (Event Call Input))
    (hlapsed : (system.run (System.start (opened jobs nextID)) events).lapsed = false)
    (id : ℤ) (row : Row)
    (hrow : (system.run (System.start (opened jobs nextID)) events).state.jobs.get id = some row) :
    LeadsTo row.history row.job.status ∧ (∀ change ∈ row.history, change.before ≠ .completed) ∧
      (∀ change ∈ row.history, change.before = .dead → change.cause = .retry) ∧
      (∀ (later middle earlier : List Change) (second first : Change) (worker other : ℕ),
        row.history = later ++ second :: (middle ++ first :: earlier) →
        first.cause = .claim worker → second.cause = .claim other →
        ∃ change ∈ middle, Ends worker change.cause) ∧
      row.job.attempts ≤ row.job.maxAttempts + retries row.history := by
  have hlife := system_verified.run (sound_opened jobs nextID hjobs) events hlapsed id row hrow
  refine ⟨hlife.leadsTo, hlife.completed, hlife.dead, ?_, ?_⟩
  · intro later middle earlier second first worker other hhistory hfirst hsecond
    have hexclusive := hlife.exclusive
    rw [hhistory] at hexclusive
    exact hexclusive.between hsecond hfirst
  · have hbudget := hlife.budget
    unfold Job.WithinBudget at hbudget
    omega

section Runs

/-- So many steps of a thread at this second, with this outcome of its handler. -/
def steps (thread count : ℕ) (second : ℤ) (error : Option Bytes) : List (Event Call Input) :=
  replicate count (.run thread ⟨true, second * 10 ^ 9, 0, error⟩)

def poll : Event Call Input := .call (.processNext (ascii "default") [ascii "rollup"])

/-- One job is enqueued at second zero. -/
def enqueued : List (Event Call Input) :=
  .call (.enqueueAt (ascii "rollup") [] 0) :: steps 0 2 0 none

/-- The state after a schedule on an empty table. -/
def reached (events : List (Event Call Input)) : Threads Input State :=
  system.run (System.start (opened .empty 0)) events

/-- A worker claims the job and the reaper takes it back; the worker does not come back, and a second
one completes the job. -/
def reapedAndCompleted : List (Event Call Input) :=
  enqueued ++ [poll, .call (.reapOrphaned (1800 * 10 ^ 9)), poll] ++ steps 1 3 1 none ++
    steps 2 4 2000 none ++ steps 3 6 2001 none

theorem job_lifecycle_witness : (reached reapedAndCompleted).lapsed = false ∧
      ∃ row, (reached reapedAndCompleted).state.jobs.get 0 = some row ∧
        row.job.status = .completed ∧
        row.history.map Change.cause = [.complete 3, .claim 3, .reap, .claim 1] ∧
        LeadsTo row.history row.job.status ∧
        (∀ change ∈ row.history, change.before ≠ .completed) ∧
        (∀ change ∈ row.history, change.before = .dead → change.cause = .retry) ∧
        (∀ (later middle earlier : List Change) (second first : Change) (worker other : ℕ),
          row.history = later ++ second :: (middle ++ first :: earlier) →
          first.cause = .claim worker → second.cause = .claim other →
          ∃ change ∈ middle, Ends worker change.cause) ∧
        row.job.attempts ≤ row.job.maxAttempts + retries row.history := by
  have hlapsed : (reached reapedAndCompleted).lapsed = false := by decide +kernel
  have hsome : ((reached reapedAndCompleted).state.jobs.get 0).isSome = true := by decide +kernel
  obtain ⟨row, hrow⟩ := Option.isSome_iff_exists.mp hsome
  have hfacts : ((reached reapedAndCompleted).state.jobs.get 0).map
      (fun row ↦ (row.job.status, row.history.map Change.cause)) =
        some (.completed, [.complete 3, .claim 3, .reap, .claim 1]) := by decide +kernel
  rw [hrow, Option.map_some, Option.some.injEq, Prod.mk.injEq] at hfacts
  exact ⟨hlapsed, row, hrow, hfacts.1, hfacts.2,
    job_lifecycle .empty 0 (fun _ _ hjob ↦ by simp at hjob) reapedAndCompleted hlapsed 0 row hrow⟩

/-- Three workers fail with the job, which is then dead; it is retried, and a fourth worker fails. -/
def failedFourTimes : List (Event Call Input) :=
  enqueued ++ [poll, poll, poll, .call (.retry 0), poll] ++ steps 1 7 1 (some []) ++
    steps 2 7 1000 (some []) ++ steps 3 7 2000 (some []) ++ steps 4 2 3000 none ++
    steps 5 7 3001 (some [])

/-- Without any reap a job is claimed by four workers, and after a retry it has had four attempts of
three. -/
theorem retried_job_exceeds_attempts : (reached failedFourTimes).lapsed = false ∧
      ((reached failedFourTimes).state.jobs.get 0).map
        (fun row ↦ (row.history.map Change.cause, row.job.attempts, row.job.maxAttempts)) =
          some ([.fail 5, .claim 5, .retry, .fail 3, .claim 3, .fail 2, .claim 2, .fail 1, .claim 1],
            4, 3) := by
  decide +kernel

/-- The worker whose job was taken back fails after the second worker has completed the job. -/
def staleFailure : List (Event Call Input) := reapedAndCompleted ++ steps 1 4 2002 (some [])

/-- The outcome of a worker that no longer holds the job makes a completed job pending. -/
theorem stale_failure_revives_completed : (reached staleFailure).lapsed = true ∧
      ((reached staleFailure).state.jobs.get 0).map (fun row ↦ row.history.head?) =
        some (some ⟨.fail 1, .completed, .pending⟩) := by
  decide +kernel

end Runs

end OpenTrace.Jobs
