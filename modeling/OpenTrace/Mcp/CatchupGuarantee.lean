import OpenTrace.Library.TopN
import OpenTrace.Mcp.Catchup

/-!
# What catch-up does not swallow

`catchup_swallows_nothing` says that in every run of a careful system without lapses, everything that
was recorded while the user had a cursor, in an environment they may read, has been shown by a response
before the cursor moved past its recording; error groups that were resolved meanwhile are excepted.

The invariant ties a row that no response has shown to the last listing of its table: its stamp is
ahead of that, so that the next window contains it.
-/

namespace OpenTrace.Mcp.Catchup

open Library List Option Prog

/-! ### Times -/

theorem seconds_mul_le (time : ℤ) : seconds time * second ≤ time := by
  unfold seconds second
  omega

theorem lt_seconds_succ_mul (time : ℤ) : time < (seconds time + 1) * second := by
  unfold seconds second
  omega

theorem seconds_le {time : ℤ} {bound : ℤ} (htime : time < (bound + 1) * second) :
    seconds time ≤ bound := by
  unfold seconds second at *
  omega

/-! ### Invariant and rely -/

/-- An error group that has been resolved or ignored since it was recorded. -/
def Gone (kind : Kind) (row : Row) : Prop := kind = .errorGroup ∧ row.still = false

/-- The claim is about this row. -/
def Concerns (setting : Setting) (row : Row) : Prop :=
  row.tracked = true ∧ setting.scope.allows row.environment = true

/-- A response has shown the row, or the call in progress has collected it or will be truncated. -/
def Settled (state : State) (kind : Kind) (row : Row) : Prop :=
  maxCatchupItems < state.collected.length ∨ (kind, row.id) ∈ state.reported ∨
    (kind, row.id) ∈ state.collected ∨ Gone kind row

/-- A row is the same one as before, up to what may be rewritten. -/
structure Follows (row row' : Row) : Prop where
  id : row'.id = row.id
  environment : row'.environment = row.environment
  stamp : row'.stamp = row.stamp
  tracked : row'.tracked = row.tracked
  recordedAt : row'.recordedAt = row.recordedAt
  still : row'.still = true → row.still = true

section Invariant

variable (setting : Setting)

structure Sound (state : State) : Prop where
  ahead : ∀ kind, ∀ row ∈ state.tables kind, Concerns setting row →
    Settled state kind row ∨ isAhead kind row.stamp state = true
  target : ∀ kind, ∀ row ∈ state.tables kind, Concerns setting row →
    row.environment = setting.target
  still : ∀ kind, ∀ row ∈ state.tables kind, row.tracked = true → row.still = true →
    row.status = .unresolved
  covered : ∀ last, state.lastCall = some last → ∀ kind, ∀ row ∈ state.tables kind,
    Concerns setting row → row.recordedAt < last → (kind, row.id) ∈ state.reported ∨ Gone kind row
  cursor : ∀ cursor, state.cursor = some cursor → ∃ last, state.lastCall = some last ∧
    cursor * second ≤ last
  listed : ∀ last, state.lastCall = some last → ∀ kind, ∃ stamp, state.listed kind = some stamp ∧
    last < (stamp + 1) * second
  clock : ∀ last, state.lastCall = some last → last ≤ state.clock
  untracked : state.cursor = none → ∀ kind, ∀ row ∈ state.tables kind, row.tracked = false
  idle : state.busy = none → state.collected = []

/-- What the call in progress may rely on. -/
structure Undisturbed (before after : State) : Prop where
  cursor : after.cursor = before.cursor
  busy : after.busy = before.busy
  listed : after.listed = before.listed
  lastCall : after.lastCall = before.lastCall
  collected : after.collected = before.collected
  reported : after.reported = before.reported
  clock : before.clock ≤ after.clock
  tables : ∀ kind, ∀ row' ∈ after.tables kind, before.clock ≤ row'.recordedAt ∨
    ∃ row ∈ before.tables kind, Follows row row'

def Rely (thread : ℕ) (before after : State) : Prop :=
  before.busy = some thread → Undisturbed before after

variable {setting} {state : State} {thread : ℕ}

theorem Follows.refl {row : Row} : Follows row row := ⟨rfl, rfl, rfl, rfl, rfl, fun hstill ↦ hstill⟩

variable {row row' : Row} {kind : Kind}

theorem Follows.concerns (hfollows : Follows row row') (hconcerns : Concerns setting row') :
    Concerns setting row :=
  ⟨hfollows.tracked ▸ hconcerns.1, hfollows.environment ▸ hconcerns.2⟩

theorem Follows.gone (hfollows : Follows row row') (hgone : Gone kind row) : Gone kind row' := by
  refine ⟨hgone.1, ?_⟩
  cases hstill : row'.still with
  | false => rfl
  | true => exact absurd (hfollows.still hstill) (by rw [hgone.2]; exact Bool.false_ne_true)

theorem Follows.settled (hfollows : Follows row row') (hsettled : Settled state kind row) :
    Settled state kind row' := by
  unfold Settled at hsettled ⊢
  rw [hfollows.id]
  exact hsettled.imp_right (Or.imp_right (Or.imp_right hfollows.gone))

/-! ### Steps of the others -/

variable (hstate : Sound setting state)

include hstate

theorem guarantee_wait (time : ℕ) :
    Guarantee (Sound setting) Rely thread state { state with clock := state.clock + time } := by
  have hle : state.clock ≤ state.clock + time := Int.le_add_of_nonneg_right (Int.natCast_nonneg _)
  refine ⟨{ hstate with clock := fun last hlast ↦ Int.le_trans (hstate.clock last hlast) hle },
    fun other _ _ ↦ ⟨rfl, rfl, rfl, rfl, rfl, rfl, hle, fun kind row hrow ↦ .inr ⟨row, hrow, .refl⟩⟩⟩

theorem guarantee_refl : Guarantee (Sound setting) Rely thread state state :=
  ⟨hstate, fun _ _ _ ↦ ⟨rfl, rfl, rfl, rfl, rfl, rfl, Int.le_refl _,
    fun _ row hrow ↦ .inr ⟨row, hrow, .refl⟩⟩⟩

/-- Tables change in that rows are rewritten, and at most one is added. -/
theorem guarantee_tables {tables : Kind → List Row}
    (hrows : ∀ kind, ∀ row' ∈ tables kind, (∃ row ∈ state.tables kind, Follows row row' ∧
        (row.tracked = true → row'.still = true → row.status = .unresolved →
          row'.status = .unresolved)) ∨
      row'.recordedAt = state.clock ∧ row'.tracked = state.cursor.isSome ∧
        row'.status = .unresolved ∧ (Concerns setting row' →
          isAhead kind row'.stamp state = true ∧ row'.environment = setting.target)) :
    Guarantee (Sound setting) Rely thread state { state with tables := tables } := by
  refine ⟨?_, fun other _ _ ↦ ⟨rfl, rfl, rfl, rfl, rfl, rfl, Int.le_refl _, fun kind row' hrow' ↦ ?_⟩⟩
  · refine { hstate with
      ahead := fun kind row' hrow' hconcerns ↦ ?_
      target := fun kind row' hrow' hconcerns ↦ ?_
      still := fun kind row' hrow' htracked hstill ↦ ?_
      covered := fun last hlast kind row' hrow' hconcerns hbefore ↦ ?_
      untracked := fun hcursor kind row' hrow' ↦ ?_ }
    all_goals rcases hrows kind row' hrow' with ⟨row, hrow, hfollows, hstatus⟩ | ⟨hat, hnew, hopen, hahead⟩
    · refine (hstate.ahead kind row hrow (hfollows.concerns hconcerns)).imp hfollows.settled ?_
      rw [hfollows.stamp]
      exact id
    · exact .inr (hahead hconcerns).1
    · rw [hfollows.environment]
      exact hstate.target kind row hrow (hfollows.concerns hconcerns)
    · exact (hahead hconcerns).2
    · have hold : row.tracked = true := hfollows.tracked ▸ htracked
      exact hstatus hold hstill (hstate.still kind row hrow hold (hfollows.still hstill))
    · exact hopen
    · rw [hfollows.id]
      exact (hstate.covered last hlast kind row hrow (hfollows.concerns hconcerns)
        (hfollows.recordedAt ▸ hbefore)).imp_right hfollows.gone
    · exact absurd (hbefore.trans_le (hstate.clock last hlast)) (hat ▸ Int.lt_irrefl _)
    · exact hfollows.tracked ▸ hstate.untracked hcursor kind row hrow
    · rw [hnew, hcursor]
      rfl
  · rcases hrows kind row' hrow' with ⟨row, hrow, hfollows, -⟩ | ⟨hat, -⟩
    · exact .inr ⟨row, hrow, hfollows⟩
    · exact .inl (Int.le_of_eq hat.symm)

theorem guarantee_insert {environment : Bytes} {stamp : ℤ} (urgent : Bool)
    (hahead : state.cursor.isSome = true → setting.scope.allows environment = true → isAhead kind stamp state = true ∧ environment = setting.target) :
    Guarantee (Sound setting) Rely thread state (state.insert kind environment stamp urgent) := by
  refine guarantee_tables hstate fun other row' hrow' ↦ ?_
  have hold : row' ∈ state.tables other → ∃ row ∈ state.tables other, Follows row row' ∧
      (row.tracked = true → row'.still = true → row.status = .unresolved →
        row'.status = .unresolved) := fun hrow ↦ ⟨row', hrow, .refl, fun _ _ hstatus ↦ hstatus⟩
  split_ifs at hrow' with hkind
  · rcases mem_cons.mp hrow' with rfl | hrow
    · exact .inr ⟨rfl, rfl, rfl, fun hconcerns ↦ hkind ▸ hahead hconcerns.1 hconcerns.2⟩
    · exact .inl (hold (hkind ▸ hrow))
  · exact .inl (hold hrow')

theorem guarantee_revise (kind : Kind) (id : ℕ) {change : Row → Row}
    (hchange : ∀ row, Follows row (change row) ∧ ((change row).still = true →
      row.status = .unresolved → (change row).status = .unresolved)) :
    Guarantee (Sound setting) Rely thread state (state.revise kind id change) := by
  refine guarantee_tables hstate fun other row' hrow' ↦ .inl ?_
  split_ifs at hrow' with hkind
  · obtain ⟨row, hrow, rfl⟩ := mem_map.mp hrow'
    refine ⟨row, hkind ▸ hrow, ?_⟩
    split_ifs
    · exact ⟨(hchange row).1, fun _ ↦ (hchange row).2⟩
    · exact ⟨.refl, fun _ _ hstatus ↦ hstatus⟩
  · exact ⟨row', hrow', .refl, fun _ _ hstatus ↦ hstatus⟩

end Invariant

/-! ### Collectors -/

variable {rows : List Row} {row : Row}

theorem mem_read {input : Input} : row ∈ input.read rows ↔ row ∈ rows := by
  unfold Input.read
  split_ifs with hperm
  · exact (isPerm_iff.mp hperm).mem_iff
  · exact Iff.rfl

theorem countP_read (input : Input) (rows : List Row) (test : Row → Bool) :
    (input.read rows).countP test = rows.countP test := by
  unfold Input.read
  split_ifs with hperm
  · exact (isPerm_iff.mp hperm).countP_eq test
  · rfl

/-- A sorted query whose limit is not reached finds every row. -/
theorem mem_limited {le : Row → Row → Bool} {entry : Row → TriageEntry} (hrow : row ∈ rows) :
    maxCatchupItems < (((rows.mergeSort le).take catchupFetchLimit).map entry).length ∨
      (entry row).key ∈ (((rows.mergeSort le).take catchupFetchLimit).map entry).map
        TriageEntry.key := by
  by_cases hlength : maxCatchupItems < (((rows.mergeSort le).take catchupFetchLimit).map entry).length
  · exact .inl hlength
  · rw [length_map] at hlength
    have hall : (rows.mergeSort le).take catchupFetchLimit = rows.mergeSort le :=
      take_eq_self_of_length_lt (Nat.lt_succ_of_le (Nat.le_of_not_lt hlength))
    rw [hall]
    exact .inr (mem_map_of_mem (mem_map_of_mem ((mergeSort_perm _ _).mem_iff.mpr hrow)))

theorem mem_catchupAlerts {env : Bytes} {since : ℤ} (hrow : row ∈ rows)
    (hafter : isAfter since row = true) (henv : matchesEnv env row = true)
    (hcount : rows.countP (isAfter since) ≤ catchupAlertScanLimit) :
    (.watchAlert, row.id) ∈ (catchupAlerts env since rows).map TriageEntry.key := by
  let le : Row → Row → Bool := fun first second ↦ second.stamp ≤ first.stamp
  have hperm := mergeSort_perm rows le
  have hsorted : (rows.mergeSort le).Pairwise fun first second ↦ le first second = true :=
    pairwise_mergeSort (fun first second third hfirst hsecond ↦ by
      simp only [le, decide_eq_true_eq] at hfirst hsecond ⊢
      omega) (fun first second ↦ by
      simp only [le, Bool.or_eq_true, decide_eq_true_eq]
      omega) rows
  have htake : row ∈ (rows.mergeSort le).take catchupAlertScanLimit := by
    refine mem_take_of_countP_le hsorted (fun first second hle htest ↦ ?_)
      (by rw [hperm.countP_eq]; exact hcount) (hperm.mem_iff.mpr hrow) hafter
    simp only [le, isAfter, decide_eq_true_eq] at hle htest ⊢
    unfold Catchup.second at htest ⊢
    omega
  refine mem_map.mpr ⟨_, mem_map_of_mem (mem_filter.mpr ⟨htake, ?_⟩), rfl⟩
  rw [hafter, henv, Bool.true_and]

/-- What the window and the environment let through is collected, or the response is truncated. -/
theorem mem_collector (kind : Kind) (env : Bytes) {since : ℤ} (hrow : row ∈ rows)
    (hstatus : kind = .errorGroup → row.status = .unresolved) (henv : matchesEnv env row = true)
    (hafter : kind = .watchAlert → isAfter since row = true) (hstamp : seconds since ≤ row.stamp)
    (hcount : kind = .watchAlert → rows.countP (isAfter since) ≤ catchupAlertScanLimit) :
    maxCatchupItems < (collector kind env since rows).length ∨
      (kind, row.id) ∈ (collector kind env since rows).map TriageEntry.key := by
  cases kind with
  | errorGroup =>
    refine mem_limited (mem_filter.mpr ⟨hrow, ?_⟩)
    simp [hstatus rfl, henv, hstamp]
  | watchAlert => exact .inr (mem_catchupAlerts hrow (hafter rfl) henv (hcount rfl))
  | deploy =>
    refine mem_limited (mem_filter.mpr ⟨hrow, ?_⟩)
    simp [henv, hstamp]

/-- A response that is not truncated shows all that was collected. -/
theorem mem_collectCatchup {isCriticalPath : TriageEntry → Bool} {items : List TriageEntry}
    (hfits : (collectCatchup isCriticalPath items).2 = false) {key : Kind × ℕ}
    (hkey : key ∈ items.map TriageEntry.key) :
    items.length ≤ maxCatchupItems ∧
      key ∈ (collectCatchup isCriticalPath items).1.map TriageEntry.key := by
  unfold collectCatchup at hfits ⊢
  simp only at hfits ⊢
  split_ifs at hfits ⊢ with hlength
  refine ⟨?_, ?_⟩
  · rw [length_mergeSort, length_map] at hlength
    exact Nat.le_of_not_lt hlength
  · obtain ⟨item, hitem, rfl⟩ := mem_map.mp hkey
    refine mem_map.mpr ⟨_, (mergeSort_perm _ _).mem_iff.mpr (mem_map_of_mem hitem), ?_⟩
    split_ifs <;> rfl

/-! ### The call in progress -/

/-- The call has read the clock for its window. -/
structure Started (thread : ℕ) (started : ℤ) (state : State) : Prop where
  busy : state.busy = some thread
  collected : state.collected = []
  clock : started ≤ state.clock
  last : ∀ last, state.lastCall = some last → last ≤ started ∧ started - maxCatchupWindow ≤ last

/-- The window starts no later than the last call. -/
structure Windowed (thread : ℕ) (started since : ℤ) (state : State) : Prop
    extends Started thread started state where
  window : state.cursor = none ∨ ∃ last, state.lastCall = some last ∧ since ≤ last

/-- The call has listed some tables. -/
structure Collecting (setting : Setting) (thread : ℕ) (since now : ℤ) (done : List Kind)
    (items : List TriageEntry) (state : State) : Prop where
  busy : state.busy = some thread
  collected : state.collected.Perm (items.map TriageEntry.key)
  window : state.cursor = none ∨ ∃ last, state.lastCall = some last ∧ since ≤ last
  clock : now ≤ state.clock
  last : ∀ last, state.lastCall = some last → last ≤ now
  listed : ∀ kind ∈ done, state.listed kind = some (seconds now)
  rows : ∀ kind ∈ done, ∀ row ∈ state.tables kind, Concerns setting row → row.recordedAt < now →
    Settled state kind row

/-- The response is assembled. -/
structure Responded (thread : ℕ) (now : ℤ) (state : State) : Prop where
  busy : state.busy = some thread
  collected : state.collected = []
  last : state.lastCall = some now

section Call

variable {setting : Setting} {thread : ℕ} {state : State} {started since now : ℤ}

theorem stable_started : Stable (Sound setting) Rely thread (Started thread started) := by
  intro before after _ _ hrely hstarted
  have hsame := hrely hstarted.busy
  exact ⟨hsame.busy.trans hstarted.busy, hsame.collected.trans hstarted.collected,
    hstarted.clock.trans hsame.clock, hsame.lastCall ▸ hstarted.last⟩

theorem stable_windowed : Stable (Sound setting) Rely thread (Windowed thread started since) := by
  intro before after hbefore hafter hrely hwindowed
  have hsame := hrely hwindowed.busy
  refine ⟨stable_started before after hbefore hafter hrely hwindowed.toStarted, ?_⟩
  rw [hsame.cursor, hsame.lastCall]
  exact hwindowed.window

variable {kind : Kind} {row : Row} {items : List TriageEntry}

theorem Undisturbed.settled {before after : State} (hsame : Undisturbed before after)
    (hsettled : Settled before kind row) :
    Settled after kind row := by
  unfold Settled
  rw [hsame.collected, hsame.reported]
  exact hsettled

theorem stable_collecting {done : List Kind} :
    Stable (Sound setting) Rely thread (Collecting setting thread since now done items) := by
  intro before after _ _ hrely hcollecting
  have hsame := hrely hcollecting.busy
  refine ⟨hsame.busy.trans hcollecting.busy, hsame.collected ▸ hcollecting.collected, ?_,
    hcollecting.clock.trans hsame.clock, hsame.lastCall ▸ hcollecting.last,
    hsame.listed ▸ hcollecting.listed, fun kind hkind row' hrow' hconcerns hbefore ↦ ?_⟩
  · rw [hsame.cursor, hsame.lastCall]
    exact hcollecting.window
  · rcases hsame.tables kind row' hrow' with hlate | ⟨row, hrow, hfollows⟩
    · exact absurd (hbefore.trans_le (hcollecting.clock.trans hlate)) (Int.lt_irrefl _)
    · exact hsame.settled (hfollows.settled (hcollecting.rows kind hkind row hrow
        (hfollows.concerns hconcerns) (hfollows.recordedAt ▸ hbefore)))

theorem stable_responded : Stable (Sound setting) Rely thread (Responded thread now) := by
  intro before after _ _ hrely hresponded
  have hsame := hrely hresponded.busy
  exact ⟨hsame.busy.trans hresponded.busy, hsame.collected.trans hresponded.collected,
    hsame.lastCall.trans hresponded.last⟩

/-- The others do not rely on anything while a call is in progress. -/
theorem rely_of_busy {after : State} (hbusy : state.busy = some thread) :
    ∀ other, other ≠ thread → Rely other state after := by
  intro other hother hother'
  rw [hbusy, some.injEq] at hother'
  exact absurd hother'.symm hother

theorem start_ok (env : Bytes) :
    (start setting thread env).Ok (Sound setting) Rely thread (fun _ ↦ True)
      fun started state ↦ (setting.careful = true → env = setting.target) ∧
        Started thread started state := by
  refine Ok.atomically Stable.true
    fun _ state hstate _ hidle hlapses ↦ ?_
  simp only [isNone_iff_eq_none] at hidle
  simp only [Bool.or_eq_true, not_or, Bool.and_eq_true, decide_eq_true_eq, not_and, not_not] at hlapses
  refine ⟨⟨{ hstate with idle := fun hbusy ↦ by cases hbusy }, fun other _ hbusy ↦ ?_⟩, hlapses.2,
    rfl, hstate.idle hidle, Int.le_refl _, fun last hlast ↦ ⟨hstate.clock last hlast, ?_⟩⟩
  · rw [hidle] at hbusy
    cases hbusy
  · change state.lastCall = some last at hlast
    have hrecent := hlapses.1
    rw [hlast, any_some, decide_eq_true_eq] at hrecent
    omega

theorem catchupCursor_ok (hcareful : setting.careful = true) :
    (catchupCursor setting).Ok (Sound setting) Rely thread (Started thread started)
      fun cursor ↦ Windowed thread started (catchupSince started cursor) := by
  refine Ok.atomically stable_started
    fun input state hstate hstarted _ hlapses ↦ ⟨guarantee_refl hstate, hstarted, ?_⟩
  rw [hcareful, Bool.true_and, Bool.not_eq_true, Bool.not_eq_false'] at hlapses
  cases hcursor : state.cursor with
  | none => exact .inl rfl
  | some cursor =>
    obtain ⟨last, hlast, hcursor⟩ := hstate.cursor cursor hcursor
    refine .inr ⟨last, hlast, ?_⟩
    simp only [hlapses, if_true, catchupSince]
    split_ifs
    · exact (hstarted.last last hlast).2
    · exact hcursor

/-- A row that has been neither shown nor collected lies in the window. -/
theorem in_window (hstate : Sound setting state) (hrow : row ∈ state.tables kind)
    (hconcerns : Concerns setting row)
    (hsince : state.cursor = none ∨ ∃ last, state.lastCall = some last ∧ since ≤ last)
    (hahead : isAhead kind row.stamp state = true) :
    seconds since ≤ row.stamp ∧ (kind = .watchAlert → isAfter since row = true) := by
  rcases hsince with hcursor | ⟨last, hlast, hsince⟩
  · have huntracked := hstate.untracked hcursor kind row hrow
    rw [hconcerns.1] at huntracked
    cases huntracked
  · obtain ⟨stamp, hlisted, hbound⟩ := hstate.listed last hlast kind
    have hwindow : since < (stamp + 1) * second := hsince.trans_lt hbound
    have hle : stamp ≤ row.stamp := by
      unfold isAhead at hahead
      rw [hlisted, all_some] at hahead
      cases kind <;> simp only [decide_eq_true_eq] at hahead <;> omega
    refine ⟨Int.le_trans (seconds_le hwindow) hle, ?_⟩
    rintro rfl
    unfold isAhead at hahead
    rw [hlisted, all_some, decide_eq_true_eq] at hahead
    rw [isAfter, decide_eq_true_eq]
    unfold second at *
    omega

/-- What is settled stays so when more is collected. -/
theorem Settled.list {kind other : Kind} (hsettled : Settled state kind row)
    (found : List TriageEntry) : Settled (state.list other now found) kind row := by
  rcases hsettled with hlength | hreported | hcollected | hgone
  · refine .inl (Nat.lt_of_lt_of_le hlength ?_)
    rw [State.list, length_append]
    exact Nat.le_add_left _ _
  · exact .inr (.inl hreported)
  · exact .inr (.inr (.inl (mem_append_right _ hcollected)))
  · exact .inr (.inr (.inr hgone))

theorem collect_ok {env : Bytes} (hcareful : setting.careful = true) (henv : env = setting.target)
    {done : List Kind} :
    (collect setting kind env since now).Ok (Sound setting) Rely thread
      (Collecting setting thread since now done items)
      fun found ↦ Collecting setting thread since now (kind :: done) (items ++ found) := by
  refine Ok.atomically stable_collecting
    fun input state hstate hcollecting _ hlapses ↦ ?_
  simp only [hcareful, Bool.true_and, Bool.or_eq_true, Bool.not_eq_true', Bool.and_eq_true,
    decide_eq_true_eq, not_or, not_and, Nat.not_lt] at hlapses
  obtain ⟨hok, hcount⟩ := hlapses
  simp only [hok]
  generalize hfound : collector kind env since (input.read (state.tables kind)) = found
  -- Every row of the table that the claim is about is settled now.
  have hsettled : ∀ row ∈ state.tables kind, Concerns setting row →
      Settled (state.list kind now found) kind row := by
    intro row hrow hconcerns
    rcases hstate.ahead kind row hrow hconcerns with hsettled | hahead
    · exact hsettled.list found
    · by_cases hgone : Gone kind row
      · exact .inr (.inr (.inr hgone))
      obtain ⟨hstamp, hafter⟩ := in_window hstate hrow hconcerns hcollecting.window hahead
      have hmem := mem_collector kind env
        (mem_read.mpr hrow : row ∈ input.read (state.tables kind))
        (fun hkind ↦ hstate.still kind row hrow hconcerns.1 (by simpa [Gone, hkind] using hgone))
        (by simp [matchesEnv, henv, hstate.target kind row hrow hconcerns]) hafter hstamp
        (fun hkind ↦ by rw [countP_read]; exact hcount hkind)
      rw [hfound] at hmem
      rcases hmem with hlength | hmem
      · refine .inl (Nat.lt_of_lt_of_le hlength ?_)
        rw [State.list, length_append, length_map]
        exact Nat.le_add_right _ _
      · exact .inr (.inr (.inl (mem_append_left _ hmem)))
  refine ⟨⟨{ hstate with
      ahead := fun other row hrow hconcerns ↦ ?_
      listed := fun last hlast other ↦ ?_
      idle := fun hbusy ↦ ?_ }, rely_of_busy hcollecting.busy⟩,
    { hcollecting with
      collected := ?_
      listed := fun other hother ↦ ?_
      rows := fun other hother row hrow hconcerns hbefore ↦ ?_ }⟩
  · by_cases hkind : other = kind
    · subst hkind
      exact .inl (hsettled row hrow hconcerns)
    · refine (hstate.ahead other row hrow hconcerns).imp (fun hold ↦ hold.list found) fun hahead ↦ ?_
      simpa only [isAhead, State.list, if_neg hkind] using hahead
  · by_cases hkind : other = kind
    · refine ⟨seconds now, if_pos hkind, ?_⟩
      exact Int.lt_of_le_of_lt (hcollecting.last last hlast) (lt_seconds_succ_mul now)
    · simpa only [State.list, if_neg hkind] using hstate.listed last hlast other
  · rw [State.list, hcollecting.busy] at hbusy
    cases hbusy
  · rw [map_append]
    exact (hcollecting.collected.append_left _).trans perm_append_comm
  · by_cases hkind : other = kind
    · exact if_pos hkind
    · refine (if_neg hkind).trans (hcollecting.listed other ?_)
      exact (mem_cons.mp hother).resolve_left hkind
  · rcases mem_cons.mp hother with rfl | hdone
    · exact hsettled row hrow hconcerns
    · exact (hcollecting.rows other hdone row hrow hconcerns hbefore).list found

theorem respond_ok : (respond setting items now).Ok (Sound setting) Rely thread
      (Collecting setting thread since now [.deploy, .watchAlert, .errorGroup] items)
      fun _ ↦ Responded thread now := by
  refine Ok.atomically stable_collecting
    fun _ state hstate hcollecting _ hlapses ↦ ?_
  have hfits : (collectCatchup setting.isCriticalPath items).2 = false :=
    Bool.eq_false_of_not_eq_true hlapses
  have hdone : ∀ kind, kind ∈ [Kind.deploy, .watchAlert, .errorGroup] := by
    intro kind
    cases kind <;> decide
  -- The response shows what the call has collected.
  have hshown : ∀ kind row, Settled state kind row →
      (kind, row.id) ∈ (collectCatchup setting.isCriticalPath items).1.map TriageEntry.key ++
        state.reported ∨ Gone kind row := by
    rintro kind row (hlength | hreported | hcollected | hgone)
    · rw [hcollecting.collected.length_eq, length_map] at hlength
      obtain ⟨item, hitem⟩ : ∃ item, item ∈ items :=
        exists_mem_of_length_pos (Nat.lt_of_le_of_lt (Nat.zero_le _) hlength)
      exact absurd hlength (Nat.not_lt.mpr (mem_collectCatchup hfits (mem_map_of_mem hitem)).1)
    · exact .inl (mem_append_right _ hreported)
    · rw [hcollecting.collected.mem_iff] at hcollected
      exact .inl (mem_append_left _ (mem_collectCatchup hfits hcollected).2)
    · exact .inr hgone
  refine ⟨⟨{ hstate with
      ahead := fun kind row hrow hconcerns ↦ ?_
      covered := fun last hlast kind row hrow hconcerns hbefore ↦ ?_
      cursor := fun cursor hcursor ↦ ?_
      listed := fun last hlast kind ↦ ?_
      clock := fun last hlast ↦ ?_
      idle := fun _ ↦ rfl }, rely_of_busy hcollecting.busy⟩, hcollecting.busy, rfl, rfl⟩
  · refine (hstate.ahead kind row hrow hconcerns).imp_left fun hsettled ↦ .inr ?_
    exact (hshown kind row hsettled).imp_right .inr
  · obtain rfl : now = last := some.inj hlast
    exact hshown kind row (hcollecting.rows kind (hdone kind) row hrow hconcerns hbefore)
  · obtain ⟨last, hlast, hle⟩ := hstate.cursor cursor hcursor
    exact ⟨now, rfl, hle.trans (hcollecting.last last hlast)⟩
  · obtain rfl : now = last := some.inj hlast
    exact ⟨seconds now, hcollecting.listed kind (hdone kind), lt_seconds_succ_mul now⟩
  · obtain rfl : now = last := some.inj hlast
    exact hcollecting.clock

theorem setCatchupCursor_ok :
    (setCatchupCursor now).Ok (Sound setting) Rely thread (Responded thread now)
      fun _ ↦ Responded thread now := by
  refine Ok.atomically stable_responded
    fun input state hstate hresponded _ _ ↦ ?_
  unfold State.setCatchupCursor
  split_ifs
  · refine ⟨⟨{ hstate with
        cursor := fun cursor hcursor ↦ ⟨now, hresponded.last, ?_⟩
        untracked := fun hcursor ↦ by cases hcursor }, rely_of_busy hresponded.busy⟩,
      { hresponded with }⟩
    rw [← some.inj hcursor]
    exact seconds_mul_le now
  all_goals exact ⟨guarantee_refl hstate, hresponded⟩

theorem finish_ok : finish.Ok (Sound setting) Rely thread (Responded thread now) fun _ _ ↦ True :=
  Ok.atomically stable_responded
    fun _ _ hstate hresponded _ _ ↦ ⟨⟨{ hstate with idle := fun _ ↦ hresponded.collected },
      rely_of_busy hresponded.busy⟩, trivial⟩

/-- The clock is read again, for the end of the window. -/
theorem now_ok : (load fun _ state ↦ state.clock).Ok (Sound setting) Rely thread
      (Windowed thread started since) fun now ↦ Collecting setting thread since now [] [] := by
  refine Ok.atomically stable_windowed
    fun _ state hstate hwindowed _ _ ↦ ⟨guarantee_refl hstate, hwindowed.busy, ?_, hwindowed.window,
      Int.le_refl _, hstate.clock, fun kind hkind ↦ absurd hkind not_mem_nil,
      fun kind hkind ↦ absurd hkind not_mem_nil⟩
  rw [hwindowed.collected]
  exact .nil

theorem handleCatchup_ok (hcareful : setting.careful = true) (requested : Bytes) (peek : Bool) :
    (handleCatchup setting thread requested peek).Ok (Sound setting) Rely thread (fun _ ↦ True)
      fun _ _ ↦ True := by
  unfold handleCatchup
  cases resolveEnv setting.defaultEnv (some setting.scope) requested with
  | error error => exact Ok.ret fun _ _ _ ↦ trivial
  | ok env =>
    refine (start_ok env).bind fun started ↦ Ok.assume
      (fun _ _ hholds ↦ hholds.1 hcareful) fun henv ↦ Ok.pre (fun _ _ hholds ↦ hholds.2) ?_
    refine (catchupCursor_ok hcareful).bind fun cursor ↦ now_ok.bind fun now ↦
      (collect_ok hcareful henv).bind fun groups ↦ (collect_ok hcareful henv).bind fun alerts ↦
      (collect_ok hcareful henv).bind fun deploys ↦ respond_ok.bind fun _ ↦ ?_
    exact Ok.ite (fun _ ↦ finish_ok) fun _ ↦ setCatchupCursor_ok.bind fun _ ↦ finish_ok

/-! ### Recording -/

theorem insert_ok (hcareful : setting.careful = true) (kind : Kind) (environment : Bytes) (stamp : ℤ)
    (urgent : Bool) :
    (insert setting kind environment stamp urgent).Ok (Sound setting) Rely thread (fun _ ↦ True)
      fun _ _ ↦ True := by
  refine Ok.atomically Stable.true
    fun input state hstate _ _ hlapses ↦ ⟨?_, trivial⟩
  split_ifs
  · refine guarantee_insert hstate urgent fun hcursor hallows ↦ ?_
    simpa [hcareful, hcursor, hallows, and_comm] using hlapses
  · exact guarantee_refl hstate

theorem revise_ok (kind : Kind) (id : ℕ) {change : Row → Row}
    (hchange : ∀ row, Follows row (change row) ∧ ((change row).still = true →
      row.status = .unresolved → (change row).status = .unresolved)) :
    (revise kind id change).Ok (Sound setting) Rely thread (fun _ ↦ True) fun _ _ ↦ True := by
  refine Ok.atomically Stable.true
    fun input state hstate _ _ _ ↦ ⟨?_, trivial⟩
  split_ifs
  · exact guarantee_revise hstate kind id hchange
  · exact guarantee_refl hstate

theorem setStatus_follows (status : ErrorGroupStatus) (row : Row) :
    Follows row (row.setStatus status) ∧ ((row.setStatus status).still = true →
      row.status = .unresolved → (row.setStatus status).status = .unresolved) := by
  refine ⟨⟨rfl, rfl, rfl, rfl, rfl, fun hstill ↦ ?_⟩, fun hstill _ ↦ ?_⟩
  · exact (Bool.and_eq_true_iff.mp hstill).1
  · exact of_decide_eq_true (Bool.and_eq_true_iff.mp hstill).2

theorem occur_follows (row : Row) :
    Follows row row.occur ∧ (row.occur.still = true → row.status = .unresolved →
      row.occur.status = .unresolved) := by
  refine ⟨⟨rfl, rfl, rfl, rfl, rfl, fun hstill ↦ hstill⟩, fun _ hstatus ↦ ?_⟩
  simp [Row.occur, hstatus]

theorem verified (hcareful : setting.careful = true) :
    (system setting).Verified (Sound setting) Rely where
  call := fun call thread ↦ by
    refine Ok.pre (fun _ _ _ ↦ trivial : ∀ state, Sound setting state → _ → True) ?_
    cases call with
    | handleCatchup requested peek => exact handleCatchup_ok hcareful requested peek
    | createAlert environment urgent =>
      have hclock : (load fun _ state ↦ seconds state.clock).Ok (Sound setting) Rely thread
          (fun _ ↦ True) fun _ _ ↦ True :=
        Ok.atomically Stable.true
          fun _ _ hstate _ _ _ ↦ ⟨guarantee_refl hstate, trivial⟩
      exact hclock.bind fun stamp ↦ insert_ok hcareful _ _ _ _
    | upsertErrorGroup environment timestamp => exact insert_ok hcareful _ _ _ _
    | recordDeploy environment timestamp => exact insert_ok hcareful _ _ _ _
    | occur id => exact revise_ok _ _ occur_follows
    | changeStatus id status => exact revise_ok _ _ (setStatus_follows status)
    | handleAlert id =>
      exact revise_ok _ _ fun row ↦
        ⟨⟨rfl, rfl, rfl, rfl, rfl, fun hstill ↦ hstill⟩, fun _ hstatus ↦ hstatus⟩
    | wait time =>
      exact Ok.atomically Stable.true
        fun _ _ hstate _ _ _ ↦ ⟨guarantee_wait hstate time, trivial⟩
  crash := fun _ _ _ _ hcrash ↦ by cases hcrash

end Call

/-! ### Runs -/

theorem sound_opened (setting : Setting) (clock : ℤ) (hasCursor : Bool) (earlier : Kind → List Row) :
    Sound setting (opened clock hasCursor earlier) := by
  have huntracked : ∀ kind, ∀ row ∈ (opened clock hasCursor earlier).tables kind,
      row.tracked = false := by
    intro kind row hrow
    obtain ⟨old, -, rfl⟩ := mem_map.mp hrow
    rfl
  have hnone : ∀ kind, ∀ row ∈ (opened clock hasCursor earlier).tables kind,
      row.tracked ≠ true := fun kind row hrow htracked ↦
    Bool.false_ne_true ((huntracked kind row hrow).symm.trans htracked)
  refine ⟨fun kind row hrow hconcerns ↦ absurd hconcerns.1 (hnone kind row hrow),
    fun kind row hrow hconcerns ↦ absurd hconcerns.1 (hnone kind row hrow),
    fun kind row hrow htracked ↦ absurd htracked (hnone kind row hrow),
    fun _ _ kind row hrow hconcerns ↦ absurd hconcerns.1 (hnone kind row hrow),
    fun cursor hcursor ↦ ?_, fun last hlast kind ↦ ?_, fun last hlast ↦ ?_, fun _ ↦ huntracked,
    fun _ ↦ rfl⟩
  · cases hasCursor with
    | false => cases hcursor
    | true => exact ⟨clock, rfl, some.inj hcursor ▸ seconds_mul_le clock⟩
  · cases hasCursor with
    | false => cases hlast
    | true => exact ⟨seconds clock, rfl, some.inj hlast ▸ lt_seconds_succ_mul clock⟩
  · cases hasCursor with
    | false => cases hlast
    | true => exact Int.le_of_eq (some.inj hlast).symm

theorem catchup_swallows_nothing (scope : EnvScope) (defaultEnv : Bytes)
    (isCriticalPath : TriageEntry → Bool) (target : Bytes) (clock : ℤ) (hasCursor : Bool)
    (earlier : Kind → List Row) (events : List (Event Call Input))
    (hlapsed : ((system ⟨scope, defaultEnv, isCriticalPath, true, target⟩).run
      (System.start (opened clock hasCursor earlier)) events).lapsed = false) :
    ∀ kind, ∀ row ∈ ((system ⟨scope, defaultEnv, isCriticalPath, true, target⟩).run
        (System.start (opened clock hasCursor earlier)) events).state.tables kind,
      row.tracked = true → scope.allows row.environment = true →
      (kind = .errorGroup → row.still = true) →
      ∀ cursor, ((system ⟨scope, defaultEnv, isCriticalPath, true, target⟩).run
        (System.start (opened clock hasCursor earlier)) events).state.cursor = some cursor →
      row.recordedAt < cursor * second →
      (kind, row.id) ∈ ((system ⟨scope, defaultEnv, isCriticalPath, true, target⟩).run
        (System.start (opened clock hasCursor earlier)) events).state.reported := by
  intro kind row hrow htracked hallows hstill cursor hcursor hbefore
  have hsound := (verified rfl).run (sound_opened _ clock hasCursor earlier) events hlapsed
  obtain ⟨last, hlast, hle⟩ := hsound.cursor cursor hcursor
  refine (hsound.covered last hlast kind row hrow ⟨htracked, hallows⟩
    (hbefore.trans_le hle)).resolve_right fun hgone ↦ ?_
  exact Bool.false_ne_true (hgone.2.symm.trans (hstill hgone.1))

def production : Bytes := ascii "production"

def staging : Bytes := ascii "staging"

/-- A store call that succeeds or fails, with the rows in the order of the table. -/
def storeCall (ok : Bool) : Input := ⟨ok, id⟩

/-- Ten seconds pass, an alert is recorded, ten seconds pass, and the user catches up. -/
def alertThenCatchup (environment requested : Bytes) (listsAlerts : Bool) : List (Event Call Input) :=
  [.call (.wait 10000000000), .run 0 (storeCall true), .call (.createAlert environment false),
    .run 1 (storeCall true), .run 1 (storeCall true), .call (.wait 10000000000),
    .run 2 (storeCall true), .call (.handleCatchup requested false)] ++
    replicate 4 (.run 3 (storeCall true)) ++ [.run 3 (storeCall listsAlerts)] ++
    replicate 4 (.run 3 (storeCall true))

theorem catchup_swallows_nothing_witness :
    (.watchAlert, 0) ∈ ((system ⟨⟨[production]⟩, production, fun _ ↦ false, true, production⟩).run
      (System.start (opened 0 true fun _ ↦ [])) (alertThenCatchup production [] true)).state.reported :=
  catchup_swallows_nothing ⟨[production]⟩ production (fun _ ↦ false) production 0 true (fun _ ↦ [])
    (alertThenCatchup production [] true) (by decide +kernel) .watchAlert
    ⟨0, production, 10, .unresolved, 1, true, false, true, true, 10000000000⟩ (by decide +kernel)
    rfl (by decide +kernel) (fun hkind ↦ by cases hkind) 20 (by decide +kernel) (by decide +kernel)

/-- A failed `ListAlerts` gives an empty response, and the cursor moves past the alert. -/
theorem failed_collector_swallows_alert :
    ((system ⟨⟨[production]⟩, production, fun _ ↦ false, false, production⟩).run
      (System.start (opened 0 true fun _ ↦ [])) (alertThenCatchup production [] false)).lapsed = false ∧
    ((system ⟨⟨[production]⟩, production, fun _ ↦ false, false, production⟩).run
      (System.start (opened 0 true fun _ ↦ [])) (alertThenCatchup production [] false)).state.tables
        .watchAlert = [⟨0, production, 10, .unresolved, 1, true, false, true, true, 10000000000⟩] ∧
    ((system ⟨⟨[production]⟩, production, fun _ ↦ false, false, production⟩).run
      (System.start (opened 0 true fun _ ↦ [])) (alertThenCatchup production [] false)).state.cursor =
        some 20 ∧
    ((system ⟨⟨[production]⟩, production, fun _ ↦ false, false, production⟩).run
      (System.start (opened 0 true fun _ ↦ [])) (alertThenCatchup production [] false)).state.reported =
        [] := by
  decide +kernel

/-- A user of two environments catches up on one and then on the other, and no call fails. -/
theorem other_environment_swallows_alert :
    ((system ⟨⟨[production, staging]⟩, production, fun _ ↦ false, false, production⟩).run
      (System.start (opened 0 true fun _ ↦ [])) (alertThenCatchup staging production true ++
        .call (.handleCatchup staging false) :: replicate 9 (.run 4 (storeCall true)))).state.cursor =
          some 20 ∧
    ((system ⟨⟨[production, staging]⟩, production, fun _ ↦ false, false, production⟩).run
      (System.start (opened 0 true fun _ ↦ [])) (alertThenCatchup staging production true ++
        .call (.handleCatchup staging false) :: replicate 9 (.run 4 (storeCall true)))).state.reported =
          [] := by
  decide +kernel

end OpenTrace.Mcp.Catchup
