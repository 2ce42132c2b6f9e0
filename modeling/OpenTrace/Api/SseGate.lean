import Mathlib.Data.Int.Notation
import OpenTrace.Library.Machine
import OpenTrace.Library.Table

/-!
# SSE session gate

The gate in front of the SSE transport. It ties a session to the first authenticated user that posts
to it, because the transport itself routes on the session id alone, and a background sweep drops the
state of sessions that were not touched for an hour. A dropped session has no owner any more, so the
next user who posts to it becomes the owner, whether or not the stream behind it is still open. The
gate's mutex is held by each of `stateFor`, `bindUser` and the sweep, so the gate is a machine over
posts and sweeps.
-/

namespace OpenTrace.Api

open Library Option

/-! ### The gate -/

/-- `userID` is empty while no authenticated user has used the session. -/
structure SessionState where
  initDone : Bool
  lastTouch : ℤ
  userID : String
  deriving DecidableEq, Repr

/-- The sessions by id. -/
abbrev InitGate := Table String SessionState

/-- An hour, in nanoseconds. -/
def gateSessionTTL : ℤ := 60 * 60 * 1000000000

def newSessionState (now : ℤ) : SessionState := ⟨false, now, ""⟩

namespace InitGate

section

variable (gate : InitGate)

/-- Find or create the state of a session, and touch it. -/
def stateFor (sessionID : String) (now : ℤ) : InitGate :=
  match gate.get sessionID with
  | none => gate.set sessionID (newSessionState now)
  | some session => gate.set sessionID { session with lastTouch := now }

def markInitialized (sessionID : String) (now : ℤ) : InitGate :=
  (gate.stateFor sessionID now).update fun key session ↦
    if key = sessionID then { session with initDone := true } else session

/-- Tie the session to the user on first use; whether this user may use it. -/
def bindUser (sessionID userID : String) (now : ℤ) : InitGate × Bool :=
  if userID = "" then (gate, true)
  else
    let session := (gate.get sessionID).getD (newSessionState now)
    if session.userID = "" then
      (gate.set sessionID { session with lastTouch := now, userID := userID }, true)
    else
      (gate.set sessionID { session with lastTouch := now }, session.userID = userID)

/-- One round of the sweep loop. -/
def sweep (now : ℤ) : InitGate :=
  gate.retain fun _ session ↦ !decide (session.lastTouch < now - gateSessionTTL)

/-- What the gate does for a request it has let through: the method decides whether the session is
marked as initialized, or waits for that. A body that cannot be read gives no method. -/
def forward (sessionID : String) (method : Option String) (now : ℤ) : InitGate :=
  match method with
  | none => gate
  | some method =>
    if method = "initialize" then gate.markInitialized sessionID now
    else if method = "ping" ∨ method = "notifications/initialized" ∨
        method = "notifications/cancelled" then gate
    else gate.stateFor sessionID now

/-- The handler of a POST: the gate afterwards, and whether the request was let through. A request
without a session id is not gated. -/
def wrap (sessionID userID : String) (method : Option String) (now later : ℤ) : InitGate × Bool :=
  if sessionID = "" then (gate, true)
  else if (gate.bindUser sessionID userID now).2 then
    ((gate.bindUser sessionID userID now).1.forward sessionID method later, true)
  else ((gate.bindUser sessionID userID now).1, false)

end

end InitGate

/-! ### Runs -/

/-- A POST, with the clock when the user is bound and when the request is forwarded, or a sweep. -/
inductive GateEvent
  | post (sessionID userID : String) (method : Option String) (now later : ℤ)
  | sweep (now : ℤ)
  deriving DecidableEq, Repr

/-- The answer is whether a request was let through. -/
def gateMachine : Machine GateEvent Bool InitGate where
  step := fun gate event ↦
    match event with
    | .post sessionID userID method now later => gate.wrap sessionID userID method now later
    | .sweep now => (gate.sweep now, false)

/-- The event is no sweep that finds the session with an owner and untouched for an hour. -/
def spares (sessionID : String) (gate : InitGate) : GateEvent → Bool
  | .sweep now => (gate.get sessionID).all fun session ↦
      session.userID = "" ∨ now - gateSessionTTL ≤ session.lastTouch
  | .post .. => true

/-- No sweep of the run drops the session while it has an owner. -/
def ownerKept (sessionID : String) : InitGate → List GateEvent → Bool
  | _, [] => true
  | gate, event :: events =>
    spares sessionID gate event && ownerKept sessionID (gateMachine.step gate event).1 events

/-- In the log a request with this session id from this user was let through. -/
def LetThrough (log : List (GateEvent × Bool)) (sessionID userID : String) : Prop :=
  ∃ method now later, (GateEvent.post sessionID userID method now later, true) ∈ log

/-! ### Who owns a session -/

section

variable (gate : InitGate)

/-- The owner of a session. -/
def owner (sessionID : String) : Option String := (gate.get sessionID).map SessionState.userID

theorem owner_stateFor (sessionID other : String) (now : ℤ) {user : String}
    (howner : owner gate sessionID = some user) :
    owner (gate.stateFor other now) sessionID = some user := by
  unfold InitGate.stateFor
  by_cases hother : sessionID = other
  · subst hother
    obtain ⟨session, hsession, huser⟩ := map_eq_some_iff.mp howner
    rw [hsession, owner, Table.get_set_self]
    exact congrArg some huser
  · split
    · rw [owner, Table.get_set_of_ne _ hother]
      exact howner
    · rw [owner, Table.get_set_of_ne _ hother]
      exact howner

theorem owner_forward (sessionID other : String) (method : Option String)
    (now : ℤ) {user : String} (howner : owner gate sessionID = some user) :
    owner (gate.forward other method now) sessionID = some user := by
  unfold InitGate.forward
  split
  · exact howner
  · split_ifs
    · have htouched := owner_stateFor gate sessionID other now howner
      obtain ⟨session, hsession, huser⟩ := map_eq_some_iff.mp htouched
      rw [InitGate.markInitialized, owner, Table.get_update, hsession]
      split_ifs <;> exact congrArg some huser
    · exact howner
    · exact owner_stateFor gate sessionID other now howner

/-- An owner stays the owner of the session when a user is bound. -/
theorem owner_bindUser (sessionID other userID : String) (now : ℤ) {user : String}
    (hauthenticated : user ≠ "") (howner : owner gate sessionID = some user) :
    owner (gate.bindUser other userID now).1 sessionID = some user := by
  unfold InitGate.bindUser
  by_cases hnone : userID = ""
  · rw [if_pos hnone]
    exact howner
  rw [if_neg hnone]
  by_cases hother : sessionID = other
  · subst hother
    obtain ⟨session, hsession, huser⟩ := map_eq_some_iff.mp howner
    rw [hsession, getD_some, if_neg (by rw [huser]; exact hauthenticated), owner,
      Table.get_set_self]
    exact congrArg some huser
  · dsimp only
    split_ifs
    · rw [owner, Table.get_set_of_ne _ hother]
      exact howner
    · rw [owner, Table.get_set_of_ne _ hother]
      exact howner

end

variable (now : ℤ) {gate : InitGate} {sessionID user : String}

/-- A user who is let through to a session is its owner from then on. -/
theorem owner_of_bindUser {sessionID userID : String} {now : ℤ} (hauthenticated : userID ≠ "")
    (hbound : (gate.bindUser sessionID userID now).2 = true) :
    owner (gate.bindUser sessionID userID now).1 sessionID = some userID := by
  unfold InitGate.bindUser at hbound ⊢
  rw [if_neg hauthenticated] at hbound ⊢
  dsimp only at hbound ⊢
  split_ifs at hbound ⊢ with hfree
  · rw [owner, Table.get_set_self]
    rfl
  · rw [owner, Table.get_set_self]
    exact congrArg some (of_decide_eq_true hbound)

theorem owner_wrap (gate : InitGate) (sessionID other userID : String) (method : Option String)
    (now later : ℤ) {user : String} (hauthenticated : user ≠ "")
    (howner : owner gate sessionID = some user) :
    owner (gate.wrap other userID method now later).1 sessionID = some user := by
  unfold InitGate.wrap
  split_ifs
  · exact howner
  · exact owner_forward _ _ _ _ _ (owner_bindUser gate _ _ _ _ hauthenticated howner)
  · exact owner_bindUser gate _ _ _ _ hauthenticated howner

theorem owner_of_wrap {sessionID userID : String} {method : Option String} {now later : ℤ}
    (hsession : sessionID ≠ "") (hauthenticated : userID ≠ "")
    (hthrough : (gate.wrap sessionID userID method now later).2 = true) :
    owner (gate.wrap sessionID userID method now later).1 sessionID = some userID := by
  unfold InitGate.wrap at hthrough ⊢
  rw [if_neg hsession] at hthrough ⊢
  split_ifs at hthrough ⊢ with hbound
  exact owner_forward _ _ _ _ _ (owner_of_bindUser hauthenticated hbound)

/-- Only the owner of a session is let through. -/
theorem eq_owner_of_wrap {sessionID userID user : String} {method : Option String} {now later : ℤ}
    (hsession : sessionID ≠ "") (hauthenticated : userID ≠ "") (huser : user ≠ "")
    (howner : owner gate sessionID = some user)
    (hthrough : (gate.wrap sessionID userID method now later).2 = true) : user = userID := by
  have hkept := owner_wrap gate sessionID sessionID userID method now later huser howner
  rw [owner_of_wrap hsession hauthenticated hthrough, some.injEq] at hkept
  exact hkept.symm

theorem owner_sweep {now : ℤ} (huser : user ≠ "") (howner : owner gate sessionID = some user)
    (hfresh : (gate.get sessionID).all fun session ↦ session.userID = "" ∨ now - gateSessionTTL ≤ session.lastTouch) :
    owner (gate.sweep now) sessionID = some user := by
  obtain ⟨session, hsession, hid⟩ := map_eq_some_iff.mp howner
  rw [hsession, all_some, decide_eq_true_eq] at hfresh
  have htouched : now - gateSessionTTL ≤ session.lastTouch :=
    hfresh.resolve_left fun hempty ↦ huser (hid.symm.trans hempty)
  rw [InitGate.sweep, owner, Table.get_retain, hsession,
    filter_some_pos (by simpa using htouched), map_some, hid]

/-! ### One user for good -/

theorem letThrough_cons {event : GateEvent} {events : List GateEvent}
    (hthrough : LetThrough (gateMachine.log gate (event :: events)) sessionID user) :
    (∃ method now later, event = .post sessionID user method now later ∧
      (gate.wrap sessionID user method now later).2 = true) ∨
    LetThrough (gateMachine.log (gateMachine.step gate event).1 events) sessionID user := by
  obtain ⟨method, now, later, hmem⟩ := hthrough
  rcases List.mem_cons.mp hmem with hhead | htail
  · obtain ⟨rfl, hanswer⟩ := Prod.mk.inj hhead
    exact .inl ⟨method, now, later, rfl, hanswer.symm⟩
  · exact .inr ⟨method, now, later, htail⟩

/-- From a gate in which the session has an owner, only the owner is let through, as long as no
sweep drops the session. -/
theorem eq_owner_of_letThrough (hsession : sessionID ≠ "") (huser : user ≠ "")
    {events : List GateEvent} (howner : owner gate sessionID = some user)
    (hkept : ownerKept sessionID gate events = true) {other : String} (hother : other ≠ "")
    (hthrough : LetThrough (gateMachine.log gate events) sessionID other) : user = other := by
  induction events generalizing gate with
  | nil =>
    obtain ⟨method, now, later, hmem⟩ := hthrough
    exact absurd hmem List.not_mem_nil
  | cons event events ih =>
    rw [ownerKept, Bool.and_eq_true] at hkept
    rcases letThrough_cons hthrough with ⟨method, now, later, rfl, hanswer⟩ | htail
    · exact eq_owner_of_wrap hsession hother huser howner hanswer
    · refine ih ?_ hkept.2 htail
      cases event with
      | post id userID method now later => exact owner_wrap gate _ _ _ _ _ _ huser howner
      | sweep now => exact owner_sweep huser howner hkept.1

/-- As long as no sweep drops a session that has an owner, all authenticated users who are let
through to the session are the same user. -/
theorem session_has_one_user (events : List GateEvent) (sessionID : String)
    (hsession : sessionID ≠ "") (gate : InitGate) (hkept : ownerKept sessionID gate events = true)
    (first second : String) (hfirst : first ≠ "") (hsecond : second ≠ "")
    (hfirstThrough : LetThrough (gateMachine.log gate events) sessionID first)
    (hsecondThrough : LetThrough (gateMachine.log gate events) sessionID second) :
    first = second := by
  induction events generalizing gate with
  | nil =>
    obtain ⟨method, now, later, hmem⟩ := hfirstThrough
    exact absurd hmem List.not_mem_nil
  | cons event events ih =>
    rw [ownerKept, Bool.and_eq_true] at hkept
    -- Whoever of the two is let through first becomes the owner.
    rcases letThrough_cons hfirstThrough with ⟨method, now, later, rfl, hanswer⟩ | hfirstTail
    · rcases letThrough_cons hsecondThrough with ⟨_, _, _, hsame, -⟩ | hsecondTail
      · exact (GateEvent.post.inj hsame).2.1
      · exact eq_owner_of_letThrough hsession hfirst (owner_of_wrap hsession hfirst hanswer)
          hkept.2 hsecond hsecondTail
    · rcases letThrough_cons hsecondThrough with ⟨method, now, later, rfl, hanswer⟩ | hsecondTail
      · exact (eq_owner_of_letThrough hsession hsecond (owner_of_wrap hsession hsecond hanswer)
          hkept.2 hfirst hfirstTail).symm
      · exact ih _ hkept.2 hfirstTail hsecondTail

/-- Two posts within the hour, with a sweep between them. -/
theorem session_has_one_user_witness :
    ownerKept "s" Table.empty [.post "s" "u" (some "ping") 0 0, .sweep 1800000000000,
      .post "s" "u" (some "ping") 1800000000001 1800000000001] = true ∧ "u" = "u" :=
  ⟨by decide, session_has_one_user [.post "s" "u" (some "ping") 0 0, .sweep 1800000000000,
    .post "s" "u" (some "ping") 1800000000001 1800000000001] "s" (by decide) Table.empty (by decide)
    "u" "u" (by decide) (by decide) ⟨some "ping", 0, 0, by decide⟩ ⟨some "ping", 0, 0, by decide⟩⟩

/-- The owner is silent for more than an hour, a sweep drops the session, and another user is let
through to it. -/
theorem swept_session_changes_user :
    (gateMachine.log Table.empty [.post "s" "u" (some "initialize") 0 0, .sweep 3600000000001,
      .post "s" "v" (some "tools/call") 3600000000002 3600000000002]).map Prod.snd =
        [true, false, true] := by
  decide

end OpenTrace.Api
