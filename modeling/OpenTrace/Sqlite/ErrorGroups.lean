import OpenTrace.Library.Machine
import OpenTrace.Library.Table
import OpenTrace.Library.Utf8

/-!
# Error group store

Error groups are rows keyed by fingerprint and environment, and every change of a group's status is
also an event in a second table whose rows belong to a group (deleting the group deletes its events).
`Upsert` counts an occurrence and reopens a resolved group, `changeStatus` resolves, ignores or
reopens the groups of a fingerprint in one environment or in all of them, and `Prune` deletes groups
that were not seen lately. The operations run one after another, so the store is a machine.
-/

namespace OpenTrace.Sqlite

open Library List

/-! ### The tables -/

/-- The primary key of a group. -/
structure GroupKey where
  fingerprint : Bytes
  environment : Bytes
  deriving DecidableEq, Repr

inductive GroupStatus
  | unresolved
  | resolved
  | ignored
  deriving DecidableEq, Repr

/-- Times are RFC 3339 texts and are compared as texts. -/
structure ErrorGroup where
  service : Bytes
  exceptionClass : Bytes
  message : Bytes
  sourceFile : Bytes
  sourceLine : ℤ
  status : GroupStatus
  firstSeenAt : Bytes
  lastSeenAt : Bytes
  occurrenceCount : ℕ
  lastLogID : Option ℤ
  reopenedCount : ℕ
  resolvedAt : Option Bytes
  ignoredAt : Option Bytes
  seenInEnvs : List Bytes
  deriving DecidableEq, Repr

/-- What an event says happened to its group. -/
inductive GroupAction
  | resolved
  | ignored
  | reopened
  deriving DecidableEq, Repr

structure GroupEvent where
  group : GroupKey
  action : GroupAction
  reason : Bytes
  createdAt : Bytes
  deriving DecidableEq, Repr

/-- Both tables; the events are in the order of their ids. -/
structure ErrorGroups where
  groups : Table GroupKey ErrorGroup
  events : List GroupEvent

/-- What a log entry says about an error; `timestamp` is formatted. -/
structure ErrorEntry where
  id : ℤ
  timestamp : Bytes
  level : Bytes
  fingerprint : Bytes
  environment : Bytes
  service : Bytes
  exceptionClass : Bytes
  message : Bytes
  sourceFile : Bytes
  sourceLine : ℤ
  deriving DecidableEq, Repr

/-! ### Upsert -/

def truncate (text : Bytes) (maxLen : ℕ) : Bytes := text.take maxLen

def ErrorEntry.key (entry : ErrorEntry) : GroupKey := ⟨entry.fingerprint, entry.environment⟩

def ErrorEntry.lastLogID (entry : ErrorEntry) : Option ℤ := if 0 < entry.id then some entry.id else none

/-- The row of a group that is seen for the first time. -/
def ErrorEntry.newGroup (entry : ErrorEntry) : ErrorGroup where
  service := entry.service
  exceptionClass := entry.exceptionClass
  message := truncate entry.message 500
  sourceFile := entry.sourceFile
  sourceLine := entry.sourceLine
  status := .unresolved
  firstSeenAt := entry.timestamp
  lastSeenAt := entry.timestamp
  occurrenceCount := 1
  lastLogID := entry.lastLogID
  reopenedCount := 0
  resolvedAt := none
  ignoredAt := none
  seenInEnvs := [entry.environment]

/-- `INSERT … ON CONFLICT DO UPDATE`. -/
def countOccurrence (db : ErrorGroups) (entry : ErrorEntry) : ErrorGroups :=
  { db with
    groups := db.groups.set entry.key <|
      match db.groups.get entry.key with
      | none => entry.newGroup
      | some group =>
        { group with
          occurrenceCount := group.occurrenceCount + 1
          lastSeenAt := entry.timestamp
          lastLogID := entry.lastLogID } }

/-- Every row of the fingerprint lists the environments of its rows. -/
def refreshEnvs (db : ErrorGroups) (fingerprint : Bytes) : ErrorGroups :=
  { db with
    groups := db.groups.update fun key group ↦
      if key.fingerprint = fingerprint then
        { group with
          seenInEnvs := ((db.groups.keys.filter (·.fingerprint = fingerprint)).map
            GroupKey.environment).eraseDups }
      else group }

/-- A resolved group that occurs again is reopened, and an event says so. -/
def reopenResolved (db : ErrorGroups) (key : GroupKey) (now : Bytes) : ErrorGroups :=
  match db.groups.get key with
  | some group =>
    if group.status = .resolved then
      { groups := db.groups.set key
          { group with status := .unresolved, reopenedCount := group.reopenedCount + 1 }
        events := db.events ++ [⟨key, .reopened, ascii "New occurrence after resolution", now⟩] }
    else db
  | none => db

/-- The entry describes an error: it has a fingerprint, and its level is error or fatal. -/
def ErrorEntry.isError (unicode : Unicode) (entry : ErrorEntry) : Bool :=
  entry.fingerprint ≠ [] ∧
    (toLower unicode entry.level = ascii "error" ∨ toLower unicode entry.level = ascii "fatal")

def upsert (unicode : Unicode) (db : ErrorGroups) (entry : ErrorEntry) (now : Bytes) : ErrorGroups :=
  if entry.isError unicode then
    reopenResolved (refreshEnvs (countOccurrence db entry) entry.fingerprint) entry.key now
  else db

/-! ### Status changes -/

/-- The rows a change addresses: those of the fingerprint, in one environment or, when none is
named, in all. -/
def addresses (fingerprint environment : Bytes) (key : GroupKey) : Bool :=
  key.fingerprint = fingerprint ∧ (environment = [] ∨ key.environment = environment)

/-- `statusGuard`: the rows that the action changes. -/
def GroupAction.guard : GroupAction → GroupStatus → Bool
  | .resolved, status => status ≠ .resolved
  | .ignored, status => status ≠ .ignored
  | .reopened, status => status = .resolved ∨ status = .ignored

/-- The status an action leads to. -/
def GroupAction.target : GroupAction → GroupStatus
  | .resolved => .resolved
  | .ignored => .ignored
  | .reopened => .unresolved

/-- `setClause` -/
def GroupAction.change (action : GroupAction) (now : Bytes) (group : ErrorGroup) : ErrorGroup :=
  match action with
  | .resolved => { group with status := .resolved, resolvedAt := some now }
  | .ignored => { group with status := .ignored, ignoredAt := some now }
  | .reopened => { group with status := .unresolved }

inductive GroupError
  | notFound
  deriving DecidableEq, Repr

section

variable (db : ErrorGroups) (fingerprint environment : Bytes) (action : GroupAction)

/-- The rows that are addressed and change. -/
def changing : List GroupKey :=
  (db.groups.rows.filter fun row ↦
    addresses fingerprint environment row.1 && action.guard row.2.status).map Prod.fst

/-- The transaction of `Resolve`, `Ignore` and `Reopen`, which differ in the action. -/
def changeStatus
    (reason now : Bytes) : ErrorGroups × Except GroupError Unit :=
  if db.groups.keys.any (addresses fingerprint environment) then
    ({ groups := db.groups.update fun key group ↦
        if addresses fingerprint environment key && action.guard group.status then
          action.change now group
        else group
       events := db.events ++ (changing db fingerprint environment action).map fun key ↦
        ⟨key, action, reason, now⟩ }, .ok ())
  else (db, .error .notFound)

end

/-! ### Prune -/

/-- SQLite's order on texts: byte by byte. -/
def textLt : Bytes → Bytes → Bool
  | _, [] => false
  | [], _ :: _ => true
  | first :: rest, other :: others =>
    first < other || (first == other && textLt rest others)

/-- Deletes the groups last seen before the cutoff; the events of a deleted group go with it. -/
def prune (db : ErrorGroups) (cutoff : Bytes) : ErrorGroups where
  groups := db.groups.retain fun _ group ↦ !textLt group.lastSeenAt cutoff
  events := db.events.filter fun event ↦
    ((db.groups.get event.group).all fun group ↦ !textLt group.lastSeenAt cutoff)

/-! ### Runs -/

inductive GroupOperation
  | upsert (entry : ErrorEntry) (now : Bytes)
  | changeStatus (fingerprint environment : Bytes) (action : GroupAction) (reason now : Bytes)
  | prune (cutoff : Bytes)
  deriving DecidableEq, Repr

def groupMachine (unicode : Unicode) : Machine GroupOperation (Except GroupError Unit) ErrorGroups where
  step := fun db operation ↦
    match operation with
    | .upsert entry now => (upsert unicode db entry now, .ok ())
    | .changeStatus fingerprint environment action reason now =>
      changeStatus db fingerprint environment action reason now
    | .prune cutoff => (prune db cutoff, .ok ())

def noGroups : ErrorGroups := ⟨Table.empty, []⟩

/-- The environment an operation names, if it names one. -/
def GroupOperation.environment : GroupOperation → Option Bytes
  | .upsert entry _ => if entry.environment = [] then none else some entry.environment
  | .changeStatus _ environment _ _ _ => if environment = [] then none else some environment
  | .prune _ => none

/-- The events of a group. -/
def eventsOf (db : ErrorGroups) (key : GroupKey) : List GroupEvent :=
  db.events.filter (·.group = key)

/-- The status that a group has after its events. -/
def replay (events : List GroupEvent) : GroupStatus :=
  events.foldl (fun _ event ↦ event.action.target) .unresolved

/-- The status of a group, if it exists. -/
def statusOf (db : ErrorGroups) (key : GroupKey) : Option GroupStatus :=
  (db.groups.get key).map ErrorGroup.status

/-! ### What an operation does to one group -/

/-- Status and events of the group are as before. -/
def Untouched (before after : ErrorGroups) (key : GroupKey) : Prop :=
  statusOf after key = statusOf before key ∧ eventsOf after key = eventsOf before key

theorem Untouched.trans {first second third : ErrorGroups} {key : GroupKey}
    (hfirst : Untouched first second key) (hsecond : Untouched second third key) :
    Untouched first third key :=
  ⟨hsecond.1.trans hfirst.1, hsecond.2.trans hfirst.2⟩

/-- What can happen to the status of a group and its events: nothing, an action that is also
recorded, the group's creation, or its deletion together with its events. -/
inductive GroupStep (before after : ErrorGroups) (key : GroupKey) : Prop
  | same (huntouched : Untouched before after key)
  | acted (event : GroupEvent) (hstatus : statusOf after key = some event.action.target)
      (hevents : eventsOf after key = eventsOf before key ++ [event])
  | created (hbefore : statusOf before key = none)
      (hstatus : statusOf after key = some .unresolved)
      (hevents : eventsOf after key = eventsOf before key)
  | deleted (hstatus : statusOf after key = none) (hevents : eventsOf after key = [])

section

variable (db : ErrorGroups)

theorem untouched_countOccurrence {entry : ErrorEntry} {key : GroupKey}
    (hkey : key ≠ entry.key) : Untouched db (countOccurrence db entry) key := by
  refine ⟨?_, rfl⟩
  rw [statusOf, statusOf, countOccurrence, Table.get_set_of_ne _ hkey]

theorem groupStep_countOccurrence (entry : ErrorEntry) (key : GroupKey) :
    GroupStep db (countOccurrence db entry) key := by
  by_cases hkey : key = entry.key
  · subst hkey
    cases hgroup : db.groups.get entry.key with
    | none =>
      refine .created (by rw [statusOf, hgroup]; rfl) ?_ rfl
      rw [statusOf, countOccurrence, Table.get_set_self, hgroup]
      rfl
    | some group =>
      refine .same ⟨?_, rfl⟩
      rw [statusOf, statusOf, countOccurrence, Table.get_set_self, hgroup]
      rfl
  · exact .same (untouched_countOccurrence db hkey)

theorem untouched_refreshEnvs (fingerprint : Bytes) (key : GroupKey) :
    Untouched db (refreshEnvs db fingerprint) key := by
  refine ⟨?_, rfl⟩
  rw [statusOf, statusOf, refreshEnvs, Table.get_update]
  cases db.groups.get key with
  | none => rfl
  | some group =>
    split_ifs <;> rfl

theorem untouched_reopenResolved {reopened : GroupKey} (now : Bytes)
    {key : GroupKey} (hkey : key ≠ reopened) :
    Untouched db (reopenResolved db reopened now) key := by
  unfold reopenResolved
  split
  · split_ifs
    · refine ⟨?_, ?_⟩
      · rw [statusOf, statusOf, Table.get_set_of_ne _ hkey]
      · simp [eventsOf, Ne.symm hkey]
    · exact ⟨rfl, rfl⟩
  · exact ⟨rfl, rfl⟩

theorem groupStep_reopenResolved (reopened : GroupKey) (now : Bytes)
    (key : GroupKey) : GroupStep db (reopenResolved db reopened now) key := by
  by_cases hkey : key = reopened
  · subst hkey
    unfold reopenResolved
    split
    · split_ifs
      · refine .acted ⟨key, .reopened, ascii "New occurrence after resolution", now⟩ ?_ ?_
        · rw [statusOf, Table.get_set_self]
          rfl
        · simp [eventsOf]
      · exact .same ⟨rfl, rfl⟩
    · exact .same ⟨rfl, rfl⟩
  · exact .same (untouched_reopenResolved db now hkey)

end

theorem status_change (action : GroupAction) (now : Bytes) (group : ErrorGroup) :
    (action.change now group).status = action.target := by
  cases action <;> rfl

/-- A change adds one event to every group that changes. -/
theorem filter_changing (db : ErrorGroups) (fingerprint environment : Bytes)
    (action : GroupAction) (reason now : Bytes) (key : GroupKey) :
    ((changing db fingerprint environment action).map fun key ↦
      (⟨key, action, reason, now⟩ : GroupEvent)).filter (·.group = key) =
        if key ∈ changing db fingerprint environment action then [⟨key, action, reason, now⟩]
        else [] := by
  have hdistinct : (changing db fingerprint environment action).Nodup :=
    db.groups.distinct.sublist (filter_sublist.map Prod.fst)
  rw [filter_map]
  change ((changing db fingerprint environment action).filter (· = key)).map _ = _
  split_ifs with hmem
  · rw [filter_eq, count_eq_one_of_mem hdistinct hmem]
    rfl
  · rw [filter_eq, count_eq_zero_of_not_mem hmem]
    rfl

theorem mem_changing {db : ErrorGroups} {fingerprint environment : Bytes} {action : GroupAction}
    {key : GroupKey} : key ∈ changing db fingerprint environment action ↔
      addresses fingerprint environment key = true ∧
        ∃ group, db.groups.get key = some group ∧ action.guard group.status = true := by
  simp only [changing, mem_map, mem_filter, Bool.and_eq_true, Prod.exists,
    exists_and_right, exists_eq_right, Table.mem_rows]
  constructor
  · rintro ⟨group, hgroup, haddressed, hguard⟩
    exact ⟨haddressed, group, hgroup, hguard⟩
  · rintro ⟨haddressed, group, hgroup, hguard⟩
    exact ⟨group, hgroup, haddressed, hguard⟩

theorem untouched_changeStatus (db : ErrorGroups) {fingerprint environment : Bytes}
    {action : GroupAction} (reason now : Bytes) {key : GroupKey}
    (hkey : key ∉ changing db fingerprint environment action) :
    Untouched db (changeStatus db fingerprint environment action reason now).1 key := by
  unfold changeStatus
  split_ifs
  · refine ⟨?_, ?_⟩
    · rw [statusOf, statusOf, Table.get_update]
      cases hgroup : db.groups.get key with
      | none => rfl
      | some group =>
        rw [Option.map_some, if_neg]
        rw [Bool.and_eq_true]
        rintro ⟨haddressed, hguard⟩
        exact hkey (mem_changing.mpr ⟨haddressed, group, hgroup, hguard⟩)
    · rw [eventsOf, filter_append, filter_changing, if_neg hkey, append_nil]
      rfl
  · exact ⟨rfl, rfl⟩

theorem groupStep_changeStatus (db : ErrorGroups) (fingerprint environment : Bytes)
    (action : GroupAction) (reason now : Bytes) (key : GroupKey) :
    GroupStep db (changeStatus db fingerprint environment action reason now).1 key := by
  by_cases hmem : key ∈ changing db fingerprint environment action
  · obtain ⟨haddressed, group, hgroup, hguard⟩ := mem_changing.mp hmem
    unfold changeStatus
    split_ifs
    · refine .acted ⟨key, action, reason, now⟩ ?_ ?_
      · rw [statusOf, Table.get_update, hgroup, Option.map_some, haddressed, hguard]
        exact congrArg some (status_change action now group)
      · rw [eventsOf, filter_append, filter_changing, if_pos hmem]
        rfl
    · exact .same ⟨rfl, rfl⟩
  · exact .same (untouched_changeStatus db reason now hmem)

theorem groupStep_prune (db : ErrorGroups) (cutoff : Bytes) (key : GroupKey)
    (howned : statusOf db key = none → eventsOf db key = []) :
    GroupStep db (prune db cutoff) key := by
  have hevents : eventsOf (prune db cutoff) key = (eventsOf db key).filter fun _ ↦
        (db.groups.get key).all fun group ↦ !textLt group.lastSeenAt cutoff := by
    rw [eventsOf, eventsOf, prune, filter_filter, filter_filter]
    refine filter_congr fun event _ ↦ ?_
    by_cases hevent : event.group = key
    · simp [hevent]
    · simp [hevent]
  cases hgroup : db.groups.get key with
  | none =>
    refine .deleted (by rw [statusOf, prune, Table.get_retain, hgroup]; rfl) ?_
    rw [hevents, hgroup, Option.all_none, filter_true]
    exact howned (by rw [statusOf, hgroup]; rfl)
  | some group =>
    cases hkept : !textLt group.lastSeenAt cutoff with
    | true =>
      refine .same ⟨?_, ?_⟩
      · rw [statusOf, statusOf, prune, Table.get_retain, hgroup]
        exact congrArg _ (Option.filter_some_pos hkept)
      · rw [hevents, hgroup, Option.all_some, hkept, filter_true]
    | false =>
      refine .deleted ?_ ?_
      · rw [statusOf, prune, Table.get_retain, hgroup, Option.filter_some_neg (by simp [hkept])]
        rfl
      · rw [hevents, hgroup, Option.all_some, hkept, filter_false]

/-! ### Status and events agree -/

/-- A group's status is the replay of its events, and there are no events without a group. -/
def Replays (db : ErrorGroups) (key : GroupKey) : Prop :=
  (∀ status, statusOf db key = some status → status = replay (eventsOf db key)) ∧
    (statusOf db key = none → eventsOf db key = [])

theorem replay_concat (events : List GroupEvent) (event : GroupEvent) :
    replay (events ++ [event]) = event.action.target := by
  rw [replay, foldl_append]
  rfl

theorem Replays.step {before after : ErrorGroups} {key : GroupKey} (hreplays : Replays before key)
    (hstep : GroupStep before after key) : Replays after key := by
  cases hstep with
  | same huntouched =>
    rw [Replays, huntouched.1, huntouched.2]
    exact hreplays
  | acted event hstatus hevents =>
    rw [Replays, hstatus, hevents, replay_concat]
    exact ⟨fun status hsome ↦ (Option.some.inj hsome).symm, fun hnone ↦ by cases hnone⟩
  | created hbefore hstatus hevents =>
    rw [Replays, hstatus, hevents, hreplays.2 hbefore]
    exact ⟨fun status hsome ↦ (Option.some.inj hsome).symm, fun _ ↦ rfl⟩
  | deleted hstatus hevents =>
    rw [Replays, hstatus, hevents]
    exact ⟨fun status hsome ↦ (by cases hsome), fun _ ↦ rfl⟩

theorem replays_step (unicode : Unicode) (db : ErrorGroups) (operation : GroupOperation)
    (hreplays : ∀ key, Replays db key) (key : GroupKey) :
    Replays ((groupMachine unicode).step db operation).1 key := by
  cases operation with
  | upsert entry now =>
    change Replays (upsert unicode db entry now) key
    unfold upsert
    split_ifs
    · exact (((hreplays key).step (groupStep_countOccurrence db entry key)).step
        (.same (untouched_refreshEnvs _ _ key))).step (groupStep_reopenResolved _ _ _ key)
    · exact hreplays key
  | changeStatus fingerprint environment action reason now =>
    exact (hreplays key).step (groupStep_changeStatus db fingerprint environment action reason now key)
  | prune cutoff => exact (hreplays key).step (groupStep_prune db cutoff key (hreplays key).2)

theorem replays_after (unicode : Unicode) (operations : List GroupOperation) (key : GroupKey) :
    Replays ((groupMachine unicode).after noGroups operations) key :=
  (groupMachine unicode).invariant (motive := fun db ↦ ∀ key, Replays db key)
    (fun _ ↦ ⟨fun _ hsome ↦ (by cases hsome), fun _ ↦ rfl⟩)
    ((replays_step unicode)) operations key

/-! ### Repetition and other environments -/

theorem not_guard_target (action : GroupAction) : action.guard action.target = false := by
  cases action <;> rfl

section

variable (db : ErrorGroups) (fingerprint environment : Bytes) (action : GroupAction)

/-- After a change no addressed row is left to change. -/
theorem changing_changeStatus (reason now : Bytes) :
    changing (changeStatus db fingerprint environment action reason now).1 fingerprint environment
      action = [] := by
  refine eq_nil_iff_forall_not_mem.mpr fun key hmem ↦ ?_
  obtain ⟨haddressed, group, hgroup, hguard⟩ := mem_changing.mp hmem
  unfold changeStatus at hgroup
  split_ifs at hgroup with hexists
  · rw [Table.get_update, Option.map_eq_some_iff] at hgroup
    obtain ⟨old, hold, rfl⟩ := hgroup
    rw [haddressed] at hguard
    split_ifs at hguard with hchanges
    · rw [status_change, not_guard_target] at hguard
      cases hguard
    · exact hchanges hguard
  · refine hexists (any_eq_true.mpr ⟨key, ?_, haddressed⟩)
    exact db.groups.mem_keys.mpr ⟨group, hgroup⟩

/-- Repeating a change adds no event. -/
theorem events_changeStatus_twice (reason now reason' now' : Bytes) :
    (changeStatus (changeStatus db fingerprint environment action reason now).1 fingerprint
      environment action reason' now').1.events =
        (changeStatus db fingerprint environment action reason now).1.events := by
  rw [changeStatus]
  split_ifs
  · rw [changing_changeStatus, map_nil, append_nil]
  · rfl

end

/-- An operation that names an environment leaves the groups of other environments alone. -/
theorem untouched_of_environment (unicode : Unicode) (db : ErrorGroups)
    {operation : GroupOperation} {environment : Bytes}
    (hnamed : operation.environment = some environment) {key : GroupKey}
    (hother : key.environment ≠ environment) :
    Untouched db ((groupMachine unicode).step db operation).1 key := by
  cases operation with
  | upsert entry now =>
    have hkey : key ≠ entry.key := by
      rintro rfl
      simp only [GroupOperation.environment] at hnamed
      split_ifs at hnamed
      exact hother (Option.some.inj hnamed)
    change Untouched db (upsert unicode db entry now) key
    unfold upsert
    split_ifs
    · exact ((untouched_countOccurrence db hkey).trans (untouched_refreshEnvs _ _ key)).trans
        (untouched_reopenResolved _ now hkey)
    · exact ⟨rfl, rfl⟩
  | changeStatus fingerprint named action reason now =>
    refine untouched_changeStatus db reason now fun hmem ↦ ?_
    simp only [GroupOperation.environment] at hnamed
    split_ifs at hnamed with hempty
    have haddressed := (mem_changing.mp hmem).1
    rw [addresses, decide_eq_true_eq] at haddressed
    exact hother ((haddressed.2.resolve_left hempty).trans (Option.some.inj hnamed))
  | prune cutoff => cases hnamed

end OpenTrace.Sqlite
