import Mathlib.Data.Int.Notation
import OpenTrace.Library.Machine
import OpenTrace.Library.Table

/-!
# Rate limiter

The per-key request limiter of the HTTP layer. Its map of counters is bounded by evicting the oldest
entry, and the order of creation is kept in a separate queue of records, which the code consumes from
the front by an index and compacts now and then. A map entry is compared with a record by pointer, so
an entry is modelled with the number of its allocation and a record holds that number.

A request and a cleanup tick each hold the limiter's mutex for their whole effect, so the limiter is
a machine over requests and ticks, each with its clock reading.
-/

namespace OpenTrace.Api

open Library List Option

/-! ### The limiter -/

def maxRateLimitEntries : ℕ := 10000

def orderCompactThreshold : ℕ := 1024

def orderSlackFactor : ℕ := 2

/-- A counter, with its address: the entries are numbered in the order of their creation. -/
structure RateLimitEntry where
  address : ℕ
  count : ℕ
  resetAt : ℤ
  lastSeen : ℤ
  deriving DecidableEq, Repr

/-- A record of the queue: a key and the entry that was created for it. -/
structure EvictRecord (κ : Type) where
  key : κ
  entry : ℕ
  deriving DecidableEq, Repr

/-- `nextAddress` numbers the entries; the rest are the fields of the source. -/
structure RateLimiter (κ : Type) where
  entries : Table κ RateLimitEntry
  order : List (EvictRecord κ)
  orderHead : ℕ
  limit : ℕ
  window : ℤ
  nextAddress : ℕ

def newRateLimiter {κ : Type} (limit : ℕ) (window : ℤ) : RateLimiter κ :=
  ⟨Table.empty, [], 0, limit, window, 0⟩

/-- Whether a request was handed to the next handler. -/
inductive Verdict
  | passed
  | limited (retryAfter : ℤ)
  deriving DecidableEq, Repr

namespace RateLimiter

variable {κ : Type} [DecidableEq κ]

section

variable (entries : Table κ RateLimitEntry) (record : EvictRecord κ)

/-- The record's entry is still the one the map holds for its key. -/
def isLive : Bool := (entries.get record.key).any (·.address = record.entry)

/-- Evict the entry of a record. A record whose entry was deleted or replaced is skipped. -/
def evict : Table κ RateLimitEntry :=
  if isLive entries record then entries.erase record.key else entries

end

/-- The eviction loop, over the records from `orderHead` on: how many are consumed, and the map that
is left. -/
def evictOldest : List (EvictRecord κ) → Table κ RateLimitEntry → ℕ × Table κ RateLimitEntry
  | [], entries => (0, entries)
  | record :: records, entries =>
    if maxRateLimitEntries ≤ entries.size then
      let rest := evictOldest records (evict entries record)
      (rest.1 + 1, rest.2)
    else (0, entries)

section

variable (limiter : RateLimiter κ)

def orderNeedsCompactionLocked : Bool :=
  decide (orderCompactThreshold ≤ limiter.orderHead) ||
    (decide (orderCompactThreshold ≤ limiter.order.length) &&
      decide (orderSlackFactor * limiter.entries.size < limiter.order.length))

def compactOrderLocked : RateLimiter κ :=
  if limiter.orderNeedsCompactionLocked then
    { limiter with
      order := (limiter.order.drop limiter.orderHead).filter (isLive limiter.entries)
      orderHead := 0 }
  else limiter

/-- `addEntryLocked` up to the compaction. That the entry's allocation is counted here is part of
the model. -/
def insertEntry (key : κ) (entry : RateLimitEntry) : RateLimiter κ :=
  let evicted := evictOldest (limiter.order.drop limiter.orderHead) limiter.entries
  { limiter with
    entries := evicted.2.set key entry
    order := limiter.order ++ [⟨key, entry.address⟩]
    orderHead := limiter.orderHead + evicted.1
    nextAddress := limiter.nextAddress + 1 }

def addEntryLocked (key : κ) (entry : RateLimitEntry) : RateLimiter κ :=
  (limiter.insertEntry key entry).compactOrderLocked

/-- The entry that a first request of a window creates. -/
def newEntry (now : ℤ) : RateLimitEntry := ⟨limiter.nextAddress, 1, now + limiter.window, now⟩

/-- The key's entry, unless it has none or its window has passed. -/
def current (key : κ) (now : ℤ) : Option RateLimitEntry :=
  (limiter.entries.get key).filter fun entry ↦ !decide (entry.resetAt < now)

/-- One request, keyed by the address of its client. -/
def middleware (key : κ) (now : ℤ) : RateLimiter κ × Verdict :=
  match limiter.current key now with
  | none => (limiter.addEntryLocked key (limiter.newEntry now), .passed)
  | some entry =>
    ({ limiter with
        entries := limiter.entries.set key
          { entry with count := entry.count + 1, lastSeen := now } },
      if limiter.limit < entry.count + 1 then
        .limited (max 1 ((entry.resetAt - now) / 1000000000))
      else .passed)

/-- One tick of the cleanup loop. -/
def cleanup (now : ℤ) : RateLimiter κ :=
  compactOrderLocked
    { limiter with entries := limiter.entries.retain fun _ entry ↦ !decide (entry.resetAt < now) }

end

end RateLimiter

/-! ### Map and queue -/

namespace RateLimiter

variable {κ : Type} [DecidableEq κ]

/-- Every entry of the map is tracked by a record that eviction has not consumed, and the records
are in the order in which their entries were created. -/
structure Tracked (limiter : RateLimiter κ) : Prop where
  size_le : limiter.entries.size ≤ maxRateLimitEntries
  head_le : limiter.orderHead ≤ limiter.order.length
  ordered : limiter.order.Pairwise (·.entry < ·.entry)
  numbered : ∀ record ∈ limiter.order, record.entry < limiter.nextAddress
  recorded : ∀ key entry, limiter.entries.get key = some entry →
    ⟨key, entry.address⟩ ∈ limiter.order.drop limiter.orderHead

variable {limiter : RateLimiter κ} {key : κ} {entry : RateLimitEntry}

theorem Tracked.address_lt (htracked : limiter.Tracked)
    (hentry : limiter.entries.get key = some entry) :
    entry.address < limiter.nextAddress :=
  htracked.numbered _ (mem_of_mem_drop (htracked.recorded key entry hentry))

section

variable {entries : Table κ RateLimitEntry} {record : EvictRecord κ}

theorem isLive_iff : isLive entries record = true ↔
      ∃ entry, entries.get record.key = some entry ∧ entry.address = record.entry := by
  simp [isLive, Option.any_eq_true]

/-- Evicting removes what the record tracks, and nothing else. -/
theorem get_evict (hentry : (evict entries record).get key = some entry) :
    entries.get key = some entry ∧ (⟨key, entry.address⟩ : EvictRecord κ) ≠ record := by
  unfold evict at hentry
  split_ifs at hentry with hlive
  · have hne : key ≠ record.key := by
      rintro rfl
      rw [Table.get_erase_self] at hentry
      cases hentry
    rw [entries.get_erase_of_ne hne] at hentry
    exact ⟨hentry, fun hrecord ↦ hne (congrArg EvictRecord.key hrecord)⟩
  · refine ⟨hentry, ?_⟩
    rintro rfl
    exact hlive (isLive_iff.mpr ⟨entry, hentry, rfl⟩)

end

/-- Eviction makes room, removes entries only, and leaves every remaining entry tracked by a record
that it has not consumed. -/
theorem evictOldest_spec (pending : List (EvictRecord κ)) (entries : Table κ RateLimitEntry)
    (hrecorded : ∀ key entry, entries.get key = some entry → ⟨key, entry.address⟩ ∈ pending) :
    (evictOldest pending entries).1 ≤ pending.length ∧
      (evictOldest pending entries).2.size < maxRateLimitEntries ∧
      ∀ key entry, (evictOldest pending entries).2.get key = some entry →
        entries.get key = some entry ∧
          ⟨key, entry.address⟩ ∈ pending.drop (evictOldest pending entries).1 := by
  induction pending generalizing entries with
  | nil =>
    refine ⟨Nat.le_refl 0, ?_, fun key entry hentry ↦
      absurd (hrecorded key entry hentry) not_mem_nil⟩
    rw [evictOldest, entries.size_eq_zero fun key entry hentry ↦
      not_mem_nil (hrecorded key entry hentry)]
    decide
  | cons record pending ih =>
    rw [evictOldest]
    split_ifs with hfull
    · obtain ⟨hcount, hroom, hkept⟩ := ih (evict entries record) fun key entry hentry ↦
        (mem_cons.mp (hrecorded key entry (get_evict hentry).1)).resolve_left
          (get_evict hentry).2
      refine ⟨Nat.succ_le_succ hcount, hroom, fun key entry hentry ↦ ?_⟩
      obtain ⟨hbefore, hrecord⟩ := hkept key entry hentry
      exact ⟨(get_evict hbefore).1, hrecord⟩
    · exact ⟨Nat.zero_le _, Nat.lt_of_not_le hfull,
        fun key entry hentry ↦ ⟨hentry, hrecorded key entry hentry⟩⟩

/-- The live records are at most as many as the entries: each has a key of its own. -/
theorem length_live_le (entries : Table κ RateLimitEntry) {records : List (EvictRecord κ)}
    (hordered : records.Pairwise (·.entry < ·.entry)) :
    (records.filter (isLive entries)).length ≤ entries.size := by
  have hkeys : ((records.filter (isLive entries)).map EvictRecord.key).Nodup := by
    rw [Nodup, pairwise_map]
    refine (hordered.filter _).imp_of_mem fun {first second} hfirst hsecond hlt hkey ↦ ?_
    obtain ⟨entry, hentry, haddress⟩ := isLive_iff.mp (mem_filter.mp hfirst).2
    obtain ⟨other, hother, hsame⟩ := isLive_iff.mp (mem_filter.mp hsecond).2
    rw [← hkey, hentry, some.injEq] at hother
    subst hother
    omega
  calc (records.filter (isLive entries)).length
      = ((records.filter (isLive entries)).map EvictRecord.key).length := (length_map _).symm
    _ ≤ entries.size := by
      refine entries.length_le_size hkeys fun key hkey ↦ ?_
      obtain ⟨record, hrecord, rfl⟩ := mem_map.mp hkey
      obtain ⟨entry, hentry, -⟩ := isLive_iff.mp (mem_filter.mp hrecord).2
      exact ⟨entry, hentry⟩

@[simp] theorem entries_compactOrderLocked (limiter : RateLimiter κ) :
    limiter.compactOrderLocked.entries = limiter.entries := by
  unfold compactOrderLocked
  split_ifs <;> rfl

@[simp] theorem limit_compactOrderLocked (limiter : RateLimiter κ) :
    limiter.compactOrderLocked.limit = limiter.limit := by
  unfold compactOrderLocked
  split_ifs <;> rfl

@[simp] theorem nextAddress_compactOrderLocked (limiter : RateLimiter κ) :
    limiter.compactOrderLocked.nextAddress = limiter.nextAddress := by
  unfold compactOrderLocked
  split_ifs <;> rfl

theorem Tracked.compactOrderLocked (htracked : limiter.Tracked) :
    limiter.compactOrderLocked.Tracked := by
  unfold RateLimiter.compactOrderLocked
  split_ifs
  · have hsub : ((limiter.order.drop limiter.orderHead).filter (isLive limiter.entries)).Sublist
        limiter.order :=
      filter_sublist.trans (drop_sublist _ _)
    exact {
      size_le := htracked.size_le
      head_le := Nat.zero_le _
      ordered := htracked.ordered.sublist hsub
      numbered := fun record hrecord ↦ htracked.numbered record (hsub.mem hrecord)
      recorded := fun key entry hentry ↦ by
        rw [drop_zero, mem_filter, isLive_iff]
        exact ⟨htracked.recorded key entry hentry, entry, hentry, rfl⟩ }
  · exact htracked

/-- A queue that is not compacted is short, or at most twice as long as the map. -/
theorem Tracked.length_compactOrderLocked_le (htracked : limiter.Tracked) :
    limiter.compactOrderLocked.order.length ≤ orderSlackFactor * maxRateLimitEntries := by
  have hsize := htracked.size_le
  unfold RateLimiter.compactOrderLocked
  split_ifs with hneeded
  · have hlive := length_live_le limiter.entries
      (htracked.ordered.sublist (drop_sublist limiter.orderHead limiter.order))
    calc _ ≤ limiter.entries.size := hlive
      _ ≤ orderSlackFactor * maxRateLimitEntries := by
        rw [orderSlackFactor]
        omega
  · rw [orderNeedsCompactionLocked, Bool.or_eq_true, Bool.and_eq_true, decide_eq_true_eq,
      decide_eq_true_eq, decide_eq_true_eq, orderCompactThreshold, orderSlackFactor] at hneeded
    rw [orderSlackFactor]
    rw [maxRateLimitEntries] at hsize ⊢
    omega

/-- An entry with a fresh address can be added. -/
theorem Tracked.insertEntry (htracked : limiter.Tracked) (key : κ)
    (hfresh : entry.address = limiter.nextAddress) : (limiter.insertEntry key entry).Tracked := by
  obtain ⟨hcount, hroom, hkept⟩ := evictOldest_spec (limiter.order.drop limiter.orderHead)
    limiter.entries htracked.recorded
  have hhead := htracked.head_le
  rw [length_drop] at hcount
  refine ⟨?_, ?_, ?_, ?_, ?_⟩
  · exact Nat.le_trans (Table.size_set_le _ _ _) hroom
  · simp only [RateLimiter.insertEntry, length_append]
    omega
  · rw [RateLimiter.insertEntry, pairwise_append]
    refine ⟨htracked.ordered, pairwise_singleton _ _, fun record hrecord last hlast ↦ ?_⟩
    rw [mem_singleton.mp hlast, hfresh]
    exact htracked.numbered record hrecord
  · intro record hrecord
    rcases mem_append.mp hrecord with hold | hnew
    · exact Nat.lt_succ_of_lt (htracked.numbered record hold)
    · rw [mem_singleton.mp hnew, hfresh]
      exact Nat.lt_succ_self _
  · intro other found hfound
    simp only [RateLimiter.insertEntry] at hfound ⊢
    rw [drop_append_of_le_length (by omega), mem_append]
    by_cases hkey : other = key
    · subst hkey
      rw [Table.get_set_self, some.injEq] at hfound
      subst hfound
      exact .inr (mem_singleton_self _)
    · rw [Table.get_set_of_ne _ hkey] at hfound
      have hrecord := (hkept other found hfound).2
      rw [drop_drop] at hrecord
      exact .inl hrecord

theorem current_eq_some {now : ℤ} (hcurrent : limiter.current key now = some entry) :
    limiter.entries.get key = some entry :=
  (filter_eq_some_iff.mp hcurrent).1

theorem Tracked.middleware (htracked : limiter.Tracked) (key : κ) (now : ℤ) :
    (limiter.middleware key now).1.Tracked := by
  unfold RateLimiter.middleware
  split
  · exact (htracked.insertEntry key rfl).compactOrderLocked
  · next entry hcurrent =>
    have hentry := current_eq_some hcurrent
    refine ⟨?_, htracked.head_le, htracked.ordered, htracked.numbered, fun other found hfound ↦ ?_⟩
    · rw [Table.size_set_of_get _ hentry]
      exact htracked.size_le
    · by_cases hkey : other = key
      · subst hkey
        rw [Table.get_set_self, some.injEq] at hfound
        subst hfound
        exact htracked.recorded other entry hentry
      · rw [Table.get_set_of_ne _ hkey] at hfound
        exact htracked.recorded other found hfound

theorem Tracked.cleanup (htracked : limiter.Tracked) (now : ℤ) : Tracked
      { limiter with
        entries := limiter.entries.retain fun _ entry ↦ !decide (entry.resetAt < now) } where
  size_le := Nat.le_trans (limiter.entries.size_retain_le _) htracked.size_le
  head_le := htracked.head_le
  ordered := htracked.ordered
  numbered := htracked.numbered
  recorded := fun key entry hentry ↦ by
    rw [Table.get_retain] at hentry
    exact htracked.recorded key entry (filter_eq_some_iff.mp hentry).1

end RateLimiter

/-! ### Runs -/

/-- A request of a client, or a tick of the cleanup loop, with its clock reading. -/
inductive LimiterEvent (κ : Type)
  | request (key : κ) (now : ℤ)
  | tick (now : ℤ)
  deriving DecidableEq, Repr

def limiterMachine (κ : Type) [DecidableEq κ] :
    Machine (LimiterEvent κ) (Option Verdict) (RateLimiter κ) where
  step := fun limiter event ↦
    match event with
    | .request key now => ((limiter.middleware key now).1, some (limiter.middleware key now).2)
    | .tick now => (limiter.cleanup now, none)

section Runs

variable {κ : Type} [DecidableEq κ]

/-- What holds between two events, whenever the mutex is free. -/
structure Bounded (limiter : RateLimiter κ) : Prop where
  tracked : limiter.Tracked
  length_le : limiter.order.length ≤ orderSlackFactor * maxRateLimitEntries

variable (limit : ℕ) (window : ℤ) {limiter : RateLimiter κ} (event : LimiterEvent κ)
  {entry : RateLimitEntry} {key : κ} (events : List (LimiterEvent κ))

theorem bounded_newRateLimiter : Bounded (newRateLimiter limit window : RateLimiter κ) where
  tracked :=
    { size_le := Nat.zero_le _
      head_le := Nat.le_refl 0
      ordered := Pairwise.nil
      numbered := fun _ hrecord ↦ absurd hrecord not_mem_nil
      recorded := fun _ _ hentry ↦ by cases hentry }
  length_le := Nat.zero_le _

theorem Bounded.step {limiter : RateLimiter κ} (hbounded : Bounded limiter)
    (event : LimiterEvent κ) : Bounded ((limiterMachine κ).step limiter event).1 := by
  cases event with
  | request key now =>
    refine ⟨hbounded.tracked.middleware key now, ?_⟩
    have htracked := hbounded.tracked
    change (limiter.middleware key now).1.order.length ≤ _
    unfold RateLimiter.middleware
    split
    · exact (htracked.insertEntry key rfl).length_compactOrderLocked_le
    · exact hbounded.length_le
  | tick now =>
    exact ⟨(hbounded.tracked.cleanup now).compactOrderLocked,
      (hbounded.tracked.cleanup now).length_compactOrderLocked_le⟩

section

variable (limiter : RateLimiter κ) (event : LimiterEvent κ)

theorem limit_step : ((limiterMachine κ).step limiter event).1.limit = limiter.limit := by
  cases event with
  | request key now =>
    change (limiter.middleware key now).1.limit = _
    unfold RateLimiter.middleware
    split
    · exact RateLimiter.limit_compactOrderLocked _
    · rfl
  | tick now => exact RateLimiter.limit_compactOrderLocked _

theorem nextAddress_le_step :
    limiter.nextAddress ≤ ((limiterMachine κ).step limiter event).1.nextAddress := by
  cases event with
  | request key now =>
    change _ ≤ (limiter.middleware key now).1.nextAddress
    unfold RateLimiter.middleware
    split
    · rw [RateLimiter.addEntryLocked, RateLimiter.nextAddress_compactOrderLocked]
      exact Nat.le_succ _
    · exact Nat.le_refl _
  | tick now =>
    have hsame : (limiter.cleanup now).nextAddress = limiter.nextAddress :=
      RateLimiter.nextAddress_compactOrderLocked _
    exact Nat.le_of_eq hsame.symm

end

/-- Whether the event is a request of the key that was handed on. -/
def handedOn (key : κ) : LimiterEvent κ × Option Verdict → Bool
  | (.request other _, some .passed) => other = key
  | _ => false

/-- A request leaves under its key a new entry, or the old one with the request counted; the entries
of other keys stay as they are, or are evicted. -/
theorem entry_middleware (hbounded : Bounded limiter) {key other : κ} {now : ℤ}
    (hentry : (limiter.middleware other now).1.entries.get key = some entry) :
    (key = other ∧ entry.address = limiter.nextAddress ∧ entry.count = 1 ∧
      (limiter.middleware other now).2 = .passed) ∨
    (key = other ∧ ∃ old, limiter.entries.get key = some old ∧ old.address = entry.address ∧
      entry.count = old.count + 1 ∧
      ((limiter.middleware other now).2 = .passed ↔ old.count + 1 ≤ limiter.limit)) ∨
    (key ≠ other ∧ limiter.entries.get key = some entry) := by
  unfold RateLimiter.middleware at hentry ⊢
  cases hcurrent : limiter.current other now with
  | none =>
    rw [hcurrent] at hentry
    simp only [RateLimiter.addEntryLocked, RateLimiter.entries_compactOrderLocked,
      RateLimiter.insertEntry] at hentry
    by_cases hkey : key = other
    · subst hkey
      rw [Table.get_set_self, some.injEq] at hentry
      subst hentry
      exact .inl ⟨rfl, rfl, rfl, rfl⟩
    · rw [Table.get_set_of_ne _ hkey] at hentry
      obtain ⟨-, -, hkept⟩ := RateLimiter.evictOldest_spec _ _ hbounded.tracked.recorded
      exact .inr (.inr ⟨hkey, (hkept key entry hentry).1⟩)
  | some found =>
    rw [hcurrent] at hentry
    by_cases hkey : key = other
    · subst hkey
      rw [Table.get_set_self, some.injEq] at hentry
      subst hentry
      refine .inr (.inl ⟨rfl, found, RateLimiter.current_eq_some hcurrent, rfl, rfl, ?_⟩)
      dsimp only
      split_ifs with hover
      · exact iff_of_false (fun hpassed ↦ by cases hpassed) (Nat.not_le.mpr hover)
      · exact iff_of_true rfl (Nat.le_of_not_lt hover)
    · rw [Table.get_set_of_ne _ hkey] at hentry
      exact .inr (.inr ⟨hkey, hentry⟩)

/-- An entry is new after a step and its request is handed on, or it was there before and what the
step adds to its count, as far as the limit, are requests that are handed on. -/
theorem entry_step (hbounded : Bounded limiter) {event : LimiterEvent κ}
    (hentry : ((limiterMachine κ).step limiter event).1.entries.get key = some entry) :
    (entry.address = limiter.nextAddress ∧ entry.count = 1 ∧
      handedOn key (event, ((limiterMachine κ).step limiter event).2) = true) ∨
    ∃ old, limiter.entries.get key = some old ∧ old.address = entry.address ∧
      min entry.count limiter.limit = min old.count limiter.limit +
        if handedOn key (event, ((limiterMachine κ).step limiter event).2) then 1 else 0 := by
  cases event with
  | request other now =>
    change _ ∨ ∃ old, _ ∧ _ ∧ _ = _ +
      if handedOn key (.request other now, some (limiter.middleware other now).2) then 1 else 0
    rcases entry_middleware hbounded hentry with ⟨rfl, haddress, hcount, hpassed⟩ |
      ⟨rfl, old, hold, haddress, hcount, hpassed⟩ | ⟨hkey, hold⟩
    · refine .inl ⟨haddress, hcount, ?_⟩
      change handedOn key (.request key now, some (limiter.middleware key now).2) = true
      rw [hpassed]
      simp [handedOn]
    · refine .inr ⟨old, hold, haddress, ?_⟩
      cases hverdict : (limiter.middleware key now).2 with
      | passed =>
        have hwithin := hpassed.mp hverdict
        simp only [handedOn, decide_true, if_true]
        omega
      | limited retryAfter =>
        have hover : ¬ old.count + 1 ≤ limiter.limit := by
          rw [← hpassed, hverdict]
          simp
        simp only [handedOn, Bool.false_eq_true, if_false]
        omega
    · refine .inr ⟨entry, hold, rfl, ?_⟩
      have hother : handedOn key (.request other now, some (limiter.middleware other now).2) =
          false := by
        cases (limiter.middleware other now).2 <;> simp [handedOn, Ne.symm hkey]
      rw [hother]
      rfl
  | tick now =>
    change (limiter.cleanup now).entries.get key = some entry at hentry
    rw [RateLimiter.cleanup, RateLimiter.entries_compactOrderLocked, Table.get_retain] at hentry
    exact .inr ⟨entry, (filter_eq_some_iff.mp hentry).1, rfl, rfl⟩

/-- The events of a list in which a request of the key was handed on. -/
def handedOnCount (limiter : RateLimiter κ) (key : κ) (events : List (LimiterEvent κ)) : ℕ :=
  ((limiterMachine κ).log limiter events).countP (handedOn key)

/-- From the creation of an entry on, as long as the map holds it, the requests of its key that are
handed on are those it has counted within the limit. -/
theorem handedOnCount_eq {limiter : RateLimiter κ} (hbounded : Bounded limiter)
    (hlimit : 1 ≤ limiter.limit) {key : κ} {event : LimiterEvent κ} {address : ℕ}
    (hbefore : ∀ entry, limiter.entries.get key = some entry → entry.address ≠ address)
    (hcreated : ∃ entry, ((limiterMachine κ).step limiter event).1.entries.get key = some entry ∧
      entry.address = address) (events : List (LimiterEvent κ)) {entry : RateLimitEntry}
    (hentry : ((limiterMachine κ).after limiter (event :: events)).entries.get key = some entry)
    (haddress : entry.address = address) :
    handedOnCount limiter key (event :: events) = min entry.count limiter.limit := by
  obtain ⟨created, hcreated, rfl⟩ := hcreated
  -- The entry is created by this event, so its address is the next one.
  obtain ⟨hnew, hone, hhanded⟩ | ⟨old, hold, hsame, -⟩ := entry_step hbounded hcreated
  swap
  · exact absurd hsame (hbefore old hold)
  induction events using reverseRecOn generalizing entry with
  | nil =>
    rw [Machine.after_cons, Machine.after_nil, hcreated, some.injEq] at hentry
    subst hentry
    rw [hone, Nat.min_eq_left hlimit]
    simp only [handedOnCount, Machine.log, countP_cons, hhanded, if_true, countP_nil]
  | append_singleton events last ih =>
    rw [← cons_append, Machine.after_concat] at hentry
    have hstate : Bounded ((limiterMachine κ).after limiter (event :: events)) :=
      (limiterMachine κ).invariant hbounded (fun _ event hbounded ↦ hbounded.step event) _
    have hnext : created.address <
        ((limiterMachine κ).after limiter (event :: events)).nextAddress :=
      (limiterMachine κ).invariant (motive := fun state ↦ created.address < state.nextAddress)
        ((hbounded.step event).tracked.address_lt hcreated)
        (fun state event hlt ↦ Nat.lt_of_lt_of_le hlt (nextAddress_le_step state event)) events
    have hkept : ((limiterMachine κ).after limiter (event :: events)).limit = limiter.limit :=
      (limiterMachine κ).invariant (motive := fun state ↦ state.limit = limiter.limit) rfl
        (fun state event hsame ↦ (limit_step state event).trans hsame) (event :: events)
    obtain ⟨hfresh, -⟩ | ⟨old, hold, hsame, hcount⟩ := entry_step hstate hentry
    · omega
    · rw [hkept] at hcount
      rw [handedOnCount, ← cons_append, Machine.log_concat, countP_append, hcount,
        ← ih hold (hsame.trans haddress), countP_singleton]
      rfl

/-- The limiter after the events, from its creation. -/
def limiterAfter (limit : ℕ) (window : ℤ) (events : List (LimiterEvent κ)) : RateLimiter κ :=
  (limiterMachine κ).after (newRateLimiter limit window) events

theorem bounded_limiterAfter : Bounded (limiterAfter limit window events) :=
  (limiterMachine κ).invariant (bounded_newRateLimiter limit window)
    (fun _ event hbounded ↦ hbounded.step event) events

theorem limit_limiterAfter : (limiterAfter limit window events).limit = limit :=
  (limiterMachine κ).invariant (motive := fun state ↦ state.limit = limit) rfl
    (fun state event hsame ↦ (limit_step state event).trans hsame) events

/-- Exactly one of the records that eviction has not consumed carries the address of an entry. -/
theorem RateLimiter.Tracked.countP_eq_one (htracked : limiter.Tracked)
    (hentry : limiter.entries.get key = some entry) :
    (limiter.order.drop limiter.orderHead).countP (·.entry = entry.address) = 1 := by
  have hordered := htracked.ordered.sublist (drop_sublist limiter.orderHead limiter.order)
  have hdistinct : ((limiter.order.drop limiter.orderHead).map EvictRecord.entry).Nodup := by
    rw [Nodup, pairwise_map]
    exact hordered.imp Nat.ne_of_lt
  have hmem : entry.address ∈ (limiter.order.drop limiter.orderHead).map EvictRecord.entry :=
    mem_map.mpr ⟨_, htracked.recorded key entry hentry, rfl⟩
  rw [← count_eq_one_of_mem hdistinct hmem, count, countP_map]
  rfl

/-- Between two events the map and the queue are bounded, every entry of the map has exactly one
record, the records of the map's entries are in the order of creation, and from the creation of an
entry until it leaves the map at most `limit` requests of its key are handed on. -/
theorem limiter_bounded_and_exact (limit : ℕ) (window : ℤ) (hlimit : 1 ≤ limit)
    (events : List (LimiterEvent κ)) : (limiterAfter limit window events).entries.size ≤ 10000 ∧
    (∀ key entry, (limiterAfter limit window events).entries.get key = some entry →
      ((limiterAfter limit window events).order.drop
        (limiterAfter limit window events).orderHead).countP (·.entry = entry.address) = 1) ∧
    (((limiterAfter limit window events).order.drop
      (limiterAfter limit window events).orderHead).filter
        (RateLimiter.isLive (limiterAfter limit window events).entries)).Pairwise
          (·.entry < ·.entry) ∧
    (limiterAfter limit window events).order.length ≤ 20000 ∧
    ∀ earlier event later key address, events = earlier ++ event :: later →
      (∀ entry, (limiterAfter limit window earlier).entries.get key = some entry →
        entry.address ≠ address) →
      (∃ entry, (limiterAfter limit window (earlier ++ [event])).entries.get key = some entry ∧
        entry.address = address) →
      (∃ entry, (limiterAfter limit window events).entries.get key = some entry ∧
        entry.address = address) →
      handedOnCount (limiterAfter limit window earlier) key (event :: later) ≤ limit := by
  have hbounded := bounded_limiterAfter limit window events
  refine ⟨hbounded.tracked.size_le, fun key entry ↦ hbounded.tracked.countP_eq_one,
    ?_, hbounded.length_le, ?_⟩
  · exact (hbounded.tracked.ordered.sublist (drop_sublist _ _)).filter _
  · rintro earlier event later key address rfl hbefore ⟨created, hcreated, hnew⟩ ⟨entry, hentry, hold⟩
    rw [limiterAfter, Machine.after_concat] at hcreated
    rw [limiterAfter, Machine.after_append] at hentry
    rw [handedOnCount_eq (bounded_limiterAfter limit window earlier)
      (by rw [limit_limiterAfter]; exact hlimit) hbefore ⟨created, hcreated, hnew⟩ later hentry hold,
      limit_limiterAfter]
    exact Nat.min_le_right _ _

theorem limiter_bounded_and_exact_witness :
    1 ≤ 1 ∧ handedOnCount (limiterAfter 1 60 []) 7 [.request 7 0, .request 7 10] ≤ 1 :=
  ⟨by decide, (limiter_bounded_and_exact 1 60 (by decide)
    [LimiterEvent.request 7 0, LimiterEvent.request 7 10]).2.2.2.2 [] (.request 7 0)
      [.request 7 10] 7 0 rfl (fun _ hentry ↦ by cases hentry) ⟨⟨0, 1, 60, 0⟩, by decide, rfl⟩
      ⟨⟨0, 2, 60, 10⟩, by decide, rfl⟩⟩

end Runs

end OpenTrace.Api
