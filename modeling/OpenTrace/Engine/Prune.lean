import OpenTrace.Engine.Segment

/-!
# Retention

`Prune` and `expiredAt` (`engine/segment.go`): a segment is deleted if the end of its recorded time range
lies before the cutoff, the time of the call minus the retention. A segment whose range cannot be parsed
is judged by its hour slot.

The range is recorded in whole seconds. A cutoff within the second of the last entry, behind its start,
therefore counts the segment as expired although the entry may be younger (`prune_keeps_retention_iff`).

`segments_list_registered` is about the list of segments over any calls of `Register` and `Prune`.

Times are nanoseconds since the epoch. The clock is read once for the cutoff hour and once more for every
segment.
-/

namespace OpenTrace.Engine

open Chunk List

/-- The time at which an entry was received, in nanoseconds. -/
def receivedNanos (entry : Entry) : ℤ := entry.receivedAt.toInt * 1000000

def LoadedSegment.expiredAt (loaded : LoadedSegment) (cutoffHour cutoff : ℤ) : Bool :=
  match recordedTime loaded.segment.lastReceived with
  | some last => last < cutoff
  | none => loaded.hour < cutoffHour

/-- A segment as the loop of `Prune` meets it: sealed from a WAL whose rows were received in order, with
the reading of the clock and whether its directory can be removed. -/
structure Visit where
  hour : ℕ
  physical : ℕ
  rows : List Entry
  filled : rows ≠ []
  ordered : rows.Pairwise fun earlier later ↦ earlier.receivedAt ≤ later.receivedAt
  now : ℤ
  removable : Bool

def Visit.loaded (visit : Visit) : LoadedSegment := ⟨visit.hour, sealMeta visit.physical visit.rows⟩

/-- What `Prune` did: the segments whose directories it tried to remove, the list that it keeps, and the
number that it returns. -/
structure Pruned where
  attempted : List Visit
  remaining : List LoadedSegment
  deleted : ℕ

/-- The loop of `Prune`. -/
def pruneLoop (retention cutoffHour : ℤ) : List Visit → Pruned
  | [] => ⟨[], [], 0⟩
  | visit :: visits =>
    let rest := pruneLoop retention cutoffHour visits
    if visit.loaded.expiredAt cutoffHour (visit.now - retention) then
      if visit.removable then ⟨visit :: rest.attempted, rest.remaining, rest.deleted + 1⟩
      else ⟨visit :: rest.attempted, visit.loaded :: rest.remaining, rest.deleted⟩
    else ⟨rest.attempted, visit.loaded :: rest.remaining, rest.deleted⟩

/-- `Prune`, with the reading of the clock at its start. -/
def prune (retention started : ℤ) (visits : List Visit) : Pruned :=
  pruneLoop retention (segmentHourFromTime (started - retention)) visits

section Loop

variable (retention cutoffHour : ℤ) (visits : List Visit)

theorem attempted_pruneLoop : (pruneLoop retention cutoffHour visits).attempted =
      visits.filter fun visit ↦ visit.loaded.expiredAt cutoffHour (visit.now - retention) := by
  induction visits with
  | nil => rfl
  | cons visit visits ih =>
    rw [pruneLoop, filter_cons, ← ih]
    split_ifs <;> rfl

end Loop

/-! ### The last entry decides -/

/-- The last row of a segment. -/
def Visit.last (visit : Visit) : Entry := visit.rows.getLast visit.filled

theorem Visit.lastReceived (visit : Visit) :
    visit.loaded.segment.lastReceived = visit.last.receivedAt := by
  rw [Visit.loaded, sealMeta, getLast?_eq_getLast_of_ne_nil visit.filled]
  rfl

theorem Visit.receivedAt_le_last (visit : Visit) {row : Entry} (hrow : row ∈ visit.rows) :
    row.receivedAt ≤ visit.last.receivedAt := by
  rcases mem_append.mp ((dropLast_append_getLast visit.filled).symm ▸ hrow) with hfront | hlast
  · have hordered := visit.ordered
    rw [← dropLast_append_getLast visit.filled, pairwise_append] at hordered
    exact hordered.2.2 row hfront _ (mem_singleton_self _)
  · rw [mem_singleton.mp hlast]
    exact Int64.le_refl _

/-- All rows were received before a time if the last one was. -/
theorem Visit.forall_received_lt_iff (visit : Visit) (cutoff : ℤ) :
    (∀ row ∈ visit.rows, receivedNanos row < cutoff) ↔ receivedNanos visit.last < cutoff := by
  refine ⟨fun hall ↦ hall _ (getLast_mem visit.filled), fun hlast row hrow ↦ ?_⟩
  have hle := Int64.le_iff_toInt_le.mp (visit.receivedAt_le_last hrow)
  unfold receivedNanos at hlast ⊢
  omega

/-! ### Rounding -/

/-- The segment is taken for expired too early: the cutoff lies within the second in which the last entry
was received, behind the start of the second and not behind the entry; or the time range cannot be parsed
(years beyond four digits), the slot lies before the cutoff hour and the last entry does not. -/
def Visit.Misjudged (retention cutoffHour : ℤ) (visit : Visit) : Prop :=
  visit.now - retention ≤ receivedNanos visit.last ∧
    if (recordedTime visit.last.receivedAt).isSome then
      visit.last.receivedAt.toInt.fdiv 1000 * 1000000000 < visit.now - retention
    else visit.hour < cutoffHour

theorem Visit.expired_iff (retention cutoffHour : ℤ) (visit : Visit) :
    visit.loaded.expiredAt cutoffHour (visit.now - retention) = true ↔
      if (recordedTime visit.last.receivedAt).isSome then
        visit.last.receivedAt.toInt.fdiv 1000 * 1000000000 < visit.now - retention
      else visit.hour < cutoffHour := by
  rw [LoadedSegment.expiredAt, visit.lastReceived]
  cases hrecorded : recordedTime visit.last.receivedAt with
  | none =>
    exact decide_eq_true_iff
  | some last =>
    have hlast : last = visit.last.receivedAt.toInt.fdiv 1000 * 1000000000 := by
      simp only [recordedTime] at hrecorded
      split_ifs at hrecorded
      exact (Option.some.inj hrecorded).symm
    simp [hlast]

/-- `Prune` removes only segments whose entries were all received before the cutoff, exactly if it
misjudges none. -/
theorem prune_keeps_retention_iff (retention started : ℤ) (visits : List Visit) :
    (∀ visit ∈ (prune retention started visits).attempted, ∀ row ∈ visit.rows,
        receivedNanos row < visit.now - retention) ↔
      ∀ visit ∈ visits, ¬ visit.Misjudged retention (segmentHourFromTime (started - retention)) := by
  simp only [prune, attempted_pruneLoop, mem_filter, and_imp, Visit.forall_received_lt_iff,
    Visit.expired_iff, Visit.Misjudged, not_and]
  refine forall₂_congr fun visit _ ↦ ⟨fun hsafe hyoung hexpired ↦ ?_, fun hright hexpired ↦ ?_⟩
  · exact absurd (hsafe hexpired) (not_lt.mpr hyoung)
  · by_contra hyoung
    exact hright (not_lt.mp hyoung) hexpired

/-- A segment with one entry, received 999 milliseconds after a full second. -/
def lateVisit (now : ℤ) : Visit where
  hour := 490000
  physical := 50000
  rows := [{ Entry.zero with receivedAt := 1764000000999 }]
  filled := cons_ne_nil _ _
  ordered := pairwise_singleton _ _
  now := now
  removable := true

/-- A day later and half a second, the entry is younger than the retention of a day, and its segment is
deleted. -/
theorem young_entry_pruned : let retention := 86400 * 1000000000
    let now := 1764000000500 * 1000000 + retention
    let pruned := prune retention now [lateVisit now]
    pruned.deleted = 1 ∧ pruned.remaining = [] ∧
      ∃ row ∈ (lateVisit now).rows, now - retention < receivedNanos row := by
  decide

/-! ### The list of segments -/

/-- A call of `Prune`: when it starts, and what it meets at the segment of an hour. -/
structure Sweep where
  retention : ℤ
  started : ℤ
  now : ℕ → ℤ
  removable : ℕ → Bool

/-- The call takes the segment off the list. -/
def Sweep.drops (sweep : Sweep) (loaded : LoadedSegment) : Bool :=
  loaded.expiredAt (segmentHourFromTime (sweep.started - sweep.retention))
    (sweep.now loaded.hour - sweep.retention) && sweep.removable loaded.hour

/-- A call that changes the list. -/
inductive Change
  | register (loaded : LoadedSegment)
  | prune (sweep : Sweep)

def Change.apply (segments : List LoadedSegment) : Change → List LoadedSegment
  | .register loaded => Engine.register loaded segments
  | .prune sweep => segments.filter fun loaded ↦ !sweep.drops loaded

/-- The segment of an hour: the one registered last, until a call of `Prune` drops it. -/
def Change.ofHour (hour : ℕ) (held : Option LoadedSegment) : Change → Option LoadedSegment
  | .register loaded => if loaded.hour = hour then some loaded else held
  | .prune sweep => held.filter fun loaded ↦ !sweep.drops loaded

/-- The loop of `Prune` changes the list so. -/
theorem remaining_prune {sweep : Sweep} {visits : List Visit} (hvisits : ∀ visit ∈ visits,
      sweep.now visit.hour = visit.now ∧ sweep.removable visit.hour = visit.removable) :
    (prune sweep.retention sweep.started visits).remaining =
      Change.apply (visits.map Visit.loaded) (.prune sweep) := by
  rw [prune, Change.apply]
  induction visits with
  | nil => rfl
  | cons visit visits ih =>
    obtain ⟨⟨hnow, hremovable⟩, hrest⟩ := forall_mem_cons.mp hvisits
    have hhour : visit.loaded.hour = visit.hour := rfl
    rw [map_cons, filter_cons, ← ih hrest, pruneLoop, Sweep.drops, hhour, hnow, hremovable]
    split_ifs <;> simp_all

/-- The list is sorted and holds the segment that each hour has. -/
structure Lists (segments : List LoadedSegment) (held : ℕ → Option LoadedSegment) : Prop where
  sorted : SortedByHour segments
  mem_iff : ∀ hour loaded, loaded ∈ segments ∧ loaded.hour = hour ↔ held hour = some loaded

section

variable {segments : List LoadedSegment} {held : ℕ → Option LoadedSegment}
  (hlists : Lists segments held)

include hlists

theorem Lists.apply (change : Change) :
    Lists (change.apply segments) fun hour ↦ change.ofHour hour (held hour) := by
  cases change with
  | register new =>
    refine ⟨sortedByHour_register hlists.sorted, fun hour loaded ↦ ?_⟩
    rw [Change.apply, mem_register hlists.sorted, Change.ofHour]
    split_ifs with hsame
    · rw [Option.some.injEq]
      constructor
      · rintro ⟨rfl | ⟨-, hother⟩, hhour⟩
        · rfl
        · exact absurd (hhour.trans hsame.symm) hother
      · rintro rfl
        exact ⟨.inl rfl, hsame⟩
    · rw [← hlists.mem_iff]
      constructor
      · rintro ⟨rfl | ⟨hmem, -⟩, hhour⟩
        · exact absurd hhour hsame
        · exact ⟨hmem, hhour⟩
      · rintro ⟨hmem, rfl⟩
        exact ⟨.inr ⟨hmem, Ne.symm hsame⟩, rfl⟩
  | prune sweep =>
    refine ⟨hlists.sorted.filter _, fun hour loaded ↦ ?_⟩
    rw [Change.apply, Change.ofHour, mem_filter, Option.filter_eq_some_iff, ← hlists.mem_iff,
      and_right_comm]

theorem Lists.run (changes : List Change) : Lists (changes.foldl Change.apply segments)
      fun hour ↦ changes.foldl (Change.ofHour hour) (held hour) := by
  induction changes generalizing segments held with
  | nil => exact hlists
  | cons change changes ih => exact ih (hlists.apply change)

end

/-- After any calls the list is sorted and holds for every hour the segment registered last, unless
`Prune` dropped it since; `FindSegmentByID` finds that segment. -/
theorem segments_list_registered (changes : List Change) :
    let segments := changes.foldl Change.apply []
    let held := fun hour ↦ changes.foldl (Change.ofHour hour) none
    Lists segments held ∧ ((∀ loaded ∈ segments, loaded.hour < 2 ^ 32) →
      ∀ hour < 2 ^ 32, ∀ index < maxEntriesPerSegment,
        findSegmentByID segments (idForPosition (Int64.ofNat hour) index) = held hour) := by
  intro segments held
  have hempty : Lists [] fun _ ↦ none := ⟨Pairwise.nil, by simp⟩
  have hlists : Lists segments held := hempty.run changes
  refine ⟨hlists, fun hhours hour hhour index hindex ↦ Option.ext fun loaded ↦ ?_⟩
  rw [findSegmentByID_eq_some hlists.sorted hhours hhour hindex, hlists.mem_iff]

end OpenTrace.Engine
