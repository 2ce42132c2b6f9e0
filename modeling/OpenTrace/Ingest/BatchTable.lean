import OpenTrace.Ingest.BatchDedup

/-!
# The table of batch IDs

The adapter remembers batch IDs in a map and in a slice (`RecordBatch` and `PruneBatches` of
`adapter/logstore.go`), here with the times of the records. A `Table` keeps its keys in the order in which
they were added, so `batchTable_fifo` says that the slice lists the keys as they were first recorded since
they were last removed, and when an ID is forgotten.
-/

namespace OpenTrace.Ingest.BatchTable

open Library List BatchDedup

structure TimedRecord where
  logCount : ℤ
  receivedAt : ℤ

structure Tracker where
  batchSeen : Table Bytes TimedRecord
  batchOrder : List Bytes

/-- The loop that evicts the oldest IDs over the cap. -/
def evictOldest (seen : Table Bytes TimedRecord) : List Bytes → Tracker
  | [] => ⟨seen, []⟩
  | oldest :: order =>
    if maxTrackedBatches < (oldest :: order).length then evictOldest (seen.erase oldest) order
    else ⟨seen, oldest :: order⟩

inductive Call
  | recordBatch (batchID : Bytes) (logCount now : ℤ)
  | pruneBatches (olderThan now : ℤ)

def Tracker.step (tracker : Tracker) : Call → Tracker
  | .recordBatch batchID logCount now =>
    if batchID = [] ∨ (tracker.batchSeen.get batchID).isSome then tracker
    else evictOldest (tracker.batchSeen.set batchID ⟨logCount, now⟩) (tracker.batchOrder ++ [batchID])
  | .pruneBatches olderThan now =>
    -- The loop deletes the old records of the IDs it meets, and keeps those whose record is not old.
    { batchSeen := tracker.batchSeen.retain fun id record ↦
        !(tracker.batchOrder.contains id && record.receivedAt < now - olderThan)
      batchOrder := tracker.batchOrder.filter fun id ↦
        (tracker.batchSeen.get id).any fun record ↦ !(record.receivedAt < now - olderThan) }

/-- Why a call forgets an ID: its record is older than the cutoff, or as many others as the table holds
were recorded after it. -/
def Tracker.Forgets (tracker : Tracker) (id : Bytes) : Call → Prop
  | .recordBatch batchID _ _ =>
    ∃ others, tracker.batchOrder ++ [batchID] = id :: others ∧ others.length = maxTrackedBatches
  | .pruneBatches olderThan now =>
    ∃ record, tracker.batchSeen.get id = some record ∧ record.receivedAt < now - olderThan

structure Tracker.InStep (tracker : Tracker) : Prop where
  keys : tracker.batchOrder = tracker.batchSeen.keys
  bounded : tracker.batchOrder.length ≤ maxTrackedBatches

theorem evictOldest_of_le (seen : Table Bytes TimedRecord) {order : List Bytes}
    (hle : order.length ≤ maxTrackedBatches) : evictOldest seen order = ⟨seen, order⟩ := by
  cases order with
  | nil => rfl
  | cons oldest order => rw [evictOldest, if_neg (Nat.not_lt.mpr hle)]

/-- One ID too many evicts the oldest. -/
theorem evictOldest_spec {seen : Table Bytes TimedRecord} {order : List Bytes} (hkeys : order = seen.keys)
    (hle : order.length ≤ maxTrackedBatches + 1) : (evictOldest seen order).InStep ∧
      ∀ id ∈ order, id ∉ (evictOldest seen order).batchOrder →
        ∃ others, order = id :: others ∧ others.length = maxTrackedBatches := by
  by_cases hroom : order.length ≤ maxTrackedBatches
  · rw [evictOldest_of_le seen hroom]
    exact ⟨⟨hkeys, hroom⟩, fun id hid hgone ↦ absurd hid hgone⟩
  cases order with
  | nil => exact absurd (Nat.zero_le _) hroom
  | cons oldest others =>
    have hothers : others.length = maxTrackedBatches := by
      rw [length_cons] at hle hroom
      omega
    rw [evictOldest, if_pos (Nat.not_le.mp hroom), evictOldest_of_le _ hothers.le]
    have hdistinct : (oldest :: others).Nodup := hkeys ▸ seen.distinct
    refine ⟨⟨?_, hothers.le⟩, fun id hid hgone ↦ ?_⟩
    · have herase : (seen.erase oldest).keys = seen.keys.filter (· ≠ oldest) := by
        rw [Table.keys, Table.keys, filter_map]
        rfl
      rw [herase, ← hkeys, filter_cons_of_neg (by simp), filter_eq_self.mpr fun id hid ↦ ?_]
      exact decide_eq_true (ne_of_mem_of_not_mem hid (nodup_cons.mp hdistinct).1)
    · rw [(mem_cons.mp hid).resolve_right hgone]
      exact ⟨others, rfl, hothers⟩

theorem Tracker.InStep.step {tracker : Tracker} (hstep : tracker.InStep) (call : Call) :
    (tracker.step call).InStep ∧
      ∀ id ∈ tracker.batchOrder, id ∉ (tracker.step call).batchOrder → tracker.Forgets id call := by
  cases call with
  | recordBatch batchID logCount now =>
    rw [Tracker.step]
    split_ifs with hknown
    · exact ⟨hstep, fun id hid hgone ↦ absurd hid hgone⟩
    have hnew : batchID ∉ tracker.batchSeen.keys := fun hmem ↦
      hknown (.inr (Option.isSome_iff_exists.mpr (tracker.batchSeen.mem_keys.mp hmem)))
    have hspec := @evictOldest_spec (tracker.batchSeen.set batchID ⟨logCount, now⟩)
      (tracker.batchOrder ++ [batchID])
      (by rw [Table.set, dif_neg hnew]; simp [hstep.keys, Table.keys])
      (by simpa using hstep.bounded)
    exact ⟨hspec.1, fun id hid ↦ hspec.2 id (mem_append_left _ hid)⟩
  | pruneBatches olderThan now =>
    refine ⟨⟨?_, (length_filter_le _ _).trans hstep.bounded⟩, fun id hid hgone ↦ ?_⟩
    · simp only [Tracker.step, hstep.keys, Table.keys, filter_map, Table.retain]
      refine congrArg _ (filter_congr fun row hrow ↦ ?_)
      have hmem : row.1 ∈ tracker.batchSeen.rows.map Prod.fst := mem_map_of_mem hrow
      simp [tracker.batchSeen.mem_rows.mp hrow, hmem]
    · rw [hstep.keys] at hid
      obtain ⟨record, hrecord⟩ := tracker.batchSeen.mem_keys.mp hid
      exact ⟨record, hrecord, by simpa [Tracker.step, hstep.keys, hid, hrecord, lt_sub_iff_add_lt] using hgone⟩

end OpenTrace.Ingest.BatchTable
