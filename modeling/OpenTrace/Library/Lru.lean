import Mathlib.Data.List.Nodup
import Mathlib.Algebra.Ring.Nat

/-!
# Byte-bounded least-recently-used caches

A cache keeps values under distinct keys, the most recently used first, and accounts for their sizes. A
value that is looked up moves to the front. A value that is put in is refused if it is larger than its
share of the budget; otherwise the oldest values go until it fits. A key that is there keeps its value.

That the accounts are right and within the budget is part of the cache. `Holds.get` and `Holds.put` are
the rules for invariants of the cached values.
-/

namespace OpenTrace.Library

open List

structure LruItem (Key Value : Type) where
  key : Key
  value : Value
  bytes : ℕ

def totalBytes {Key Value : Type} (items : List (LruItem Key Value)) : ℕ :=
  (items.map LruItem.bytes).sum

structure Lru (Key Value : Type) where
  budget : ℕ
  used : ℕ
  /-- The most recently used first. -/
  items : List (LruItem Key Value)
  accounted : used = totalBytes items
  bounded : used ≤ budget
  distinct : (items.map LruItem.key).Nodup

namespace Lru

variable {Key Value : Type}

def empty (budget : ℕ) : Lru Key Value := ⟨budget, 0, [], rfl, Nat.zero_le _, nodup_nil⟩

/-! ### Eviction -/

/-- The oldest items go, from the front of this list, until the rest is within the limit. -/
def evictLoop (limit : ℕ) : ℕ → List (LruItem Key Value) → ℕ × List (LruItem Key Value)
  | used, [] => (used, [])
  | used, oldest :: newer =>
    if limit < used then evictLoop limit (used - oldest.bytes) newer else (used, oldest :: newer)

/-- What is left is the newer part, accounted for and within the limit. -/
theorem evictLoop_spec (limit : ℕ) {used : ℕ} {items : List (LruItem Key Value)}
    (hused : used = totalBytes items) :
    (evictLoop limit used items).2 <:+ items ∧
      (evictLoop limit used items).1 = totalBytes (evictLoop limit used items).2 ∧
      (evictLoop limit used items).1 ≤ limit := by
  induction items generalizing used with
  | nil =>
    subst hused
    exact ⟨suffix_refl _, rfl, Nat.zero_le _⟩
  | cons oldest newer ih =>
    rw [evictLoop]
    split_ifs with hover
    · have hrest : used - oldest.bytes = totalBytes newer := by
        rw [hused, totalBytes, map_cons, sum_cons, Nat.add_sub_cancel_left]
        rfl
      obtain ⟨hsuffix, haccounted, hlimit⟩ := ih hrest
      exact ⟨hsuffix.trans (suffix_cons _ _), haccounted, hlimit⟩
    · exact ⟨suffix_refl _, hused, Nat.not_lt.mp hover⟩

section

variable (cache : Lru Key Value)

theorem used_eq_reverse : cache.used = totalBytes cache.items.reverse := by
  rw [cache.accounted, totalBytes, totalBytes, map_reverse, sum_reverse]

/-- The oldest items go until `bytes` more fit. -/
def evict (bytes : ℕ) : Lru Key Value :=
  let left := evictLoop (cache.budget - bytes) cache.used cache.items.reverse
  have hleft := evictLoop_spec (cache.budget - bytes) cache.used_eq_reverse
  { budget := cache.budget
    used := left.1
    items := left.2.reverse
    accounted := by
      rw [hleft.2.1, totalBytes, totalBytes, map_reverse, sum_reverse]
    bounded := Nat.le_trans hleft.2.2 (Nat.sub_le _ _)
    distinct := by
      have hdistinct : (cache.items.reverse.map LruItem.key).Nodup := by
        rw [map_reverse, nodup_reverse]
        exact cache.distinct
      rw [map_reverse, nodup_reverse]
      exact hdistinct.sublist (hleft.1.sublist.map _) }

theorem evict_subset (bytes : ℕ) : (cache.evict bytes).items ⊆ cache.items := by
  intro item hitem
  exact mem_reverse.mp ((evictLoop_spec (cache.budget - bytes) cache.used_eq_reverse).1.subset
    (mem_reverse.mp hitem))

theorem used_evict_le (bytes : ℕ) : (cache.evict bytes).used ≤ cache.budget - bytes := by
  exact (evictLoop_spec (cache.budget - bytes) cache.used_eq_reverse).2.2

end

/-! ### Looking up and putting in -/

variable [DecidableEq Key]

section

variable (cache : Lru Key Value)

def find (key : Key) : Option (LruItem Key Value) := cache.items.find? (·.key = key)

/-- The item of a key moves to the front. -/
def touch (key : Key) : Lru Key Value :=
  have hperm := filter_append_perm (fun item : LruItem Key Value ↦ decide (item.key = key))
    cache.items
  { cache with
    items := cache.items.filter (fun item ↦ decide (item.key = key)) ++
      cache.items.filter fun item ↦ !decide (item.key = key)
    accounted := by
      rw [cache.accounted]
      exact (hperm.map LruItem.bytes).sum_nat.symm
    distinct := (hperm.map LruItem.key).nodup_iff.mpr cache.distinct }

/-- The value of a key, which counts as used now. -/
def get (key : Key) : Option Value × Lru Key Value :=
  match cache.find key with
  | none => (none, cache)
  | some item => (some item.value, cache.touch key)

/-- A value is put in, unless it is empty or larger than its share of the budget. -/
def put (share : ℕ) (key : Key) (value : Value) (bytes : ℕ) : Lru Key Value :=
  if hsize : bytes = 0 ∨ cache.budget / share < bytes then cache
  else if hfound : ∃ item ∈ cache.items, item.key = key then cache.touch key
  else
    let room := cache.evict bytes
    { budget := cache.budget
      used := room.used + bytes
      items := ⟨key, value, bytes⟩ :: room.items
      accounted := by
        rw [room.accounted, totalBytes, totalBytes, map_cons, sum_cons, Nat.add_comm]
      bounded := by
        have hfits : bytes ≤ cache.budget := by
          have hshare : cache.budget / share ≤ cache.budget := Nat.div_le_self _ _
          omega
        have hroom : room.used ≤ cache.budget - bytes := cache.used_evict_le bytes
        omega
      distinct := by
        rw [map_cons, nodup_cons]
        refine ⟨fun hkey ↦ ?_, room.distinct⟩
        obtain ⟨item, hitem, hsame⟩ := mem_map.mp hkey
        exact hfound ⟨item, cache.evict_subset bytes hitem, hsame⟩ }

end

/-! ### Invariants of the values -/

/-- Every value in the cache satisfies `P` with its key. -/
def Holds (P : Key → Value → Prop) (cache : Lru Key Value) : Prop :=
  ∀ item ∈ cache.items, P item.key item.value

variable {P : Key → Value → Prop} {cache : Lru Key Value}

omit [DecidableEq Key] in
theorem holds_empty (budget : ℕ) : (empty budget : Lru Key Value).Holds P :=
  fun _ hitem ↦ absurd hitem not_mem_nil

omit [DecidableEq Key] in
theorem Holds.imp {Q : Key → Value → Prop} (hcache : cache.Holds P)
    (himp : ∀ key value, P key value → Q key value) : cache.Holds Q :=
  fun item hitem ↦ himp _ _ (hcache item hitem)

theorem Holds.touch (hcache : cache.Holds P) (key : Key) : (cache.touch key).Holds P := by
  intro item hitem
  rcases mem_append.mp hitem with hfront | hrest
  · exact hcache item (mem_filter.mp hfront).1
  · exact hcache item (mem_filter.mp hrest).1

theorem Holds.get (hcache : cache.Holds P) (key : Key) :
    (cache.get key).2.Holds P ∧ ∀ value, (cache.get key).1 = some value → P key value := by
  unfold Lru.get
  cases hfind : cache.find key with
  | none => exact ⟨hcache, fun _ hnone ↦ by cases hnone⟩
  | some item =>
    refine ⟨hcache.touch key, fun value hvalue ↦ ?_⟩
    have hkey : item.key = key := by simpa using find?_some hfind
    rw [← Option.some.inj hvalue, ← hkey]
    exact hcache item (mem_of_find?_eq_some hfind)

theorem Holds.put (hcache : cache.Holds P) (share : ℕ) {key : Key} {value : Value} (bytes : ℕ)
    (hvalue : P key value) : (cache.put share key value bytes).Holds P := by
  unfold Lru.put
  split_ifs
  · exact hcache
  · exact hcache.touch key
  · intro item hitem
    rcases mem_cons.mp hitem with rfl | hold
    · exact hvalue
    · exact hcache item (cache.evict_subset bytes hold)

end Lru

end OpenTrace.Library
