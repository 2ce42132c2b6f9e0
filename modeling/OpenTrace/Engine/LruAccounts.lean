import Mathlib.Algebra.Order.Ring.Int
import OpenTrace.Library.Lru

/-!
# The accounts of the byte-bounded caches

`columnCache` (`engine/colcache.go`) and `index.Cache` (`index/cache.go`) keep a map, a list in order of
use and a running total, which `Lru` does not tell apart. Here they are kept as the code keeps them, with
the list from its back, the least recently used item first, and with the time of the last use of each key,
which the code does not have. `accounts_hold` says that they agree after every sequence of calls, if the
total does not overflow.
-/

namespace OpenTrace.Engine.LruAccounts

open Library List Function

def int64 (value : ℤ) : ℤ := value.bmod (2 ^ 64)

theorem int64_eq {value : ℤ} (hnonneg : 0 ≤ value) (hlt : value < 2 ^ 63) : int64 value = value :=
  Int.bmod_eq_of_le (by omega) (by omega)

structure Cache (Key Value : Type) where
  used : ℤ
  items : Key → Option (LruItem Key Value)
  lru : List (LruItem Key Value)
  clock : ℕ
  lastUse : Key → ℕ

variable {Key Value : Type}

def newCache : Cache Key Value := ⟨0, fun _ ↦ none, [], 0, fun _ ↦ 0⟩

variable [DecidableEq Key]

/-- The key is used now, and its item moves in front of the others. -/
def Cache.use (cache : Cache Key Value) (key : Key) (others front : List (LruItem Key Value)) :
    Cache Key Value :=
  { cache with
    lru := others ++ front
    clock := cache.clock + 1
    lastUse := update cache.lastUse key cache.clock }

def Cache.moveToFront (cache : Cache Key Value) (key : Key) : Cache Key Value :=
  cache.use key (cache.lru.filter fun item ↦ !decide (item.key = key))
    (cache.lru.filter fun item ↦ decide (item.key = key))

/-- The loop of `put`, which evicts from the back until the size fits or nothing is left. -/
def makeRoom (budget : ℕ) (size : ℤ) (cache : Cache Key Value) :
    List (LruItem Key Value) → Cache Key Value
  | [] => { cache with lru := [] }
  | oldest :: newer =>
    if budget < int64 (cache.used + size) then
      makeRoom budget size
        { cache with
          used := int64 (cache.used - oldest.bytes)
          items := update cache.items oldest.key none } newer
    else { cache with lru := oldest :: newer }

inductive Call (Key Value : Type)
  | get (key : Key)
  | put (key : Key) (value : Value) (size : ℤ)

/-- The two calls, for a budget of which one value may take a share: a fourth in `columnCache`, a half in
`index.Cache`. -/
def Cache.step (budget share : ℕ) (cache : Cache Key Value) : Call Key Value → Cache Key Value
  | .get key => if (cache.items key).isSome then cache.moveToFront key else cache
  | .put key value size =>
    if size ≤ 0 ∨ ↑(budget / share) < size then cache
    else if (cache.items key).isSome then cache.moveToFront key
    else
      let room := makeRoom budget size cache cache.lru
      if budget < int64 (room.used + size) then room
      else
        { room.use key room.lru [⟨key, value, size.toNat⟩] with
          used := int64 (room.used + size)
          items := update room.items key (some ⟨key, value, size.toNat⟩) }

/-- The list is in the order of the last use, so that no key is there twice. -/
def Cache.Ordered (cache : Cache Key Value) : Prop :=
  (cache.lru.Pairwise fun older newer ↦ cache.lastUse older.key < cache.lastUse newer.key) ∧
    ∀ item ∈ cache.lru, cache.lastUse item.key < cache.clock

/-- The total is right and within the budget, and the map and the list hold the same items. -/
structure Cache.Accounts (cache : Cache Key Value) (budget : ℕ) : Prop where
  used : cache.used = totalBytes cache.lru
  bounded : cache.used ≤ budget
  items : ∀ key item, cache.items key = some item ↔ item ∈ cache.lru ∧ item.key = key
  ordered : cache.Ordered

/-- The items that stay are left by the shortest run from the back that makes room for the size. -/
def Evicts (budget : ℕ) (size : ℤ) (lru kept : List (LruItem Key Value)) : Prop :=
  ∃ run, lru = run ++ kept ∧ totalBytes kept + size ≤ budget ∧
    ∀ other rest, lru = other ++ rest → totalBytes rest + size ≤ budget → run.length ≤ other.length

variable {cache : Cache Key Value} {budget : ℕ}

/-- Using a key keeps the order. -/
theorem Cache.Ordered.use (hordered : cache.Ordered) {key : Key} {others front : List (LruItem Key Value)}
    (hothers : others.Sublist cache.lru) (hkey : ∀ item ∈ others, item.key ≠ key)
    (hfront : ∀ item ∈ front, item.key = key) (hone : front.Pairwise fun _ _ ↦ False) :
    (cache.use key others front).Ordered := by
  have hsame (item) (hitem : item ∈ others) :
      update cache.lastUse key cache.clock item.key = cache.lastUse item.key :=
    update_of_ne (hkey item hitem) _ _
  have hlast (item) (hitem : item ∈ front) : update cache.lastUse key cache.clock item.key = cache.clock := by
    rw [hfront item hitem, update_self]
  have hbefore (item) (hitem : item ∈ others) := hordered.2 item (hothers.subset hitem)
  simp only [Cache.Ordered, Cache.use, pairwise_append, forall_mem_append]
  refine ⟨⟨(hordered.1.sublist hothers).imp_of_mem fun hfirst hsecond hlt ↦ ?_,
    hone.imp False.elim, fun older holder newer hnewer ↦ ?_⟩, fun item hitem ↦ ?_, fun item hitem ↦ ?_⟩
  · rwa [hsame _ hfirst, hsame _ hsecond]
  · rw [hsame _ holder, hlast _ hnewer]
    exact hbefore older holder
  · rw [hsame _ hitem]
    exact Nat.lt_succ_of_lt (hbefore item hitem)
  · rw [hlast _ hitem]
    exact Nat.lt_succ_self _

theorem Cache.Accounts.moveToFront (haccounts : cache.Accounts budget) (key : Key) :
    (cache.moveToFront key).Accounts budget := by
  have hperm : (cache.moveToFront key).lru.Perm cache.lru :=
    perm_append_comm.trans (filter_append_perm (fun item : LruItem Key Value ↦ decide (item.key = key)) _)
  have hfront : ∀ item ∈ cache.lru.filter fun item ↦ decide (item.key = key), item.key = key := by simp
  refine ⟨haccounts.used.trans (congrArg _ (hperm.map _).sum_nat.symm), haccounts.bounded,
    fun key item ↦ ?_, haccounts.ordered.use filter_sublist (by simp) hfront
      ((haccounts.ordered.1.sublist filter_sublist).imp_of_mem fun hfirst hsecond hlt ↦ hlt.ne ?_)⟩
  · rw [hperm.mem_iff]
    exact haccounts.items key item
  · rw [hfront _ hfirst, hfront _ hsecond]

/-- The loop keeps the accounts of what is left, and evicts the shortest run. -/
theorem makeRoom_spec {size : ℤ} (hnonneg : 0 ≤ size) (hsize : size ≤ budget)
    (hfits : budget + size < 2 ^ 63) {lru : List (LruItem Key Value)}
    (haccounts : Cache.Accounts { cache with lru := lru } budget) :
    (makeRoom budget size cache lru).Accounts budget ∧
      Evicts budget size lru (makeRoom budget size cache lru).lru := by
  induction lru generalizing cache with
  | nil => exact ⟨haccounts, [], rfl, (Int.zero_add size).trans_le hsize, fun _ _ _ _ ↦ Nat.zero_le _⟩
  | cons oldest newer ih =>
    have hused : cache.used = ↑(oldest.bytes + totalBytes newer) := haccounts.used
    have hbounded : cache.used ≤ budget := haccounts.bounded
    rw [makeRoom, int64_eq (by omega) (by omega), int64_eq (by omega) (by omega)]
    split_ifs with hover
    · obtain ⟨⟨hfirst, horder⟩, hclock⟩ := haccounts.ordered.imp_left pairwise_cons.mp
      have hitems (key : Key) (item : LruItem Key Value) :
          update cache.items oldest.key none key = some item ↔ item ∈ newer ∧ item.key = key := by
        by_cases hkey : key = oldest.key
        · rw [hkey, update_self]
          exact iff_of_false nofun fun hitem ↦ (hfirst item hitem.1).ne (by rw [hitem.2])
        · rw [update_of_ne hkey]
          refine (haccounts.items key item).trans (and_congr_left fun hitem ↦ mem_cons.trans ?_)
          exact or_iff_right fun heq ↦ hkey (by rw [← hitem, heq])
      obtain ⟨hroom, run, hrun, hkept, hshortest⟩ := @ih
        { cache with used := cache.used - oldest.bytes, items := update cache.items oldest.key none }
        ⟨by dsimp only; omega, by dsimp only; omega, hitems, horder,
          fun item hitem ↦ hclock item (mem_cons_of_mem _ hitem)⟩
      refine ⟨hroom, oldest :: run, congrArg _ hrun, hkept, fun other rest hsplit hrest ↦ ?_⟩
      cases other with
      | nil =>
        rw [nil_append] at hsplit
        have htotal : cache.used = totalBytes rest := by rw [← hsplit, ← haccounts.used]
        omega
      | cons first other => exact Nat.succ_le_succ (hshortest other rest (cons.inj hsplit).2 hrest)
    · exact ⟨haccounts, [], rfl, haccounts.used ▸ Int.not_lt.mp hover, fun _ _ _ _ ↦ Nat.zero_le _⟩

section Calls

variable {share : ℕ} (hfits : budget + budget / share < 2 ^ 63)

include hfits

/-- A new value evicts the shortest run, and the accounts stay right. -/
theorem Cache.Accounts.insert (haccounts : cache.Accounts budget) {key : Key} (value : Value) {size : ℤ}
    (hpositive : 0 < size) (hshare : size ≤ ↑(budget / share)) (hnone : cache.items key = none) :
    (cache.step budget share (.put key value size)).Accounts budget ∧
      ∃ kept, (cache.step budget share (.put key value size)).lru = kept ++ [⟨key, value, size.toNat⟩] ∧
        Evicts budget size cache.lru kept := by
  have hdiv : budget / share ≤ budget := Nat.div_le_self _ _
  obtain ⟨hroom, hevicts⟩ := @makeRoom_spec _ _ _ cache budget size (by omega) (by omega) (by omega) _
    haccounts
  obtain ⟨run, hrun, hkept, -⟩ := id hevicts
  rw [Cache.step, if_neg (by omega), hnone]
  dsimp only
  generalize makeRoom budget size cache cache.lru = room at *
  have hused := hroom.used
  have hnew : ∀ item ∈ room.lru, item.key ≠ key := fun item hitem hkey ↦ by
    have hcached := (haccounts.items key item).mpr ⟨hrun ▸ mem_append_right _ hitem, hkey⟩
    rw [hnone] at hcached
    cases hcached
  rw [int64_eq (by omega) (by omega), if_neg (by simp), if_neg (by omega)]
  refine ⟨⟨?_, by dsimp only; omega, fun other item ↦ ?_,
    hroom.ordered.use (Sublist.refl _) hnew (by simp) (pairwise_singleton _ _)⟩, _, rfl, hevicts⟩
  · simp [Cache.use, totalBytes, hused]
    omega
  · dsimp only [Cache.use]
    rw [mem_append, mem_singleton]
    by_cases hother : other = key
    · rw [hother, update_self]
      constructor
      · rintro ⟨⟩
        exact ⟨.inr rfl, rfl⟩
      · rintro ⟨hitem | rfl, hkey⟩
        · exact absurd hkey (hnew item hitem)
        · rfl
    · rw [update_of_ne hother, hroom.items]
      refine and_congr_left fun hitem ↦ (or_iff_left fun heq ↦ hother ?_).symm
      rw [← hitem, heq]

theorem Cache.Accounts.step (haccounts : cache.Accounts budget) (call : Call Key Value) :
    (cache.step budget share call).Accounts budget := by
  cases call with
  | get key =>
    rw [Cache.step]
    split_ifs
    · exact haccounts.moveToFront key
    · exact haccounts
  | put key value size =>
    by_cases hrefused : size ≤ 0 ∨ ↑(budget / share) < size
    · rwa [Cache.step, if_pos hrefused]
    cases hheld : cache.items key with
    | some item =>
      rw [Cache.step, if_neg hrefused, hheld]
      exact haccounts.moveToFront key
    | none => exact (haccounts.insert hfits value (by omega) (by omega) hheld).1

end Calls

/-- With the largest budget, one value more than fits. -/
def overfull (share : ℕ) : Cache ℕ Unit :=
  ((range (share + 1)).map fun key ↦ .put key () ((2 ^ 63 - 1) / share)).foldl
    (Cache.step (2 ^ 63 - 1) share) newCache

end OpenTrace.Engine.LruAccounts
