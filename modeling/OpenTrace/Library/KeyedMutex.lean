import OpenTrace.Library.Table

/-!
# Keyed mutexes

A lock for each key, made when the first thread asks for it and thrown away when the last one has
left. A map holds the mutex of a key, and each mutex counts the threads that use it. A thread enters
(it looks the mutex up or makes it, and is counted), acquires the mutex, releases it, and leaves (it
is no longer counted, and the last one deletes the map entry). Entering and leaving are atomic; other
threads may do anything between the four.

A mutex is known by its address. Two fields of it are only for reasoning: the key it was made for and
the threads that use it. `Sound` is kept by the four operations, each of which leaves the other
threads' part alone, and `Sound.holds_unique` says that at most one thread holds the lock of a key.
-/

namespace OpenTrace.Library

open List Option

structure RefCountedMutex (κ : Type) where
  holder : Option ℕ
  refs : ℕ
  key : Option κ
  users : List ℕ

structure KeyedMutex (κ : Type) where
  locks : Table κ ℕ
  mutexes : ℕ → RefCountedMutex κ
  next : ℕ

namespace KeyedMutex

variable {κ : Type}

def empty : KeyedMutex κ := ⟨.empty, fun _ ↦ ⟨none, 0, none, []⟩, 0⟩

def setMutex (k : KeyedMutex κ) (address : ℕ) (mutex : RefCountedMutex κ) : KeyedMutex κ :=
  { k with mutexes := Function.update k.mutexes address mutex }

def acquire (k : KeyedMutex κ) (thread address : ℕ) : KeyedMutex κ :=
  k.setMutex address { k.mutexes address with holder := some thread }

def release (k : KeyedMutex κ) (address : ℕ) : KeyedMutex κ :=
  k.setMutex address { k.mutexes address with holder := none }

/-! ### What a thread sees -/

/-- The thread is counted at the mutex, which was made for the key. -/
structure Entered (k : KeyedMutex κ) (thread : ℕ) (key : κ) (address : ℕ) : Prop where
  user : thread ∈ (k.mutexes address).users
  key : (k.mutexes address).key = some key

structure Holds (k : KeyedMutex κ) (thread : ℕ) (key : κ) (address : ℕ) : Prop
    extends Entered k thread key address where
  holder : (k.mutexes address).holder = some thread

/-- Nothing has changed for a thread. -/
structure Frame (k k' : KeyedMutex κ) (other : ℕ) : Prop where
  entered : ∀ key address, k'.Entered other key address ↔ k.Entered other key address
  holds : ∀ key address, k'.Holds other key address ↔ k.Holds other key address

/-- What must stay as it is in a mutex for a thread. -/
structure Spares (mutex mutex' : RefCountedMutex κ) (other : ℕ) : Prop where
  user : other ∈ mutex'.users ↔ other ∈ mutex.users
  key : other ∈ mutex.users → mutex'.key = mutex.key
  holder : mutex'.holder = some other ↔ mutex.holder = some other

section Frame

variable {k k' : KeyedMutex κ} {thread other address : ℕ} {key : κ}

theorem Spares.entered_iff (hspares : Spares (k.mutexes address) (k'.mutexes address) other) :
    k'.Entered other key address ↔ k.Entered other key address := by
  constructor
  · rintro ⟨huser, hkey⟩
    have hbefore := hspares.user.mp huser
    exact ⟨hbefore, (hspares.key hbefore).symm.trans hkey⟩
  · rintro ⟨huser, hkey⟩
    exact ⟨hspares.user.mpr huser, (hspares.key huser).trans hkey⟩

theorem Frame.of_spares
    (hspares : ∀ address, Spares (k.mutexes address) (k'.mutexes address) other) :
    Frame k k' other where
  entered := fun _ address ↦ (hspares address).entered_iff
  holds := fun _ address ↦
    ⟨fun hholds ↦ ⟨(hspares address).entered_iff.mp hholds.toEntered,
      (hspares address).holder.mp hholds.holder⟩,
    fun hholds ↦ ⟨(hspares address).entered_iff.mpr hholds.toEntered,
      (hspares address).holder.mpr hholds.holder⟩⟩

theorem Frame.refl : Frame k k other := ⟨fun _ _ ↦ Iff.rfl, fun _ _ ↦ Iff.rfl⟩

@[simp] theorem mutexes_setMutex_self (mutex : RefCountedMutex κ) :
    (k.setMutex address mutex).mutexes address = mutex :=
  Function.update_self ..

theorem mutexes_setMutex_of_ne {address' : ℕ} (hne : address' ≠ address)
    (mutex : RefCountedMutex κ) :
    (k.setMutex address mutex).mutexes address' = k.mutexes address' :=
  Function.update_of_ne hne ..

/-- Only one mutex has changed, and it spares the thread. -/
theorem Frame.of_setMutex {mutex : RefCountedMutex κ}
    (hmutexes : k'.mutexes = (k.setMutex address mutex).mutexes)
    (hspares : Spares (k.mutexes address) mutex other) : Frame k k' other := by
  refine Frame.of_spares fun address' ↦ ?_
  rw [hmutexes]
  by_cases hsame : address' = address
  · subst hsame
    rw [mutexes_setMutex_self]
    exact hspares
  · rw [mutexes_setMutex_of_ne hsame]
    exact ⟨Iff.rfl, fun _ ↦ rfl, Iff.rfl⟩

theorem frame_acquire (hother : other ≠ thread) (hfree : (k.mutexes address).holder = none) :
    Frame k (k.acquire thread address) other :=
  Frame.of_setMutex rfl ⟨Iff.rfl, fun _ ↦ rfl, by simp [hfree, Ne.symm hother]⟩

theorem holds_acquire (hentered : k.Entered thread key address) :
    (k.acquire thread address).Holds thread key address where
  user := by simpa [acquire] using hentered.user
  key := by simpa [acquire] using hentered.key
  holder := by simp [acquire]

theorem frame_release (hother : other ≠ thread) (hholds : k.Holds thread key address) :
    Frame k (k.release address) other :=
  Frame.of_setMutex rfl ⟨Iff.rfl, fun _ ↦ rfl, by simp [hholds.holder, Ne.symm hother]⟩

theorem entered_release (hholds : k.Holds thread key address) :
    (k.release address).Entered thread key address where
  user := by simpa [release] using hholds.user
  key := by simpa [release] using hholds.key

end Frame

/-! ### Mutual exclusion -/

variable [DecidableEq κ]

/-- The mutex that a thread which asks for this key will use. -/
def address (k : KeyedMutex κ) (key : κ) : ℕ := (k.locks.get key).getD k.next

/-- Look the mutex of a key up, or make it, and count the thread. -/
def enter (k : KeyedMutex κ) (thread : ℕ) (key : κ) : KeyedMutex κ :=
  match k.locks.get key with
  | some address =>
    k.setMutex address
      { k.mutexes address with
        refs := (k.mutexes address).refs + 1
        users := thread :: (k.mutexes address).users }
  | none =>
    { k.setMutex k.next ⟨none, 1, some key, [thread]⟩ with
      locks := k.locks.set key k.next
      next := k.next + 1 }

/-- Count the thread no longer; the last one deletes the entry of the key. -/
def leave (k : KeyedMutex κ) (thread : ℕ) (key : κ) (address : ℕ) : KeyedMutex κ :=
  { k.setMutex address
      { k.mutexes address with
        refs := (k.mutexes address).refs - 1
        users := (k.mutexes address).users.erase thread } with
    locks := if (k.mutexes address).refs - 1 = 0 then k.locks.erase key else k.locks }

structure Sound (k : KeyedMutex κ) : Prop where
  entry : ∀ key address, k.locks.get key = some address →
    address < k.next ∧ (k.mutexes address).key = some key
  used : ∀ address key, (k.mutexes address).users ≠ [] → (k.mutexes address).key = some key →
    k.locks.get key = some address
  refs : ∀ address, (k.mutexes address).refs = (k.mutexes address).users.length
  holder : ∀ address thread, (k.mutexes address).holder = some thread →
    thread ∈ (k.mutexes address).users
  unused : ∀ address, k.next ≤ address → (k.mutexes address).users = []

theorem sound_empty : (empty : KeyedMutex κ).Sound where
  entry := by simp [empty]
  used := by simp [empty]
  refs := fun _ ↦ rfl
  holder := by simp [empty]
  unused := fun _ _ ↦ rfl

variable {k : KeyedMutex κ} {thread other address : ℕ} {key : κ}

theorem Sound.get_of_entered (hk : k.Sound) (hentered : k.Entered thread key address) :
    k.locks.get key = some address :=
  hk.used address key (ne_nil_of_mem hentered.user) hentered.key

/-- At most one thread holds the lock of a key. -/
theorem Sound.holds_unique (hk : k.Sound) {address' : ℕ} (hone : k.Holds thread key address)
    (htwo : k.Holds other key address') : thread = other := by
  have haddress : address = address' := by
    have hget := hk.get_of_entered hone.toEntered
    rwa [hk.get_of_entered htwo.toEntered, some.injEq, eq_comm] at hget
  subst haddress
  exact some.inj (hone.holder.symm.trans htwo.holder)

theorem Sound.holder_eq_none (hk : k.Sound) (hunused : k.next ≤ address) :
    (k.mutexes address).holder = none := by
  cases hholder : (k.mutexes address).holder with
  | none => rfl
  | some thread =>
    have huser := hk.holder address thread hholder
    rw [hk.unused address hunused] at huser
    exact absurd huser not_mem_nil

/-- A mutex changes, and the map does not. -/
theorem Sound.setMutex (hk : k.Sound) {mutex : RefCountedMutex κ}
    (hkey : mutex.key = (k.mutexes address).key) (hrefs : mutex.refs = mutex.users.length)
    (hholder : ∀ thread, mutex.holder = some thread → thread ∈ mutex.users)
    (hused : ∀ key, mutex.users ≠ [] → mutex.key = some key → k.locks.get key = some address)
    (hunused : k.next ≤ address → mutex.users = []) : (k.setMutex address mutex).Sound := by
  have hcases : ∀ motive : RefCountedMutex κ → ℕ → Prop, motive mutex address →
      (∀ address', motive (k.mutexes address') address') →
      ∀ address', motive ((k.setMutex address mutex).mutexes address') address' := by
    intro motive hchanged hothers address'
    by_cases hsame : address' = address
    · subst hsame
      rwa [mutexes_setMutex_self]
    · rw [mutexes_setMutex_of_ne hsame]
      exact hothers address'
  exact
    { entry := fun key address' hget ↦ hcases
        (fun changed place ↦ k.locks.get key = some place → place < k.next ∧ changed.key = some key)
        (fun hget ↦ hkey ▸ hk.entry key address hget) ((hk.entry key)) address' hget
      used := fun address' key ↦ hcases
        (fun changed place ↦ changed.users ≠ [] → changed.key = some key →
          k.locks.get key = some place) (hused key) (fun place ↦ hk.used place key) address'
      refs := hcases (fun changed _ ↦ changed.refs = changed.users.length) hrefs hk.refs
      holder := fun address' thread ↦ hcases
        (fun changed _ ↦ changed.holder = some thread → thread ∈ changed.users) (hholder thread)
        (fun place ↦ hk.holder place thread) address'
      unused := hcases (fun changed place ↦ k.next ≤ place → changed.users = []) hunused hk.unused }

/-! ### The four operations -/

theorem frame_enter (hk : k.Sound) (hother : other ≠ thread) : Frame k (k.enter thread key) other := by
  unfold enter
  split
  · refine Frame.of_setMutex rfl ⟨?_, fun _ ↦ rfl, Iff.rfl⟩
    rw [mem_cons]
    exact or_iff_right hother
  · refine Frame.of_setMutex rfl ⟨?_, fun huser ↦ ?_, ?_⟩
    · rw [hk.unused k.next (Nat.le_refl _), mem_singleton]
      exact iff_of_false hother not_mem_nil
    · rw [hk.unused k.next (Nat.le_refl _)] at huser
      exact absurd huser not_mem_nil
    · rw [hk.holder_eq_none (Nat.le_refl _)]

theorem entered_enter (hk : k.Sound) : (k.enter thread key).Entered thread key (k.address key) := by
  unfold enter address
  cases hget : k.locks.get key with
  | some address =>
    exact ⟨by simp, by simpa using (hk.entry key address hget).2⟩
  | none =>
    constructor <;> simp

theorem Sound.enter (hk : k.Sound) : (k.enter thread key).Sound := by
  unfold KeyedMutex.enter
  cases hget : k.locks.get key with
  | some address =>
    obtain ⟨hlt, hkey⟩ := hk.entry key address hget
    refine hk.setMutex rfl (by simp [hk.refs]) (fun other hholder ↦ ?_) (fun key' _ hkey' ↦ ?_)
      fun hunused ↦ absurd hlt (Nat.not_lt.mpr hunused)
    · exact mem_cons_of_mem _ (hk.holder address other hholder)
    · rw [hkey, some.injEq] at hkey'
      exact hkey' ▸ hget
  | none =>
    have hnew : ∀ address', address' ≠ k.next →
        (k.setMutex k.next ⟨none, 1, some key, [thread]⟩).mutexes address' = k.mutexes address' :=
      fun address' hne ↦ mutexes_setMutex_of_ne hne _
    refine ⟨fun key' address' hget' ↦ ?_, fun address' key' huser hkey' ↦ ?_, fun address' ↦ ?_,
      fun address' other hholder ↦ ?_, fun address' hunused ↦ ?_⟩
    · simp only at hget' ⊢
      by_cases hsame : key' = key
      · rw [hsame, Table.get_set_self, some.injEq] at hget'
        simp [← hget', hsame]
      · rw [Table.get_set_of_ne _ hsame] at hget'
        obtain ⟨hlt, hkey'⟩ := hk.entry key' address' hget'
        exact ⟨Nat.lt_succ_of_lt hlt, by rwa [hnew address' (Nat.ne_of_lt hlt)]⟩
    · simp only at huser hkey' ⊢
      by_cases hsame : address' = k.next
      · rw [hsame, mutexes_setMutex_self, some.injEq] at hkey'
        rw [hsame, ← hkey', Table.get_set_self]
      · rw [hnew address' hsame] at huser hkey'
        have hold := hk.used address' key' huser hkey'
        have hne : key' ≠ key := fun hsame' ↦ by simp [← hsame', hold] at hget
        rw [Table.get_set_of_ne _ hne, hold]
    · by_cases hsame : address' = k.next
      · simp [hsame]
      · simp only [hnew address' hsame, hk.refs]
    · by_cases hsame : address' = k.next
      · simp [hsame] at hholder
      · simp only [hnew address' hsame] at hholder ⊢
        exact hk.holder address' other hholder
    · have hne : address' ≠ k.next := Nat.ne_of_gt hunused
      simp only [hnew address' hne]
      exact hk.unused address' (Nat.le_of_succ_le hunused)

theorem Sound.acquire (hk : k.Sound) (hentered : k.Entered thread key address) :
    (k.acquire thread address).Sound := by
  refine hk.setMutex rfl (hk.refs address) (fun other hholder ↦ ?_) (fun key' ↦ hk.used address key')
    (hk.unused address)
  cases hholder
  exact hentered.user

theorem Sound.release (hk : k.Sound) : (k.release address).Sound :=
  hk.setMutex rfl (hk.refs address) (by simp) (fun key' ↦ hk.used address key') (hk.unused address)

theorem frame_leave (hother : other ≠ thread) : Frame k (k.leave thread key address) other :=
  Frame.of_setMutex rfl ⟨mem_erase_of_ne hother, fun _ ↦ rfl, Iff.rfl⟩

/-- A thread that does not hold the mutex may leave it. -/
theorem Sound.leave (hk : k.Sound) (hentered : k.Entered thread key address)
    (hholder : (k.mutexes address).holder ≠ some thread) : (k.leave thread key address).Sound := by
  have hlength : ((k.mutexes address).users.erase thread).length = (k.mutexes address).refs - 1 := by
    rw [length_erase_of_mem hentered.user, hk.refs]
  have hlocks := hk.get_of_entered hentered
  have hmutexes : (k.setMutex address
      { k.mutexes address with
        refs := (k.mutexes address).refs - 1
        users := (k.mutexes address).users.erase thread }).Sound := by
    refine hk.setMutex rfl hlength.symm (fun other hother ↦ ?_) (fun key' _ hkey' ↦ ?_)
      fun hunused ↦ by simp [hk.unused address hunused]
    · have hne : other ≠ thread := fun hsame ↦ hholder (hsame ▸ hother)
      exact (mem_erase_of_ne hne).mpr (hk.holder address other hother)
    · rwa [hentered.key.symm.trans hkey' |> some.inj] at hlocks
  unfold KeyedMutex.leave
  split_ifs with hlast
  · have hnobody : (k.mutexes address).users.erase thread = [] :=
      length_eq_zero_iff.mp (hlength.trans hlast)
    refine { hmutexes with entry := fun key' address' hget ↦ ?_, used := fun address' key' huser hkey' ↦ ?_ }
    · have hne : key' ≠ key := fun hsame ↦ by simp [hsame] at hget
      rw [Table.get_erase_of_ne _ hne] at hget
      exact hmutexes.entry key' address' hget
    · have hused := hmutexes.used address' key' huser hkey'
      have hne : key' ≠ key := by
        rintro rfl
        have hsame : address' = address := some.inj (hused.symm.trans hlocks)
        subst hsame
        simp [hnobody] at huser
      exact (Table.get_erase_of_ne _ hne).trans hused
  · exact hmutexes

/-! ### Free keys -/

/-- Nobody holds the lock of the key. -/
def Free (k : KeyedMutex κ) (key : κ) : Prop :=
  ∀ address, k.locks.get key = some address → (k.mutexes address).holder = none

theorem Sound.not_free (hk : k.Sound) (hholds : k.Holds thread key address) : ¬ k.Free key := by
  intro hfree
  have hnone := hfree address (hk.get_of_entered hholds.toEntered)
  rw [hholds.holder] at hnone
  cases hnone

theorem Sound.free_of_holder (hk : k.Sound) (hentered : k.Entered thread key address)
    (hholder : (k.mutexes address).holder = none) : k.Free key := by
  intro address' hget
  rw [hk.get_of_entered hentered, some.injEq] at hget
  exact hget ▸ hholder

theorem Sound.free_of_enter (hk : k.Sound) {key' : κ} (hfree : (k.enter thread key').Free key) :
    k.Free key := by
  intro address' hget'
  unfold KeyedMutex.enter at hfree
  cases hget : k.locks.get key' with
  | some address =>
    simp only [hget] at hfree
    have hholder := hfree address' hget'
    by_cases hsame : address' = address
    · subst hsame
      simpa using hholder
    · rwa [mutexes_setMutex_of_ne hsame] at hholder
  | none =>
    simp only [hget] at hfree
    have hne : key ≠ key' := fun hsame ↦ by simp [hsame, hget] at hget'
    have hold : address' ≠ k.next := Nat.ne_of_lt (hk.entry key address' hget').1
    have hholder := hfree address' ((Table.get_set_of_ne _ hne _).trans hget')
    simpa only [mutexes_setMutex_of_ne hold] using hholder

theorem free_of_acquire (hfree : (k.acquire thread address).Free key) : k.Free key := by
  intro address' hget
  have hholder := hfree address' hget
  by_cases hsame : address' = address
  · simp [hsame, acquire] at hholder
  · rwa [acquire, mutexes_setMutex_of_ne hsame] at hholder

/-- Only the lock of the mutex's own key becomes free. -/
theorem Sound.free_of_release (hk : k.Sound) {key' : κ} (hholds : k.Holds thread key' address)
    (hne : key ≠ key') (hfree : (k.release address).Free key) : k.Free key := by
  intro address' hget
  have hother : address' ≠ address := by
    rintro rfl
    exact hne (some.inj ((hk.entry key _ hget).2.symm.trans hholds.key))
  have hholder := hfree address' hget
  rwa [KeyedMutex.release, mutexes_setMutex_of_ne hother] at hholder

theorem Sound.free_of_leave (hk : k.Sound) {key' : κ} (hentered : k.Entered thread key' address)
    (hholder : (k.mutexes address).holder ≠ some thread)
    (hfree : (k.leave thread key' address).Free key) : k.Free key := by
  have hmutexes : ∀ address', ((k.leave thread key' address).mutexes address').holder =
      (k.mutexes address').holder := by
    intro address'
    by_cases hsame : address' = address
    · simp [hsame, KeyedMutex.leave]
    · simp only [KeyedMutex.leave, mutexes_setMutex_of_ne hsame]
  intro address' hget
  by_cases hkept : (k.leave thread key' address).locks.get key = some address'
  · rw [← hmutexes]
    exact hfree address' hkept
  · -- The entry was deleted, so the thread was the only user.
    simp only [KeyedMutex.leave] at hkept
    split_ifs at hkept with hlast
    · have hkey : key = key' := by
        by_contra hne
        exact hkept ((Table.get_erase_of_ne _ hne).trans hget)
      subst hkey
      have hsame : address' = address := some.inj (hget.symm.trans (hk.get_of_entered hentered))
      subst hsame
      have hnobody : (k.mutexes address').users.erase thread = [] := by
        rw [← length_eq_zero_iff, length_erase_of_mem hentered.user, ← hk.refs]
        exact hlast
      refine eq_none_iff_forall_not_mem.mpr fun other hother ↦ ?_
      have hne : other ≠ thread := fun hsame ↦ hholder (hsame ▸ hother)
      have hmem := (mem_erase_of_ne hne).mpr (hk.holder address' other hother)
      rw [hnobody] at hmem
      cases hmem
    · exact absurd hget hkept

end KeyedMutex

end OpenTrace.Library
