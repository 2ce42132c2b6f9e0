import Mathlib.Data.List.Nodup
import Mathlib.Data.List.Perm.Subperm

/-!
# Tables

Finite maps in the two forms a program keeps them: as an in-memory map and as a database table with a
primary key. A `Table` is a list of rows with distinct keys, in the order in which the keys were
inserted; a value is replaced in place. The operations are those of the two forms: `get`, `set` and
`erase` of one key, and the bulk forms `retain` (delete the rows that fail a test) and `update`
(rewrite every row). Every operation has one lemma that says what `get` finds afterwards.
-/

namespace OpenTrace.Library

open List

/-- Rows with distinct keys. -/
structure Table (κ ν : Type) where
  rows : List (κ × ν)
  distinct : (rows.map Prod.fst).Nodup

namespace Table

variable {κ ν : Type} (table : Table κ ν)

def empty : Table κ ν := ⟨[], nodup_nil⟩

def keys : List κ := table.rows.map Prod.fst

def size : ℕ := table.rows.length

/-- Delete the rows that fail the test. -/
def retain (keep : κ → ν → Bool) : Table κ ν where
  rows := table.rows.filter fun row ↦ keep row.1 row.2
  distinct := table.distinct.sublist (filter_sublist.map Prod.fst)

/-- Rewrite the value of every row. -/
def update (change : κ → ν → ν) : Table κ ν where
  rows := table.rows.map fun row ↦ (row.1, change row.1 row.2)
  distinct := by
    rw [map_map]
    exact table.distinct

theorem size_retain_le (keep : κ → ν → Bool) : (table.retain keep).size ≤ table.size :=
  length_filter_le _ _

variable [DecidableEq κ]

def get (key : κ) : Option ν := (table.rows.find? (·.1 = key)).map Prod.snd

def erase (key : κ) : Table κ ν := table.retain fun other _ ↦ decide (other ≠ key)

/-- Replace the value of a key, or add a row for it. -/
def set (key : κ) (value : ν) : Table κ ν :=
  if hmem : key ∈ table.keys then
    table.update fun other old ↦ if other = key then value else old
  else
    { rows := table.rows ++ [(key, value)]
      distinct := by
        rw [map_append, map_singleton]
        exact nodup_append_comm.mp (nodup_cons.mpr ⟨hmem, table.distinct⟩) }

/-! ### What `get` finds -/

theorem mem_rows {key : κ} {value : ν} : (key, value) ∈ table.rows ↔ table.get key = some value := by
  obtain ⟨rows, hdistinct⟩ := table
  simp only [get]
  induction rows with
  | nil => simp
  | cons row rows ih =>
    simp only [map_cons, nodup_cons] at hdistinct
    by_cases hkey : row.1 = key
    · subst hkey
      rw [find?_cons_of_pos (by simp), Option.map_some, Option.some.injEq, mem_cons]
      constructor
      · rintro (hrow | hmem)
        · rw [← hrow]
        · exact absurd (mem_map_of_mem hmem) hdistinct.1
      · intro hvalue
        exact .inl (by rw [← hvalue])
    · rw [find?_cons_of_neg (by simpa using hkey), ← ih hdistinct.2, mem_cons]
      constructor
      · rintro (hrow | hmem)
        · exact absurd (by rw [← hrow]) hkey
        · exact hmem
      · exact .inr

theorem mem_keys {key : κ} : key ∈ table.keys ↔ ∃ value, table.get key = some value := by
  simp only [keys, mem_map, Prod.exists, exists_and_right, exists_eq_right, table.mem_rows]

@[simp] theorem get_empty (key : κ) : (empty : Table κ ν).get key = none := rfl

/-- Two tables whose rows are the same find the same. -/
theorem get_congr {other : Table κ ν} {key : κ}
    (hrows : ∀ value, (key, value) ∈ other.rows ↔ (key, value) ∈ table.rows) :
    other.get key = table.get key :=
  Option.ext fun value ↦ by
    rw [← other.mem_rows, ← table.mem_rows]
    exact hrows value

@[simp] theorem get_retain (keep : κ → ν → Bool) (key : κ) :
    (table.retain keep).get key = (table.get key).filter (keep key) := by
  refine Option.ext fun value ↦ ?_
  rw [← mem_rows, Option.filter_eq_some_iff, ← mem_rows]
  simp [retain]

@[simp] theorem get_update (change : κ → ν → ν) (key : κ) :
    (table.update change).get key = (table.get key).map (change key) := by
  refine Option.ext fun value ↦ ?_
  rw [Option.map_eq_some_iff]
  simp only [← mem_rows, update, mem_map, Prod.exists, Prod.mk.injEq]
  constructor
  · rintro ⟨_, old, hmem, rfl, hvalue⟩
    exact ⟨old, hmem, hvalue⟩
  · rintro ⟨old, hmem, hvalue⟩
    exact ⟨key, old, hmem, rfl, hvalue⟩

@[simp] theorem get_erase_self (key : κ) : (table.erase key).get key = none := by
  simp [erase]

theorem get_erase_of_ne {key other : κ} (hne : other ≠ key) :
    (table.erase key).get other = table.get other := by
  rw [erase, get_retain]
  cases table.get other <;> simp [hne]

@[simp] theorem get_set_self (key : κ) (value : ν) : (table.set key value).get key = some value := by
  unfold set
  split_ifs with hmem
  · obtain ⟨old, hold⟩ := table.mem_keys.mp hmem
    rw [get_update, hold, Option.map_some, if_pos rfl]
  · rw [← mem_rows]
    exact mem_append_right _ (mem_singleton_self _)

theorem get_set_of_ne {key other : κ} (hne : other ≠ key) (value : ν) :
    (table.set key value).get other = table.get other := by
  unfold set
  split_ifs with hmem
  · rw [get_update]
    cases table.get other <;> simp [hne]
  · refine table.get_congr fun found ↦ ?_
    rw [mem_append, mem_singleton, Prod.mk.injEq]
    exact or_iff_left fun hsame ↦ hne hsame.1

/-! ### Sizes -/

theorem size_set_le (key : κ) (value : ν) : (table.set key value).size ≤ table.size + 1 := by
  unfold set size
  split_ifs
  · rw [update, length_map]
    exact Nat.le_succ _
  · exact Nat.le_of_eq length_append

/-- Replacing a value does not change the number of rows. -/
theorem size_set_of_get {key : κ} {old : ν} (hold : table.get key = some old) (value : ν) :
    (table.set key value).size = table.size := by
  rw [set, dif_pos (table.mem_keys.mpr ⟨old, hold⟩)]
  exact length_map _

/-- Distinct keys of the table are at most as many as its rows. -/
theorem length_le_size {found : List κ} (hdistinct : found.Nodup)
    (hfound : ∀ key ∈ found, ∃ value, table.get key = some value) : found.length ≤ table.size := by
  have hsub : found.Subperm table.keys :=
    hdistinct.subperm fun key hkey ↦ table.mem_keys.mpr (hfound key hkey)
  calc found.length ≤ table.keys.length := hsub.length_le
    _ = table.size := length_map _

/-- A table in which nothing is found has no rows. -/
theorem size_eq_zero (hnone : ∀ key value, table.get key ≠ some value) : table.size = 0 := by
  refine length_eq_zero_iff.mpr (eq_nil_iff_forall_not_mem.mpr fun row hrow ↦ ?_)
  exact hnone row.1 row.2 (table.mem_rows.mp hrow)

/-! ### Running totals -/

/-- `m[key] = change(m[key])` on a map whose missing keys read as zero. -/
def tally (zero : ν) (key : κ) (change : ν → ν) : Table κ ν :=
  table.set key (change ((table.get key).getD zero))

theorem get_tally (zero : ν) (key other : κ) (change : ν → ν) :
    (table.tally zero key change).get other =
      if other = key then some (change ((table.get key).getD zero)) else table.get other := by
  split_ifs with hkey
  · rw [hkey, tally, get_set_self]
  · rw [tally, table.get_set_of_ne hkey]

section

variable {α : Type} (zero : ν) (keyOf : α → Option κ) (change : α → ν → ν)

/-- One entry of a list in a running total: it counts under its key, if it has one. -/
def tallyEntry (entry : α) : Table κ ν :=
  (keyOf entry).elim table fun key ↦ table.tally zero key (change entry)

/-- The total of a key is that of the entries with this key. -/
theorem get_foldl_tallyEntry (entries : List α) (key : κ) :
    (entries.foldl (fun table entry ↦ table.tallyEntry zero keyOf change entry) table).get key =
      if entries.filter (keyOf · = some key) = [] then table.get key
      else some ((entries.filter (keyOf · = some key)).foldl (fun total entry ↦ change entry total)
        ((table.get key).getD zero)) := by
  induction entries generalizing table with
  | nil => simp
  | cons entry entries ih =>
    rw [foldl_cons, ih]
    by_cases hkey : keyOf entry = some key
    · have hmine : (entry :: entries).filter (keyOf · = some key) =
          entry :: entries.filter (keyOf · = some key) := filter_cons_of_pos (by simpa using hkey)
      have hcounted : (table.tallyEntry zero keyOf change entry).get key =
          some (change entry ((table.get key).getD zero)) := by
        rw [tallyEntry, hkey, Option.elim_some, get_tally, if_pos rfl]
      rw [hmine, hcounted, if_neg (cons_ne_nil _ _), foldl_cons]
      split_ifs with hnone
      · rw [hnone, foldl_nil]
      · rfl
    · have hother : (table.tallyEntry zero keyOf change entry).get key = table.get key := by
        rw [tallyEntry]
        cases hentry : keyOf entry with
        | none => rfl
        | some other =>
          rw [Option.elim_some, get_tally, if_neg]
          rintro rfl
          exact hkey hentry
      rw [hother, filter_cons_of_neg (by simpa using hkey)]

end

end Table

end OpenTrace.Library
