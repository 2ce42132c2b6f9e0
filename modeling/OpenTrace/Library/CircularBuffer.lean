import Mathlib.Data.List.Basic

/-!
# Circular buffers

An array of fixed capacity that is written round and round, with a running write position. A buffer
`Holds` a history when its slots agree with the history's most recent entries; every write extends
the history (`Holds.foldl_write`), and a snapshot is the last `capacity` entries of it
(`Holds.snapshot_eq`).
-/

namespace OpenTrace.Library

open List

/-- A circular buffer: its slots, the next write position, and the number of writes so far. -/
structure CircularBuffer (α : Type) where
  slots : ℕ → α
  head : ℕ
  count : ℕ

namespace CircularBuffer

variable {α : Type}

/-- An empty buffer; the slots hold a filler that no snapshot shows. -/
def empty (filler : α) : CircularBuffer α := ⟨fun _ ↦ filler, 0, 0⟩

def write (capacity : ℕ) (buffer : CircularBuffer α) (value : α) : CircularBuffer α where
  slots := Function.update buffer.slots (buffer.head % capacity) value
  head := buffer.head + 1
  count := buffer.count + 1

/-- The most recent entries, oldest first. -/
def snapshot (capacity : ℕ) (buffer : CircularBuffer α) : List α :=
  let shown := min buffer.count capacity
  (range shown).map fun offset ↦ buffer.slots ((buffer.head - shown + offset) % capacity)

/-- The buffer was written with the entries of `history`, in this order. -/
structure Holds (capacity : ℕ) (buffer : CircularBuffer α) (history : List α) : Prop where
  head_eq : buffer.head = history.length
  count_eq : buffer.count = history.length
  slot_eq : ∀ position (hposition : position < history.length),
    history.length ≤ position + capacity → buffer.slots (position % capacity) = history[position]

theorem holds_empty (capacity : ℕ) (filler : α) : Holds capacity (empty filler) [] where
  head_eq := rfl
  count_eq := rfl
  slot_eq := fun _ hposition ↦ absurd hposition (Nat.not_lt_zero _)

/-- Positions less than one lap apart use different slots. -/
private theorem mod_ne_mod {capacity earlier later : ℕ} (hlt : earlier < later)
    (hlap : later < earlier + capacity) : earlier % capacity ≠ later % capacity := by
  intro heq
  have hzero : (later - earlier) % capacity = 0 := Nat.sub_mod_eq_zero_of_mod_eq heq.symm
  rw [Nat.mod_eq_of_lt (by omega)] at hzero
  omega

section

variable {capacity : ℕ} {buffer : CircularBuffer α} {history : List α}
  (hbuffer : Holds capacity buffer history)

include hbuffer

theorem Holds.write (value : α) :
    Holds capacity (buffer.write capacity value) (history ++ [value]) where
  head_eq := by simp [CircularBuffer.write, hbuffer.head_eq]
  count_eq := by simp [CircularBuffer.write, hbuffer.count_eq]
  slot_eq := by
    intro position hposition hrecent
    rw [length_append, length_singleton] at hposition hrecent
    simp only [CircularBuffer.write, hbuffer.head_eq]
    by_cases hlast : position = history.length
    · subst hlast
      simp
    · have hearlier : position < history.length := by omega
      rw [Function.update_of_ne (mod_ne_mod hearlier (by omega)),
        hbuffer.slot_eq position hearlier (by omega), getElem_append_left hearlier]

theorem Holds.foldl_write (values : List α) :
    Holds capacity (values.foldl (CircularBuffer.write capacity) buffer) (history ++ values) := by
  induction values generalizing buffer history with
  | nil => simpa using hbuffer
  | cons value values ih => simpa using ih (hbuffer.write value)

/-- A snapshot shows the last `capacity` entries written. -/
theorem Holds.snapshot_eq :
    buffer.snapshot capacity = history.drop (history.length - capacity) := by
  have hshown : history.length - (history.length - capacity) = min history.length capacity := by
    omega
  apply ext_getElem
  · simp [snapshot, hbuffer.count_eq, hshown]
  · intro offset hoffset hoffset'
    simp only [snapshot, hbuffer.count_eq, hbuffer.head_eq, getElem_map, getElem_range,
      getElem_drop]
    rw [length_drop] at hoffset'
    have hposition : history.length - min history.length capacity + offset =
        history.length - capacity + offset := by omega
    rw [hposition]
    exact hbuffer.slot_eq _ (by omega) (by omega)

end

end CircularBuffer

end OpenTrace.Library
