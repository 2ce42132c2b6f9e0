import OpenTrace.Chunk.Entry
import OpenTrace.Library.CircularBuffer

/-!
# The live tail

`engine/ring.go`: a ring of the most recent entries, without their bodies, and a buffered channel
for each subscriber. A push that finds a channel full drops the batch for that subscriber.

`RingBuffer.Shows` relates a ring to the batches pushed so far; `Shows.push` is its step lemma, and
`Shows.snapshot_sublist` says that a snapshot returns only what was pushed, each entry at most once
and in order, as the channels do by definition.
-/

namespace OpenTrace.Engine

open Chunk Library List

def ringSize : ℕ := 256

/-- The batches a subscriber's channel buffers. -/
def channelSize : ℕ := 16

/-- The tail is a summary stream: bodies are left out. -/
def projectTail (entry : Entry) : Entry := { entry with body := [] }

/-- The newest `ringSize` entries of a batch, without bodies. -/
def projectBatch (entries : List Entry) : List Entry :=
  (entries.drop (entries.length - ringSize)).map projectTail

/-- A subscriber: its ID and the batches waiting in its channel. -/
structure Subscriber where
  id : ℕ
  channel : List (List Entry)

structure RingBuffer where
  recent : CircularBuffer Entry
  subs : List Subscriber
  nextSub : ℕ

def newRingBuffer : RingBuffer := ⟨CircularBuffer.empty Entry.zero, [], 0⟩

/-- The non-blocking send of a push. -/
def Subscriber.deliver (batch : List Entry) (sub : Subscriber) : Subscriber :=
  if sub.channel.length < channelSize then { sub with channel := sub.channel ++ [batch] } else sub

section

variable (ring : RingBuffer)

def RingBuffer.push (entries : List Entry) : RingBuffer :=
  { ring with
    recent := (projectBatch entries).foldl (CircularBuffer.write ringSize) ring.recent
    subs := ring.subs.map (Subscriber.deliver (projectBatch entries)) }

def RingBuffer.snapshot : List Entry := ring.recent.snapshot ringSize

def RingBuffer.subscribe : RingBuffer :=
  { ring with subs := ring.subs ++ [⟨ring.nextSub, []⟩], nextSub := ring.nextSub + 1 }

def RingBuffer.unsubscribe (id : ℕ) : RingBuffer :=
  { ring with subs := ring.subs.filter fun sub ↦ sub.id ≠ id }

/-- A subscriber takes the next batch from its channel. -/
def RingBuffer.receive (id : ℕ) : RingBuffer :=
  { ring with
    subs := ring.subs.map fun sub ↦
      if sub.id = id then { sub with channel := sub.channel.tail } else sub }

end

theorem flatMap_projectBatch_sublist (batches : List (List Entry)) :
    (batches.flatMap projectBatch).Sublist (batches.flatten.map projectTail) := by
  induction batches with
  | nil => exact Sublist.refl _
  | cons batch batches ih =>
    rw [flatten_cons, map_append]
    exact ((drop_sublist _ _).map projectTail).append ih

/-- The ring was pushed the given batches, in this order. -/
structure RingBuffer.Shows (ring : RingBuffer) (batches : List (List Entry)) : Prop where
  recent : ring.recent.Holds ringSize (batches.flatMap projectBatch)
  channels : ∀ sub ∈ ring.subs, sub.channel.Sublist (batches.map projectBatch)

theorem shows_newRingBuffer : newRingBuffer.Shows [] where
  recent := CircularBuffer.holds_empty _ _
  channels := by simp [newRingBuffer]

theorem Subscriber.deliver_channel_sublist {sub : Subscriber} {sent : List (List Entry)}
    (hsub : sub.channel.Sublist sent) (batch : List Entry) :
    (sub.deliver batch).channel.Sublist (sent ++ [batch]) := by
  unfold deliver
  split_ifs
  · exact hsub.append (Sublist.refl _)
  · exact hsub.trans (sublist_append_left _ _)

namespace RingBuffer.Shows

variable {ring : RingBuffer} {batches : List (List Entry)}

section

variable (hring : ring.Shows batches)

include hring

theorem push (entries : List Entry) : (ring.push entries).Shows (batches ++ [entries]) where
  recent := by
    simpa [RingBuffer.push] using hring.recent.foldl_write (projectBatch entries)
  channels := by
    intro sub hsub
    obtain ⟨before, hbefore, rfl⟩ := mem_map.mp hsub
    rw [map_append]
    exact before.deliver_channel_sublist (hring.channels before hbefore) _

/-- An empty batch does not change what a ring shows. -/
theorem append_nil : ring.Shows (batches ++ [[]]) where
  recent := by simpa [projectBatch] using hring.recent
  channels := by
    intro sub hsub
    rw [map_append]
    exact (hring.channels sub hsub).trans (sublist_append_left _ _)

theorem subscribe : ring.subscribe.Shows batches where
  recent := hring.recent
  channels := by
    intro sub hsub
    rcases mem_append.mp hsub with hold | hnew
    · exact hring.channels sub hold
    · rw [mem_singleton.mp hnew]
      exact nil_sublist _

theorem unsubscribe (id : ℕ) : (ring.unsubscribe id).Shows batches where
  recent := hring.recent
  channels := fun sub hsub ↦ hring.channels sub (mem_filter.mp hsub).1

theorem receive (id : ℕ) : (ring.receive id).Shows batches where
  recent := hring.recent
  channels := by
    intro sub hsub
    obtain ⟨before, hbefore, rfl⟩ := mem_map.mp hsub
    split_ifs
    · exact (tail_sublist _).trans (hring.channels before hbefore)
    · exact hring.channels before hbefore

theorem snapshot_sublist : ring.snapshot.Sublist (batches.flatten.map projectTail) := by
  rw [RingBuffer.snapshot, hring.recent.snapshot_eq]
  exact (drop_sublist _ _).trans (flatMap_projectBatch_sublist batches)

end

end RingBuffer.Shows

end OpenTrace.Engine
