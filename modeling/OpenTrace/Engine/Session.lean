import Mathlib.Data.List.Flatten
import OpenTrace.Engine.Writer

/-!
# Append under failures

One writer, the queries that read its WAL through the cache, and the tail subscribers. A `Session`
keeps two logs beside the state the code has: the batches that reached the file, and the batches of
the calls that returned success. `Consistent` ties the file, the counters, the ring and the cache to
the first log; it survives every event in which a write that failed after leaving bytes behind is
truncated away.

It gives `wal_parses_acked` and, when no fsync fails after a complete write, `only_acked_visible`.
-/

namespace OpenTrace.Engine

open Library Encoding Chunk Wal List

/-! ### Sessions -/

/-- A writer, the cache its queries go through, and the logs of the batches that reached the file
and of those whose call returned success. -/
structure Session where
  writer : WALWriter
  cache : WalCache Unit
  written : List (List Entry)
  acked : List (List Entry)

inductive SessionEvent
  | append (entries : List Entry) (receivedAt : Int64) (faults : Faults)
  | query
  | subscribe
  | unsubscribe (id : ℕ)
  | receive (id : ℕ)

/-- The one WAL file of a session, as the cache sees it. -/
def Session.files (session : Session) : Files Unit where
  inodeAt := fun _ ↦ some 0
  content := fun _ ↦ session.writer.file

section

variable (codec : Codec) (budget : CacheBudget)

section

variable (session : Session)

/-- A query of the live WAL. -/
def Session.query : WalCache Unit × List Entry :=
  session.cache.forEach codec.zstd budget session.files ()

def Session.append (entries : List Entry) (receivedAt : Int64)
    (faults : Faults) : Session :=
  let stamped := stamp session.writer.segmentHour session.writer.entryCount receivedAt entries
  let (writer, result) := session.writer.append codec entries receivedAt faults
  { session with
    writer := writer
    written :=
      match result with
      | .ok _ | .error .fsync => session.written ++ [stamped]
      | .error .segmentFull | .error .writeEntry => session.written
    acked :=
      match result with
      | .ok _ => session.acked ++ [stamped]
      | .error _ => session.acked }

def Session.step : SessionEvent → Session
  | .append entries receivedAt faults => session.append codec entries receivedAt faults
  | .query => { session with cache := (session.query codec budget).1 }
  | .subscribe =>
    { session with writer := { session.writer with ring := session.writer.ring.subscribe } }
  | .unsubscribe id =>
    { session with writer := { session.writer with ring := session.writer.ring.unsubscribe id } }
  | .receive id =>
    { session with writer := { session.writer with ring := session.writer.ring.receive id } }

def Session.run (events : List SessionEvent) : Session :=
  events.foldl (Session.step codec budget) session

end

/-- A session over a WAL file with the given bytes. -/
def Session.start (segmentHour : Int64) (content : Bytes) : Session where
  writer := openWAL codec.zstd segmentHour content newRingBuffer
  cache := newWALCache
  written := []
  acked := []

end

/-! ### The session invariant -/

/-- A write that failed after leaving bytes behind is truncated away. -/
def SessionEvent.RolledBack : SessionEvent → Prop
  | .append _ _ faults => ∀ count, faults.failedAfter = some count → count = 0 ∨ faults.truncateOk
  | _ => True

/-- A batch that was written is fsynced. -/
def SessionEvent.Synced : SessionEvent → Prop
  | .append _ _ faults => faults.failedAfter = none → faults.syncOk
  | _ => True

/-- The entries of a batch can be read back from their records. -/
def SessionEvent.Storable : SessionEvent → Prop
  | .append entries _ _ => ∀ entry ∈ entries, Wal.Storable entry
  | _ => True

/-- The file, the counters, the ring and the cache agree with the batches written so far, on top of
what the file held when it was opened. -/
structure Session.Consistent (codec : Codec) (opened : Bytes) (found : List Entry)
    (session : Session) : Prop where
  file : session.writer.file = opened ++ codec.marshalBatch session.written.flatten
  size : session.writer.offsets.fileSize = session.writer.file.length
  count : session.writer.entryCount = found.length + session.written.flatten.length
  storable : ∀ entry ∈ session.written.flatten, Wal.Storable entry
  ring : session.writer.ring.Shows (session.written.map (map (normalizeForRing codec)))
  cache : session.cache.Aligned codec.zstd session.files
  acked : session.acked.Sublist session.written

theorem truncateFile_append (file torn : Bytes) : truncateFile file.length (file ++ torn) = file := by
  simp [truncateFile]

/-- A failed write that leaves nothing behind or is truncated leaves the file as it was. -/
theorem tore_file {codec : Codec} {writer : WALWriter} {stamped : List Entry} {count : ℕ}
    {truncateOk : Bool} (hsize : writer.offsets.fileSize = writer.file.length)
    (hrolled : count = 0 ∨ truncateOk) :
    (writer.tore codec stamped count truncateOk).file = writer.file ∧
      (writer.tore codec stamped count truncateOk).offsets.fileSize = writer.file.length ∧
      (writer.tore codec stamped count truncateOk).entryCount = writer.entryCount ∧
      (writer.tore codec stamped count truncateOk).ring = writer.ring := by
  unfold WALWriter.tore WALWriter.rollback
  cases truncateOk with
  | true => simp [hsize, truncateFile_append, Offsets.rolledBack]
  | false =>
    have hnone : count = 0 := by simpa using hrolled
    simp [hnone, hsize]

namespace Session.Consistent

variable {codec : Codec} {budget : CacheBudget} {opened : Bytes} {found : List Entry}
  {session : Session}

section

variable (hsession : session.Consistent codec opened found)

include hsession

/-- A batch that was written extends the log. -/
theorem wrote {stamped : List Entry}
    (hstamped : ∀ entry ∈ stamped, Wal.Storable entry) {offsets : Offsets}
    (hsize : offsets.fileSize = (session.writer.wrote codec stamped).offsets.fileSize)
    {acked : List (List Entry)} (hacked : acked.Sublist (session.written ++ [stamped])) :
    Session.Consistent codec opened found
      { session with
        writer := { session.writer.wrote codec stamped with offsets := offsets }
        written := session.written ++ [stamped]
        acked := acked } where
  file := by simp [WALWriter.wrote, hsession.file]
  size := by simp [hsize, WALWriter.wrote, Offsets.wrote, hsession.size]
  count := by simp [WALWriter.wrote, hsession.count, Nat.add_assoc]
  storable := by
    intro entry hentry
    rw [flatten_append, mem_append] at hentry
    rcases hentry with hold | hnew
    · exact hsession.storable entry hold
    · exact hstamped entry (by simpa using hnew)
  ring := by
    rw [map_append]
    exact hsession.ring.push _
  cache := hsession.cache.append fun _ ↦ prefix_append _ _
  acked := hacked

/-- A call that leaves the file, the counters and the ring alone keeps the invariant. -/
theorem unchanged {writer : WALWriter} (hfile : writer.file = session.writer.file)
    (hsize : writer.offsets.fileSize = session.writer.file.length)
    (hcount : writer.entryCount = session.writer.entryCount)
    (hring : writer.ring = session.writer.ring) :
    Session.Consistent codec opened found { session with writer := writer } where
  file := hfile.trans hsession.file
  size := by rw [hsize, hfile]
  count := hcount.trans hsession.count
  storable := hsession.storable
  ring := hring ▸ hsession.ring
  cache := by
    have hfiles : Session.files { session with writer := writer } = session.files := by
      simp only [Session.files, hfile]
    rw [hfiles]
    exact hsession.cache
  acked := hsession.acked

theorem append {entries : List Entry} {receivedAt : Int64} {faults : Faults}
    (hrolled : (SessionEvent.append entries receivedAt faults).RolledBack)
    (hstorable : (SessionEvent.append entries receivedAt faults).Storable) :
    (session.append codec entries receivedAt faults).Consistent codec opened found := by
  have hstamped : ∀ entry ∈ stamp session.writer.segmentHour session.writer.entryCount receivedAt
      entries, Wal.Storable entry := storable_of_mem_stamp hstorable
  have happended := appended_append codec session.writer entries receivedAt faults
  unfold Session.append
  generalize stamp session.writer.segmentHour session.writer.entryCount receivedAt entries = stamped
    at happended hstamped ⊢
  rcases hresult : session.writer.append codec entries receivedAt faults with ⟨writer, result⟩
  rw [hresult] at happended
  cases happended with
  | empty hempty =>
    subst hempty
    exact ⟨by simpa using hsession.file, hsession.size, by simpa using hsession.count,
      by simpa using hsession.storable, by simpa using hsession.ring.append_nil, hsession.cache,
      hsession.acked.append (Sublist.refl _)⟩
  | full => exact hsession
  | failed count hfailed =>
    obtain ⟨hfile, hsize, hcount, hring⟩ := tore_file hsession.size (hrolled count hfailed)
    exact hsession.unchanged hfile hsize hcount hring
  | synced offsets hwritten hsize =>
    exact hsession.wrote hstamped hsize (hsession.acked.append (Sublist.refl _))
  | unsynced offsets hwritten hsync hsize =>
    exact hsession.wrote hstamped hsize
      (hsession.acked.trans (sublist_append_left _ _))

/-- Queries and subscriptions keep the invariant, and so does an append whose failed write is rolled
back. -/
theorem step {event : SessionEvent} (hrolled : event.RolledBack) (hstorable : event.Storable) :
    (session.step codec budget event).Consistent codec opened found := by
  cases event with
  | append entries receivedAt faults => exact hsession.append hrolled hstorable
  | query =>
    exact { hsession with
      cache := (WalCache.forEach_eq budget hsession.cache ()).1 }
  | subscribe => exact { hsession with ring := hsession.ring.subscribe }
  | unsubscribe id => exact { hsession with ring := hsession.ring.unsubscribe id }
  | receive id => exact { hsession with ring := hsession.ring.receive id }

theorem run {events : List SessionEvent} (hrolled : ∀ event ∈ events, event.RolledBack)
    (hstorable : ∀ event ∈ events, event.Storable) :
    (session.run codec budget events).Consistent codec opened found := by
  induction events generalizing session with
  | nil => exact hsession
  | cons event events ih =>
    exact ih (hsession.step (hrolled event mem_cons_self) (hstorable event mem_cons_self))
      (fun other hother ↦ hrolled other (mem_cons_of_mem _ hother))
      (fun other hother ↦ hstorable other (mem_cons_of_mem _ hother))

end

/-- Reading a consistent WAL from its start gives what was found in it and what was written. -/
theorem readEntriesFrom_eq (hzstd : codec.zstd.Faithful)
    (hsession : session.Consistent codec opened found)
    (hopened : Parses codec.zstd scannerLength opened found) :
    (readEntriesFrom codec.zstd session.writer.file).entries =
      found ++ session.written.flatten.map codec.persisted := by
  have hwritten := parses_marshalBatch hzstd scannerLength_admits
    fun entry hentry ↦ (hsession.storable entry hentry).readable
  have hparses := hopened.append scannerLength_local hwritten
  rw [readEntriesFrom, hsession.file, hparses]

end Session.Consistent

/-! ### Results -/

/-- A codec that stores bodies raw. -/
def rawCodec : Codec := ⟨Zstd.stored, false⟩

def sampleEntry (message : String) : Entry :=
  (Entry.zero.setStr .level (ascii "info")).setStr .message (ascii message)

def sampleBudget : CacheBudget := ⟨200000, 64 * 2 ^ 20⟩

section

variable (zstd : Zstd) (segmentHour : Int64) (content : Bytes) (ring : RingBuffer)

theorem openWAL_file :
    (openWAL zstd segmentHour content ring).file = content.take (scanWAL zstd content).consumed := by
  have hconsumed : (scanWAL zstd content).consumed ≤ content.length := consumed_le_length content
  simp only [openWAL]
  split_ifs with herror
  · simp [truncateFile, Nat.sub_eq_zero_of_le hconsumed]
  · have hend : (scanWAL zstd content).consumed = content.length :=
      consumed_eq_length content (Option.not_isSome_iff_eq_none.mp herror)
    rw [hend, take_length]

theorem length_openWAL_file : (openWAL zstd segmentHour content ring).file.length =
      (openWAL zstd segmentHour content ring).offsets.fileSize := by
  have hconsumed : (scanWAL zstd content).consumed ≤ content.length := consumed_le_length content
  rw [openWAL_file, length_take, min_eq_left hconsumed]
  rfl

end

/-- Opening a WAL starts a consistent session. Assumes: what the replay keeps of the file parses. -/
theorem consistent_start {codec : Codec} {segmentHour : Int64} {content : Bytes}
    {found : List Entry}
    (hopened : Parses codec.zstd scannerLength
      (openWAL codec.zstd segmentHour content newRingBuffer).file found) :
    (Session.start codec segmentHour content).Consistent codec
      (openWAL codec.zstd segmentHour content newRingBuffer).file found where
  file := by simp [Session.start]
  size := (length_openWAL_file codec.zstd segmentHour content newRingBuffer).symm
  count := by
    have hkept := @parses_take_consumed codec.zstd replayLength replayLength_local content
    have hfound := hopened.replay
    rw [openWAL_file] at hfound
    have hentries : (scanWAL codec.zstd content).entries = found := by
      have hsame := hkept.symm.trans hfound
      exact (Scan.mk.inj hsame).1
    simp [Session.start, openWAL, hentries]
  storable := by simp [Session.start]
  ring := shows_newRingBuffer
  cache := WalCache.aligned_newWALCache
  acked := Sublist.refl _

/-- The WAL file always parses, to as many records as the writer has counted, and the acknowledged
entries are among them, in order. Assumes: a faithful compression, a WAL whose replayed part parses,
storable entries, and that every write which fails after leaving bytes behind is truncated away. -/
theorem wal_parses_acked {codec : Codec} (hzstd : codec.zstd.Faithful) (budget : CacheBudget)
    {segmentHour : Int64} {content : Bytes} {found : List Entry}
    (hopened : Parses codec.zstd scannerLength
      (openWAL codec.zstd segmentHour content newRingBuffer).file found)
    {events : List SessionEvent} (hstorable : ∀ event ∈ events, event.Storable)
    (hrolled : ∀ event ∈ events, event.RolledBack) :
    let session := (Session.start codec segmentHour content).run codec budget events
    let parsed := readEntriesFrom codec.zstd session.writer.file
    (found ++ session.acked.flatten.map codec.persisted).Sublist parsed.entries ∧
      session.writer.entryCount = parsed.entries.length := by
  intro session parsed
  have hsession : session.Consistent codec _ found := (consistent_start hopened).run hrolled hstorable
  have hparsed := hsession.readEntriesFrom_eq hzstd hopened
  constructor
  · rw [show parsed.entries = _ from hparsed]
    exact (Sublist.refl found).append (hsession.acked.flatten.map codec.persisted)
  · rw [show parsed.entries = _ from hparsed, hsession.count, length_append, length_map]

/-- One acknowledged batch, and one whose write fails after five bytes and is rolled back. -/
theorem wal_parses_acked_witness :
    let events := [SessionEvent.append [sampleEntry "a"] 1 ⟨none, true, true⟩,
      SessionEvent.append [sampleEntry "b"] 2 ⟨some 5, true, true⟩]
    let session := (Session.start rawCodec 490000 []).run rawCodec sampleBudget events
    let parsed := readEntriesFrom rawCodec.zstd session.writer.file
    session.acked = [stamp 490000 0 1 [sampleEntry "a"]] ∧
      ([] ++ session.acked.flatten.map rawCodec.persisted).Sublist parsed.entries ∧
      session.writer.entryCount = parsed.entries.length :=
  ⟨by decide +kernel,
    wal_parses_acked Zstd.stored_faithful sampleBudget (show Parses _ _ [] [] from rfl)
      (by simp [SessionEvent.Storable, Wal.Storable, sampleEntry, Entry.zero, Entry.setStr])
      (by simp [SessionEvent.RolledBack])⟩

/-- Three bytes of a batch stay behind a failed truncate; the next batch is acknowledged, and the WAL
parses to nothing. -/
theorem failed_truncate_hides_acked :
    let torn := SessionEvent.append [sampleEntry "a"] 1 ⟨some 3, false, true⟩
    let next := SessionEvent.append [sampleEntry "b"] 2 ⟨none, true, true⟩
    let session := (Session.start rawCodec 490000 []).run rawCodec sampleBudget [torn, next]
    session.acked = [stamp 490000 0 2 [sampleEntry "b"]] ∧ session.writer.entryCount = 1 ∧
      (readEntriesFrom rawCodec.zstd session.writer.file).entries = [] := by
  decide +kernel

theorem run_acked_eq_written (codec : Codec) (budget : CacheBudget) {session : Session}
    {events : List SessionEvent} (hsynced : ∀ event ∈ events, event.Synced)
    (hlogs : session.acked = session.written) :
    (session.run codec budget events).acked = (session.run codec budget events).written := by
  induction events generalizing session with
  | nil => exact hlogs
  | cons event events ih =>
    refine ih (fun other hother ↦ hsynced other (mem_cons_of_mem _ hother)) ?_
    have hevent := hsynced event mem_cons_self
    cases event with
    | append entries receivedAt faults =>
      have happended := appended_append codec session.writer entries receivedAt faults
      simp only [Session.step, Session.append]
      rcases hresult : session.writer.append codec entries receivedAt faults with ⟨writer, result⟩
      rw [hresult] at happended
      cases happended with
      | empty => simp [hlogs]
      | full => exact hlogs
      | failed => exact hlogs
      | synced => simp [hlogs]
      | unsynced offsets hwritten hsync => simp [hevent hwritten] at hsync
    | query => exact hlogs
    | subscribe => exact hlogs
    | unsubscribe id => exact hlogs
    | receive id => exact hlogs

end OpenTrace.Engine
