import Mathlib.Data.List.Infix
import OpenTrace.Engine.Store.Model

/-!
# The rows of a WAL file

What the bytes of a WAL file mean to the store. A file of an hour is a prefix of the records of
entries whose IDs name their positions (`WalOf`); whole records only, if the writer can append to it
(`Clean`). Appending, fsyncing, cutting at a crash and replaying are described by their effect on the
rows of the file and on those that were fsynced.
-/

namespace OpenTrace.Engine.Store

open Library Encoding Chunk Wal List

variable {codec : Codec} {file : WalFile}

theorem wholeRecords_mono {entries : List Entry} {cut cut' : ℕ} (hcut : cut ≤ cut') :
    codec.wholeRecords cut entries ≤ codec.wholeRecords cut' entries := by
  induction entries generalizing cut cut' with
  | nil => exact le_rfl
  | cons entry entries ih =>
    rw [Codec.wholeRecords, Codec.wholeRecords]
    split_ifs with hwhole hwhole'
    · exact Nat.succ_le_succ (ih (Nat.sub_le_sub_right hcut _))
    · exact absurd (hwhole.trans hcut) hwhole'
    · exact Nat.zero_le _
    · exact le_rfl

/-- The file holds a beginning of the records of these entries, which are the first of their hour. -/
structure WalOf (codec : Codec) (hour : ℕ) (file : WalFile) (entries : List Entry) : Prop where
  content : file.content <+: codec.marshalBatch entries
  storable : ∀ entry ∈ entries, Storable entry
  positioned : Positioned hour 0 entries
  durable_le : file.durable ≤ file.content.length

/-- The file holds exactly the records of these entries. -/
structure Clean (codec : Codec) (hour : ℕ) (file : WalFile) (entries : List Entry) : Prop where
  content : file.content = codec.marshalBatch entries
  storable : ∀ entry ∈ entries, Storable entry
  positioned : Positioned hour 0 entries
  durable_le : file.durable ≤ file.content.length

theorem Clean.walOf {hour : ℕ} {entries : List Entry} (hfile : Clean codec hour file entries) :
    WalOf codec hour file entries :=
  ⟨hfile.content ▸ prefix_rfl, hfile.storable, hfile.positioned, hfile.durable_le⟩

/-- Everything in a file is safe once it was fsynced. -/
theorem safeRows_eq_rows (zstd : Zstd) (hsynced : file.content.length ≤ file.durable) :
    file.safeRows zstd = file.rows zstd := by
  rw [WalFile.safeRows, take_of_length_le hsynced]
  rfl

theorem clean_empty (codec : Codec) (hour : ℕ) : Clean codec hour ⟨[], 0⟩ [] :=
  ⟨rfl, by simp, ⟨by simp, Nat.zero_le _⟩, le_rfl⟩

/-- The records of a batch behind whole records, before it is fsynced. -/
theorem Clean.append {hour : ℕ} {entries batch : List Entry} (hfile : Clean codec hour file entries)
    (hstorable : ∀ entry ∈ batch, Storable entry) (hbatch : Positioned hour entries.length batch) :
    Clean codec hour ⟨file.content ++ codec.marshalBatch batch, file.durable⟩ (entries ++ batch) where
  content := by rw [marshalBatch_append, hfile.content]
  storable := fun entry hentry ↦ (mem_append.mp hentry).elim (hfile.storable entry)
    (hstorable entry)
  positioned := hfile.positioned.append (by rwa [Nat.zero_add])
  durable_le := hfile.durable_le.trans (by rw [length_append]; omega)

theorem safeRows_append (zstd : Zstd) (hdurable : file.durable ≤ file.content.length)
    (more : Bytes) :
    WalFile.safeRows zstd ⟨file.content ++ more, file.durable⟩ = file.safeRows zstd := by
  rw [WalFile.safeRows, take_append_of_le_length hdurable]
  rfl

section Rows

variable {codec : Codec} (hzstd : codec.zstd.Faithful) {hour : ℕ} {file : WalFile}
  {entries : List Entry}

include hzstd

theorem scan_initial {admits : LengthCheck} (hadmits : admits.Admits) {content : Bytes}
    (hcontent : content <+: codec.marshalBatch entries)
    (hstorable : ∀ entry ∈ entries, Storable entry) :
    (scan codec.zstd admits content).entries =
        (entries.take (codec.wholeRecords content.length entries)).map codec.persisted ∧
      (scan codec.zstd admits content).consumed =
        (codec.marshalBatch (entries.take (codec.wholeRecords content.length entries))).length := by
  have hscan := scan_take_marshalBatch hzstd hadmits
    (fun entry hentry ↦ (hstorable entry hentry).readable) content.length
  rw [← prefix_iff_eq_take.mp hcontent] at hscan
  exact ⟨hscan.1, hscan.2.1⟩

section

variable (hfile : WalOf codec hour file entries)

include hfile

theorem WalOf.rows_eq : file.rows codec.zstd =
      (entries.take (codec.wholeRecords file.content.length entries)).map codec.persisted :=
  (scan_initial hzstd scannerLength_admits hfile.content hfile.storable).1

theorem WalOf.safeRows_eq : file.safeRows codec.zstd =
      (entries.take (codec.wholeRecords file.durable entries)).map codec.persisted := by
  have hcontent : file.content.take file.durable <+: codec.marshalBatch entries :=
    ( take_prefix _ _).trans hfile.content
  have hlength : (file.content.take file.durable).length = file.durable := by
    rw [length_take, min_eq_left hfile.durable_le]
  have hrows := (scan_initial hzstd scannerLength_admits hcontent hfile.storable).1
  rwa [hlength] at hrows

theorem WalOf.safeRows_initial : file.safeRows codec.zstd <+: file.rows codec.zstd := by
  rw [hfile.rows_eq hzstd, hfile.safeRows_eq hzstd]
  exact ( take_prefix_take_left (wholeRecords_mono hfile.durable_le)).map _

theorem WalOf.rows_positioned : Positioned hour 0 (file.rows codec.zstd) := by
  rw [hfile.rows_eq hzstd]
  refine ⟨fun index entry hentry ↦ ?_, ?_⟩
  · rw [getElem?_map] at hentry
    obtain ⟨original, horiginal, rfl⟩ := Option.map_eq_some_iff.mp hentry
    exact (hfile.positioned.take _).id index original horiginal
  · rw [length_map]
    exact (hfile.positioned.take _).length_le

end

theorem Clean.rows_eq (hfile : Clean codec hour file entries) :
    file.rows codec.zstd = entries.map codec.persisted := by
  have hparses := parses_marshalBatch hzstd scannerLength_admits
    fun entry hentry ↦ (hfile.storable entry hentry).readable
  rw [WalFile.rows, readEntriesFrom, hfile.content, hparses]

/-- A crash takes no row that was fsynced, adds none, and what it leaves is safe. -/
theorem WalOf.cut (hfile : WalOf codec hour file entries) (kept : ℕ) :
    WalOf codec hour (file.cut kept) entries ∧
      (file.cut kept).safeRows codec.zstd = (file.cut kept).rows codec.zstd ∧
      file.safeRows codec.zstd <+: (file.cut kept).rows codec.zstd ∧
      (file.cut kept).rows codec.zstd <+: file.rows codec.zstd := by
  have hsize : max file.durable (min kept file.content.length) ≤ file.content.length :=
    max_le hfile.durable_le (min_le_right _ _)
  have hlength : (file.cut kept).content.length = max file.durable (min kept file.content.length) := by
    rw [WalFile.cut, length_take, min_eq_left hsize]
  have hcut : WalOf codec hour (file.cut kept) entries :=
    ⟨( take_prefix _ _).trans hfile.content, hfile.storable, hfile.positioned, hlength.ge⟩
  have hsafe : (file.cut kept).durable = (file.cut kept).content.length := hlength.symm
  refine ⟨hcut, ?_, ?_, ?_⟩
  · rw [hcut.safeRows_eq hzstd, hcut.rows_eq hzstd, hsafe]
  · rw [hfile.safeRows_eq hzstd, hcut.rows_eq hzstd, hlength]
    exact ( take_prefix_take_left (wholeRecords_mono (le_max_left _ _))).map _
  · rw [hfile.rows_eq hzstd, hcut.rows_eq hzstd, hlength]
    exact ( take_prefix_take_left (wholeRecords_mono hsize)).map _

/-- Replaying a file cuts it behind its whole records and counts them. -/
theorem WalOf.replay (hfile : WalOf codec hour file entries) :
    let replay := scanWAL codec.zstd file.content
    let kept : WalFile := ⟨truncateFile replay.consumed file.content, min file.durable replay.consumed⟩
    ∃ whole, Clean codec hour kept whole ∧ replay.entries.length = whole.length ∧
      kept.rows codec.zstd = file.rows codec.zstd ∧
      file.safeRows codec.zstd <+: kept.safeRows codec.zstd ∧
      (replay.error = none → kept = file) := by
  intro replay kept
  obtain ⟨hentries, hconsumed⟩ : replay.entries = _ ∧ replay.consumed = _ :=
    scan_initial hzstd replayLength_admits hfile.content hfile.storable
  have hle : replay.consumed ≤ file.content.length := consumed_le_length file.content
  have hkept : kept.content = file.content.take replay.consumed := by
    simp [kept, truncateFile, Nat.sub_eq_zero_of_le hle]
  generalize hwhole : entries.take (codec.wholeRecords file.content.length entries) = whole
    at hentries hconsumed
  have hrecords : kept.content = codec.marshalBatch whole := by
    have hsplit : codec.marshalBatch whole <+: codec.marshalBatch entries := by
      have hrest := take_append_drop (codec.wholeRecords file.content.length entries) entries
      rw [hwhole] at hrest
      rw [← hrest, marshalBatch_append]
      exact prefix_append _ _
    have hpart : codec.marshalBatch whole <+: file.content :=
      prefix_of_prefix_length_le hsplit hfile.content (hconsumed ▸ hle)
    rw [hkept, hconsumed, ← prefix_iff_eq_take.mp hpart]
  have hlength : kept.content.length = replay.consumed := by rw [hrecords, hconsumed]
  have hclean : Clean codec hour kept whole :=
    ⟨hrecords, fun entry hentry ↦ hfile.storable entry
        (mem_of_mem_take (hwhole.symm ▸ hentry)),
      hwhole ▸ hfile.positioned.take _, hlength ▸ min_le_right _ _⟩
  have hrows : kept.rows codec.zstd = file.rows codec.zstd := by
    rw [hclean.rows_eq hzstd, hfile.rows_eq hzstd, hwhole]
  refine ⟨whole, hclean, by rw [hentries, length_map], hrows, ?_, fun hend ↦ ?_⟩
  · rcases le_total file.durable replay.consumed with hbefore | hafter
    · have hsame : kept.safeRows codec.zstd = file.safeRows codec.zstd := by
        have hdurable : kept.durable = file.durable := min_eq_left hbefore
        rw [WalFile.safeRows, hkept, hdurable, take_take, min_eq_left hbefore]
        rfl
      exact hsame ▸ prefix_rfl
    · have hsynced : kept.content.length ≤ kept.durable := by
        rw [hlength]
        exact (min_eq_right hafter).ge
      rw [safeRows_eq_rows _ hsynced, hrows]
      exact hfile.safeRows_initial hzstd
  · have hall : replay.consumed = file.content.length := consumed_eq_length _ hend
    have hcontent : kept.content = file.content := by rw [hkept, hall, take_length]
    have hdurable : kept.durable = file.durable := by
      simp only [kept, hall, min_eq_left hfile.durable_le]
    cases hkeep : kept
    simp_all

end Rows

end OpenTrace.Engine.Store
