import OpenTrace.Engine.Writer

/-!
# The live tail and the log

The tail shows the entries that `Append` returns, a search shows what their records hold.
`normalizeForRing` replaces an entry by its decoded record if the record or the body is large, since
strings are truncated and bodies dropped there. But a record changes small entries as well: the level
`warning` is stored as `warn`, a negative count is not stored, a status is stored as a `uint16`, and a
long string without a rune boundary is truncated to few bytes. `shows_stored_iff` says for which entries
the two views agree, and `append_shows_stored_iff` for which batches.
-/

namespace OpenTrace.Engine

open Library Encoding Chunk Wal

/-- A record changes nothing of the entry but its body. -/
structure Plain (entry : Entry) : Prop where
  str : ∀ field, (entry.str field).length ≤ maxFieldBytes
  level : entry.str .level ≠ ascii "warning"
  int : ∀ field, 0 ≤ entry.int field
  status : entry.int .status < 65536

/-- The record or the body is so large that the tail shows the decoded record. -/
def Outsized (codec : Codec) (entry : Entry) : Prop :=
  maxFieldBytes ≤ (codec.marshalEntry entry).length ∨ maxFieldBytes ≤ entry.body.length

/-- The entry as `Append` returns it is the decoded record, apart from the body. -/
def ShowsStored (codec : Codec) (shown entry : Entry) : Prop :=
  ∃ stored, unmarshalEntry codec.zstd (codec.payload entry) = .ok stored ∧
    projectTail shown = projectTail stored

theorem truncateField_eq_self_iff (text : Bytes) :
    truncateField text = text ↔ text.length ≤ maxFieldBytes := by
  unfold truncateField
  split_ifs with hshort
  · exact iff_of_true rfl hshort
  · have hcut := runeBoundary_le text maxFieldBytes
    refine iff_of_false (fun heq ↦ ?_) hshort
    have hlength := congrArg List.length heq
    rw [List.length_take] at hlength
    omega

section

variable {level : Bytes} {levelEnum : UInt8} (hlevel : levelToEnum level = some levelEnum)

include hlevel

/-- The only known level that is stored as another one is `warning`. -/
theorem levelOfEnum_levelToEnum : levelOfEnum levelEnum = level ↔ level ≠ ascii "warning" := by
  unfold levelToEnum at hlevel
  split_ifs at hlevel with htrace hdebug hinfo hwarn hwarning herror hfatal
  all_goals
    cases hlevel
    subst_vars
    decide

theorem length_le_of_levelToEnum : level.length ≤ maxFieldBytes := by
  unfold levelToEnum at hlevel
  split_ifs at hlevel with htrace hdebug hinfo hwarn hwarning herror hfatal
  all_goals
    subst_vars
    decide

end

theorem persistedStr_level_eq_iff (entry : Entry) : persistedStr entry .level = entry.str .level ↔
      (entry.str .level).length ≤ maxFieldBytes ∧ entry.str .level ≠ ascii "warning" := by
  rw [persistedStr]
  cases hlevel : levelToEnum (entry.str .level) with
  | some levelEnum =>
    rw [levelOfEnum_levelToEnum hlevel]
    exact (and_iff_right (length_le_of_levelToEnum hlevel)).symm
  | none =>
    rw [truncateField_eq_self_iff]
    refine (and_iff_left fun hwarning ↦ ?_).symm
    rw [hwarning] at hlevel
    exact absurd hlevel (by decide)

theorem persistedStr_eq_iff (entry : Entry) : persistedStr entry = entry.str ↔
      (∀ field, (entry.str field).length ≤ maxFieldBytes) ∧ entry.str .level ≠ ascii "warning" := by
  have hother : ∀ field, field ≠ .level →
      (persistedStr entry field = entry.str field ↔ (entry.str field).length ≤ maxFieldBytes) := by
    intro field hfield
    rw [← truncateField_eq_self_iff]
    cases field <;> first | exact absurd rfl hfield | exact Iff.rfl
  have hlevel := persistedStr_level_eq_iff entry
  rw [funext_iff]
  constructor
  · intro hsame
    refine ⟨fun field ↦ ?_, (hlevel.mp (hsame .level)).2⟩
    by_cases hfield : field = .level
    · exact hfield ▸ (hlevel.mp (hsame .level)).1
    · exact (hother field hfield).mp (hsame field)
  · rintro ⟨hlength, hwarning⟩ field
    by_cases hfield : field = .level
    · subst hfield
      exact hlevel.mpr ⟨hlength .level, hwarning⟩
    · exact (hother field hfield).mpr (hlength field)

/-- A positive status survives the `uint16` of its record if it fits. -/
theorem status_eq_iff {status : Int64} (hpositive : 0 < status) :
    Int64.ofNat (status.toUInt64.toNat % 2 ^ 16) = status ↔ status < 65536 := by
  rw [Int64.lt_iff_toInt_lt] at hpositive ⊢
  have hword : status.toUInt64.toNat = status.toBitVec.toNat := rfl
  have hvalue : status.toInt = status.toUInt64.toNat := by
    have hcond := BitVec.toInt_eq_toNat_cond status.toBitVec
    have hzero : (0 : Int64).toInt = 0 := rfl
    rw [Int64.toInt_toBitVec] at hcond
    split_ifs at hcond <;> omega
  have hlimit : (65536 : Int64).toInt = 65536 := rfl
  rw [← Int64.toInt_inj, Int64.toInt_ofNat_of_lt (by omega)]
  omega

theorem persistedInt_eq_iff (entry : Entry) :
    persistedInt entry = entry.int ↔ (∀ field, 0 ≤ entry.int field) ∧ entry.int .status < 65536 := by
  have hfield : ∀ field, persistedInt entry field = entry.int field ↔
      0 ≤ entry.int field ∧ (field = .status → entry.int field < 65536) := by
    intro field
    unfold persistedInt
    split_ifs with hpositive hstatus
    · rw [status_eq_iff hpositive]
      exact ⟨fun hsmall ↦ ⟨Int64.le_of_lt hpositive, fun _ ↦ hsmall⟩, fun hboth ↦ hboth.2 hstatus⟩
    · exact iff_of_true rfl ⟨Int64.le_of_lt hpositive, fun heq ↦ absurd heq hstatus⟩
    · rw [Int64.not_lt] at hpositive
      constructor
      · intro hzero
        rw [← hzero]
        exact ⟨Int64.le_refl 0, fun _ ↦ by decide⟩
      · rintro ⟨hnonneg, -⟩
        exact Int64.le_antisymm hnonneg hpositive
  rw [funext_iff]
  simp only [hfield]
  exact ⟨fun hall ↦ ⟨fun field ↦ (hall field).1, (hall .status).2 rfl⟩,
    fun hboth field ↦ ⟨hboth.1 field, fun heq ↦ heq ▸ hboth.2⟩⟩

/-- The record decodes to the entry, apart from the body, exactly for plain entries. -/
theorem projectTail_persisted_iff (codec : Codec) (entry : Entry) :
    projectTail entry = projectTail (codec.persisted entry) ↔ Plain entry := by
  have hstr := persistedStr_eq_iff entry
  have hint := persistedInt_eq_iff entry
  constructor
  · intro hsame
    obtain ⟨hlength, hlevel⟩ := hstr.mp (congrArg Entry.str hsame).symm
    obtain ⟨hnonneg, hstatus⟩ := hint.mp (congrArg Entry.int hsame).symm
    exact ⟨hlength, hlevel, hnonneg, hstatus⟩
  · intro hplain
    simp only [projectTail, Codec.persisted, hstr.mpr ⟨hplain.str, hplain.level⟩,
      hint.mpr ⟨hplain.int, hplain.status⟩]

/-- A record that decodes is the persisted entry, apart from the body. -/
theorem projectTail_of_unmarshal {codec : Codec} {entry stored : Entry}
    (hstored : unmarshalEntry codec.zstd (codec.payload entry) = .ok stored) :
    projectTail stored = projectTail (codec.persisted entry) := by
  rw [unmarshalEntry_payload_eq] at hstored
  cases hbody : decodeBody codec.zstd (codec.flags entry) (encodeBody (codec.storedBody entry)) with
  | error error => rw [hbody] at hstored; cases hstored
  | ok decoded =>
    rw [hbody] at hstored
    dsimp only at hstored
    split_ifs at hstored
    cases hstored
    rfl

/-- Which entries the tail shows as they were stored: those whose record decodes and that are outsized,
or that the record does not change. -/
theorem shows_stored_iff (codec : Codec) (entry : Entry) :
    ShowsStored codec (normalizeForRing codec entry) entry ↔
      (∃ stored, unmarshalEntry codec.zstd (codec.payload entry) = .ok stored) ∧
        (Outsized codec entry ∨ Plain entry) := by
  have hpayload : (codec.marshalEntry entry).drop 4 = codec.payload entry := by
    rw [Codec.marshalEntry, drop_leBytes_append]
  constructor
  · rintro ⟨stored, hstored, hshown⟩
    refine ⟨⟨stored, hstored⟩, ?_⟩
    by_cases hsmall : (codec.marshalEntry entry).length < maxFieldBytes ∧ entry.body.length < maxFieldBytes
    · rw [normalizeForRing, if_pos hsmall, projectTail_of_unmarshal hstored] at hshown
      exact .inr ((projectTail_persisted_iff codec entry).mp hshown)
    · unfold Outsized
      exact .inl (by omega)
  · rintro ⟨⟨stored, hstored⟩, hcase⟩
    refine ⟨stored, hstored, ?_⟩
    rw [normalizeForRing, hpayload, hstored]
    split_ifs with hsmall
    · have hplain : Plain entry := hcase.resolve_left (by unfold Outsized; omega)
      rw [projectTail_of_unmarshal hstored, projectTail_persisted_iff]
      exact hplain
    · rfl

theorem forall₂_map_left_iff {α : Type} {shows : α → α → Prop} (change : α → α) (entries : List α) :
    List.Forall₂ shows (entries.map change) entries ↔ ∀ entry ∈ entries, shows (change entry) entry := by
  induction entries with
  | nil => simp
  | cons entry entries ih => simp [ih]

/-- A successful `Append` writes the records of the stamped entries behind the file and pushes the
entries that it returns to the ring. They are the stored ones, apart from the bodies, exactly if every
record decodes and every entry is outsized or plain. -/
theorem append_shows_stored_iff (codec : Codec) (writer : WALWriter) (entries : List Entry)
    (receivedAt : Int64) (faults : Faults) {after : WALWriter} {returned : List Entry}
    (happend : writer.append codec entries receivedAt faults = (after, .ok returned)) :
    let stamped := stamp writer.segmentHour writer.entryCount receivedAt entries
    after.file = writer.file ++ codec.marshalBatch stamped ∧
      (entries ≠ [] → after.ring = writer.ring.push returned) ∧
      (List.Forall₂ (ShowsStored codec) returned stamped ↔ ∀ entry ∈ stamped,
          (∃ stored, unmarshalEntry codec.zstd (codec.payload entry) = .ok stored) ∧
            (Outsized codec entry ∨ Plain entry)) := by
  intro stamped
  have happended := appended_append codec writer entries receivedAt faults
  rw [happend] at happended
  cases happended with
  | empty hempty =>
    have hnone : entries = [] := by
      have hlength : stamped.length = entries.length := length_stamp _ _ _ _
      exact List.length_eq_zero_iff.mp (hlength.symm.trans (congrArg List.length hempty))
    simp [stamped, hempty, hnone]
  | synced offsets hwritten hsize =>
    refine ⟨rfl, fun _ ↦ rfl, ?_⟩
    rw [forall₂_map_left_iff]
    exact forall₂_congr fun entry _ ↦ shows_stored_iff codec entry

/-- A writer on an empty file. -/
def emptyWriter : WALWriter := openWAL Zstd.stored 490000 [] newRingBuffer

/-- An entry of this level. -/
def levelEntry (level : String) : Entry := Entry.zero.setStr .level (ascii level)

theorem append_shows_stored_iff_witness : let codec : Codec := ⟨Zstd.stored, false⟩
    let stamped := stamp 490000 0 1 [levelEntry "error"]
    (emptyWriter.append codec [levelEntry "error"] 1 ⟨none, true, true⟩).2 = .ok stamped ∧
      List.Forall₂ (ShowsStored codec) stamped stamped := by
  intro codec stamped
  have hreturned : (emptyWriter.append codec [levelEntry "error"] 1 ⟨none, true, true⟩).2 =
      .ok stamped := by decide +kernel
  have happend : emptyWriter.append codec [levelEntry "error"] 1 ⟨none, true, true⟩ =
      ((emptyWriter.append codec [levelEntry "error"] 1 ⟨none, true, true⟩).1, .ok stamped) := by
    rw [← hreturned]
  have hfields : ∀ entry ∈ stamped,
      (unmarshalEntry codec.zstd (codec.payload entry)).toOption.isSome ∧
        (∀ field ∈ StrField.all, (entry.str field).length ≤ maxFieldBytes) ∧
        entry.str .level ≠ ascii "warning" ∧ (∀ field ∈ IntField.all, 0 ≤ entry.int field) ∧
        entry.int .status < 65536 := by decide +kernel
  refine ⟨hreturned, (append_shows_stored_iff codec emptyWriter [levelEntry "error"] 1
    ⟨none, true, true⟩ happend).2.2.mpr fun entry hentry ↦ ?_⟩
  obtain ⟨hdecodes, hstr, hlevel, hint, hstatus⟩ := hfields entry hentry
  refine ⟨?_, .inr ⟨fun field ↦ hstr field field.mem_all, hlevel,
    fun field ↦ hint field field.mem_all, hstatus⟩⟩
  cases hdecoded : unmarshalEntry codec.zstd (codec.payload entry) with
  | ok stored => exact ⟨stored, rfl⟩
  | error error => simp [hdecoded, Except.toOption] at hdecodes

/-- The entry of level `warning` is returned as it is, and its record holds `warn`. -/
theorem warning_shown_as_received : let codec : Codec := ⟨Zstd.stored, false⟩
    let stamped := stamp 490000 0 1 [levelEntry "warning"]
    (emptyWriter.append codec [levelEntry "warning"] 1 ⟨none, true, true⟩).2 = .ok stamped ∧
      stamped.map (·.str .level) = [ascii "warning"] ∧
      (stamped.map fun entry ↦ (unmarshalEntry codec.zstd (codec.payload entry)).toOption.map
        (·.str .level)) = [some (ascii "warn")] := by
  decide +kernel

end OpenTrace.Engine
