import OpenTrace.Wal.Binary

/-!
# Scanning a WAL

`wal/scanner.go` and the replay loop of the writer (`scanWAL` in `engine/writer.go`): records are
read from the start of a file until the end or the first malformed one. The two loops differ only in
the record lengths they admit, which `scanStep` takes as a parameter.

`parses_marshalBatch` says that a file of whole records parses to their persisted entries, and
`scan_take_marshalBatch` that a file cut at an arbitrary byte parses to the entries whose records lie
before the cut, for both loops.
-/

namespace OpenTrace.Wal

open Library Encoding Chunk List

/-- Why scanning stopped before the end of the file. -/
inductive ScanError
  | readEntryLength
  | invalidEntryLength (length : ℕ)
  | readEntryData
  | unmarshalEntry (cause : RecordError)
  deriving DecidableEq, Repr

/-- The outcome of reading one record. -/
inductive ScanStep
  | endOfFile
  | failed (error : ScanError)
  | record (entry : Entry) (rest : Bytes)

/-- Which record lengths a loop admits, given the length and the number of bytes left after it. -/
abbrev LengthCheck := ℕ → ℕ → Bool

/-- The lengths `Scanner.Next` admits. -/
def scannerLength : LengthCheck := fun length _ ↦ minRecordBytes ≤ length && length ≤ maxRecordBytes

/-- The lengths `scanWAL` admits: no record extends past the end of the file. -/
def replayLength : LengthCheck := fun length left ↦ 0 < length && length ≤ left

def scanStep (zstd : Zstd) (admits : LengthCheck) (input : Bytes) : ScanStep :=
  match takeLe 4 input with
  | none => if input = [] then .endOfFile else .failed .readEntryLength
  | some (length, rest) =>
    if !admits length rest.length then .failed (.invalidEntryLength length)
    else if rest.length < length then .failed .readEntryData
    else
      match unmarshalEntry zstd (rest.take length) with
      | .error cause => .failed (.unmarshalEntry cause)
      | .ok entry => .record entry (rest.drop length)

/-- What a scan found: the entries, the bytes of the records they came from, and why it stopped
early, if it did. -/
structure Scan where
  entries : List Entry
  consumed : ℕ
  error : Option ScanError
  deriving DecidableEq

def Scan.push (entry : Entry) (bytes : ℕ) (scan : Scan) : Scan :=
  { scan with entries := entry :: scan.entries, consumed := bytes + scan.consumed }

/-- The scanning loop, for at most `fuel` records. -/
def scanLoop (zstd : Zstd) (admits : LengthCheck) : ℕ → Bytes → Scan
  | 0, _ => ⟨[], 0, none⟩
  | fuel + 1, input =>
    match scanStep zstd admits input with
    | .endOfFile => ⟨[], 0, none⟩
    | .failed error => ⟨[], 0, some error⟩
    | .record entry rest =>
      (scanLoop zstd admits fuel rest).push entry (input.length - rest.length)

/-- A file holds at most one record for each of its bytes. -/
def scan (zstd : Zstd) (admits : LengthCheck) (input : Bytes) : Scan :=
  scanLoop zstd admits input.length input

/-- `ReadEntriesFrom`. -/
def readEntriesFrom (zstd : Zstd) (input : Bytes) : Scan := scan zstd scannerLength input

/-- `scanWAL`; the count it returns is the number of entries. -/
def scanWAL (zstd : Zstd) (input : Bytes) : Scan := scan zstd replayLength input

/-! ### The loop does not depend on its fuel -/

section Loop

variable {zstd : Zstd} {admits : LengthCheck}

variable {entry : Entry} {input : Bytes} {entries : List Entry}

/-- When a step reads a record. -/
theorem scanStep_eq_record {input rest : Bytes} : scanStep zstd admits input = .record entry rest ↔
      ∃ length tail, takeLe 4 input = some (length, tail) ∧ admits length tail.length ∧
        length ≤ tail.length ∧ unmarshalEntry zstd (tail.take length) = .ok entry ∧
        rest = tail.drop length := by
  constructor
  · intro hstep
    unfold scanStep at hstep
    cases hlength : takeLe 4 input with
    | none =>
      simp only [hlength] at hstep
      split_ifs at hstep
    | some pair =>
      obtain ⟨length, tail⟩ := pair
      simp only [hlength] at hstep
      split_ifs at hstep with hrefused hshort
      refine ⟨length, tail, rfl, by simpa using hrefused, not_lt.mp hshort, ?_⟩
      split at hstep
      · cases hstep
      · next decoded hdecoded =>
        cases hstep
        exact ⟨hdecoded, rfl⟩
  · rintro ⟨length, tail, hlength, hadmits, hleft, hentry, rfl⟩
    simp [scanStep, hlength, hadmits, not_lt.mpr hleft, hentry]

theorem scanStep_eq_endOfFile (hstep : scanStep zstd admits input = .endOfFile) : input = [] := by
  unfold scanStep at hstep
  cases hlength : takeLe 4 input with
  | none =>
    simp only [hlength] at hstep
    split_ifs at hstep with hnil
    exact hnil
  | some pair =>
    simp only [hlength] at hstep
    split_ifs at hstep
    split at hstep <;> cases hstep

theorem length_rest_lt {input rest : Bytes}
    (hstep : scanStep zstd admits input = .record entry rest) : rest.length < input.length := by
  obtain ⟨length, tail, hlength, -, -, -, rfl⟩ := scanStep_eq_record.mp hstep
  obtain ⟨hwidth, -, rfl⟩ := takeLe_eq_some.mp hlength
  rw [length_drop, length_drop]
  omega

theorem scanLoop_nil (fuel : ℕ) : scanLoop zstd admits fuel [] = ⟨[], 0, none⟩ := by
  cases fuel <;> rfl

theorem scanLoop_eq_scanLoop {fuel fuel' : ℕ} (hfuel : input.length ≤ fuel)
    (hfuel' : input.length ≤ fuel') :
    scanLoop zstd admits fuel input = scanLoop zstd admits fuel' input := by
  induction fuel generalizing input fuel' with
  | zero =>
    have hnil : input = [] := eq_nil_of_length_eq_zero (Nat.le_zero.mp hfuel)
    rw [hnil, scanLoop_nil, scanLoop_nil]
  | succ fuel ih =>
    cases fuel' with
    | zero =>
      have hnil : input = [] := eq_nil_of_length_eq_zero (Nat.le_zero.mp hfuel')
      rw [hnil, scanLoop_nil, scanLoop_nil]
    | succ fuel' =>
      rw [scanLoop, scanLoop]
      cases hstep : scanStep zstd admits input with
      | endOfFile => rfl
      | failed error => rfl
      | record entry rest =>
        have hshorter := length_rest_lt hstep
        simp only [ih (show rest.length ≤ fuel by omega) (show rest.length ≤ fuel' by omega)]

/-- One round of the scanning loop. -/
theorem scan_eq (input : Bytes) : scan zstd admits input = match scanStep zstd admits input with
      | .endOfFile => ⟨[], 0, none⟩
      | .failed error => ⟨[], 0, some error⟩
      | .record entry rest => (scan zstd admits rest).push entry (input.length - rest.length) := by
  unfold scan
  rw [scanLoop_eq_scanLoop le_rfl (Nat.le_succ input.length), scanLoop]
  cases hstep : scanStep zstd admits input with
  | endOfFile => rfl
  | failed error => rfl
  | record entry rest =>
    have hshorter := length_rest_lt hstep
    simp only [scanLoop_eq_scanLoop hshorter.le (le_refl rest.length)]

/-- The loop reads a file to its end: every byte belongs to a record it decoded. -/
def Parses (zstd : Zstd) (admits : LengthCheck) (input : Bytes) (entries : List Entry) : Prop :=
  scan zstd admits input = ⟨entries, input.length, none⟩

theorem parses_nil : Parses zstd admits [] [] := rfl

/-- A length check that looks no further than the record: it admits a length whatever follows. -/
def LengthCheck.Local (admits : LengthCheck) : Prop :=
  ∀ length left left' : ℕ, admits length left → length ≤ left' → admits length left'

theorem scannerLength_local : LengthCheck.Local scannerLength := fun _ _ _ hadmits _ ↦ hadmits

theorem replayLength_local : LengthCheck.Local replayLength := by
  intro length left left' hadmits hfits
  simp only [replayLength, Bool.and_eq_true, decide_eq_true_eq] at hadmits ⊢
  exact ⟨hadmits.1, hfits⟩

/-- A record is decoded from its own bytes, whatever follows them. -/
theorem scanStep_eq_record_append (hlocal : admits.Local) {input rest : Bytes}
    (hstep : scanStep zstd admits input = .record entry rest) :
    ∃ record : Bytes, input = record ++ rest ∧
      ∀ other : Bytes, scanStep zstd admits (record ++ other) = .record entry other := by
  obtain ⟨length, tail, hlength, hadmits, hleft, hentry, rfl⟩ := scanStep_eq_record.mp hstep
  obtain ⟨hwidth, hvalue, rfl⟩ := takeLe_eq_some.mp hlength
  have hdata : ((input.drop 4).take length).length = length := by
    rw [length_take]
    omega
  refine ⟨input.take 4 ++ (input.drop 4).take length, ?_, fun other ↦ ?_⟩
  · rw [append_assoc, take_append_drop, take_append_drop]
  · have hhead : (input.take 4).length = 4 := by
      rw [length_take]
      omega
    refine scanStep_eq_record.mpr ⟨length, (input.drop 4).take length ++ other, ?_, ?_, ?_, ?_, ?_⟩
    · rw [append_assoc]
      refine takeLe_eq_some.mpr ⟨?_, ?_, ?_⟩
      · rw [length_append]
        omega
      · rw [take_left' hhead, hvalue]
      · rw [drop_left' hhead]
    · refine hlocal _ _ _ hadmits ?_
      rw [length_append]
      omega
    · rw [length_append]
      omega
    · rw [take_left' hdata, hentry]
    · rw [drop_left' hdata]

/-- Induction over the records of a file that parses. -/
theorem Parses.rec_records {motive : Bytes → List Entry → Prop} (nil : motive [] [])
    (record : ∀ {input rest : Bytes} {entry : Entry} {entries : List Entry}, scanStep zstd admits input = .record entry rest → Parses zstd admits rest entries → motive rest entries → motive input (entry :: entries))
    (hparses : Parses zstd admits input entries) :
    motive input entries := by
  induction hsize : input.length using Nat.strong_induction_on generalizing input entries with
  | h size ih =>
    unfold Parses at hparses
    rw [scan_eq] at hparses
    cases hstep : scanStep zstd admits input with
    | endOfFile =>
      simp only [hstep, Scan.mk.injEq, and_true] at hparses
      rw [← hparses.1, eq_nil_of_length_eq_zero hparses.2.symm]
      exact nil
    | failed error => simp [hstep] at hparses
    | record entry rest =>
      have hshorter := length_rest_lt hstep
      simp only [hstep, Scan.push, Scan.mk.injEq] at hparses
      obtain ⟨rfl, hconsumed, herror⟩ := hparses
      have hrest : Parses zstd admits rest (scan zstd admits rest).entries := by
        have hend : (scan zstd admits rest).consumed = rest.length := by omega
        unfold Parses
        rw [← hend, ← herror]
      exact record hstep hrest (ih rest.length (hsize ▸ hshorter) hrest rfl)

theorem Parses.cons {input rest : Bytes} {entry : Entry} {entries : List Entry}
    (hstep : scanStep zstd admits input = .record entry rest)
    (hrest : Parses zstd admits rest entries) : Parses zstd admits input (entry :: entries) := by
  have hshorter := length_rest_lt hstep
  unfold Parses at hrest ⊢
  rw [scan_eq, hstep]
  simp only [hrest, Scan.push, Scan.mk.injEq, true_and, and_true]
  omega

/-- Records that were parsed to the end parse the same in front of whatever is appended. -/
theorem Parses.scan_append (hlocal : admits.Local) (hparses : Parses zstd admits input entries)
    (more : Bytes) :
    scan zstd admits (input ++ more) = ⟨entries ++ (scan zstd admits more).entries,
        input.length + (scan zstd admits more).consumed, (scan zstd admits more).error⟩ := by
  refine hparses.rec_records (motive := fun input entries ↦ scan zstd admits (input ++ more) =
    ⟨entries ++ (scan zstd admits more).entries,
      input.length + (scan zstd admits more).consumed, (scan zstd admits more).error⟩) ?_ ?_
  · simp
  · intro input rest entry entries hstep _ ih
    obtain ⟨record, rfl, hrecord⟩ := scanStep_eq_record_append hlocal hstep
    rw [append_assoc, scan_eq, hrecord]
    simp only [ih, Scan.push, cons_append, length_append, Scan.mk.injEq, true_and, and_true]
    omega

theorem Parses.append (hlocal : admits.Local) {input more : Bytes}
    {entries added : List Entry} (hparses : Parses zstd admits input entries)
    (hmore : Parses zstd admits more added) :
    Parses zstd admits (input ++ more) (entries ++ added) := by
  unfold Parses at hmore ⊢
  rw [hparses.scan_append hlocal, hmore, length_append]

/-- The bytes a scan consumed parse, on their own, to the entries it found. -/
theorem parses_take_consumed (hlocal : admits.Local) (input : Bytes) :
    Parses zstd admits (input.take (scan zstd admits input).consumed)
      (scan zstd admits input).entries := by
  induction hsize : input.length using Nat.strong_induction_on generalizing input with
  | h size ih =>
    rw [scan_eq]
    cases hstep : scanStep zstd admits input with
    | endOfFile => simpa using parses_nil
    | failed error => simpa using parses_nil
    | record entry rest =>
      have hrest := ih rest.length (hsize ▸ length_rest_lt hstep) rest rfl
      obtain ⟨record, rfl, hrecord⟩ := scanStep_eq_record_append hlocal hstep
      simp only [Scan.push, length_append, Nat.add_sub_cancel, take_length_add_append]
      exact hrest.cons (hrecord _)

theorem consumed_le_length (input : Bytes) : (scan zstd admits input).consumed ≤ input.length := by
  induction hsize : input.length using Nat.strong_induction_on generalizing input with
  | h size ih =>
    rw [scan_eq]
    cases hstep : scanStep zstd admits input with
    | endOfFile => exact Nat.zero_le _
    | failed error => exact Nat.zero_le _
    | record entry rest =>
      have hshorter := length_rest_lt hstep
      have hrest := ih rest.length (hsize ▸ hshorter) rest rfl
      simp only [Scan.push]
      omega

/-- A scan that reports no error reached the end of the file. -/
theorem consumed_eq_length (input : Bytes) (hclean : (scan zstd admits input).error = none) :
    (scan zstd admits input).consumed = input.length := by
  induction hsize : input.length using Nat.strong_induction_on generalizing input with
  | h size ih =>
    rw [scan_eq] at hclean ⊢
    cases hstep : scanStep zstd admits input with
    | endOfFile =>
      have hnil := scanStep_eq_endOfFile hstep
      simp [← hsize, hnil]
    | failed error => simp [hstep] at hclean
    | record entry rest =>
      have hshorter := length_rest_lt hstep
      simp only [hstep, Scan.push] at hclean ⊢
      have hrest := ih rest.length (hsize ▸ hshorter) rest hclean rfl
      omega

/-- Replay counts exactly the records that the scanner parses to the end. -/
theorem Parses.replay (hparses : Parses zstd scannerLength input entries) :
    Parses zstd replayLength input entries := by
  refine hparses.rec_records parses_nil ?_
  intro input rest entry entries hstep _ ih
  obtain ⟨length, tail, hlength, hadmits, hleft, hentry, rfl⟩ := scanStep_eq_record.mp hstep
  simp only [scannerLength, Bool.and_eq_true, decide_eq_true_eq] at hadmits
  have hpositive : 0 < length := lt_of_lt_of_le (by decide) hadmits.1
  refine ih.cons (scanStep_eq_record.mpr ⟨length, tail, hlength, ?_, hleft, hentry, rfl⟩)
  simp [replayLength, hpositive, hleft]

end Loop

/-! ### Whole records -/

variable (codec : Codec)

/-- The bytes of a batch, serialized into one buffer. -/
def Codec.marshalBatch (entries : List Entry) : Bytes := entries.foldl codec.appendEntry []

private theorem foldl_appendEntry (buffer : Bytes) (entries : List Entry) :
    entries.foldl codec.appendEntry buffer = buffer ++ codec.marshalBatch entries := by
  unfold Codec.marshalBatch
  induction entries generalizing buffer with
  | nil => simp
  | cons entry entries ih =>
    rw [foldl_cons, foldl_cons, ih, ih (codec.appendEntry [] entry)]
    simp [Codec.appendEntry]

@[simp] theorem marshalBatch_nil : codec.marshalBatch [] = [] := rfl

@[simp] theorem marshalBatch_cons (entry : Entry) (entries : List Entry) :
    codec.marshalBatch (entry :: entries) =
      codec.marshalEntry entry ++ codec.marshalBatch entries := by
  rw [Codec.marshalBatch, foldl_cons, foldl_appendEntry]
  rfl

@[simp] theorem marshalBatch_append (entries more : List Entry) :
    codec.marshalBatch (entries ++ more) =
      codec.marshalBatch entries ++ codec.marshalBatch more := by
  rw [Codec.marshalBatch, foldl_append, foldl_appendEntry]
  rfl

/-- A length check the writer's records pass, and that looks no further than the record. -/
structure LengthCheck.Admits (admits : LengthCheck) : Prop where
  whole : ∀ length left : ℕ, minRecordBytes ≤ length → length ≤ maxRecordBytes → length ≤ left →
    admits length left

theorem scannerLength_admits : LengthCheck.Admits scannerLength where
  whole := fun length _ hmin hmax _ ↦ by simp [scannerLength, hmin, hmax]

theorem replayLength_admits : LengthCheck.Admits replayLength where
  whole := fun length left hmin _ hleft ↦ by
    have hpositive : 0 < length := lt_of_lt_of_le (by decide) hmin
    simp [replayLength, hpositive, hleft]

section Records

variable {codec} {admits : LengthCheck}

/-- An entry whose body the compressed record can hold. -/
def Storable (entry : Entry) : Prop := entry.body.length ≤ maxBlockBytes

instance (entry : Entry) : Decidable (Storable entry) := inferInstanceAs (Decidable (_ ≤ _))

variable {entry : Entry} (rest : Bytes) {entries : List Entry}

theorem Storable.readable (hstorable : Storable entry) : codec.Readable entry := fun _ _ ↦ hstorable

theorem takeLe_marshalEntry_append (entry : Entry) (rest : Bytes) :
    takeLe 4 (codec.marshalEntry entry ++ rest) =
      some ((codec.payload entry).length, codec.payload entry ++ rest) := by
  have hfits : (codec.payload entry).length < 256 ^ 4 :=
    (length_payload_bounds codec entry).2.trans_lt (by unfold maxRecordBytes; omega)
  rw [Codec.marshalEntry, append_assoc, takeLe_leBytes_append hfits]

section

variable (hzstd : codec.zstd.Faithful) (hadmits : admits.Admits)

include hzstd hadmits

theorem scanStep_marshalEntry {entry : Entry} (hreadable : codec.Readable entry) (rest : Bytes) :
    scanStep codec.zstd admits (codec.marshalEntry entry ++ rest) =
      .record (codec.persisted entry) rest := by
  obtain ⟨hmin, hmax⟩ := length_payload_bounds codec entry
  have hleft : (codec.payload entry).length ≤ (codec.payload entry ++ rest).length := by simp
  rw [scanStep, takeLe_marshalEntry_append]
  simp only [hadmits.whole _ _ hmin hmax hleft, not_lt.mpr hleft, Bool.not_true, Bool.false_eq_true,
    if_false, take_left, drop_left, unmarshalEntry_payload codec hzstd hreadable]

theorem scan_marshalEntry_append {entry : Entry} (hreadable : codec.Readable entry) (rest : Bytes) :
    scan codec.zstd admits (codec.marshalEntry entry ++ rest) =
      (scan codec.zstd admits rest).push (codec.persisted entry)
        (codec.marshalEntry entry).length := by
  rw [scan_eq, scanStep_marshalEntry hzstd hadmits hreadable]
  simp only [length_append, Nat.add_sub_cancel]

/-- A file of whole records parses to their persisted entries. Assumes: a faithful compression and
readable entries. -/
theorem parses_marshalBatch (hreadable : ∀ entry ∈ entries, codec.Readable entry) :
    Parses codec.zstd admits (codec.marshalBatch entries) (entries.map codec.persisted) := by
  induction entries with
  | nil => exact parses_nil
  | cons entry entries ih =>
    have htail := ih fun other hother ↦ hreadable other (mem_cons_of_mem _ hother)
    unfold Parses at htail ⊢
    rw [marshalBatch_cons, scan_marshalEntry_append hzstd hadmits
      (hreadable entry mem_cons_self), htail]
    simp [Scan.push]

end

/-! ### Torn records -/

/-- A record that is cut short is not parsed. -/
theorem scan_take_marshalEntry {entry : Entry} {cut : ℕ}
    (hcut : cut < (codec.marshalEntry entry).length) :
    (scan codec.zstd admits ((codec.marshalEntry entry).take cut)).entries = [] ∧
      (scan codec.zstd admits ((codec.marshalEntry entry).take cut)).consumed = 0 ∧
      ((scan codec.zstd admits ((codec.marshalEntry entry).take cut)).error = none ↔ cut = 0) := by
  rw [length_marshalEntry] at hcut
  rw [scan_eq, scanStep]
  by_cases hshort : cut < 4
  · have hlength : ((codec.marshalEntry entry).take cut).length = cut := by
      rw [length_take, length_marshalEntry]
      omega
    have hnone : takeLe 4 ((codec.marshalEntry entry).take cut) = none := by
      rw [takeLe, if_pos (hlength.symm ▸ hshort)]
    simp only [hnone]
    split_ifs with hnil
    · rw [hnil] at hlength
      exact ⟨rfl, rfl, by simp [← hlength]⟩
    · have hsome : cut ≠ 0 := fun hzero ↦ hnil (by rw [hzero, take_zero])
      exact ⟨rfl, rfl, by simp [hsome]⟩
  · have hfits : (codec.payload entry).length < 256 ^ 4 :=
      (length_payload_bounds codec entry).2.trans_lt (by unfold maxRecordBytes; omega)
    have hsplit : (codec.marshalEntry entry).take cut =
        leBytes 4 (codec.payload entry).length ++ (codec.payload entry).take (cut - 4) := by
      rw [Codec.marshalEntry, take_append, take_of_length_le]
      rw [length_leBytes]
      exact not_lt.mp hshort
    have hleft : ((codec.payload entry).take (cut - 4)).length < (codec.payload entry).length := by
      rw [length_take]
      omega
    have hsome : cut ≠ 0 := by omega
    simp only [hsplit, takeLe_leBytes_append hfits]
    split_ifs <;> exact ⟨rfl, rfl, by simp [hsome]⟩

/-- How many of the records of a file end at or before an offset. -/
def Codec.wholeRecords (codec : Codec) : ℕ → List Entry → ℕ
  | _, [] => 0
  | cut, entry :: entries =>
    if (codec.marshalEntry entry).length ≤ cut then
      codec.wholeRecords (cut - (codec.marshalEntry entry).length) entries + 1
    else 0

/-- A file cut at any byte parses to the entries whose records lie before the cut, the scan consumes
exactly these records, and it fails if anything is left behind them. Assumes: a faithful compression
and readable entries. -/
theorem scan_take_marshalBatch (hzstd : codec.zstd.Faithful) (hadmits : admits.Admits)
    (hreadable : ∀ entry ∈ entries, codec.Readable entry) (cut : ℕ) :
    (scan codec.zstd admits ((codec.marshalBatch entries).take cut)).entries =
        (entries.take (codec.wholeRecords cut entries)).map codec.persisted ∧
      (scan codec.zstd admits ((codec.marshalBatch entries).take cut)).consumed =
        (codec.marshalBatch (entries.take (codec.wholeRecords cut entries))).length ∧
      ((scan codec.zstd admits ((codec.marshalBatch entries).take cut)).error = none ↔
        min cut (codec.marshalBatch entries).length =
          (codec.marshalBatch (entries.take (codec.wholeRecords cut entries))).length) := by
  induction entries generalizing cut with
  | nil => simp [scan, scanLoop]
  | cons entry entries ih =>
    by_cases hwhole : (codec.marshalEntry entry).length ≤ cut
    · have hsplit : (codec.marshalBatch (entry :: entries)).take cut = codec.marshalEntry entry ++
          (codec.marshalBatch entries).take (cut - (codec.marshalEntry entry).length) := by
        rw [marshalBatch_cons, take_append, take_of_length_le hwhole]
      obtain ⟨hentries, hconsumed, herror⟩ :=
        ih (fun other hother ↦ hreadable other (mem_cons_of_mem _ hother))
          (cut - (codec.marshalEntry entry).length)
      rw [hsplit, scan_marshalEntry_append hzstd hadmits (hreadable entry mem_cons_self)]
      simp only [Codec.wholeRecords, if_pos hwhole, Scan.push, hentries, herror, take_succ_cons,
        map_cons, marshalBatch_cons, length_append, true_and]
      omega
    · have hsplit : (codec.marshalBatch (entry :: entries)).take cut =
          (codec.marshalEntry entry).take cut := by
        rw [marshalBatch_cons]
        exact take_append_of_le_length (not_le.mp hwhole).le
      obtain ⟨hentries, hconsumed, herror⟩ := scan_take_marshalEntry (not_le.mp hwhole)
      rw [hsplit, hentries, herror]
      simp only [Codec.wholeRecords, if_neg hwhole, take_zero, map_nil, marshalBatch_nil,
        length_nil, marshalBatch_cons, length_append, true_and]
      omega

/-- Where the records of a list of entries end. -/
theorem marshalBatch_take_wholeRecords {cut : ℕ}
    (hcut : cut ≤ (codec.marshalBatch entries).length) :
    cut = (codec.marshalBatch (entries.take (codec.wholeRecords cut entries))).length ↔
      ∃ count, cut = (codec.marshalBatch (entries.take count)).length := by
  refine ⟨fun hend ↦ ⟨_, hend⟩, ?_⟩
  rintro ⟨count, hend⟩
  induction entries generalizing cut count with
  | nil => simpa using hend
  | cons entry entries ih =>
    cases count with
    | zero =>
      have hzero : cut = 0 := by simpa using hend
      subst hzero
      rfl
    | succ count =>
      rw [take_succ_cons, marshalBatch_cons, length_append] at hend
      rw [marshalBatch_cons, length_append] at hcut
      have hwhole : (codec.marshalEntry entry).length ≤ cut := by omega
      have hrest := @ih (cut - (codec.marshalEntry entry).length) (by omega) count (by omega)
      rw [Codec.wholeRecords, if_pos hwhole, take_succ_cons, marshalBatch_cons, length_append]
      omega

/-- A WAL that is cut at any byte gives back the entries whose records lie before the cut and the end
of the last of them, and an error exactly if the cut is inside a record. Assumes: a faithful
compression and readable entries. -/
theorem readEntriesFrom_take_marshalBatch (hzstd : codec.zstd.Faithful) {entries : List Entry}
    (hreadable : ∀ entry ∈ entries, codec.Readable entry) {cut : ℕ}
    (hcut : cut ≤ (codec.marshalBatch entries).length) :
    let whole := entries.take (codec.wholeRecords cut entries)
    let result := readEntriesFrom codec.zstd ((codec.marshalBatch entries).take cut)
    result.entries = whole.map codec.persisted ∧
      result.consumed = (codec.marshalBatch whole).length ∧
      (result.error = none ↔ ∃ count, cut = (codec.marshalBatch (entries.take count)).length) ∧
      ∀ entry ∈ entries, (codec.marshalEntry entry).length ≤ maxRecordBytes := by
  obtain ⟨hentries, hconsumed, herror⟩ :=
    scan_take_marshalBatch hzstd scannerLength_admits hreadable cut
  refine ⟨hentries, hconsumed, ?_, fun entry _ ↦ ?_⟩
  · rw [← marshalBatch_take_wholeRecords hcut]
    exact herror.trans (by rw [min_eq_left hcut])
  · exact length_marshalEntry_le codec entry

/-- Two records, cut inside the second one. -/
theorem readEntriesFrom_take_marshalBatch_witness : let codec : Codec := ⟨Zstd.stored, true⟩
    let entries := [{ Entry.zero with body := [1, 2] }, { Entry.zero with body := [0] }]
    let whole := entries.take (codec.wholeRecords 50 entries)
    let result := readEntriesFrom codec.zstd ((codec.marshalBatch entries).take 50)
    whole.length = 1 ∧ result.entries = whole.map codec.persisted ∧
      result.consumed = (codec.marshalBatch whole).length ∧
      (result.error = none ↔ ∃ count, 50 = (codec.marshalBatch (entries.take count)).length) ∧
      ∀ entry ∈ entries, (codec.marshalEntry entry).length ≤ maxRecordBytes :=
  ⟨by decide +kernel,
    readEntriesFrom_take_marshalBatch Zstd.stored_faithful (by decide +kernel) (by decide +kernel)⟩

/-- The codec of a WAL that compresses bodies, with runs of zeros as the compression. -/
def zeroRunCodec : Codec := ⟨Zstd.zeroRuns, true⟩

/-- An entry whose body is a number of zeros. -/
def zeroBodyEntry (count : ℕ) : Entry := { Entry.zero with body := replicate count 0 }

theorem storedBody_zeroBodyEntry {count : ℕ} (hpositive : 0 < count) (hcount : count < 256 ^ 8) :
    zeroRunCodec.storedBody (zeroBodyEntry count) = some (1 :: leBytes 8 count) := by
  have hne : (zeroBodyEntry count).body ≠ [] :=
    ne_nil_of_length_pos (by rwa [zeroBodyEntry, length_replicate])
  have hform : zeroRunCodec.bodyForm (zeroBodyEntry count) = 1 :: leBytes 8 count :=
    compress_zeros hpositive hcount
  have hsmall : ¬ maxCompressedBodyBytes < (1 :: leBytes 8 count).length := by
    rw [length_cons, length_leBytes]
    decide
  rw [Codec.storedBody, if_neg hne, hform, if_neg hsmall]

/-- The record of a well compressed body over 2 GiB is complete, and is read as torn. -/
theorem scan_zeroBodyEntry {count : ℕ} (hlarge : maxBlockBytes < count) (hcount : count < 256 ^ 8) :
    readEntriesFrom Zstd.zeroRuns (zeroRunCodec.marshalBatch [zeroBodyEntry count]) =
      ⟨[], 0, some (.unmarshalEntry .decompressBody)⟩ := by
  have hdeclared : Zstd.zeroRuns.frameContentSize (1 :: leBytes 8 count) = some count :=
    congrArg some (ofLe_leBytes_of_lt hcount)
  have hbody := decodeBody_eq_error zeroRunCodec rfl
    (storedBody_zeroBodyEntry ((Nat.zero_le _).trans_lt hlarge) hcount)
    (decompress_eq_none (cons_ne_nil _ _) hdeclared hlarge)
  have hstep : scanStep Zstd.zeroRuns scannerLength
      (zeroRunCodec.marshalBatch [zeroBodyEntry count]) =
      .failed (.unmarshalEntry .decompressBody) := by
    obtain ⟨hmin, hmax⟩ := length_payload_bounds zeroRunCodec (zeroBodyEntry count)
    have hrecord := unmarshalEntry_payload_eq zeroRunCodec (zeroBodyEntry count)
    rw [hbody] at hrecord
    have hcodec : zeroRunCodec.zstd = Zstd.zeroRuns := rfl
    rw [hcodec] at hrecord
    rw [marshalBatch_cons, marshalBatch_nil, scanStep, takeLe_marshalEntry_append]
    simp only [append_nil, scannerLength_admits.whole _ _ hmin hmax le_rfl, Bool.not_true,
      Bool.false_eq_true, if_false, lt_irrefl, take_length, hrecord]
  rw [readEntriesFrom, scan_eq, hstep]

/-- A body of one byte over 2 GiB, all of it zero: the WAL holds its whole record, and the reader
returns no entry and an error. -/
theorem huge_body_unreadable : Zstd.zeroRuns.Faithful ∧
      readEntriesFrom Zstd.zeroRuns (zeroRunCodec.marshalBatch [zeroBodyEntry (2 ^ 31 + 1)]) =
        ⟨[], 0, some (.unmarshalEntry .decompressBody)⟩ :=
  ⟨Zstd.zeroRuns_faithful, scan_zeroBodyEntry (by unfold maxBlockBytes; omega) (by omega)⟩

end Records

/-! ### The two readers -/

section Readers

variable {zstd : Zstd} {input : Bytes}

/-- A record length that the bytes declare, at their start or where the records before it end. -/
inductive Declares : Bytes → ℕ → Prop
  | here {input rest : Bytes} {length : ℕ} (hlength : takeLe 4 input = some (length, rest)) :
    Declares input length
  | later {input rest : Bytes} {length other : ℕ} (hlength : takeLe 4 input = some (length, rest))
    (hother : Declares (rest.drop length) other) : Declares input other

/-- Both loops read the same records: what only the one's length check admits does not decode. -/
theorem scanStep_record_iff {entry : Entry} {rest : Bytes}
    (hdeclared : ∀ length, Declares input length → length ≤ maxRecordBytes) :
    scanStep zstd replayLength input = .record entry rest ↔
      scanStep zstd scannerLength input = .record entry rest := by
  rw [scanStep_eq_record, scanStep_eq_record]
  refine exists₂_congr fun length tail ↦ ⟨?_, ?_⟩
  · rintro ⟨hlength, -, hleft, hentry, hrest⟩
    have hmin : minRecordBytes ≤ length := by
      by_contra hshort
      rw [unmarshalEntry, if_pos (by rw [length_take]; omega)] at hentry
      cases hentry
    exact ⟨hlength, scannerLength_admits.whole _ _ hmin (hdeclared _ (.here hlength)) hleft, hleft,
      hentry, hrest⟩
  · rintro ⟨hlength, hadmits, hleft, hentry, hrest⟩
    rw [scannerLength, Bool.and_eq_true, decide_eq_true_eq, decide_eq_true_eq] at hadmits
    exact ⟨hlength, replayLength_admits.whole _ _ hadmits.1 hadmits.2 hleft, hleft, hentry, hrest⟩

/-- The replay of the writer and the scanner find the same records, stop at the same byte, and report an
error or none together. -/
theorem readers_agree (hdeclared : ∀ length, Declares input length → length ≤ maxRecordBytes) :
    (scanWAL zstd input).entries = (readEntriesFrom zstd input).entries ∧
      (scanWAL zstd input).consumed = (readEntriesFrom zstd input).consumed ∧
      (scanWAL zstd input).error.isSome = (readEntriesFrom zstd input).error.isSome := by
  induction hsize : input.length using Nat.strong_induction_on generalizing input with
  | h size ih =>
    rw [scanWAL, scan_eq, readEntriesFrom, scan_eq]
    cases hscanner : scanStep zstd scannerLength input with
    | endOfFile =>
      rw [scanStep_eq_endOfFile hscanner]
      exact ⟨rfl, rfl, rfl⟩
    | failed error =>
      cases hreplay : scanStep zstd replayLength input with
      | endOfFile =>
        rw [scanStep_eq_endOfFile hreplay] at hscanner
        cases hscanner
      | failed other => exact ⟨rfl, rfl, rfl⟩
      | record entry rest =>
        rw [scanStep_record_iff hdeclared, hscanner] at hreplay
        cases hreplay
    | record entry rest =>
      rw [(scanStep_record_iff hdeclared).mpr hscanner]
      have hshorter := length_rest_lt hscanner
      obtain ⟨length, tail, hlength, -, -, -, rfl⟩ := scanStep_eq_record.mp hscanner
      obtain ⟨hentries, hconsumed, herror⟩ :=
        ih _ (hsize ▸ hshorter) (fun _ hother ↦ hdeclared _ (.later hlength hother)) rfl
      exact ⟨congrArg (entry :: ·) hentries, congrArg (_ + ·) hconsumed, herror⟩

theorem readers_agree_witness : (scanWAL Zstd.stored [1, 0, 0, 0, 7]).error.isSome =
      (readEntriesFrom Zstd.stored [1, 0, 0, 0, 7]).error.isSome := by
  refine (readers_agree fun length hdeclares ↦ ?_).2.2
  cases hdeclares with
  | here hlength => cases hlength; decide
  | later hlength hother =>
    cases hlength
    cases hother with
    | here hlength => cases hlength
    | later hlength => cases hlength

end Readers

end OpenTrace.Wal
