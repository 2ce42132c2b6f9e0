import Mathlib.Algebra.BigOperators.Group.List.Basic
import OpenTrace.Index.Builder

/-!
# The index answers like the live predicate

A search of the index of some messages returns, in ascending order, exactly the rows whose message
satisfies `messageMatchesQuery`: `answers_of_fits`. The format must be able to hold the index: its
tokens must be of at most 65535 bytes, and its two sections below 4 GiB. A token or a term table
beyond that always loses a row for some query (`Answers.tokensFit`, `Answers.tableFits`).
-/

namespace OpenTrace.Index

open Library Encoding List

/-! ### The term table -/

/-- An entry that the term table holds as it is. -/
structure IndexTerm.Fits (entry : IndexTerm) : Prop where
  term : entry.term.length < 2 ^ 16
  postingsOffset : entry.postingsOffset < 2 ^ 32
  postingsLen : entry.postingsLen < 2 ^ 32

theorem length_marshalTerm (entry : IndexTerm) :
    (marshalTerm entry).length = entry.term.length + 10 := by
  simp only [marshalTerm, length_append, length_leBytes]
  omega

/-- One entry off the front of the table. -/
theorem parseTerms_cons {entry : IndexTerm} (hfits : entry.Fits) (count index : ℕ) (rest : Bytes) :
    parseTerms (count + 1) index (marshalTerm entry ++ rest) =
      (parseTerms count (index + 1) rest).map (entry :: ·) := by
  have hlong : ¬ (entry.term ++ (leBytes 4 entry.postingsOffset ++ (leBytes 4 entry.postingsLen ++
      rest))).length < entry.term.length + 8 := by
    simp only [length_append, length_leBytes]
    omega
  have hfour : (leBytes 4 entry.postingsOffset ++ (leBytes 4 entry.postingsLen ++ rest)).drop 4 =
      leBytes 4 entry.postingsLen ++ rest := drop_leBytes_append ..
  have height : (leBytes 4 entry.postingsOffset ++ (leBytes 4 entry.postingsLen ++ rest)).drop 8 =
      rest := by
    rw [show 8 = 4 + 4 from rfl, ← drop_drop, hfour, drop_leBytes_append]
  have hoffset : ofLe (leBytes 4 entry.postingsOffset) = entry.postingsOffset :=
    ofLe_leBytes_of_lt (lt_of_lt_of_eq hfits.postingsOffset (by norm_num))
  have hlen : ofLe (leBytes 4 entry.postingsLen) = entry.postingsLen :=
    ofLe_leBytes_of_lt (lt_of_lt_of_eq hfits.postingsLen (by norm_num))
  rw [marshalTerm, parseTerms]
  simp only [append_assoc]
  rw [takeLe_leBytes_append (lt_of_lt_of_eq hfits.term (by norm_num))]
  simp only [if_neg hlong, take_left, drop_left, take_leBytes_append, hfour, height, hoffset, hlen]

section

variable {entries : List IndexTerm} (hfits : ∀ entry ∈ entries, entry.Fits)

include hfits

theorem parseTerms_flatMap (index : ℕ) :
    parseTerms entries.length index (entries.flatMap marshalTerm) = .ok entries := by
  induction entries generalizing index with
  | nil => rfl
  | cons entry entries ih =>
    obtain ⟨hentry, hrest⟩ := forall_mem_cons.mp hfits
    rw [flatMap_cons, length_cons, parseTerms_cons hentry, ih hrest]
    rfl

/-- A beginning of the table parses as a beginning of its entries. -/
theorem parseTerms_initial
    {count index : ℕ} {bytes : Bytes} (hbytes : bytes <+: entries.flatMap marshalTerm)
    {terms : List IndexTerm} (hparsed : parseTerms count index bytes = .ok terms) :
    count ≤ entries.length ∧ terms = entries.take count ∧
      ((entries.take count).flatMap marshalTerm).length ≤ bytes.length := by
  induction count generalizing entries index bytes terms with
  | zero =>
    cases hparsed
    exact ⟨Nat.zero_le _, rfl, Nat.zero_le _⟩
  | succ count ih =>
    rw [parseTerms] at hparsed
    cases htake : takeLe 2 bytes with
    | none => simp [htake] at hparsed
    | some taken =>
      obtain ⟨termLen, rest⟩ := taken
      obtain ⟨htwo, hlen, hrest⟩ := takeLe_eq_some.mp htake
      cases entries with
      | nil =>
        have hempty : bytes = [] := prefix_nil.mp hbytes
        simp [hempty] at htwo
      | cons entry entries =>
        obtain ⟨hentry, hothers⟩ := forall_mem_cons.mp hfits
        rw [flatMap_cons] at hbytes
        have htermLen : termLen = entry.term.length := by
          have hfront : bytes.take 2 = leBytes 2 entry.term.length := by
            rw [prefix_iff_eq_take.mp hbytes, take_take, min_eq_left htwo, marshalTerm]
            simp only [append_assoc, take_leBytes_append]
          rw [hlen, hfront, ofLe_leBytes_of_lt (lt_of_lt_of_eq hentry.term (by norm_num))]
        have hwhole : (marshalTerm entry).length ≤ bytes.length := by
          simp only [htake] at hparsed
          split_ifs at hparsed with hshort
          rw [hrest, length_drop] at hshort
          rw [length_marshalTerm]
          omega
        obtain ⟨tail, rfl⟩ := prefix_of_prefix_length_le (prefix_append _ _) hbytes hwhole
        have htail : tail <+: entries.flatMap marshalTerm := (prefix_append_right_inj _).mp hbytes
        have hparse := parseTerms_cons hentry count index tail
        rw [parseTerms] at hparse
        rw [hparse] at hparsed
        cases hrec : parseTerms count (index + 1) tail with
        | error error =>
          rw [hrec] at hparsed
          cases hparsed
        | ok others =>
          rw [hrec] at hparsed
          cases hparsed
          obtain ⟨hcount, rfl, hlength⟩ := ih hothers htail hrec
          refine ⟨Nat.succ_le_succ hcount, rfl, ?_⟩
          rw [take_succ_cons, flatMap_cons, length_append, length_append]
          exact Nat.add_le_add_left hlength _

end

/-- No term that was read is longer than its length field can say. -/
theorem length_term_lt {count index : ℕ} {bytes : Bytes} {terms : List IndexTerm}
    (hparsed : parseTerms count index bytes = .ok terms) :
    ∀ entry ∈ terms, entry.term.length < 2 ^ 16 := by
  induction count generalizing index bytes terms with
  | zero =>
    cases hparsed
    simp
  | succ count ih =>
    rw [parseTerms] at hparsed
    cases htake : takeLe 2 bytes with
    | none => simp [htake] at hparsed
    | some taken =>
      obtain ⟨termLen, rest⟩ := taken
      obtain ⟨htwo, hlen, -⟩ := takeLe_eq_some.mp htake
      have hbound : termLen < 2 ^ 16 := by
        have hlt := ofLe_lt (bytes.take 2)
        rw [length_take, min_eq_left htwo] at hlt
        rw [hlen]
        exact lt_of_lt_of_eq hlt (by norm_num)
      simp only [htake] at hparsed
      split_ifs at hparsed
      cases hrec : parseTerms count (index + 1) ((rest.drop termLen).drop 8) with
      | error error =>
        rw [hrec] at hparsed
        cases hparsed
      | ok others =>
        rw [hrec] at hparsed
        cases hparsed
        exact forall_mem_cons.mpr
          ⟨lt_of_le_of_lt (length_take_le _ _) hbound, ih hrec⟩

/-! ### Opening -/

/-- The header says how much of the rest is the term table, modulo its widths. -/
theorem openReader_eq (termCount entryCount tableSize : ℕ) (rest : Bytes) :
    openReader (indexMagic ++ leBytes 4 termCount ++ leBytes 4 entryCount ++ leBytes 4 tableSize ++
        rest) =
      if rest.length < tableSize % 2 ^ 32 then .error .tableOverflows
      else (parseTerms (termCount % 2 ^ 32) 0 (rest.take (tableSize % 2 ^ 32))).map fun terms ↦
        ⟨terms, rest.drop (tableSize % 2 ^ 32), entryCount % 2 ^ 32⟩ := by
  have hfile : indexMagic ++ leBytes 4 termCount ++ leBytes 4 entryCount ++ leBytes 4 tableSize ++
      rest = indexMagic ++ (leBytes 4 termCount ++ (leBytes 4 entryCount ++ (leBytes 4 tableSize ++
        rest))) := by
    simp only [append_assoc]
  have hmagic : indexMagic.length = 4 := rfl
  rw [hfile]
  set file := indexMagic ++ (leBytes 4 termCount ++ (leBytes 4 entryCount ++ (leBytes 4 tableSize ++
    rest))) with hset
  have hlength : file.length = 16 + rest.length := by
    rw [hset]
    simp only [length_append, length_leBytes]
    omega
  have hfour : file.drop 4 = leBytes 4 termCount ++ (leBytes 4 entryCount ++ (leBytes 4 tableSize ++
    rest)) := rfl
  have height : file.drop 8 = leBytes 4 entryCount ++ (leBytes 4 tableSize ++ rest) := by
    rw [show 8 = 4 + 4 from rfl, ← drop_drop, hfour, drop_leBytes_append]
  have htwelve : file.drop 12 = leBytes 4 tableSize ++ rest := by
    rw [show 12 = 8 + 4 from rfl, ← drop_drop, height, drop_leBytes_append]
  have hsixteen : file.drop 16 = rest := by
    rw [show 16 = 12 + 4 from rfl, ← drop_drop, htwelve, drop_leBytes_append]
  have hle : ∀ n, ofLe (leBytes 4 n) = n % 2 ^ 32 := fun n ↦ by
    rw [ofLe_leBytes]
    norm_num
  have hoverflow : file.length < 16 + tableSize % 2 ^ 32 ↔ rest.length < tableSize % 2 ^ 32 := by
    omega
  rw [openReader]
  simp only [hfour, height, htwelve, hsixteen, take_leBytes_append, hle, hoverflow]
  cases parseTerms (termCount % 2 ^ 32) 0 (rest.take (tableSize % 2 ^ 32)) <;> rfl

/-! ### Looking up -/

variable {zstd : Zstd} {reader : Reader} {rows : List ℕ} {unicode : Unicode}

theorem lookup_eq_nil {term : Bytes} (habsent : ∀ entry ∈ reader.terms, entry.term ≠ term) :
    reader.lookup zstd term = .ok [] := by
  unfold Reader.lookup
  simp only
  split
  · rfl
  · rename_i entry hentry
    rw [if_neg (habsent entry (mem_of_getElem? hentry))]

/-- Binary search finds every term of a table in ascending order. -/
theorem lookup_of_mem {zstd : Zstd} {reader : Reader}
    (hascending : Ascending (reader.terms.map IndexTerm.term)) {entry : IndexTerm}
    (hentry : entry ∈ reader.terms) :
    reader.lookup zstd entry.term = reader.readPostings zstd entry := by
  have hordered : ∀ (index other : ℕ) (first second : IndexTerm), index < other → reader.terms[index]? = some first →
      reader.terms[other]? = some second → bytesLe first.term second.term ∧
        first.term ≠ second.term := by
    intro index other first second hlt hfirst hsecond
    obtain ⟨hi, hfirst⟩ := List.getElem?_eq_some_iff.mp hfirst
    obtain ⟨hj, hsecond⟩ := List.getElem?_eq_some_iff.mp hsecond
    have hpair := List.pairwise_iff_getElem.mp (List.pairwise_map.mp hascending) index other hi hj hlt
    rwa [hfirst, hsecond] at hpair
  set holds : ℕ → Bool := fun index ↦
    (reader.terms[index]?).any fun other ↦ bytesLe entry.term other.term with hholds
  have hat : ∀ index other, reader.terms[index]? = some other →
      holds index = bytesLe entry.term other.term := by
    intro index other hother
    simp only [hholds, hother, Option.any_some]
  have hmono : ∀ index other, index ≤ other → other < reader.terms.length → holds index →
      holds other := by
    intro index other hle hbound hindex
    obtain ⟨first, hfirst, hbefore⟩ := (Option.any_eq_true _ _).mp hindex
    have hsecond : reader.terms[other]? = some reader.terms[other] := getElem?_eq_getElem hbound
    rcases Nat.lt_or_eq_of_le hle with hlt | rfl
    · rw [hat other _ hsecond]
      exact bytesLe_trans hbefore (hordered index other _ _ hlt hfirst hsecond).1
    · exact hindex
  obtain ⟨position, hposition⟩ := getElem?_of_mem hentry
  obtain ⟨hbound, -⟩ := List.getElem?_eq_some_iff.mp hposition
  obtain ⟨hle, hbelow, habove⟩ := search_spec hmono
  have hhere : holds position := by
    rw [hat position entry hposition]
    exact bytesLe_refl _
  have hfound : search reader.terms.length holds = position := by
    rcases Nat.lt_trichotomy (search reader.terms.length holds) position with hlt | heq | hgt
    · -- an earlier hit would be a second entry of the same term
      have hfirst := getElem?_eq_getElem (hlt.trans hbound)
      have hhit := habove _ le_rfl (hlt.trans hbound)
      rw [hat _ _ hfirst] at hhit
      obtain ⟨hless, hne⟩ := hordered _ _ _ _ hlt hfirst hposition
      exact absurd (bytesLe_antisymm hless hhit) hne
    · exact heq
    · exact absurd hhere (hbelow position hgt)
  unfold Reader.lookup
  simp only [← hholds, hfound, hposition, if_true]

/-! ### Postings -/

theorem length_rows_le (prev : ℕ) (rows : List ℕ) : rows.length ≤ (rowDeltas prev rows).length := by
  induction rows generalizing prev with
  | nil => exact Nat.zero_le _
  | cons row rows ih =>
    have hfirst := length_putUvarint_pos ((row + 2 ^ 32 - prev) % 2 ^ 32)
    have hrest := ih row
    rw [rowDeltas, length_append, length_cons]
    omega

theorem length_rowDeltas_le (prev : ℕ) (rows : List ℕ) :
    (rowDeltas prev rows).length ≤ rows.length * 10 := by
  induction rows generalizing prev with
  | nil => simp [rowDeltas]
  | cons row rows ih =>
    have hfirst := length_putUvarint_le ((row + 2 ^ 32 - prev) % 2 ^ 32)
    have hrest := ih row
    rw [rowDeltas, length_append, length_cons]
    omega

/-- Ascending row numbers come back from their deltas. -/
theorem rowsFrom_rowDeltas {fuel offset prev : ℕ} (hascending : (prev :: rows).Pairwise (· ≤ ·))
    (hrows : ∀ row ∈ rows, row < 2 ^ 32) (hfuel : rows.length ≤ fuel) :
    rowsFrom fuel offset prev (rowDeltas prev rows) = .ok rows := by
  induction rows generalizing fuel offset prev with
  | nil => cases fuel <;> rfl
  | cons row rows ih =>
    obtain ⟨hprev, hrest⟩ := pairwise_cons.mp hascending
    obtain ⟨hrow, hothers⟩ := forall_mem_cons.mp hrows
    have hle := hprev row (mem_cons_self ..)
    obtain ⟨fuel, rfl⟩ : ∃ rounds, fuel = rounds + 1 :=
      Nat.exists_eq_add_one.mpr (lt_of_lt_of_le (Nat.succ_pos _) hfuel)
    have hdelta : (row + 2 ^ 32 - prev) % 2 ^ 32 < 2 ^ 64 :=
      lt_trans (Nat.mod_lt _ (by omega)) (by omega)
    have hvalue : (prev + (row + 2 ^ 32 - prev) % 2 ^ 32) % 2 ^ 32 = row := by omega
    have hread := takeUvarint_putUvarint_append hdelta (rowDeltas row rows)
    have hne : rowDeltas prev (row :: rows) ≠ [] := by
      refine ne_nil_of_length_pos ?_
      have hlength := length_rows_le prev (row :: rows)
      rw [length_cons] at hlength
      omega
    rw [rowsFrom, if_neg hne, rowDeltas, hread]
    simp only [hvalue, ih hrest hothers (Nat.le_of_succ_le_succ hfuel)]
    rfl

section

variable (zstd : Zstd)

theorem term_writeTerms (offset : ℕ) (terms : Terms) :
    (writeTerms zstd offset terms).1.map IndexTerm.term = terms.map Prod.fst := by
  induction terms generalizing offset with
  | nil => rfl
  | cons entry terms ih => simp [writeTerms, ih]

/-- The bytes of the postings section. -/
def postingsSize (terms : Terms) : ℕ :=
  (terms.map fun entry ↦ (compress zstd (rowDeltas 0 entry.2)).length).sum

theorem length_writeTerms (offset : ℕ) (terms : Terms) :
    (writeTerms zstd offset terms).2.length = postingsSize zstd terms := by
  induction terms generalizing offset with
  | nil => rfl
  | cons entry terms ih =>
    simp only [writeTerms, length_append, ih, postingsSize, map_cons, sum_cons]

/-- Every posting is in the section, where the term table says. -/
theorem writeTerms_mem {offset : ℕ} {terms : Terms} {term : Bytes} {rows : List ℕ}
    (hentry : (term, rows) ∈ terms) :
    ∃ before after,
      (writeTerms zstd offset terms).2 = before ++ compress zstd (rowDeltas 0 rows) ++ after ∧
      ⟨term, (offset + before.length) % 2 ^ 32,
        (compress zstd (rowDeltas 0 rows)).length % 2 ^ 32⟩ ∈ (writeTerms zstd offset terms).1 := by
  induction terms generalizing offset with
  | nil => exact absurd hentry not_mem_nil
  | cons head terms ih =>
    rcases mem_cons.mp hentry with rfl | htail
    · exact ⟨[], (writeTerms zstd _ terms).2, rfl, mem_cons_self ..⟩
    · obtain ⟨before, after, hpostings, hlisted⟩ :=
        @ih (offset + (compress zstd (rowDeltas 0 head.2)).length) htail
      refine ⟨compress zstd (rowDeltas 0 head.2) ++ before, after, ?_, ?_⟩
      · simp only [writeTerms, hpostings, append_assoc]
      · rw [length_append, ← Nat.add_assoc]
        exact mem_cons_of_mem _ hlisted

theorem writeTerms_fits {offset : ℕ} {terms : Terms}
    (hterms : ∀ entry ∈ terms, entry.1.length < 2 ^ 16) :
    ∀ entry ∈ (writeTerms zstd offset terms).1, entry.Fits := by
  induction terms generalizing offset with
  | nil => simp [writeTerms]
  | cons head terms ih =>
    obtain ⟨hhead, hrest⟩ := forall_mem_cons.mp hterms
    exact forall_mem_cons.mpr
      ⟨⟨hhead, Nat.mod_lt _ (by omega), Nat.mod_lt _ (by omega)⟩, ih hrest⟩

end

/-- A posting of a section below 4 GiB reads back. -/
theorem readPostings_eq (hzstd : zstd.Faithful) {term : Bytes} {before after : Bytes}
    (hpostings : reader.postingsData = before ++ compress zstd (rowDeltas 0 rows) ++ after)
    (hsize : reader.postingsData.length < 2 ^ 32) (hascending : rows.Pairwise (· < ·))
    (hrows : ∀ row ∈ rows, row < 2 ^ 32) (hcount : rows.length * 10 ≤ maxBlockBytes) :
    reader.readPostings zstd ⟨term, before.length % 2 ^ 32,
      (compress zstd (rowDeltas 0 rows)).length % 2 ^ 32⟩ = .ok rows := by
  have hlength : reader.postingsData.length =
      before.length + (compress zstd (rowDeltas 0 rows)).length + after.length := by
    rw [hpostings, length_append, length_append]
  have hoffset : before.length % 2 ^ 32 = before.length := Nat.mod_eq_of_lt (by omega)
  have hlen : (compress zstd (rowDeltas 0 rows)).length % 2 ^ 32 =
      (compress zstd (rowDeltas 0 rows)).length := Nat.mod_eq_of_lt (by omega)
  have hend : (before.length + (compress zstd (rowDeltas 0 rows)).length) % 2 ^ 32 =
      before.length + (compress zstd (rowDeltas 0 rows)).length := Nat.mod_eq_of_lt (by omega)
  have hcut : (reader.postingsData.drop before.length).take
      (before.length + (compress zstd (rowDeltas 0 rows)).length - before.length) =
        compress zstd (rowDeltas 0 rows) := by
    rw [hpostings, append_assoc, drop_left, Nat.add_sub_cancel_left, take_left]
  have hdecoded := decompress_compress hzstd ((length_rowDeltas_le 0 rows).trans hcount)
  have hsorted : (0 :: rows).Pairwise (· ≤ ·) :=
    pairwise_cons.mpr ⟨fun row _ ↦ Nat.zero_le row, hascending.imp le_of_lt⟩
  have hinside : ¬ reader.postingsData.length <
      before.length + (compress zstd (rowDeltas 0 rows)).length := by omega
  have hforward : ¬ before.length + (compress zstd (rowDeltas 0 rows)).length < before.length := by
    omega
  simp only [Reader.readPostings, hoffset, hlen, hend, if_neg hinside, if_neg hforward, hcut, hdecoded,
    rowsFrom_rowDeltas hsorted hrows (length_rows_le 0 rows)]

/-! ### Searching -/

theorem intersectAll_eq {result : List ℕ} (hresult : result.Pairwise (· < ·))
    {lists : List (List ℕ)} (hlists : ∀ rows ∈ lists, rows.Pairwise (· < ·)) :
    intersectAll result lists = result.filter fun row ↦ ∀ rows ∈ lists, row ∈ rows := by
  induction lists generalizing result with
  | nil => simp [intersectAll]
  | cons rows lists ih =>
    obtain ⟨hrows, hothers⟩ := forall_mem_cons.mp hlists
    have hboth := intersectSorted_eq_filter hresult hrows
    have hsplit : (result.filter fun row ↦ ∀ other ∈ rows :: lists, row ∈ other) =
        (result.filter (· ∈ rows)).filter fun row ↦ ∀ other ∈ lists, row ∈ other := by
      simp [Bool.and_comm]
    rw [intersectAll, hsplit, hboth]
    split_ifs with hempty
    · rw [hempty, filter_nil]
    · exact ih (hresult.filter _) hothers

theorem lookupAll_eq {rowsOfTerm : Bytes → List ℕ}
    (hlookup : ∀ term, reader.lookup zstd term = .ok (rowsOfTerm term)) (terms : List Bytes) :
    reader.lookupAll zstd terms =
      .ok (if ∃ term ∈ terms, rowsOfTerm term = [] then none else some (terms.map rowsOfTerm)) := by
  induction terms with
  | nil => simp [Reader.lookupAll]
  | cons term terms ih =>
    rw [Reader.lookupAll, hlookup]
    cases hrows : rowsOfTerm term with
    | nil => simp [hrows]
    | cons row rows =>
      simp only [ih]
      by_cases hnone : ∃ other ∈ terms, rowsOfTerm other = []
      · have hsome : ∃ other ∈ term :: terms, rowsOfTerm other = [] :=
          hnone.imp fun other hother ↦ ⟨mem_cons_of_mem _ hother.1, hother.2⟩
        rw [if_pos hnone, if_pos hsome]
        rfl
      · have hall : ¬ ∃ other ∈ term :: terms, rowsOfTerm other = [] := by
          rintro ⟨other, hother, hempty⟩
          rcases mem_cons.mp hother with rfl | htail
          · rw [hempty] at hrows
            cases hrows
          · exact hnone ⟨other, htail, hempty⟩
        rw [if_neg hnone, if_neg hall, map_cons, hrows]
        rfl

/-- A term without rows leaves nothing to find. -/
theorem search_of_absent {query term : Bytes} (hterm : term ∈ tokenizeUnique unicode query)
    (habsent : reader.lookup zstd term = .ok [])
    (hsearch : reader.search zstd unicode query = .ok rows) : rows = [] := by
  have hnone : ∀ terms : List Bytes, term ∈ terms → ∀ lists,
      reader.lookupAll zstd terms ≠ .ok (some lists) := by
    intro terms
    induction terms with
    | nil => exact fun hmem ↦ absurd hmem not_mem_nil
    | cons head terms ih =>
      intro hmem lists hlists
      rw [Reader.lookupAll] at hlists
      cases hhead : reader.lookup zstd head with
      | error error => simp [hhead] at hlists
      | ok found =>
        cases found with
        | nil => simp [hhead] at hlists
        | cons row found =>
          rcases mem_cons.mp hmem with rfl | htail
          · rw [habsent] at hhead
            cases hhead
          · simp only [hhead] at hlists
            cases hrest : reader.lookupAll zstd terms with
            | error error =>
              rw [hrest] at hlists
              cases hlists
            | ok others =>
              cases others with
              | none =>
                rw [hrest] at hlists
                cases hlists
              | some others => exact ih htail others hrest
  unfold Reader.search at hsearch
  cases hterms : tokenizeUnique unicode query with
  | nil =>
    rw [hterms] at hterm
    exact absurd hterm not_mem_nil
  | cons head terms =>
    rw [hterms] at hterm
    simp only [hterms] at hsearch
    cases hall : reader.lookupAll zstd (head :: terms) with
    | error error => simp [hall] at hsearch
    | ok lists =>
      cases lists with
      | none =>
        simp only [hall] at hsearch
        cases hsearch
        rfl
      | some lists => exact absurd hall (hnone _ hterm lists)

theorem mem_filter_matching {messages : List Bytes} {query : Bytes} {row : ℕ} :
    row ∈ (range messages.length).filter (fun row ↦
        messageMatchesQuery unicode (messages.getD row []) query) ↔
      row < messages.length ∧ messageMatchesQuery unicode (messages.getD row []) query := by
  simp

/-- Rows that are looked up exactly are searched exactly. -/
theorem search_eq {messages : List Bytes}
    (hlookup : ∀ term, reader.lookup zstd term = .ok (rowsOf unicode messages term))
    (query : Bytes) :
    reader.search zstd unicode query = .ok ((range messages.length).filter fun row ↦
        messageMatchesQuery unicode (messages.getD row []) query) := by
  unfold Reader.search
  cases hterms : tokenizeUnique unicode query with
  | nil =>
    have hnone : (range messages.length).filter (fun row ↦
        messageMatchesQuery unicode (messages.getD row []) query) = [] := by
      refine filter_eq_nil_iff.mpr fun row _ hmatch ↦ ?_
      exact (messageMatchesQuery_iff unicode |>.mp hmatch).1 hterms
    rw [hnone]
  | cons head terms =>
    have hmatch : ∀ row, messageMatchesQuery unicode (messages.getD row []) query ↔
        ∀ term ∈ head :: terms, term ∈ tokenizeUnique unicode (messages.getD row []) := by
      intro row
      rw [messageMatchesQuery_iff, hterms]
      simp
    simp only [lookupAll_eq hlookup]
    split_ifs with hempty
    · obtain ⟨term, hterm, hrows⟩ := hempty
      refine congrArg Except.ok (filter_eq_nil_iff.mpr fun row hrow hfound ↦ ?_).symm
      have hmem : row ∈ rowsOf unicode messages term :=
        mem_rowsOf.mpr ⟨mem_range.mp hrow, (hmatch row).mp hfound term hterm⟩
      rw [hrows] at hmem
      exact absurd hmem not_mem_nil
    · simp only [map_cons]
      rw [intersectAll_eq (pairwise_rowsOf unicode messages head)]
      · refine congrArg Except.ok ?_
        rw [rowsOf, filter_filter]
        refine filter_congr fun row hrow ↦ ?_
        have hbound := mem_range.mp hrow
        rw [Bool.eq_iff_iff, hmatch, forall_mem_cons]
        simp only [mem_map, forall_exists_index, and_imp, forall_apply_eq_imp_iff₂, mem_rowsOf,
          hbound, true_and, Bool.and_eq_true, decide_eq_true_eq]
        exact and_comm
      · intro rows hrows
        obtain ⟨term, -, rfl⟩ := mem_map.mp hrows
        exact pairwise_rowsOf unicode messages term

/-! ### The index of a chunk -/

section Chunk

variable (zstd : Zstd) (unicode : Unicode) (messages : List Bytes)

/-- The index file of the messages of a chunk, as sealing builds it. -/
def indexFile : Bytes := writeIndex zstd (build unicode messages) messages.length

/-- The index answers every query with the rows that the live predicate keeps, in ascending order. -/
def Answers : Prop :=
  ∀ query, ∃ reader, openReader (indexFile zstd unicode messages) = .ok reader ∧
    reader.search zstd unicode query = .ok ((range messages.length).filter fun row ↦
        messageMatchesQuery unicode (messages.getD row []) query)

/-- The length field of the term table has room for every token. -/
def TokensFit : Prop :=
  ∀ message ∈ messages, ∀ token ∈ tokenizeUnique unicode message, token.length < 2 ^ 16

/-- The bytes of the term table. -/
def tableSize (terms : Terms) : ℕ := (terms.map fun entry ↦ entry.1.length + 10).sum

def TableFits : Prop := tableSize (build unicode messages) < 2 ^ 32

def PostingsFit : Prop := postingsSize zstd (build unicode messages) < 2 ^ 32

/-- The term table that is written. -/
def writtenTable : List IndexTerm := (writeTerms zstd 0 (sortTerms (build unicode messages))).1

/-- The postings section that is written. -/
def writtenPostings : Bytes := (writeTerms zstd 0 (sortTerms (build unicode messages))).2

end Chunk

section Chunk

variable {zstd : Zstd} {unicode : Unicode} {messages : List Bytes}

theorem length_flatMap_marshalTerm (offset : ℕ) (terms : Terms) :
    ((writeTerms zstd offset terms).1.flatMap marshalTerm).length = tableSize terms := by
  induction terms generalizing offset with
  | nil => rfl
  | cons entry terms ih =>
    simp only [writeTerms, flatMap_cons, length_append, ih, length_marshalTerm, tableSize,
      map_cons, sum_cons]

theorem length_writtenTable_flatMap :
    ((writtenTable zstd unicode messages).flatMap marshalTerm).length =
      tableSize (build unicode messages) := by
  rw [writtenTable, length_flatMap_marshalTerm]
  exact ((sortTerms_perm _).map _).sum_eq

theorem length_writtenPostings :
    (writtenPostings zstd unicode messages).length = postingsSize zstd (build unicode messages) := by
  rw [writtenPostings, length_writeTerms]
  exact ((sortTerms_perm _).map _).sum_eq

theorem term_writtenTable_perm : ((writtenTable zstd unicode messages).map IndexTerm.term).Perm
      ((build unicode messages).map Prod.fst) := by
  rw [writtenTable, term_writeTerms]
  exact (sortTerms_perm _).map _

theorem length_writtenTable :
    (writtenTable zstd unicode messages).length = (build unicode messages).length := by
  have hlength := (@term_writtenTable_perm zstd unicode messages).length_eq
  rwa [length_map, length_map] at hlength

/-- The table has the tokens of the messages. -/
theorem mem_writtenTable {token : Bytes} :
    (∃ entry ∈ writtenTable zstd unicode messages, entry.term = token) ↔
      ∃ message ∈ messages, token ∈ tokenizeUnique unicode message := by
  rw [← mem_map, (term_writtenTable_perm).mem_iff, ← rowsOf_ne_nil]
  constructor
  · intro hkey
    obtain ⟨⟨key, rows⟩, hentry, rfl⟩ := mem_map.mp hkey
    obtain ⟨rfl, hne⟩ := (mem_build unicode messages key rows).mp hentry
    exact hne
  · intro hne
    exact mem_map.mpr ⟨(token, rowsOf unicode messages token),
      (mem_build unicode messages _ _).mpr ⟨rfl, hne⟩, rfl⟩

theorem writtenTable_fits (htokens : TokensFit unicode messages) :
    ∀ entry ∈ writtenTable zstd unicode messages, entry.Fits := by
  refine writeTerms_fits zstd fun entry hentry ↦ ?_
  have hkey : entry.1 ∈ (writtenTable zstd unicode messages).map IndexTerm.term := by
    rw [writtenTable, term_writeTerms]
    exact mem_map_of_mem hentry
  obtain ⟨message, hmessage, htoken⟩ := mem_writtenTable.mp (mem_map.mp hkey)
  exact htokens message hmessage _ htoken

/-- What opening the index of a chunk comes to. -/
theorem openReader_indexFile : openReader (indexFile zstd unicode messages) =
      let table := (writtenTable zstd unicode messages).flatMap marshalTerm
      let rest := table ++ writtenPostings zstd unicode messages
      let size := tableSize (build unicode messages) % 2 ^ 32
      (parseTerms ((build unicode messages).length % 2 ^ 32) 0 (table.take size)).map fun terms ↦
        ⟨terms, rest.drop size, messages.length % 2 ^ 32⟩ := by
  have hsize : tableSize (build unicode messages) % 2 ^ 32 ≤
      ((writtenTable zstd unicode messages).flatMap marshalTerm).length :=
    length_writtenTable_flatMap.symm ▸ Nat.mod_le _ _
  have hlong : ¬ ((writtenTable zstd unicode messages).flatMap marshalTerm ++
      writtenPostings zstd unicode messages).length <
        tableSize (build unicode messages) % 2 ^ 32 := by
    rw [length_append]
    omega
  have hfile : indexFile zstd unicode messages =
      indexMagic ++ leBytes 4 (build unicode messages).length ++ leBytes 4 messages.length ++
        leBytes 4 (tableSize (build unicode messages)) ++
          ((writtenTable zstd unicode messages).flatMap marshalTerm ++
            writtenPostings zstd unicode messages) := by
    rw [← length_writtenTable_flatMap]
    rfl
  rw [hfile, openReader_eq, if_neg hlong, take_append_of_le_length hsize]

/-- An index that fits its format opens as the table and the postings that were written. -/
theorem openReader_of_fits (htokens : TokensFit unicode messages)
    (htable : TableFits unicode messages) :
    openReader (indexFile zstd unicode messages) =
      .ok ⟨writtenTable zstd unicode messages, writtenPostings zstd unicode messages,
        messages.length % 2 ^ 32⟩ := by
  have hcount : (build unicode messages).length ≤ tableSize (build unicode messages) := by
    have hsum := length_le_sum_of_one_le
      ((build unicode messages).map fun entry ↦ entry.1.length + 10) (by
        intro size hsize
        obtain ⟨entry, -, rfl⟩ := mem_map.mp hsize
        omega)
    rwa [length_map] at hsum
  have htermCount : (build unicode messages).length % 2 ^ 32 =
      (writtenTable zstd unicode messages).length := by
    rw [length_writtenTable, Nat.mod_eq_of_lt (hcount.trans_lt htable)]
  have hsize : tableSize (build unicode messages) % 2 ^ 32 =
      ((writtenTable zstd unicode messages).flatMap marshalTerm).length := by
    rw [length_writtenTable_flatMap, Nat.mod_eq_of_lt htable]
  rw [openReader_indexFile]
  simp only [htermCount, hsize, take_length, drop_left,
    parseTerms_flatMap (writtenTable_fits htokens), Except.map]

/-- The rows of a term as they are looked up in the index that was written. -/
theorem lookup_written (hzstd : zstd.Faithful) (hcount : messages.length ≤ 50000)
    (hpostings : PostingsFit zstd unicode messages) (entryCount : ℕ) (term : Bytes) :
    Reader.lookup zstd ⟨writtenTable zstd unicode messages, writtenPostings zstd unicode messages,
      entryCount⟩ term = .ok (rowsOf unicode messages term) := by
  by_cases hrows : rowsOf unicode messages term = []
  · rw [hrows]
    refine lookup_eq_nil fun entry hentry heq ↦ ?_
    exact rowsOf_ne_nil.mpr (mem_writtenTable.mp ⟨entry, hentry, heq⟩) hrows
  · have hbuilt : (term, rowsOf unicode messages term) ∈ sortTerms (build unicode messages) :=
      (sortTerms_perm _).mem_iff.mpr ((mem_build unicode messages _ _).mpr ⟨rfl, hrows⟩)
    obtain ⟨before, after, hwritten, hlisted⟩ := @writeTerms_mem zstd 0 _ _ _ hbuilt
    rw [Nat.zero_add] at hlisted
    have hascending : Ascending ((writtenTable zstd unicode messages).map IndexTerm.term) := by
      rw [writtenTable, term_writeTerms]
      exact ascending_sortTerms (build_spec unicode messages).1.nodup
    have hlength : (rowsOf unicode messages term).length ≤ messages.length :=
      (length_filter_le _ _).trans (length_range).le
    have hfound := @lookup_of_mem zstd ⟨writtenTable zstd unicode messages,
      writtenPostings zstd unicode messages, entryCount⟩ hascending _ hlisted
    refine hfound.trans (readPostings_eq hzstd hwritten ?_ (pairwise_rowsOf unicode messages term)
      (fun row hrow ↦ ?_) ?_)
    · exact lt_of_eq_of_lt length_writtenPostings hpostings
    · have hlt := rowsOf_lt unicode messages term row hrow
      omega
    · unfold maxBlockBytes
      omega

theorem answers_of_fits (hzstd : zstd.Faithful) (hcount : messages.length ≤ 50000)
    (htokens : TokensFit unicode messages) (htable : TableFits unicode messages)
    (hpostings : PostingsFit zstd unicode messages) : Answers zstd unicode messages :=
  fun query ↦ ⟨_, openReader_of_fits htokens htable,
    search_eq (lookup_written hzstd hcount hpostings _) query⟩

/-- An index that answers every query has every token in the table it reads: the message itself is
a query that must find its row. -/
theorem Answers.mem_terms (hanswers : Answers zstd unicode messages) {message token : Bytes}
    (hmessage : message ∈ messages) (htoken : token ∈ tokenizeUnique unicode message) :
    ∃ reader, openReader (indexFile zstd unicode messages) = .ok reader ∧
      ∃ entry ∈ reader.terms, entry.term = token := by
  obtain ⟨reader, hopen, hsearch⟩ := hanswers message
  refine ⟨reader, hopen, ?_⟩
  by_contra habsent
  have hlookup : reader.lookup zstd token = .ok [] :=
    lookup_eq_nil fun entry hentry heq ↦ habsent ⟨entry, hentry, heq⟩
  have hnone := search_of_absent htoken hlookup hsearch
  obtain ⟨row, hbound, rfl⟩ := getElem_of_mem hmessage
  have hmatch : messageMatchesQuery unicode (messages.getD row []) messages[row] := by
    rw [getD_eq_getElem _ _ hbound]
    exact (messageMatchesQuery_iff unicode).mpr ⟨ne_nil_of_mem htoken, fun _ hmem ↦ hmem⟩
  have hrow := mem_filter_matching.mpr ⟨hbound, hmatch⟩
  rw [hnone] at hrow
  exact absurd hrow not_mem_nil

/-- What was parsed when the index opened. -/
theorem parsed_of_open {reader : Reader}
    (hopen : openReader (indexFile zstd unicode messages) = .ok reader) :
    parseTerms ((build unicode messages).length % 2 ^ 32) 0
      (((writtenTable zstd unicode messages).flatMap marshalTerm).take
        (tableSize (build unicode messages) % 2 ^ 32)) = .ok reader.terms := by
  rw [openReader_indexFile] at hopen
  simp only at hopen
  cases hparsed : parseTerms ((build unicode messages).length % 2 ^ 32) 0
      (((writtenTable zstd unicode messages).flatMap marshalTerm).take
        (tableSize (build unicode messages) % 2 ^ 32)) with
  | error error =>
    rw [hparsed] at hopen
    cases hopen
  | ok terms =>
    rw [hparsed] at hopen
    cases hopen
    rfl

theorem Answers.tokensFit (hanswers : Answers zstd unicode messages) : TokensFit unicode messages := by
  intro message hmessage token htoken
  obtain ⟨reader, hopen, entry, hentry, rfl⟩ := hanswers.mem_terms hmessage htoken
  exact length_term_lt (parsed_of_open hopen) entry hentry

theorem Answers.tableFits (hanswers : Answers zstd unicode messages) : TableFits unicode messages := by
  obtain ⟨reader, hopen, -⟩ := hanswers []
  have hparsed := parsed_of_open hopen
  obtain ⟨hcount, hterms, hlength⟩ := parseTerms_initial (writtenTable_fits hanswers.tokensFit)
    ( take_prefix _ _) hparsed
  -- every term is among those that were parsed, and they are distinct: all were parsed
  have hall : (writtenTable zstd unicode messages).map IndexTerm.term ⊆
      reader.terms.map IndexTerm.term := by
    intro token htoken
    obtain ⟨message, hmessage, hmem⟩ := mem_writtenTable.mp (mem_map.mp htoken)
    obtain ⟨other, hother, hlisted⟩ := hanswers.mem_terms hmessage hmem
    cases hopen.symm.trans hother
    exact mem_map.mpr hlisted
  have hnodup : ((writtenTable zstd unicode messages).map IndexTerm.term).Nodup :=
    term_writtenTable_perm.nodup_iff.mpr (build_spec unicode messages).1.nodup
  have hle := (subperm_of_subset hnodup hall).length_le
  rw [length_map, length_map, hterms] at hle
  rw [take_of_length_le (hle.trans (length_take_le _ _)), length_writtenTable_flatMap,
    length_take] at hlength
  have hmod := Nat.mod_lt (tableSize (build unicode messages)) (show 0 < 2 ^ 32 by omega)
  exact lt_of_le_of_lt (hlength.trans (min_le_left _ _)) hmod

end Chunk

/-- An index that answers like the live predicate has tokens of at most 65535 bytes and a term table
below 4 GiB; and one whose postings lie below 4 GiB answers so exactly if they do. -/
theorem answers_iff {zstd : Zstd} (hzstd : zstd.Faithful) (unicode : Unicode) {messages : List Bytes}
    (hcount : messages.length ≤ 50000) :
    (Answers zstd unicode messages → TokensFit unicode messages ∧ TableFits unicode messages) ∧
      (PostingsFit zstd unicode messages → (Answers zstd unicode messages ↔
          TokensFit unicode messages ∧ TableFits unicode messages)) := by
  have hnecessary : Answers zstd unicode messages →
      TokensFit unicode messages ∧ TableFits unicode messages :=
    fun hanswers ↦ ⟨hanswers.tokensFit, hanswers.tableFits⟩
  refine ⟨hnecessary, fun hpostings ↦ ⟨hnecessary, ?_⟩⟩
  rintro ⟨htokens, htable⟩
  exact answers_of_fits hzstd hcount htokens htable hpostings

theorem answers_iff_witness :
    Answers Zstd.stored Unicode.ascii [ascii "disk full on db-1", ascii "GET /disk 500", []] :=
  ((answers_iff Zstd.stored_faithful Unicode.ascii (by decide)).2
      (by unfold PostingsFit; decide +kernel)).mpr
    ⟨by unfold TokensFit; decide +kernel, by unfold TableFits; decide +kernel⟩

/-! ### A token that is too long -/

theorem runesIn_replicate (count : ℕ) :
    runesIn count (replicate count 97) = replicate count (97, [97]) := by
  induction count with
  | zero => rfl
  | succ count ih =>
    have hrune : decodeRune 97 (replicate count 97) = (97, 1) := rfl
    rw [replicate_succ, replicate_succ, runesIn]
    simp only [hrune, take_succ_cons, take_zero, drop_succ_cons, drop_zero, ih]

theorem fieldsFrom_replicate {field : Bytes} (hfield : field ≠ []) (count : ℕ) :
    fieldsFrom (separates Unicode.ascii) field (replicate count (97, [97])) =
      [field ++ replicate count 97] := by
  induction count generalizing field with
  | zero => simp [fieldsFrom, hfield]
  | succ count ih =>
    have hletter : separates Unicode.ascii 97 = false := by decide
    rw [replicate_succ, replicate_succ, fieldsFrom, hletter, if_neg Bool.false_ne_true,
      ih (by simp), append_assoc, singleton_append]

/-- A run of one letter is one token. -/
theorem tokenizeUnique_replicate {count : ℕ} (hcount : 2 ≤ count) :
    tokenizeUnique Unicode.ascii (replicate count 97) = [replicate count 97] := by
  have hlower : toLower Unicode.ascii (replicate count 97) = replicate count 97 := by
    have hascii : (replicate count (97 : UInt8)).all (·.toNat < 0x80) = true := by
      rw [all_eq_true]
      intro byte hbyte
      rw [eq_of_mem_replicate hbyte]
      decide
    rw [toLower, if_pos hascii, map_replicate]
    rfl
  have hrunes : runes (replicate count 97) = replicate count (97, [97]) := by
    rw [runes, length_replicate, runesIn_replicate]
  obtain ⟨rest, rfl⟩ : ∃ rest, count = rest + 1 := Nat.exists_eq_add_one.mpr (by omega)
  have hletter : separates Unicode.ascii 97 = false := by decide
  have hfields : fieldsFunc (separates Unicode.ascii) (replicate (rest + 1) 97) =
      [replicate (rest + 1) 97] := by
    rw [fieldsFunc, hrunes, replicate_succ, fieldsFrom, hletter, if_neg Bool.false_ne_true,
      fieldsFrom_replicate (by simp)]
    rfl
  rw [tokenizeUnique, tokenize, hlower, hfields]
  simp [uniqueFrom, hcount]

/-- A term whose length is a multiple of 65536 is read back as the empty term. -/
theorem parseTerms_wrapped {entry : IndexTerm} (hwraps : entry.term.length % 256 ^ 2 = 0) :
    ∃ terms, parseTerms 1 0 (marshalTerm entry) = .ok terms ∧ ∀ other ∈ terms, other.term = [] := by
  have htake : takeLe 2 (marshalTerm entry) =
      some (0, entry.term ++ (leBytes 4 entry.postingsOffset ++ leBytes 4 entry.postingsLen)) := by
    rw [marshalTerm, append_assoc, append_assoc, takeLe_eq_some, take_leBytes_append, ofLe_leBytes,
      hwraps, length_append, length_leBytes]
    exact ⟨by omega, rfl, rfl⟩
  have hlong : ¬ (entry.term ++ (leBytes 4 entry.postingsOffset ++
      leBytes 4 entry.postingsLen)).length < 0 + 8 := by
    simp only [length_append, length_leBytes]
    omega
  rw [parseTerms, htake]
  simp only [if_neg hlong]
  exact ⟨_, rfl, by simp⟩

theorem search_wrapped {message : Bytes} (htokens : tokenizeUnique unicode message = [message])
    (hlength : message.length = 65536) :
    ∃ reader, openReader (indexFile zstd unicode [message]) = .ok reader ∧
      reader.search zstd unicode message = .ok [] := by
  have hbuild : build unicode [message] = [(message, [0])] := by
    simp only [build, addFrom, add, htokens, foldl_cons, foldl_nil, addToken]
  have hsize : tableSize (build unicode [message]) % 2 ^ 32 = message.length + 10 := by
    rw [hbuild, tableSize, map_singleton, hlength]
    rfl
  have htable : ∃ offset len, writtenTable zstd unicode [message] = [⟨message, offset, len⟩] := by
    rw [writtenTable, hbuild, sortTerms, mergeSort_singleton]
    exact ⟨_, _, rfl⟩
  obtain ⟨offset, len, hwritten⟩ := htable
  obtain ⟨terms, hparsed, hempty⟩ :=
    @parseTerms_wrapped ⟨message, offset, len⟩ (by rw [hlength]; rfl)
  have hopened : ∃ postings, openReader (indexFile zstd unicode [message]) =
      .ok ⟨terms, postings, 1⟩ := by
    have hall : ((marshalTerm ⟨message, offset, len⟩).take (message.length + 10)) =
        marshalTerm ⟨message, offset, len⟩ :=
      take_of_length_le (length_marshalTerm _).le
    have hcount : (build unicode [message]).length % 2 ^ 32 = 1 := by rw [hbuild]; rfl
    rw [openReader_indexFile]
    simp only [hwritten, hsize, flatMap_singleton, hall, hcount, hparsed]
    exact ⟨_, rfl⟩
  obtain ⟨postings, hopen⟩ := hopened
  have habsent : Reader.lookup zstd ⟨terms, postings, 1⟩ message = .ok [] := by
    refine lookup_eq_nil fun entry hentry heq ↦ ?_
    rw [← heq, hempty entry hentry] at hlength
    simp at hlength
  refine ⟨_, hopen, ?_⟩
  unfold Reader.search
  rw [htokens]
  simp only [Reader.lookupAll, habsent]

/-- A message that is one token of 65536 bytes matches itself, but its index does not find it. -/
theorem token_of_65536_bytes_not_found : let message : Bytes := replicate 65536 97
    messageMatchesQuery Unicode.ascii message message ∧
      ∃ reader, openReader (indexFile Zstd.stored Unicode.ascii [message]) = .ok reader ∧
        reader.search Zstd.stored Unicode.ascii message = .ok [] := by
  have htokens := @tokenizeUnique_replicate 65536 (by omega)
  refine ⟨(messageMatchesQuery_iff _).mpr ⟨?_, fun _ hmem ↦ hmem⟩, ?_⟩
  · rw [htokens]
    exact cons_ne_nil _ _
  · exact search_wrapped htokens length_replicate

end OpenTrace.Index
