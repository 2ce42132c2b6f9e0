import Mathlib.Data.List.GetD
import OpenTrace.Index.File

/-!
# What the builder collects

The terms after building hold, for every token of a message, exactly the rows of the messages that have
it, in ascending order (`rowsIn_build`); sorting puts them into strictly ascending order
(`sorted_sortTerms`).
-/

namespace OpenTrace.Index

open Library Encoding List

/-- The rows of a term, none if it was never met. -/
def rowsIn : Terms → Bytes → List ℕ
  | [], _ => []
  | (term, rows) :: rest, key => if term = key then rows else rowsIn rest key

/-- The rows of the messages that have a token, the first message being a given row. -/
def rowsFromRow (unicode : Unicode) (token : Bytes) : ℕ → List Bytes → List ℕ
  | _, [] => []
  | row, message :: messages =>
    (if token ∈ tokenizeUnique unicode message then [row] else []) ++
      rowsFromRow unicode token (row + 1) messages

/-- The rows of the messages that have a token. -/
def rowsOf (unicode : Unicode) (messages : List Bytes) (token : Bytes) : List ℕ :=
  (range messages.length).filter fun row ↦ token ∈ tokenizeUnique unicode (messages.getD row [])

/-! ### One token, one message, all messages -/

theorem rowsIn_addToken (row : ℕ) (terms : Terms) (token key : Bytes) :
    rowsIn (addToken row terms token) key =
      rowsIn terms key ++ if key = token then [row] else [] := by
  induction terms with
  | nil =>
    rw [addToken]
    by_cases hkey : key = token
    · simp [hkey, rowsIn]
    · simp [hkey, Ne.symm hkey, rowsIn]
  | cons head terms ih =>
    obtain ⟨term, rows⟩ := head
    rw [addToken]
    by_cases hterm : term = token
    · subst hterm
      by_cases hkey : key = term
      · simp [rowsIn, hkey]
      · simp [rowsIn, hkey, Ne.symm hkey]
    · rw [if_neg hterm, rowsIn, rowsIn, ih]
      by_cases hkey : term = key
      · subst hkey
        simp [hterm]
      · rw [if_neg hkey, if_neg hkey]

theorem keys_addToken (row : ℕ) (terms : Terms) (token : Bytes) :
    (addToken row terms token).map Prod.fst =
      if token ∈ terms.map Prod.fst then terms.map Prod.fst else terms.map Prod.fst ++ [token] := by
  induction terms with
  | nil => simp [addToken]
  | cons head terms ih =>
    obtain ⟨term, rows⟩ := head
    rw [addToken]
    by_cases hterm : term = token
    · simp [hterm]
    · have hne : token ≠ term := Ne.symm hterm
      rw [if_neg hterm, map_cons, map_cons, ih]
      by_cases hknown : token ∈ terms.map Prod.fst
      · rw [if_pos hknown, if_pos (mem_cons_of_mem _ hknown)]
      · have hfresh : token ∉ term :: terms.map Prod.fst :=
          fun hmem ↦ (mem_cons.mp hmem).elim hne hknown
        rw [if_neg hknown, if_neg hfresh, cons_append]

/-- The keys of the map are distinct, and no term is without a row. -/
structure WellFormed (terms : Terms) : Prop where
  nodup : (terms.map Prod.fst).Nodup
  nonempty : ∀ entry ∈ terms, entry.2 ≠ []

theorem WellFormed.addToken {terms : Terms} (hterms : WellFormed terms) (row : ℕ) (token : Bytes) :
    WellFormed (addToken row terms token) where
  nodup := by
    rw [keys_addToken]
    split_ifs with hknown
    · exact hterms.nodup
    · refine nodup_append.mpr ⟨hterms.nodup, nodup_cons.mpr ⟨by simp, nodup_nil⟩, ?_⟩
      intro key hkey other hother heq
      exact hknown (mem_singleton.mp hother ▸ heq ▸ hkey)
  nonempty := by
    have hrows := hterms.nonempty
    clear hterms
    induction terms with
    | nil => simp [Index.addToken]
    | cons head terms ih =>
      obtain ⟨hfirst, hrest⟩ := forall_mem_cons.mp hrows
      rw [Index.addToken]
      split_ifs with hterm
      · exact forall_mem_cons.mpr ⟨by simp, hrest⟩
      · exact forall_mem_cons.mpr ⟨hfirst, ih hrest⟩

theorem foldl_addToken {terms : Terms} (hterms : WellFormed terms) (row : ℕ) {tokens : List Bytes}
    (htokens : tokens.Nodup) :
    WellFormed (tokens.foldl (addToken row) terms) ∧
      ∀ key, rowsIn (tokens.foldl (addToken row) terms) key =
        rowsIn terms key ++ if key ∈ tokens then [row] else [] := by
  induction tokens generalizing terms with
  | nil => exact ⟨hterms, fun key ↦ by simp⟩
  | cons token tokens ih =>
    obtain ⟨hfresh, hrest⟩ := nodup_cons.mp htokens
    obtain ⟨hformed, hrows⟩ := ih (hterms.addToken row token) hrest
    refine ⟨hformed, fun key ↦ ?_⟩
    rw [foldl_cons, hrows, rowsIn_addToken]
    by_cases hkey : key = token
    · subst hkey
      simp [hfresh]
    · simp [hkey]

theorem addFrom_spec (unicode : Unicode) {terms : Terms} (hterms : WellFormed terms) (row : ℕ)
    (messages : List Bytes) :
    WellFormed (addFrom unicode terms row messages) ∧
      ∀ key, rowsIn (addFrom unicode terms row messages) key =
        rowsIn terms key ++ rowsFromRow unicode key row messages := by
  induction messages generalizing terms row with
  | nil => exact ⟨hterms, fun key ↦ by simp [addFrom, rowsFromRow]⟩
  | cons message messages ih =>
    obtain ⟨hadded, hrows⟩ := foldl_addToken hterms row (nodup_tokenizeUnique unicode message)
    obtain ⟨hformed, hrest⟩ := ih hadded (row + 1)
    refine ⟨hformed, fun key ↦ ?_⟩
    rw [addFrom, add, hrest, hrows, rowsFromRow, append_assoc]

theorem rowsFromRow_eq (unicode : Unicode) (token : Bytes) (row : ℕ) (messages : List Bytes) :
    rowsFromRow unicode token row messages = (rowsOf unicode messages token).map (row + ·) := by
  induction messages generalizing row with
  | nil => rfl
  | cons message messages ih =>
    have hshift : (row + ·) ∘ Nat.succ = (row + 1 + ·) := by
      funext index
      simp only [Function.comp_apply]
      omega
    rw [rowsFromRow, ih, rowsOf, rowsOf, length_cons, range_succ_eq_map, filter_cons, filter_map]
    simp only [Function.comp_def, getD_cons_succ, getD_cons_zero]
    by_cases hfirst : token ∈ tokenizeUnique unicode message
    · simp only [hfirst, decide_true, if_true, map_cons, map_map, hshift, Nat.add_zero,
        singleton_append]
    · simp only [hfirst, decide_false, if_false, map_map, hshift, nil_append, Bool.false_eq_true]

theorem build_spec (unicode : Unicode) (messages : List Bytes) :
    WellFormed (build unicode messages) ∧
      ∀ token, rowsIn (build unicode messages) token = rowsOf unicode messages token := by
  obtain ⟨hformed, hrows⟩ := addFrom_spec unicode (⟨nodup_nil, by simp⟩ : WellFormed []) 0 messages
  refine ⟨hformed, fun token ↦ ?_⟩
  rw [build, hrows, rowsFromRow_eq]
  simp [rowsIn]

theorem rowsIn_of_mem {terms : Terms} (hnodup : (terms.map Prod.fst).Nodup) {term : Bytes}
    {rows : List ℕ} (hentry : (term, rows) ∈ terms) : rowsIn terms term = rows := by
  induction terms with
  | nil => exact absurd hentry not_mem_nil
  | cons head terms ih =>
    obtain ⟨key, others⟩ := head
    obtain ⟨hfresh, hrest⟩ := nodup_cons.mp hnodup
    rcases mem_cons.mp hentry with heq | htail
    · cases heq
      simp [rowsIn]
    · have hkey : term ∈ terms.map Prod.fst := mem_map.mpr ⟨_, htail, rfl⟩
      have hne : key ≠ term := fun heq ↦ hfresh (heq ▸ hkey)
      rw [rowsIn, if_neg hne, ih hrest htail]

theorem mem_of_rowsIn_ne_nil {terms : Terms} {term : Bytes} (hrows : rowsIn terms term ≠ []) :
    (term, rowsIn terms term) ∈ terms := by
  induction terms with
  | nil => exact absurd rfl hrows
  | cons head terms ih =>
    rw [rowsIn] at hrows ⊢
    split_ifs at hrows ⊢ with hkey
    · exact hkey ▸ mem_cons_self ..
    · exact mem_cons_of_mem _ (ih hrows)

section

variable (unicode : Unicode) (messages : List Bytes) (token : Bytes)

/-- The index has an entry for a token exactly if a message has it. -/
theorem mem_build (rows : List ℕ) :
    (token, rows) ∈ build unicode messages ↔ rows = rowsOf unicode messages token ∧ rows ≠ [] := by
  obtain ⟨hformed, hrows⟩ := build_spec unicode messages
  constructor
  · intro hentry
    have heq := rowsIn_of_mem hformed.nodup hentry
    exact ⟨by rw [← heq, hrows], hformed.nonempty _ hentry⟩
  · rintro ⟨rfl, hne⟩
    have hmem := mem_of_rowsIn_ne_nil (hrows token ▸ hne)
    rwa [hrows] at hmem

theorem pairwise_rowsOf : (rowsOf unicode messages token).Pairwise (· < ·) :=
  Pairwise.filter _ pairwise_lt_range

theorem rowsOf_lt : ∀ row ∈ rowsOf unicode messages token, row < messages.length :=
  fun _ hrow ↦ mem_range.mp (mem_of_mem_filter hrow)

end

section

variable {unicode : Unicode} {messages : List Bytes} {token : Bytes}

theorem mem_rowsOf {row : ℕ} : row ∈ rowsOf unicode messages token ↔
      row < messages.length ∧ token ∈ tokenizeUnique unicode (messages.getD row []) := by
  simp [rowsOf]

theorem rowsOf_ne_nil : rowsOf unicode messages token ≠ [] ↔
      ∃ message ∈ messages, token ∈ tokenizeUnique unicode message := by
  constructor
  · intro hne
    obtain ⟨row, hrow⟩ := exists_mem_of_ne_nil _ hne
    obtain ⟨hbound, htoken⟩ := mem_rowsOf.mp hrow
    rw [getD_eq_getElem _ _ hbound] at htoken
    exact ⟨messages[row], getElem_mem hbound, htoken⟩
  · rintro ⟨message, hmessage, htoken⟩
    obtain ⟨row, hbound, rfl⟩ := getElem_of_mem hmessage
    rw [← getD_eq_getElem _ [] hbound] at htoken
    exact ne_nil_of_mem (mem_rowsOf.mpr ⟨hbound, htoken⟩)

end

/-! ### The order of the terms -/

theorem bytesLe_iff {text other : Bytes} :
    bytesLe text other ↔ text.map UInt8.toNat ≤ other.map UInt8.toNat := by
  simp [bytesLe]

theorem bytesLe_antisymm {text other : Bytes} (hle : bytesLe text other) (hge : bytesLe other text) :
    text = other :=
  (map_injective_iff.mpr fun _ _ ↦ UInt8.toNat_inj.mp)
    (le_antisymm (bytesLe_iff.mp hle) (bytesLe_iff.mp hge))

theorem bytesLe_trans {text middle other : Bytes} (hfirst : bytesLe text middle)
    (hsecond : bytesLe middle other) : bytesLe text other :=
  bytesLe_iff.mpr (le_trans (bytesLe_iff.mp hfirst) (bytesLe_iff.mp hsecond))

theorem bytesLe_total (text other : Bytes) : bytesLe text other || bytesLe other text := by
  rw [Bool.or_eq_true, bytesLe_iff, bytesLe_iff]
  exact le_total _ _

theorem bytesLe_refl (text : Bytes) : bytesLe text text := bytesLe_iff.mpr le_rfl

/-- The terms in strictly ascending order. -/
def Ascending (terms : List Bytes) : Prop :=
  terms.Pairwise fun first second ↦ bytesLe first second ∧ first ≠ second

theorem sortTerms_perm (terms : Terms) : (sortTerms terms).Perm terms := mergeSort_perm _ _

theorem ascending_sortTerms {terms : Terms} (hnodup : (terms.map Prod.fst).Nodup) :
    Ascending ((sortTerms terms).map Prod.fst) := by
  have hsorted : (sortTerms terms).Pairwise fun first second ↦ bytesLe first.1 second.1 :=
    pairwise_mergeSort
      (fun first middle last ↦ @bytesLe_trans first.1 middle.1 last.1)
      (fun first second ↦ bytesLe_total first.1 second.1) terms
  have hdistinct : ((sortTerms terms).map Prod.fst).Nodup :=
    ((sortTerms_perm terms).map Prod.fst).nodup_iff.mpr hnodup
  exact (pairwise_map.mpr hsorted).and hdistinct

end OpenTrace.Index
