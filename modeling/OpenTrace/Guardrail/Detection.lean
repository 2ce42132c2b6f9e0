import OpenTrace.Guardrail.Agreement

/-!
# What the check finds

A text spells a list of tokens if they stand in it one after the other, with white space where it is
needed (`Spells`); the rendering of some pieces spells their tokens. Whatever the guardrail does to the
text before its checks, collapsing blanks, trimming both ends and upper-casing (`Cleaned`), a write in
the tokens is found in the result, and so is a second statement.
-/

namespace OpenTrace.Guardrail

open Library List Bool

/-! ### Spelling -/

def ShowsToken (shown : Bytes) : Token → Prop
  | .word text => shown = text ∧ text ≠ [] ∧ ∀ byte ∈ text, isWordByte byte = true
  | .quoted name => Plain name ∧ shown = unquoted name
  | .literal => shown = maskedLiteral ∨ ∃ content, Plain content ∧ shown = unquoted content
  | .symbol byte => shown = [byte] ∧ isWordByte byte = false ∧ isBlank byte = false

/-- No word goes on at the start of the text. -/
def StartsApart (text : Bytes) : Prop := ∀ byte, text.head? = some byte → isWordByte byte = false

inductive Spells : List Token → Bytes → Prop
  | nil {text : Bytes} (htext : ∀ byte ∈ text, isSpaceByte byte = true) : Spells [] text
  | cons {token : Token} {tokens : List Token} {spaces shown text : Bytes}
    (hspaces : ∀ byte ∈ spaces, isSpaceByte byte = true) (hshown : ShowsToken shown token)
    (hapart : ∀ word, token = .word word → StartsApart text) (htext : Spells tokens text) :
    Spells (token :: tokens) (spaces ++ (shown ++ text))

variable {tokens : List Token} {byte : UInt8} {text : Bytes} {token : Token} {test : UInt8 → Bool}
  (prevSpace : Bool)

theorem Spells.space {spaces text : Bytes} (hspaces : ∀ byte ∈ spaces, isSpaceByte byte = true)
    (htext : Spells tokens text) :
    Spells tokens (spaces ++ text) := by
  cases htext with
  | nil htext => exact .nil (forall_mem_append.mpr ⟨hspaces, htext⟩)
  | cons hmore hshown hapart htext =>
    rw [← append_assoc]
    exact .cons (forall_mem_append.mpr ⟨hspaces, hmore⟩) hshown hapart htext

/-- A word in front of the text. -/
theorem Spells.word {word text : Bytes} (hword : ∀ byte ∈ word, isWordByte byte = true)
    (hapart : StartsApart text) (htext : Spells tokens text) :
    Spells (wordToken word ++ tokens) (word ++ text) := by
  unfold wordToken
  split_ifs with hempty
  · rw [hempty]
    exact htext
  · exact .cons (fun _ hmem ↦ absurd hmem not_mem_nil) ⟨rfl, hempty, hword⟩ (fun _ _ ↦ hapart)
      htext

theorem isWordByte_of_isSpaceByte (hspace : isSpaceByte byte = true) : isWordByte byte = false := by
  simp only [isSpaceByte, or_eq_true, beq_iff_eq] at hspace
  rcases hspace with ((rfl | rfl) | rfl) | rfl <;> decide

theorem startsApart_unquoted (content text : Bytes) : StartsApart (unquoted content ++ text) := by
  intro byte hhead
  cases hhead
  decide

theorem startsApart_masked (text : Bytes) : StartsApart (maskedLiteral ++ text) := by
  intro byte hhead
  cases hhead
  decide

/-- The rendering of some pieces, behind the bytes of a word, spells their tokens. -/
theorem Renders.spells {pieces : List Piece} (hrenders : Renders pieces text) {word : Bytes}
    (hword : ∀ byte ∈ word, isWordByte byte = true) :
    Spells (tokensFrom word pieces) (word ++ text) := by
  have hnone : ∀ byte ∈ ([] : Bytes), isWordByte byte = true := fun _ hmem ↦ absurd hmem not_mem_nil
  have hnospace : ∀ byte ∈ ([] : Bytes), isSpaceByte byte = true := fun _ hmem ↦
    absurd hmem not_mem_nil
  induction hrenders generalizing word with
  | nil =>
    have hspells := Spells.word hword (fun _ hhead ↦ by cases hhead) (.nil hnospace)
    rwa [append_nil] at hspells
  | @cons piece pieces shown text hpiece _ ih =>
    have hbehind := ih hnone
    cases piece with
    | space =>
      refine Spells.word hword (fun byte hhead ↦ ?_) (hbehind.space hpiece.2)
      refine isWordByte_of_isSpaceByte (hpiece.2 byte ?_)
      obtain ⟨first, shown, rfl⟩ := exists_cons_of_ne_nil hpiece.1
      cases hhead
      exact mem_cons_self
    | literal =>
      refine Spells.word hword ?_ (.cons hnospace hpiece (fun word hliteral ↦ by cases hliteral) hbehind)
      rcases hpiece with rfl | ⟨content, -, rfl⟩
      · exact startsApart_masked text
      · exact startsApart_unquoted content text
    | quoted name =>
      refine Spells.word hword ?_ (.cons hnospace hpiece (fun word hquoted ↦ by cases hquoted) hbehind)
      rw [hpiece.2]
      exact startsApart_unquoted name text
    | code byte =>
      obtain ⟨rfl, hblank, -⟩ := hpiece
      rw [tokensFrom]
      split_ifs with hbyte
      · rw [← append_assoc]
        exact ih (forall_mem_append.mpr ⟨hword, by simpa using hbyte⟩)
      · have hsymbol := eq_false_of_not_eq_true hbyte
        have hshows : ShowsToken [byte] (.symbol byte) := ⟨rfl, hsymbol, hblank⟩
        refine Spells.word hword (fun first hhead ↦ ?_)
          (.cons hnospace hshows (fun word hword ↦ by cases hword) hbehind)
        cases hhead
        exact hsymbol

/-! ### Names in a text -/

/-- A name stands in the text, behind no identifier byte and before `after`. -/
def Stands (text name after : Bytes) : Prop :=
  ∃ before, text = before ++ (name ++ after) ∧
    ∀ byte, before.getLast? = some byte → isIdentByte byte = false

structure IsName (name : Bytes) : Prop where
  nonempty : name ≠ []
  ident : ∀ byte ∈ name, isIdentByte byte = true

/-- A name that must not stand before `after`. -/
def Writes (name after : Bytes) : Prop :=
  isOneOf writeKeywords name = true ∨ isOneOf functionLikeWriteKeywords name = true ∧
      (after.dropWhile (· == blank)).head? ≠ some openParen ∨
    isDenied name = true ∧ opensCall after = true

/-- A write stands in the text. -/
def Found (text : Bytes) : Prop :=
  ∃ name after, Stands text name after ∧ endsWord after = true ∧ Writes name after

theorem isIdentByte_upperByte (byte : UInt8) : isIdentByte (upperByte byte) = isIdentByte byte := by
  unfold upperByte
  split_ifs with hlower
  · have hsub := toNat_upperByte hlower.1
    simp only [isIdentByte]
    grind
  · rfl

/-- A byte that is no letter is what it was. -/
theorem upperByte_eq_iff {byte other : UInt8} (hother : other.toNat < 65) :
    upperByte byte = other ↔ byte = other := by
  unfold upperByte
  split_ifs with hlower
  · have hsub := toNat_upperByte hlower.1
    rw [← UInt8.toNat_inj, ← UInt8.toNat_inj]
    omega
  · rfl

theorem isName_of_upper {name word : Bytes} (hname : word = name.map upperByte)
    (hword : word ≠ [] ∧ ∀ byte ∈ word, isIdentByte byte = true) : IsName name := by
  subst hname
  refine ⟨fun hempty ↦ hword.1 (by rw [hempty]; rfl), fun byte hbyte ↦ ?_⟩
  rw [← isIdentByte_upperByte]
  exact hword.2 _ (mem_map_of_mem hbyte)

theorem isName_of_isOneOf {words : List String} {name : Bytes}
    (hwords : words.all fun word ↦ ascii word != [] && (ascii word).all isIdentByte)
    (hname : isOneOf words name = true) : IsName name := by
  obtain ⟨word, hmem, hword⟩ := any_eq_true.mp hname
  have hgood := all_eq_true.mp hwords word hmem
  simp only [and_eq_true, bne_iff_ne, all_eq_true] at hgood
  exact isName_of_upper (beq_iff_eq.mp hword) hgood

/-- What is found is a name. -/
theorem Writes.isName {name after : Bytes} (hwrites : Writes name after) : IsName name := by
  rcases hwrites with hwrite | ⟨hwrite, -⟩ | ⟨hdenied, -⟩
  · exact isName_of_isOneOf (by decide +kernel) hwrite
  · exact isName_of_isOneOf (by decide +kernel) hwrite
  · rw [isDenied, or_eq_true, and_eq_true] at hdenied
    rcases hdenied with hexact | ⟨hident, hfamily⟩
    · exact isName_of_isOneOf (by decide +kernel) hexact
    · refine ⟨?_, all_eq_true.mp hident⟩
      rintro rfl
      revert hfamily
      decide +kernel

/-! ### Writes in the tokens -/

theorem endsWord_iff :
    endsWord text = true ↔ ∀ byte, text.head? = some byte → isIdentByte byte = false := by
  unfold endsWord
  cases text.head? with
  | none => simp
  | some byte => simp

theorem StartsApart.endsWord (hapart : StartsApart text) : endsWord text = true := by
  rw [endsWord_iff]
  intro byte hhead
  have hword := hapart byte hhead
  simp only [isWordByte, or_eq_false_iff] at hword
  exact hword.1.1

theorem Plain.exists_cons {content : Bytes} (hplain : Plain content) :
    ∃ byte rest, content = byte :: rest ∧ isSolid byte = true ∧ byte ≠ openParen := by
  obtain ⟨byte, hhead, hsolid, hparen⟩ := hplain.head
  obtain ⟨rest, rfl⟩ := head?_eq_some_iff.mp hhead
  exact ⟨byte, rest, rfl, hsolid, hparen⟩

theorem isBlank_of_isSolid (hsolid : isSolid byte = true) : isBlank byte = false := by
  simp only [isSolid, and_eq_true, not_eq_true'] at hsolid
  exact hsolid.1

theorem isBlank_of_isWordByte (hword : isWordByte byte = true) : isBlank byte = false := by
  by_contra hblank
  rw [not_eq_false] at hblank
  simp only [isWordByte, isIdentByte, isDigitByte, isBlank, or_eq_true, and_eq_true,
    decide_eq_true_eq, beq_iff_eq, ← UInt8.toNat_inj, dollar, blank, UInt8.reduceToNat] at hword hblank
  omega

/-- The first byte of a token that is no white space, and whether it opens a parenthesis. -/
theorem ShowsToken.exists_first {shown : Bytes} (hshown : ShowsToken shown token) :
    ∃ blanks byte rest, shown = blanks ++ byte :: rest ∧ (∀ other ∈ blanks, other = blank) ∧
      isBlank byte = false ∧ (byte = openParen → token = .symbol openParen) ∧
      (byte = semicolon → token = .symbol semicolon) := by
  have hnone : ∀ other ∈ ([] : Bytes), other = blank := fun _ hmem ↦ absurd hmem not_mem_nil
  have hunquoted : ∀ content, Plain content → ∃ blanks byte rest,
      unquoted content = blanks ++ byte :: rest ∧ (∀ other ∈ blanks, other = blank) ∧
      isBlank byte = false ∧ (byte = openParen → token = .symbol openParen) ∧
      (byte = semicolon → token = .symbol semicolon) := by
    intro content hplain
    obtain ⟨byte, rest, rfl, hsolid, hparen⟩ := hplain.exists_cons
    refine ⟨[blank], byte, rest ++ [blank], rfl, by simp, isBlank_of_isSolid hsolid,
      fun hopen ↦ absurd hopen hparen, ?_⟩
    rintro rfl
    cases hsolid
  cases token with
  | word text =>
    obtain ⟨rfl, hempty, hword⟩ := hshown
    obtain ⟨byte, rest, rfl⟩ := exists_cons_of_ne_nil hempty
    have hbyte := hword byte mem_cons_self
    refine ⟨[], byte, rest, rfl, hnone, ?_, ?_, ?_⟩
    · exact isBlank_of_isWordByte hbyte
    · rintro rfl
      cases hbyte
    · rintro rfl
      cases hbyte
  | quoted name =>
    obtain ⟨hplain, rfl⟩ := hshown
    exact hunquoted name hplain
  | literal =>
    rcases hshown with rfl | ⟨content, hplain, rfl⟩
    · exact ⟨[], singleQuote, [singleQuote], rfl, hnone, by decide, fun h ↦ absurd h (by decide),
        fun h ↦ absurd h (by decide)⟩
    · exact hunquoted content hplain
  | symbol byte =>
    obtain ⟨rfl, -, hblank⟩ := hshown
    exact ⟨[], byte, [], rfl, hnone, hblank, fun h ↦ by rw [h], fun h ↦ by rw [h]⟩

/-- Behind blanks, a test for blanks stops at one of them or at the byte that follows. -/
theorem head?_dropWhile_blanks {blanks : Bytes} (rest : Bytes)
    (hblanks : ∀ other ∈ blanks, isBlank other = true) (hbyte : test byte = false) :
    ∃ other, ((blanks ++ byte :: rest).dropWhile test).head? = some other ∧
      (isBlank other = true ∨ other = byte) := by
  induction blanks with
  | nil => exact ⟨byte, by simp [hbyte], .inr rfl⟩
  | cons first blanks ih =>
    rw [forall_mem_cons] at hblanks
    rw [cons_append, dropWhile_cons]
    split_ifs
    · exact ih hblanks.2
    · exact ⟨first, rfl, .inl hblanks.1⟩

/-- The first token does not open a parenthesis, so white space before it leads to none. -/
theorem Spells.first (hspells : Spells tokens text)
    (hparen : tokens.head? ≠ some (.symbol openParen))
    (htest : ∀ byte, test byte = true → isBlank byte = true) :
    (text.dropWhile test).head? ≠ some openParen := by
  cases hspells with
  | nil htext =>
    intro hhead
    have hmem : openParen ∈ text := (dropWhile_sublist test).subset (mem_of_mem_head? hhead)
    cases htext openParen hmem
  | @cons token tokens spaces shown text hspaces hshown _ _ =>
    obtain ⟨blanks, byte, rest, rfl, hblanks, hbyte, hopen, -⟩ := hshown.exists_first
    have hall : ∀ other ∈ spaces ++ blanks, isBlank other = true :=
      forall_mem_append.mpr ⟨fun other hother ↦ isBlank_of_isSpaceByte (hspaces other hother),
        fun other hother ↦ by rw [hblanks other hother]; decide⟩
    have hstop : test byte = false := by
      by_contra hdrop
      rw [not_eq_false] at hdrop
      rw [htest byte hdrop] at hbyte
      cases hbyte
    obtain ⟨other, hother, hcases⟩ := head?_dropWhile_blanks (rest ++ text) hall hstop
    rw [append_assoc, cons_append, ← append_assoc, hother]
    intro heq
    obtain rfl := Option.some.inj heq
    rcases hcases with hblank | hsame
    · cases hblank
    · exact hparen (by rw [head?_cons, hopen hsame.symm])

/-- A test that white space passes leads to the parenthesis of a call. -/
theorem Spells.opensCall (hspells : Spells tokens text)
    (hparen : tokens.head? = some (.symbol openParen)) : opensCall text = true := by
  cases hspells with
  | nil htext => cases hparen
  | @cons token tokens spaces shown text hspaces hshown _ _ =>
    obtain rfl : token = .symbol openParen := Option.some.inj hparen
    obtain ⟨rfl, -, -⟩ := hshown
    rw [Guardrail.opensCall, dropWhile_append_of_pos hspaces]
    rfl

theorem ShowsToken.last {shown : Bytes} (hshown : ShowsToken shown token)
    (hword : ∀ word, token ≠ .word word) : ∃ front byte, shown = front ++ [byte] ∧
      isIdentByte byte = false := by
  cases token with
  | word text => exact absurd rfl (hword text)
  | quoted name => exact ⟨blank :: name, blank, hshown.2, by decide⟩
  | literal =>
    rcases hshown with rfl | ⟨content, -, rfl⟩
    · exact ⟨[singleQuote], singleQuote, rfl, by decide⟩
    · exact ⟨blank :: content, blank, rfl, by decide⟩
  | symbol byte =>
    refine ⟨[], byte, hshown.1, ?_⟩
    have hbyte := hshown.2.1
    simp only [isWordByte, or_eq_false_iff] at hbyte
    exact hbyte.1.1

theorem isIdentByte_of_isSpaceByte (hspace : isSpaceByte byte = true) :
    isIdentByte byte = false := by
  have hword := isWordByte_of_isSpaceByte hspace
  simp only [isWordByte, or_eq_false_iff] at hword
  exact hword.1.1

/-- What stands behind a token stands in the whole text. -/
theorem Stands.behind {spaces shown text name after : Bytes} (hshown : ShowsToken shown token)
    (hapart : ∀ word, token = .word word → StartsApart text) (hname : IsName name)
    (hstands : Stands text name after) :
    Stands (spaces ++ (shown ++ text)) name after := by
  obtain ⟨before, rfl, hbefore⟩ := hstands
  refine ⟨spaces ++ (shown ++ before), by simp, fun byte hlast ↦ ?_⟩
  cases hempty : before.getLast? with
  | some last =>
    rw [getLast?_append, getLast?_append, hempty] at hlast
    obtain rfl := Option.some.inj hlast
    exact hbefore last hempty
  | none =>
    rw [getLast?_eq_none_iff] at hempty
    subst hempty
    rw [append_nil] at hlast
    have hword : ∀ word, token ≠ .word word := by
      rintro word rfl
      obtain ⟨first, rest, rfl⟩ := exists_cons_of_ne_nil hname.nonempty
      have hfirst := hapart word rfl first rfl
      simp only [isWordByte, hname.ident first mem_cons_self] at hfirst
      cases hfirst
    obtain ⟨front, last, rfl, hlast'⟩ := hshown.last hword
    rw [← append_assoc, getLast?_concat] at hlast
    exact Option.some.inj hlast ▸ hlast'

/-- A write in the tokens stands in the text. -/
theorem Spells.writes (hspells : Spells tokens text) (hwrites : writesAnywhere tokens = true) :
    Found text := by
  induction hspells with
  | nil htext => cases hwrites
  | @cons token tokens spaces shown text hspaces hshown hapart htext ih =>
    rw [writesAnywhere, or_eq_true] at hwrites
    rcases hwrites with hhere | hbehind
    · have hspace : ∀ byte, spaces.getLast? = some byte → isIdentByte byte = false :=
        fun byte hlast ↦ isIdentByte_of_isSpaceByte (hspaces byte (mem_of_getLast? hlast))
      cases token with
      | word word =>
        obtain ⟨rfl, -, -⟩ := hshown
        refine ⟨shown, text, ⟨spaces, rfl, hspace⟩, (hapart shown rfl).endsWord, ?_⟩
        simp only [Token.writes, or_eq_true, and_eq_true, bne_iff_ne, beq_iff_eq] at hhere
        rcases hhere with (hwrite | ⟨hwrite, hnext⟩) | ⟨hdenied, hnext⟩
        · exact .inl hwrite
        · refine .inr (.inl ⟨hwrite, htext.first hnext fun byte hbyte ↦ ?_⟩)
          rw [beq_iff_eq.mp hbyte]
          decide
        · exact .inr (.inr ⟨hdenied, htext.opensCall hnext⟩)
      | quoted name =>
        obtain ⟨-, rfl⟩ := hshown
        simp only [Token.writes, and_eq_true, beq_iff_eq] at hhere
        refine ⟨name, blank :: text, ⟨spaces ++ [blank], by simp [unquoted], fun byte hlast ↦ ?_⟩,
          rfl, .inr (.inr ⟨hhere.1, htext.opensCall hhere.2⟩)⟩
        rw [getLast?_concat] at hlast
        exact Option.some.inj hlast ▸ by decide
      | literal => cases hhere
      | symbol byte => cases hhere
    · obtain ⟨name, after, hstands, hends, hwrites⟩ := ih hbehind
      exact ⟨name, after, hstands.behind hshown hapart hwrites.isName, hends, hwrites⟩

/-- A token other than a semicolon leaves a byte that trimming does not cut off. -/
theorem Spells.solid (hspells : Spells tokens text) (hmem : token ∈ tokens)
    (htoken : token ≠ .symbol semicolon) :
    ∃ byte ∈ text, isSolid byte = true := by
  induction hspells with
  | nil htext => cases hmem
  | @cons first tokens spaces shown text _ hshown _ _ ih =>
    rcases mem_cons.mp hmem with rfl | hmem
    · obtain ⟨blanks, byte, rest, rfl, -, hblank, -, hsemicolon⟩ := hshown.exists_first
      refine ⟨byte, by simp, ?_⟩
      rw [isSolid, hblank, Bool.not_false, Bool.true_and, bne_iff_ne]
      exact fun hsame ↦ htoken (hsemicolon hsame)
    · obtain ⟨byte, hbyte, hsolid⟩ := ih hmem
      exact ⟨byte, mem_append_right _ (mem_append_right _ hbyte), hsolid⟩

/-- A second statement: a semicolon with something else behind it. -/
theorem Spells.semicolon (hspells : Spells tokens text) (hsingle : isSingle tokens = false) :
    ∃ before after, text = before ++ semicolon :: after ∧ ∃ byte ∈ after, isSolid byte = true := by
  induction hspells with
  | nil htext => cases hsingle
  | @cons token tokens spaces shown text _ hshown _ htext ih =>
    by_cases htoken : token = .symbol Guardrail.semicolon
    · subst htoken
      obtain ⟨rfl, -, -⟩ := hshown
      have hmore : ∃ other ∈ tokens, other ≠ .symbol Guardrail.semicolon := by
        rw [isSingle] at hsingle
        simpa using hsingle
      obtain ⟨other, hmem, hother⟩ := hmore
      exact ⟨spaces, text, rfl, htext.solid hmem hother⟩
    · rw [isSingle, dropWhile_cons_of_pos (by simpa using htoken)] at hsingle
      obtain ⟨before, after, rfl, hsolid⟩ := ih hsingle
      exact ⟨spaces ++ (shown ++ before), after, by simp, hsolid⟩

/-! ### Cleaning -/

theorem collapseFrom_append (before : Bytes) :
    ∃ prevSpace', ∀ after, collapseFrom prevSpace (before ++ after) =
      collapseFrom prevSpace before ++ collapseFrom prevSpace' after := by
  induction before generalizing prevSpace with
  | nil => exact ⟨prevSpace, fun after ↦ rfl⟩
  | cons byte before ih =>
    by_cases hblank : byte = blank
    · obtain ⟨prevSpace', hafter⟩ := ih true
      refine ⟨prevSpace', fun after ↦ ?_⟩
      rw [cons_append, collapseFrom, collapseFrom, hafter]
      split_ifs <;> rfl
    · obtain ⟨prevSpace', hafter⟩ := ih false
      refine ⟨prevSpace', fun after ↦ ?_⟩
      rw [cons_append, collapseFrom, collapseFrom, if_neg hblank, if_neg hblank, hafter]
      rfl

/-- Bytes other than blanks stay. -/
theorem collapseFrom_solid {solid : Bytes} (hnonempty : solid ≠ [])
    (hsolid : ∀ byte ∈ solid, byte ≠ blank) (prevSpace : Bool) (after : Bytes) :
    collapseFrom prevSpace (solid ++ after) = solid ++ collapseFrom false after := by
  induction solid generalizing prevSpace with
  | nil => exact absurd rfl hnonempty
  | cons byte solid ih =>
    rw [forall_mem_cons] at hsolid
    rw [cons_append, collapseFrom, if_neg hsolid.1]
    cases solid with
    | nil => rfl
    | cons next solid =>
      rw [ih (by simp) hsolid.2]
      rfl

theorem mem_collapseFrom {text : Bytes} {byte : UInt8} (hbyte : byte ≠ blank) (hmem : byte ∈ text)
    (prevSpace : Bool) : byte ∈ collapseFrom prevSpace text := by
  induction text generalizing prevSpace with
  | nil => cases hmem
  | cons first text ih =>
    rw [collapseFrom]
    rcases mem_cons.mp hmem with rfl | hmem
    · rw [if_neg hbyte]
      exact mem_cons_self
    · split_ifs
      · exact ih hmem true
      · exact mem_cons_of_mem _ (ih hmem true)
      · exact mem_cons_of_mem _ (ih hmem false)

theorem collapseFrom_false_eq_nil (hnil : collapseFrom false text = []) : text = [] := by
  cases text with
  | nil => rfl
  | cons byte text =>
    rw [collapseFrom] at hnil
    split_ifs at hnil with hblank hprev
    cases hprev

/-- The last byte is a blank or the one it was. -/
theorem getLast?_collapseFrom (hlast : (collapseFrom prevSpace text).getLast? = some byte) :
    byte = blank ∨ text.getLast? = some byte := by
  have hcons : ∀ {first : UInt8} {rest : Bytes}, rest.getLast? = some byte →
      (first :: rest).getLast? = some byte := by
    intro first rest hrest
    rw [getLast?_cons, hrest]
    rfl
  induction text generalizing prevSpace with
  | nil => cases hlast
  | cons first text ih =>
    rw [collapseFrom] at hlast
    split_ifs at hlast with hblank hprev
    · exact (ih true hlast).imp_right hcons
    · rw [getLast?_cons] at hlast
      cases hrest : (collapseFrom true text).getLast? with
      | none =>
        rw [hrest] at hlast
        exact .inl (Option.some.inj hlast).symm
      | some last =>
        rw [hrest] at hlast
        obtain rfl := Option.some.inj hlast
        exact (ih true hrest).imp_right hcons
    · rw [getLast?_cons] at hlast
      cases hrest : (collapseFrom false text).getLast? with
      | none =>
        rw [hrest] at hlast
        rw [getLast?_eq_none_iff] at hrest
        rw [collapseFrom_false_eq_nil hrest]
        exact .inr hlast
      | some last =>
        rw [hrest] at hlast
        obtain rfl := Option.some.inj hlast
        exact (ih false hrest).imp_right hcons

/-- A test that blanks pass stops at the same byte. -/
theorem head?_dropWhile_collapseFrom {test : UInt8 → Bool} (htest : test blank = true)
    (prevSpace : Bool) (text : Bytes) :
    ((collapseFrom prevSpace text).dropWhile test).head? = (text.dropWhile test).head? := by
  induction text generalizing prevSpace with
  | nil => rfl
  | cons byte text ih =>
    rw [collapseFrom]
    by_cases hblank : byte = blank
    · subst hblank
      rw [if_pos rfl, dropWhile_cons_of_pos htest]
      split_ifs
      · exact ih true
      · rw [dropWhile_cons_of_pos htest]
        exact ih true
    · rw [if_neg hblank, dropWhile_cons, dropWhile_cons]
      split_ifs
      · exact ih false
      · rfl

theorem head?_collapseFrom_false (text : Bytes) : (collapseFrom false text).head? = text.head? := by
  cases text with
  | nil => rfl
  | cons byte text =>
    rw [collapseFrom]
    split_ifs with hblank hprev
    · cases hprev
    · rw [hblank]
      rfl
    · rfl

theorem IsName.ne_blank {name : Bytes} (hname : IsName name) : ∀ byte ∈ name, byte ≠ blank := by
  rintro byte hbyte rfl
  cases hname.ident _ hbyte

/-! ### What is found -/

theorem Stands.collapse {text name after : Bytes} (hstands : Stands text name after)
    (hname : IsName name) (prevSpace : Bool) :
    Stands (collapseFrom prevSpace text) name (collapseFrom false after) := by
  obtain ⟨before, rfl, hbefore⟩ := hstands
  obtain ⟨prevSpace', happend⟩ := collapseFrom_append prevSpace before
  refine ⟨collapseFrom prevSpace before, ?_, fun byte hlast ↦ ?_⟩
  · rw [happend, collapseFrom_solid hname.nonempty hname.ne_blank]
  · rcases getLast?_collapseFrom prevSpace hlast with rfl | hlast
    · decide
    · exact hbefore byte hlast

theorem Found.collapse {text : Bytes} (hfound : Found text) (prevSpace : Bool) :
    Found (collapseFrom prevSpace text) := by
  obtain ⟨name, after, hstands, hends, hwrites⟩ := hfound
  refine ⟨name, collapseFrom false after, hstands.collapse hwrites.isName prevSpace, ?_, ?_⟩
  · rwa [endsWord, head?_collapseFrom_false]
  · refine hwrites.imp id (Or.imp (And.imp id ?_) (And.imp id ?_))
    · rw [head?_dropWhile_collapseFrom rfl]
      exact id
    · rw [opensCall, opensCall, head?_dropWhile_collapseFrom rfl]
      exact id

/-- Trimming leaves what stands in a text. -/
theorem Stands.trim {lead middle tail name after : Bytes}
    (hstands : Stands (lead ++ (middle ++ tail)) name after) (hname : IsName name)
    (hlead : ∀ byte ∈ lead, isIdentByte byte = false)
    (htail : ∀ byte ∈ tail, isIdentByte byte = false) :
    ∃ after', Stands middle name after' ∧ after = after' ++ tail := by
  have hnot : ∀ {bytes : Bytes}, (∀ byte ∈ bytes, isIdentByte byte = false) →
      ∀ byte ∈ name, byte ∉ bytes := by
    intro bytes hbytes byte hbyte hmem
    have hident := hname.ident byte hbyte
    rw [hbytes byte hmem] at hident
    cases hident
  obtain ⟨before, hsplit, hbefore⟩ := hstands
  obtain ⟨first, rest, rfl⟩ := exists_cons_of_ne_nil hname.nonempty
  -- the name starts behind the lead
  have hstart : ∃ before', before = lead ++ before' ∧
      middle ++ tail = before' ++ (first :: rest ++ after) := by
    rcases append_eq_append_iff.mp hsplit with ⟨before', hbefore', hmiddle⟩ | ⟨extra, hextra, hrest⟩
    · exact ⟨before', hbefore', hmiddle⟩
    · cases extra with
      | nil => exact ⟨[], by simpa using hextra.symm, by simpa using hrest.symm⟩
      | cons byte extra =>
        obtain ⟨rfl, -⟩ := cons.inj hrest
        exact absurd (by rw [hextra]; simp) (hnot hlead first mem_cons_self)
  obtain ⟨before', rfl, hrest⟩ := hstart
  have hboundary : ∀ byte, before'.getLast? = some byte → isIdentByte byte = false := fun byte hlast ↦
    hbefore byte (by rw [getLast?_append, hlast]; rfl)
  -- and ends before the tail
  rcases append_eq_append_iff.mp hrest with ⟨extra, -, hname'⟩ | ⟨inner, hmiddle, hafter⟩
  · exact absurd (by rw [hname']; simp) (hnot htail first mem_cons_self)
  · rcases append_eq_append_iff.mp hafter with ⟨after', hinner, hafter'⟩ | ⟨extra, hname', htail'⟩
    · exact ⟨after', ⟨before', by rw [hmiddle, hinner], hboundary⟩, hafter'⟩
    · cases extra with
      | nil =>
        rw [append_nil] at hname'
        exact ⟨[], ⟨before', by rw [hmiddle, hname', append_nil], hboundary⟩, htail'.symm⟩
      | cons byte extra =>
        exact absurd (by rw [htail']; simp) (hnot htail byte (by rw [hname']; simp))

theorem head?_dropWhile_append {after tail : Bytes} (htail : byte ∉ tail) (test : UInt8 → Bool) :
    ((after ++ tail).dropWhile test).head? = some byte ↔ (after.dropWhile test).head? = some byte := by
  induction after with
  | nil =>
    refine ⟨fun hhead ↦ absurd ?_ htail, fun hhead ↦ by cases hhead⟩
    exact (dropWhile_sublist test).subset (mem_of_mem_head? hhead)
  | cons first after ih =>
    rw [cons_append, dropWhile_cons, dropWhile_cons]
    split_ifs
    · exact ih
    · rfl

/-- Blanks and semicolons, which hold no part of a write. -/
def IsEnd (text : Bytes) : Prop := ∀ byte ∈ text, isBlank byte = true ∨ byte = semicolon

theorem IsEnd.ident (hend : IsEnd text) : ∀ byte ∈ text, isIdentByte byte = false := by
  intro byte hbyte
  by_contra hident
  rw [not_eq_false] at hident
  have hword : isWordByte byte = true := by rw [isWordByte, hident]; rfl
  rcases hend byte hbyte with hblank | rfl
  · rw [isBlank_of_isWordByte hword] at hblank
    cases hblank
  · cases hword

theorem IsEnd.openParen (hend : IsEnd text) : openParen ∉ text := by
  intro hmem
  rcases hend _ hmem with hblank | hsame
  · cases hblank
  · cases hsame

theorem Found.trim {lead middle tail : Bytes} (hfound : Found (lead ++ (middle ++ tail)))
    (hlead : IsEnd lead) (htail : IsEnd tail) : Found middle := by
  obtain ⟨name, after, hstands, hends, hwrites⟩ := hfound
  obtain ⟨after', hstands', rfl⟩ := hstands.trim hwrites.isName hlead.ident htail.ident
  refine ⟨name, after', hstands', ?_, hwrites.imp id (Or.imp (And.imp id ?_) (And.imp id ?_))⟩
  · rw [endsWord_iff] at hends ⊢
    intro byte hhead
    exact hends byte (by rw [head?_append, hhead]; rfl)
  · exact mt (head?_dropWhile_append htail.openParen _).mpr
  · rw [opensCall, opensCall, beq_iff_eq, beq_iff_eq]
    exact (head?_dropWhile_append htail.openParen _).mp

/-! ### Upper case -/

theorem upperByte_upperByte (byte : UInt8) : upperByte (upperByte byte) = upperByte byte := by
  unfold upperByte
  split_ifs with hlower hupper
  · have hsub := toNat_upperByte hlower.1
    omega
  · rfl
  · rfl

theorem map_upperByte_map_upperByte (text : Bytes) :
    (text.map upperByte).map upperByte = text.map upperByte := by
  rw [map_map]
  exact map_congr_left fun byte _ ↦ upperByte_upperByte byte

theorem isSpaceByte_upperByte (byte : UInt8) : isSpaceByte (upperByte byte) = isSpaceByte byte := by
  rw [Bool.eq_iff_iff]
  simp only [isSpaceByte, or_eq_true, beq_iff_eq]
  rw [upperByte_eq_iff (by decide), upperByte_eq_iff (by decide), upperByte_eq_iff (by decide),
    upperByte_eq_iff (by decide)]

theorem head?_dropWhile_map_upperByte (htest : ∀ byte, test (upperByte byte) = test byte)
    (text : Bytes) : ((text.map upperByte).dropWhile test).head? = some openParen ↔
      (text.dropWhile test).head? = some openParen := by
  have hsame : test ∘ upperByte = test := funext htest
  rw [dropWhile_map, hsame, head?_map, Option.map_eq_some_iff]
  constructor
  · rintro ⟨byte, hhead, hbyte⟩
    rw [upperByte_eq_iff (by decide)] at hbyte
    rwa [hbyte] at hhead
  · intro hhead
    exact ⟨openParen, hhead, by decide⟩

theorem opensCall_map_upperByte (text : Bytes) : opensCall (text.map upperByte) = opensCall text := by
  rw [Bool.eq_iff_iff, opensCall, opensCall, beq_iff_eq, beq_iff_eq]
  exact head?_dropWhile_map_upperByte isSpaceByte_upperByte text

theorem endsWord_map_upperByte (text : Bytes) : endsWord (text.map upperByte) = endsWord text := by
  rw [endsWord, endsWord, head?_map]
  cases text.head? with
  | none => rfl
  | some byte => exact congrArg not (isIdentByte_upperByte byte)

theorem Stands.upper {text name after : Bytes} (hstands : Stands text name after) :
    Stands (text.map upperByte) (name.map upperByte) (after.map upperByte) := by
  obtain ⟨before, rfl, hbefore⟩ := hstands
  refine ⟨before.map upperByte, by simp, fun byte hlast ↦ ?_⟩
  rw [getLast?_map, Option.map_eq_some_iff] at hlast
  obtain ⟨last, hlast, rfl⟩ := hlast
  rw [isIdentByte_upperByte]
  exact hbefore last hlast

/-! ### Finding words -/

theorem getLast?_cons_or (byte : UInt8) (before : Bytes) (previous : Option UInt8) :
    (byte :: before).getLast?.or previous = before.getLast?.or (some byte) := by
  rw [getLast?_cons]
  cases before.getLast? <;> rfl

/-- A word behind no identifier byte is found: no other place overlaps it. -/
theorem findWord_append {word after : Bytes} {accepts : Bytes → Bool} (hword : IsName word)
    (haccepts : accepts after = true) {before : Bytes} {skip : ℕ} {previous : Option UInt8}
    (hskip : skip ≤ before.length)
    (hbefore : ∀ byte, (before.getLast?.or previous) = some byte → isIdentByte byte = false) :
    findWord word accepts skip previous (before ++ (word ++ after)) = true := by
  induction before generalizing skip previous with
  | nil =>
    obtain rfl : skip = 0 := Nat.le_zero.mp hskip
    obtain ⟨first, rest, rfl⟩ := exists_cons_of_ne_nil hword.nonempty
    have hprevious : previous.any isIdentByte = false := by
      cases previous with
      | none => rfl
      | some byte => exact hbefore byte rfl
    have hhere : (first :: rest).isPrefixOf (first :: (rest ++ after)) = true :=
      isPrefixOf_iff_prefix.mpr (prefix_append _ _)
    rw [nil_append, cons_append, findWord, if_pos hhere, hprevious, ← cons_append,
      drop_left, haccepts]
    rfl
  | cons byte before ih =>
    have hnext : ∀ last, (before.getLast?.or (some byte)) = some last → isIdentByte last = false := by
      intro last hlast
      exact hbefore last ((getLast?_cons_or ..).trans hlast)
    cases skip with
    | succ skip =>
      exact ih (Nat.le_of_succ_le_succ hskip) hnext
    | zero =>
      rw [cons_append, findWord]
      split_ifs with hhere
      · have hshort : word.length - 1 ≤ before.length := by
          by_contra hlong
          have hstart : byte :: before <+: word :=
            prefix_of_prefix_length_le (prefix_append _ _)
              ( isPrefixOf_iff_prefix.mp hhere) (by rw [length_cons]; omega)
          obtain ⟨last, hlast⟩ := Option.ne_none_iff_exists'.mp
            (mt getLast?_eq_none_iff.mp (cons_ne_nil byte before))
          have hident := hword.ident last (hstart.subset (mem_of_getLast? hlast))
          rw [hbefore last (by rw [hlast]; rfl)] at hident
          cases hident
        rw [ih hshort hnext, Bool.or_true]
      · exact ih (Nat.zero_le _) hnext

theorem Stands.find {text word after : Bytes} (hstands : Stands text word after) (hword : IsName word)
    {accepts : Bytes → Bool} (haccepts : accepts after = true) :
    findWord word accepts 0 none text = true := by
  obtain ⟨before, rfl, hbefore⟩ := hstands
  exact findWord_append hword haccepts (Nat.zero_le _) fun byte hlast ↦
    hbefore byte (by rwa [Option.or_none] at hlast)

/-- What is found stands in the text. -/
theorem exists_of_findWord {word : Bytes} {accepts : Bytes → Bool} {skip : ℕ} {previous : Option UInt8}
    (hfound : findWord word accepts skip previous text = true) :
    ∃ before after, text = before ++ (word ++ after) ∧ accepts after = true ∧
      ∀ byte, before.getLast?.or previous = some byte → isIdentByte byte = false := by
  induction text generalizing skip previous with
  | nil => cases skip <;> cases hfound
  | cons byte rest ih =>
    have hbehind {skip : ℕ} (hfound : findWord word accepts skip (some byte) rest = true) :
        ∃ before after, byte :: rest = before ++ (word ++ after) ∧ accepts after = true ∧
          ∀ byte, before.getLast?.or previous = some byte → isIdentByte byte = false := by
      obtain ⟨before, after, rfl, haccepts, hbefore⟩ := ih hfound
      refine ⟨byte :: before, after, rfl, haccepts, fun last hlast ↦ hbefore last ?_⟩
      rwa [getLast?_cons_or] at hlast
    cases skip with
    | succ skip => exact hbehind hfound
    | zero =>
      rw [findWord] at hfound
      split_ifs at hfound with hhere
      · rw [or_eq_true, and_eq_true, not_eq_true'] at hfound
        rcases hfound with ⟨hprevious, haccepts⟩ | hfound
        · obtain ⟨after, hafter⟩ := isPrefixOf_iff_prefix.mp hhere
          rw [← hafter, drop_left] at haccepts
          refine ⟨[], after, hafter.symm, haccepts, fun last hlast ↦ ?_⟩
          obtain rfl : previous = some last := hlast
          exact hprevious
        · exact hbehind hfound
      · exact hbehind hfound

theorem findWord_iff {word : Bytes} {accepts : Bytes → Bool} (hword : IsName word) :
    findWord word accepts 0 none text = true ↔ ∃ after, Stands text word after ∧ accepts after = true := by
  constructor
  · intro hfound
    obtain ⟨before, after, htext, haccepts, hbefore⟩ := exists_of_findWord hfound
    refine ⟨after, ⟨before, htext, fun byte hlast ↦ hbefore byte ?_⟩, haccepts⟩
    rw [hlast, Option.some_or]
  · rintro ⟨after, hstands, haccepts⟩
    exact hstands.find hword haccepts

/-- An opening parenthesis comes after bytes of the kind. -/
def Opens (test : UInt8 → Bool) (text : Bytes) : Prop :=
  ∃ gap tail, text = gap ++ openParen :: tail ∧ ∀ byte ∈ gap, test byte = true

theorem opens_iff (hparen : test openParen = false) :
    Opens test text ↔ (text.dropWhile test).head? = some openParen := by
  constructor
  · rintro ⟨gap, tail, rfl, hgap⟩
    rw [dropWhile_append_of_pos hgap, dropWhile_cons_of_neg (by simp [hparen]), head?_cons]
  · intro hhead
    obtain ⟨tail, htail⟩ := head?_eq_some_iff.mp hhead
    refine ⟨text.takeWhile test, tail, ?_, fun byte ↦ mem_takeWhile_imp⟩
    rw [← htail, takeWhile_append_dropWhile]

theorem opensCall_iff : opensCall text = true ↔ Opens isSpaceByte text := by
  rw [opensCall, beq_iff_eq, opens_iff (by decide)]

/-- The rest of an identifier, and the text behind it. -/
theorem opensCall_dropWhile_iff : opensCall (text.dropWhile isIdentByte) = true ↔
    ∃ more after, text = more ++ after ∧ (∀ byte ∈ more, isIdentByte byte = true) ∧
      endsWord after = true ∧ Opens isSpaceByte after := by
  rw [opensCall_iff]
  constructor
  · intro hopens
    refine ⟨text.takeWhile isIdentByte, _, takeWhile_append_dropWhile.symm,
      fun byte ↦ mem_takeWhile_imp, endsWord_iff.mpr fun byte hbyte ↦ ?_, hopens⟩
    simpa [hbyte] using head?_dropWhile_not isIdentByte text
  · rintro ⟨more, after, rfl, hmore, hends, hopens⟩
    rw [dropWhile_append_of_pos hmore]
    cases after with
    | nil => exact hopens
    | cons byte after => rwa [dropWhile_cons_of_neg (by simp [endsWord_iff.mp hends byte rfl])]

/-- The word matchers find a word exactly if it stands in the text with what they ask for behind it. -/
theorem word_search_complete {word : Bytes} (hnonempty : word ≠ [])
    (hident : ∀ byte ∈ word, isIdentByte byte = true) (text : Bytes) :
    (containsWord text word = true ↔ ∃ after, Stands text word after ∧ endsWord after = true) ∧
    (containsWordNotCall text word = true ↔
      ∃ after, Stands text word after ∧ endsWord after = true ∧ ¬ Opens (· == blank) after) ∧
    (hasFunctionCall text word false = true ↔
      ∃ after, Stands text word after ∧ endsWord after = true ∧ Opens isSpaceByte after) ∧
    (hasFunctionCall text word true = true ↔
      ∃ more after, Stands text word (more ++ after) ∧ (∀ byte ∈ more, isIdentByte byte = true) ∧
        endsWord after = true ∧ Opens isSpaceByte after) := by
  have hword : IsName word := ⟨hnonempty, hident⟩
  refine ⟨findWord_iff hword, (findWord_iff hword).trans ?_, (findWord_iff hword).trans ?_,
    (findWord_iff hword).trans ?_⟩
  · have hopens {after : Bytes} : Opens (· == blank) after ↔ _ := opens_iff (by decide)
    simp only [and_eq_true, bne_iff_ne, hopens]
  · simp only [false_eq_true, if_false, and_eq_true, opensCall_iff]
  · simp only [if_true, opensCall_dropWhile_iff]
    constructor
    · rintro ⟨_, hstands, more, after, rfl, hmore⟩
      exact ⟨more, after, hstands, hmore⟩
    · rintro ⟨more, after, hstands, hmore⟩
      exact ⟨_, hstands, more, after, rfl, hmore⟩

theorem word_search_complete_witness : hasFunctionCall [44, 76, 79, 88, 32, 40] [76, 79] true = true :=
  (word_search_complete (by simp) (by simp [isIdentByte]) _).2.2.2.mpr
    ⟨[88], [32, 40], ⟨[44], rfl, by simp [isIdentByte, isDigitByte]⟩, by simp [isIdentByte], rfl,
      [32], [], rfl, by simp [isSpaceByte]⟩

theorem find?_ne_none {words : List String} {test : String → Bool} {word : String} (hword : word ∈ words)
    (htest : test word = true) : words.find? test ≠ none := fun hnone ↦
  find?_eq_none.mp hnone word hword htest

/-- A name of a denied function, as the check writes it: that of one or the start of a family. -/
theorem callsSideEffectingFunction_of_stands {upper name after : Bytes}
    (hstands : Stands upper name after) (hname : IsName name) (hupper : name.map upperByte = name)
    (hdenied : isDenied name = true) (hends : endsWord after = true) (hcall : opensCall after = true) :
    callsSideEffectingFunction upper ≠ none := by
  intro hnone
  rw [callsSideEffectingFunction, Option.or_eq_none_iff] at hnone
  rw [isDenied, or_eq_true, and_eq_true, isOneOf, hupper] at hdenied
  rcases hdenied with hexact | ⟨-, hfamily⟩
  · obtain ⟨function, hmem, hfunction⟩ := any_eq_true.mp hexact
    refine find?_ne_none hmem ?_ hnone.1
    rw [beq_iff_eq.mp hfunction]
    exact hstands.find hname (by simp [hends, hcall])
  · obtain ⟨start, hmem, hstart⟩ := any_eq_true.mp hfamily
    refine find?_ne_none hmem ?_ hnone.2
    obtain ⟨more, rfl⟩ := isPrefixOf_iff_prefix.mp hstart
    have hmore : (more ++ after).dropWhile isIdentByte = after := by
      rw [dropWhile_append_of_pos fun byte hbyte ↦ hname.ident byte (mem_append_right _ hbyte)]
      cases after with
      | nil => rfl
      | cons byte after =>
        rw [dropWhile_cons_of_neg]
        rw [endsWord_iff.mp hends byte rfl]
        exact false_ne_true
    have hnonempty : ∀ start ∈ deniedFuncPrefixes, ascii start ≠ [] := by decide +kernel
    have hstart' : IsName (ascii start) :=
      ⟨hnonempty start hmem, fun byte hbyte ↦ hname.ident byte (mem_append_left _ hbyte)⟩
    obtain ⟨before, rfl, hbefore⟩ := hstands
    have hbehind : Stands (before ++ (ascii start ++ more ++ after)) (ascii start) (more ++ after) :=
      ⟨before, by rw [append_assoc], hbefore⟩
    exact hbehind.find hstart' (by simp [hmore, hcall])

/-- A write is refused. -/
theorem Found.refused (hfound : Found text) :
    checkNoWriteAnywhere (text.map upperByte) ≠ .ok () := by
  obtain ⟨name, after, hstands, hends, hwrites⟩ := hfound
  have hname : IsName (name.map upperByte) := by
    refine ⟨fun hempty ↦ hwrites.isName.nonempty (map_eq_nil_iff.mp hempty), fun byte hbyte ↦ ?_⟩
    obtain ⟨lower, hlower, rfl⟩ := mem_map.mp hbyte
    rw [isIdentByte_upperByte]
    exact hwrites.isName.ident lower hlower
  have hends' : endsWord (after.map upperByte) = true := by rwa [endsWord_map_upperByte]
  intro hok
  rw [checkNoWriteAnywhere] at hok
  split at hok
  · cases hok
  next hkeyword =>
  split at hok
  · cases hok
  next hfunctionLike =>
  split at hok
  · cases hok
  next hcalls =>
  rcases hwrites with hwrite | ⟨hwrite, hnotcall⟩ | ⟨hdenied, hcall⟩
  · obtain ⟨word, hmem, hword⟩ := any_eq_true.mp hwrite
    refine find?_ne_none hmem ?_ hkeyword
    rw [beq_iff_eq.mp hword]
    exact hstands.upper.find hname hends'
  · obtain ⟨word, hmem, hword⟩ := any_eq_true.mp hwrite
    refine find?_ne_none hmem ?_ hfunctionLike
    rw [beq_iff_eq.mp hword]
    refine hstands.upper.find hname ?_
    rw [hends', Bool.true_and, bne_iff_ne]
    refine mt (head?_dropWhile_map_upperByte (fun byte ↦ ?_) after).mp hnotcall
    rw [Bool.eq_iff_iff, beq_iff_eq, beq_iff_eq, upperByte_eq_iff (by decide)]
  · refine callsSideEffectingFunction_of_stands hstands.upper hname (map_upperByte_map_upperByte name) ?_
      hends' (by rwa [opensCall_map_upperByte]) hcalls
    rw [isDenied, isOneOf, map_upperByte_map_upperByte, all_eq_true.mpr hname.ident]
    rw [isDenied, or_eq_true, and_eq_true] at hdenied
    rw [or_eq_true]
    exact hdenied.imp_right And.right

end OpenTrace.Guardrail
