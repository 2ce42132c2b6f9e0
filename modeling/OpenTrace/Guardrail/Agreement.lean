import OpenTrace.Guardrail.Dialect

/-!
# Where the guardrail and a dialect agree

In a query without quirks the normal form of the guardrail shows what the dialect reads: blanks for
white space and comments, an empty literal for a literal, and the bytes of names and of the rest as
they are. `Renders` says so of pieces and a text, and `renders_of_quirks` is the result, by induction
on the length of the query: without a quirk at a place, both scanners take the same bytes there.
-/

namespace OpenTrace.Guardrail

open Library List Option Dialect

/-! ### Bytes -/

theorem isSpace_toNat {byte : UInt8} (hascii : byte.toNat < 0x80) :
    isSpace byte.toNat = isBlank byte := by
  have hblank : (byte == blank) = (byte.toNat == 32) := by
    rw [Bool.eq_iff_iff, beq_iff_eq, beq_iff_eq, ← UInt8.toNat_inj]
    rfl
  rw [isBlank, isSpace]
  grind

theorem isBlank_of_isSpaceByte {byte : UInt8} (hspace : isSpaceByte byte = true) :
    isBlank byte = true := by
  simp only [isSpaceByte, Bool.or_eq_true, beq_iff_eq] at hspace
  rcases hspace with ((rfl | rfl) | rfl) | rfl <;> decide

theorem isAscii_of_isSpaceByte {byte : UInt8} (hspace : isSpaceByte byte = true) :
    byte.toNat < 0x80 := by
  simp only [isSpaceByte, Bool.or_eq_true, beq_iff_eq] at hspace
  rcases hspace with ((rfl | rfl) | rfl) | rfl <;> decide

/-! ### Skipping -/

theorem scan_skip {α : Type} {scan : ℕ → Bytes → α} (hnil : ∀ skip, scan skip [] = scan 0 [])
    (hcons : ∀ skip byte text, scan (skip + 1) (byte :: text) = scan skip text) (skip : ℕ)
    (text : Bytes) : scan skip text = scan 0 (text.drop skip) := by
  induction text generalizing skip with
  | nil => rw [hnil, drop_nil]
  | cons byte text ih =>
    cases skip with
    | zero => rfl
    | succ skip => rw [hcons, ih, drop_succ_cons]

section Skip

variable (dialect : Dialect) (skip : ℕ) (inWord versioned : Bool) (text : Bytes)

theorem normalizeFrom_skip : normalizeFrom skip text = normalizeFrom 0 (text.drop skip) :=
  scan_skip (fun skip ↦ by cases skip <;> rfl) (fun _ _ _ ↦ rfl) skip text

theorem piecesFrom_skip : dialect.piecesFrom skip inWord versioned text =
      dialect.piecesFrom 0 inWord versioned (text.drop skip) :=
  @scan_skip _ (dialect.piecesFrom · inWord versioned) (fun skip ↦ by cases skip <;> rfl)
    (fun _ _ _ ↦ rfl) skip text

theorem quirksFrom_skip : dialect.quirksFrom skip inWord versioned text =
      dialect.quirksFrom 0 inWord versioned (text.drop skip) :=
  @scan_skip _ (dialect.quirksFrom · inWord versioned) (fun skip ↦ by cases skip <;> rfl)
    (fun _ _ _ ↦ rfl) skip text

end Skip

/-! ### Renderings -/

/-- The content of a name or of a literal in double quotes that has no quirk. -/
structure Plain (content : Bytes) : Prop where
  head : ∃ byte, content.head? = some byte ∧ isSolid byte = true ∧ byte ≠ openParen
  ascii : isAscii content = true

def unquoted (content : Bytes) : Bytes := blank :: content ++ [blank]

/-- What the normal form shows of a piece. -/
def RendersPiece (text : Bytes) : Piece → Prop
  | .space => text ≠ [] ∧ ∀ byte ∈ text, isSpaceByte byte = true
  | .literal => text = maskedLiteral ∨ ∃ content, Plain content ∧ text = unquoted content
  | .quoted name => Plain name ∧ text = unquoted name
  | .code byte => text = [byte] ∧ isBlank byte = false ∧ byte.toNat < 0x80

inductive Renders : List Piece → Bytes → Prop
  | nil : Renders [] []
  | cons {piece : Piece} {pieces : List Piece} {shown text : Bytes} (hpiece : RendersPiece shown piece)
    (hpieces : Renders pieces text) : Renders (piece :: pieces) (shown ++ text)

theorem Renders.append {first second : List Piece} {before after : Bytes}
    (hfirst : Renders first before) (hsecond : Renders second after) :
    Renders (first ++ second) (before ++ after) := by
  induction hfirst with
  | nil => exact hsecond
  | cons hpiece _ ih =>
    rw [append_assoc]
    exact .cons hpiece ih

theorem renders_blank : RendersPiece [blank] .space := ⟨by simp, by simp [isSpaceByte]⟩

theorem renders_blanks : RendersPiece [blank, blank] .space := ⟨by simp, by simp [isSpaceByte]⟩

theorem plain_of_nameQuirks {content : Bytes} (hquirks : nameQuirks content = []) : Plain content := by
  simp only [nameQuirks, append_eq_nil_iff, ite_eq_left_iff, reduceCtorEq, imp_false,
    Bool.not_eq_true, Bool.not_eq_false] at hquirks
  refine ⟨?_, hquirks.2⟩
  have hhead := hquirks.1
  cases hcontent : content.head? with
  | none => simp [hcontent] at hhead
  | some byte =>
    simp only [hcontent, any_some, Bool.and_eq_true, bne_iff_ne] at hhead
    exact ⟨byte, rfl, hhead⟩

/-! ### One place -/

/-- Both scanners take the same bytes at a place, and the normal form shows the dialect's piece. -/
structure Agrees (dialect : Dialect) (inWord : Bool) (byte : UInt8) (rest text : Bytes)
    (step : Step) (shown next : Bytes) : Prop where
  reads : dialect.step inWord false byte rest = some step
  plain : step.versioned = false
  normalizes : normalizeFrom 0 (rest.drop step.count) = .ok next
  renders : RendersPiece shown step.piece
  split : text = shown ++ next

abbrev AgreesAt (dialect : Dialect) (inWord : Bool) (byte : UInt8) (rest text : Bytes) : Prop :=
  ∃ step shown next, Agrees dialect inWord byte rest text step shown next

theorem map_eq_ok {α β : Type} {result : Except NormalizeError α} {f : α → β} {value : β}
    (hmap : result.map f = .ok value) : ∃ inner, result = .ok inner ∧ value = f inner := by
  cases result with
  | error error => cases hmap
  | ok inner => exact ⟨inner, rfl, (Except.ok.inj hmap).symm⟩

section Place

variable {dialect : Dialect} {inWord : Bool} {byte : UInt8} {rest text : Bytes}

theorem agrees_singleQuote (hquirks : dialect.quirksAt inWord false singleQuote rest = [])
    (htext : normalizeFrom 0 (singleQuote :: rest) = .ok text) :
    AgreesAt dialect inWord singleQuote rest text := by
  change (if scanQuoted singleQuote true rest =
    scanQuoted singleQuote dialect.backslashEscapes rest then [] else [Quirk.escapedQuote]) = []
    at hquirks
  split_ifs at hquirks with hscan
  rw [normalizeFrom] at htext
  cases hcount : scanQuoted singleQuote true rest with
  | none => simp [hcount] at htext
  | some count =>
    simp only [hcount, normalizeFrom_skip count] at htext
    obtain ⟨next, hnext, rfl⟩ := map_eq_ok htext
    refine ⟨⟨.literal, count, false, false⟩, maskedLiteral, next, ?_, rfl, hnext, .inl rfl, rfl⟩
    rw [step, ← hscan, hcount]
    rfl

theorem agrees_quoted (hbyte : byte = doubleQuote ∨ byte = backquote)
    (hquirks : dialect.quirksAt inWord false byte rest = [])
    (htext : normalizeFrom 0 (byte :: rest) = .ok text) :
    AgreesAt dialect inWord byte rest text := by
  have hsingle : byte ≠ singleQuote := by rcases hbyte with rfl | rfl <;> decide
  have hname : byte = doubleQuote ∨ byte = backquote ∧ dialect.backquotedNames = true := by
    rcases hbyte with rfl | rfl
    · exact .inl rfl
    · refine .inr ⟨rfl, ?_⟩
      by_contra hnone
      rw [quirksAt, Bool.eq_false_of_not_eq_true hnone] at hquirks
      cases hquirks
  rw [normalizeFrom, if_neg hsingle, if_pos hbyte] at htext
  cases hcount : scanQuoted byte false rest with
  | none => simp [hcount] at htext
  | some count =>
    simp only [hcount, normalizeFrom_skip count] at htext
    obtain ⟨next, hnext, rfl⟩ := map_eq_ok htext
    simp only [quirksAt, Bool.false_eq_true, if_false, if_neg hsingle, hcount] at hquirks
    split_ifs at hquirks with hescaped
    have hplain := plain_of_nameQuirks hquirks
    by_cases hliteral : byte = doubleQuote ∧ dialect.doubleQuotedLiterals = true
    · have hscan : some count = scanQuoted byte dialect.backslashEscapes rest := by
        by_contra hne
        exact hescaped ⟨hliteral.1, hliteral.2, hne⟩
      refine ⟨⟨.literal, count, false, false⟩, unquoted (undouble byte (rest.take (count - 1))),
        next, ?_, rfl, hnext, .inr ⟨_, hplain, rfl⟩, by simp [unquoted]⟩
      rw [step, if_neg hsingle, if_pos hliteral, ← hscan]
      rfl
    · refine ⟨⟨.quoted (undouble byte (rest.take (count - 1))), count, false, false⟩,
        unquoted (undouble byte (rest.take (count - 1))), next, ?_, rfl, hnext, ⟨hplain, rfl⟩,
        by simp [unquoted]⟩
      rw [step, if_neg hsingle, if_neg hliteral, if_pos hname, hcount]
      rfl

theorem agrees_dollar (hquirks : dialect.quirksAt inWord false dollar rest = [])
    (htext : normalizeFrom 0 (dollar :: rest) = .ok text) :
    AgreesAt dialect inWord dollar rest text := by
  change (if dialect.dollarAgrees inWord rest = true then [] else [Quirk.dollarQuote]) = [] at hquirks
  split_ifs at hquirks with hagrees
  -- The normal form follows the dialect, which sees a literal or the byte itself.
  have hcases : (∃ count, dialect.step inWord false dollar rest = some ⟨.literal, count, false, false⟩ ∧
      scanDollarQuote rest = some count) ∨
      dialect.step inWord false dollar rest = some ⟨.code dollar, 0, true, false⟩ ∧
        scanDollarQuote rest = none := by
    unfold dollarAgrees at hagrees
    by_cases hquotes : (dialect.dollarQuotes && !inWord) = true
    · rw [if_pos hquotes] at hagrees
      have hquoted := Bool.and_eq_true_iff.mp hquotes
      cases hdollar : dollarQuote rest with
      | absent => exact .inr ⟨step_dollar_absent hquoted hdollar, by simpa [hdollar] using hagrees⟩
      | unclosed => simp [hdollar] at hagrees
      | closed count =>
        exact .inl ⟨count, step_dollar_closed hquoted hdollar, by simpa [hdollar] using hagrees⟩
    · rw [if_neg hquotes] at hagrees
      exact .inr ⟨step_dollar_plain fun hquoted ↦ hquotes (Bool.and_eq_true_iff.mpr hquoted),
        by simpa using hagrees⟩
  rcases hcases with ⟨count, hreads, hscan⟩ | ⟨hreads, hscan⟩
  · rw [normalizeFrom_dollar_some hscan, normalizeFrom_skip count] at htext
    obtain ⟨next, hnext, rfl⟩ := map_eq_ok htext
    exact ⟨_, maskedLiteral, next, hreads, rfl, hnext, .inl rfl, rfl⟩
  · rw [normalizeFrom_dollar_none hscan] at htext
    obtain ⟨next, hnext, rfl⟩ := map_eq_ok htext
    exact ⟨_, [dollar], next, hreads, rfl, hnext, ⟨rfl, by decide, by decide⟩, rfl⟩

theorem agrees_dashes (hquirks : dialect.quirksAt inWord false dash (dash :: rest) = [])
    (htext : normalizeFrom 0 (dash :: dash :: rest) = .ok text) :
    AgreesAt dialect inWord dash (dash :: rest) text := by
  change dialect.dashQuirks (dash :: rest) = [] at hquirks
  have hstep : dialect.step inWord false dash (dash :: rest) =
      if dash = dash ∧ (dash :: rest).head? = some dash ∧ dialect.startsComment rest = true then
        some ⟨.space, dialect.lineLength (dash :: rest), false, false⟩
      else some ⟨.code dash, 0, false, false⟩ := rfl
  have hnormal : normalizeFrom 0 (dash :: dash :: rest) =
      if dash = dash ∧ (dash :: rest).head? = some dash ∧ startsLineComment rest = true then
        (normalizeFrom (lineLength (dash :: rest)) (dash :: rest)).map (blank :: ·)
      else (normalizeFrom 0 (dash :: rest)).map ([dash] ++ ·) := rfl
  unfold dashQuirks at hquirks
  split_ifs at hquirks with hstarts hline
  rw [tail_cons, not_not] at hstarts
  rw [hnormal, hstarts] at htext
  split_ifs at htext with hcomment
  · have hlength : dialect.lineLength (dash :: rest) = lineLength (dash :: rest) := by
      by_contra hne
      exact hline ⟨hcomment.2.2, hne⟩
    rw [normalizeFrom_skip] at htext
    obtain ⟨next, hnext, rfl⟩ := map_eq_ok htext
    refine ⟨_, [blank], next, hstep.trans (if_pos hcomment), rfl, ?_, renders_blank, rfl⟩
    rw [hlength]
    exact hnext
  · obtain ⟨next, hnext, rfl⟩ := map_eq_ok htext
    exact ⟨_, [dash], next, hstep.trans (if_neg hcomment), rfl, hnext, ⟨rfl, by decide, by decide⟩, rfl⟩

/-- A comment whose body is not executed. -/
theorem agrees_comment (hquirks : dialect.quirksAt inWord false slash (star :: rest) = [])
    (hbang : rest.head? ≠ some bang) (htext : normalizeFrom 0 (slash :: star :: rest) = .ok text) :
    AgreesAt dialect inWord slash (star :: rest) text := by
  change dialect.commentQuirks rest = [] at hquirks
  have hstep : dialect.step inWord false slash (star :: rest) =
      if dialect.versionedComments = true ∧ rest.head? = some bang then
        some ⟨.space, 2 + (rest.tail.takeWhile isDigitByte).length, false, true⟩
      else if dialect.nestedComments = true then
        (nestedComment 1 rest).map fun count ↦ ⟨.space, count + 1, false, false⟩
      else
        (index [star, slash] rest).map fun count ↦ ⟨.space, count + 3, false, false⟩ := rfl
  rw [commentQuirks, if_neg hbang] at hquirks
  rw [if_neg fun hboth ↦ hbang hboth.2] at hstep
  cases hindex : index [star, slash] rest with
  | none =>
    rw [normalizeFrom_comment_none (by rw [scanBlockComment, hindex, map_none])] at htext
    cases htext
  | some count =>
    have hbody : (rest.take count).head? ≠ some bang := by
      cases count with
      | zero => simp
      | succ count =>
        rw [head?_take]
        exact hbang
    have hscan : scanBlockComment rest = some (count + 2, []) := by
      simp only [scanBlockComment, hindex, map_some, if_neg hbody]
    rw [normalizeFrom_comment_some hscan, normalizeFrom_skip (count + 2)] at htext
    obtain ⟨next, hnext, rfl⟩ := map_eq_ok htext
    refine ⟨⟨.space, count + 3, false, false⟩, [blank, blank], next, ?_, rfl, hnext, renders_blanks,
      rfl⟩
    rw [hstep]
    by_cases hnested : dialect.nestedComments = true
    · have hsame : nestedComment 1 rest = some (count + 2) := by
        by_contra hne
        rw [if_pos ⟨hnested, by rwa [hindex]⟩] at hquirks
        cases hquirks
      rw [if_pos hnested, hsame]
      rfl
    · rw [if_neg hnested, hindex]
      rfl

/-- Any other byte. -/
theorem agrees_plain (hsingle : byte ≠ singleQuote) (hquoted : ¬ (byte = doubleQuote ∨ byte = backquote))
    (hdollar : byte ≠ dollar) (hcomment : ¬ (byte = slash ∧ rest.head? = some star))
    (hdashes : ¬ (byte = dash ∧ rest.head? = some dash))
    (hquirks : dialect.quirksAt inWord false byte rest = [])
    (htext : normalizeFrom 0 (byte :: rest) = .ok text) :
    AgreesAt dialect inWord byte rest text := by
  rw [not_or] at hquoted
  simp only [quirksAt, Bool.false_eq_true, if_false, if_neg hsingle, hquoted.1, hquoted.2,
    false_and, false_or] at hquirks
  split_ifs at hquirks with hbracket hhash hwide
  have hascii : byte.toNat < 0x80 := Nat.lt_of_not_le hwide
  have hstep : dialect.step inWord false byte rest =
      if isBlank byte = true then some ⟨.space, 0, false, false⟩
      else some ⟨.code byte, 0, isWordByte byte, false⟩ := by
    simp only [step, if_neg hsingle, hquoted.1, hquoted.2, false_and, false_or, if_false,
      if_neg hbracket, hdollar, if_neg hcomment, Bool.false_eq_true, if_neg hhash]
    rw [if_neg fun hboth ↦ hdashes ⟨hboth.1, hboth.2.1⟩]
  rw [normalizeFrom, if_neg hsingle, if_neg (not_or.mpr hquoted), if_neg hdollar, if_neg hcomment,
    if_neg fun hboth ↦ hdashes ⟨hboth.1, hboth.2.1⟩, decodeRune_ascii hascii] at htext
  simp only [isSpace_toNat hascii] at htext
  split_ifs at htext hstep with hblank
  · obtain ⟨next, hnext, rfl⟩ := map_eq_ok htext
    exact ⟨_, [blank], next, hstep, rfl, hnext, renders_blank, rfl⟩
  · obtain ⟨next, hnext, rfl⟩ := map_eq_ok htext
    exact ⟨_, [byte], next, hstep, rfl, hnext,
      ⟨rfl, Bool.eq_false_of_not_eq_true hblank, hascii⟩, rfl⟩

end Place

/-! ### Versioned comments -/

section Versioned

variable {dialect : Dialect}

/-- In the body of a versioned comment the dialect reads byte by byte. -/
theorem step_inside (dialect : Dialect) (inWord : Bool) {byte : UInt8} {rest : Bytes}
    (hodd : isOddInside byte rest = false) (hend : ¬ (byte = star ∧ rest.head? = some slash)) :
    dialect.step inWord true byte rest = (if isBlank byte = true then some ⟨.space, 0, false, true⟩
          else some ⟨.code byte, 0, isWordByte byte, true⟩) ∧
      (isBlank byte = true → isSpaceByte byte = true) ∧ byte.toNat < 0x80 := by
  simp only [isOddInside, Bool.or_eq_false_iff, beq_eq_false_iff_ne, Bool.and_eq_false_imp,
    beq_iff_eq, decide_eq_false_iff_not, Nat.not_le] at hodd
  obtain ⟨⟨⟨⟨⟨⟨⟨⟨⟨⟨hsingle, hdouble⟩, hback⟩, hbracket⟩, hdollar⟩, hhash⟩, hcomment⟩, hdashes⟩, htab⟩,
    hfeed⟩, hascii⟩ := hodd
  refine ⟨?_, fun hblank ↦ ?_, hascii⟩
  · simp only [step, hsingle, hdouble, hback, hbracket, hdollar, hhash, false_and, false_or,
      if_false]
    rw [if_neg fun hboth ↦ hcomment hboth.1 hboth.2, if_neg fun hboth ↦ hend hboth.2,
      if_neg fun hboth ↦ hdashes hboth.1 hboth.2.1]
  · have hcodes : ∀ other : UInt8, byte ≠ other → byte.toNat ≠ other.toNat :=
      fun other hne heq ↦ hne (UInt8.toNat_inj.mp heq)
    have h11 := hcodes 11 htab
    have h12 := hcodes 12 hfeed
    have hcode : byte.toNat = 9 ∨ byte.toNat = 10 ∨ byte.toNat = 13 ∨ byte = blank := by
      simp only [isBlank, Bool.or_eq_true, Bool.and_eq_true, decide_eq_true_eq, beq_iff_eq] at hblank
      rcases hblank with hrange | hblank
      · simp only [UInt8.reduceToNat] at h11 h12
        omega
      · exact .inr (.inr (.inr hblank))
    rcases hcode with hcode | hcode | hcode | rfl
    · obtain rfl : byte = 9 := UInt8.toNat_inj.mp hcode
      decide
    · obtain rfl : byte = 10 := UInt8.toNat_inj.mp hcode
      decide
    · obtain rfl : byte = 13 := UInt8.toNat_inj.mp hcode
      decide
    · decide

theorem renders_versioned {body after : Bytes} {inWord : Bool}
    (hquirks : dialect.quirksFrom 0 inWord true (body ++ star :: slash :: after) = [])
    (hfirst : index [star, slash] (body ++ star :: slash :: after) = some body.length) :
    ∃ pieces, Renders pieces body ∧ dialect.quirksFrom 0 false false after = [] ∧
      dialect.piecesFrom 0 inWord true (body ++ star :: slash :: after) =
        (dialect.piecesFrom 0 false false after).map (pieces ++ Piece.space :: ·) := by
  induction body generalizing inWord with
  | nil => exact ⟨[], .nil, hquirks, rfl⟩
  | cons byte body ih =>
    rw [cons_append] at hquirks hfirst ⊢
    generalize hrest : body ++ star :: slash :: after = rest at hquirks hfirst ih ⊢
    rw [index] at hfirst
    split_ifs at hfirst with hhere
    · cases hfirst
    have hend : ¬ (byte = star ∧ rest.head? = some slash) := by
      rintro ⟨rfl, hslash⟩
      obtain ⟨rest', rfl⟩ := head?_eq_some_iff.mp hslash
      exact hhere rfl
    obtain ⟨count, hcount, hlength⟩ := map_eq_some_iff.mp hfirst
    obtain rfl : count = body.length := Nat.succ.inj hlength
    rw [quirksFrom, append_eq_nil_iff] at hquirks
    have hodd : isOddInside byte rest = false := by
      by_contra hodd
      rw [quirksAt, if_pos rfl, if_pos (by simpa using hodd)] at hquirks
      cases hquirks.1
    obtain ⟨hstep, hblank, hascii⟩ := step_inside dialect inWord hodd hend
    by_cases hspace : isBlank byte = true
    · rw [hstep, if_pos hspace] at hquirks
      obtain ⟨pieces, hpieces, hafter, hreads⟩ := ih hquirks.2 hcount
      have hshown : RendersPiece [byte] .space := ⟨by simp, by simpa using hblank hspace⟩
      refine ⟨.space :: pieces, .cons hshown hpieces, hafter, ?_⟩
      rw [piecesFrom, hstep, if_pos hspace]
      simp only [hreads, Option.map_map]
      rfl
    · rw [hstep, if_neg hspace] at hquirks
      obtain ⟨pieces, hpieces, hafter, hreads⟩ := ih hquirks.2 hcount
      have hshown : RendersPiece [byte] (.code byte) :=
        ⟨rfl, Bool.eq_false_of_not_eq_true hspace, hascii⟩
      refine ⟨.code byte :: pieces, .cons hshown hpieces, hafter, ?_⟩
      rw [piecesFrom, hstep, if_neg hspace]
      simp only [hreads, Option.map_map]
      rfl

/-- The place where a versioned comment starts: its body and what follows. -/
theorem versioned_split {rest text : Bytes}
    (htext : normalizeFrom 0 (slash :: star :: bang :: rest) = .ok text) :
    ∃ body after next, rest.drop (rest.takeWhile isDigitByte).length = body ++ star :: slash :: after ∧
      index [star, slash] (body ++ star :: slash :: after) = some body.length ∧
      normalizeFrom 0 after = .ok next ∧ text = blank :: body ++ blank :: next := by
  have hindex : index [star, slash] (bang :: rest) = (index [star, slash] rest).map (· + 1) := rfl
  cases hcount : index [star, slash] rest with
  | none =>
    rw [normalizeFrom_comment_none (by rw [scanBlockComment, hindex, hcount]; rfl)] at htext
    cases htext
  | some count =>
    obtain ⟨after, hsplit, hlength⟩ := index_eq_some hcount
    have hscan : scanBlockComment (bang :: rest) =
        some (count + 1 + 2, (rest.take count).dropWhile isDigitByte) := by
      rw [scanBlockComment, hindex, hcount]
      rfl
    rw [normalizeFrom_comment_some hscan, normalizeFrom_skip (count + 1 + 2)] at htext
    obtain ⟨next, hnext, rfl⟩ := map_eq_ok htext
    have hbody : rest = (rest.take count).takeWhile isDigitByte ++
        ((rest.take count).dropWhile isDigitByte ++ star :: slash :: after) := by
      rw [← append_assoc]
      simpa using hsplit
    have hdigits : rest.takeWhile isDigitByte = (rest.take count).takeWhile isDigitByte := by
      conv_lhs => rw [hbody]
      rw [takeWhile_append_of_pos fun byte ↦ mem_takeWhile_imp]
      have hstop : ((rest.take count).dropWhile isDigitByte ++ star :: slash :: after).takeWhile
          isDigitByte = [] := by
        have hhead := head?_dropWhile_not isDigitByte (rest.take count)
        cases hdrop : (rest.take count).dropWhile isDigitByte with
        | nil => rfl
        | cons byte body =>
          rw [hdrop] at hhead
          rw [cons_append, takeWhile_cons_of_neg (by simpa using hhead)]
      rw [hstop, append_nil]
    have hdrop : rest.drop (rest.takeWhile isDigitByte).length =
        (rest.take count).dropWhile isDigitByte ++ star :: slash :: after := by
      have hbehind := congrArg (drop ((rest.take count).takeWhile isDigitByte).length) hbody
      rwa [drop_left, ← hdigits] at hbehind
    have hbodyLength : count = (rest.takeWhile isDigitByte).length +
        ((rest.take count).dropWhile isDigitByte).length := by
      rw [hdigits, ← length_append, takeWhile_append_dropWhile, length_take]
      omega
    refine ⟨(rest.take count).dropWhile isDigitByte, after, next, hdrop, ?_, ?_, rfl⟩
    · rw [← hdrop, index_drop hcount (by omega)]
      congr 1
      omega
    · have hafter : rest.drop (count + 2) = after := by
        rw [hsplit, append_assoc, ← drop_drop, drop_left' (length_take_of_le (by omega))]
        rfl
      rw [← hafter]
      exact hnext

end Versioned

/-! ### Queries -/

/-- Without quirks the normal form renders what the dialect reads. -/
theorem renders_of_quirks {dialect : Dialect} {query text : Bytes} {inWord : Bool}
    (hquirks : dialect.quirksFrom 0 inWord false query = [])
    (htext : normalizeFrom 0 query = .ok text) :
    ∃ pieces, dialect.piecesFrom 0 inWord false query = some pieces ∧ Renders pieces text := by
  induction hlength : query.length using Nat.strong_induction_on generalizing query text inWord with
  | h length ih =>
  cases query with
  | nil =>
    cases htext
    exact ⟨[], rfl, .nil⟩
  | cons byte rest =>
    rw [quirksFrom, append_eq_nil_iff] at hquirks
    obtain ⟨hhere, hbehind⟩ := hquirks
    rw [length_cons] at hlength
    -- Where both sides agree on a piece, the induction goes on behind it.
    have hagrees : (AgreesAt dialect inWord byte rest text) →
        ∃ pieces, dialect.piecesFrom 0 inWord false (byte :: rest) = some pieces ∧
          Renders pieces text := by
      rintro ⟨step, shown, next, hagrees⟩
      rw [hagrees.reads] at hbehind
      simp only [quirksFrom_skip dialect step.count, hagrees.plain] at hbehind
      obtain ⟨pieces, hpieces, hrenders⟩ :=
        ih (rest.drop step.count).length (by rw [length_drop]; omega) hbehind hagrees.normalizes rfl
      refine ⟨step.piece :: pieces, ?_, hagrees.split ▸ .cons hagrees.renders hrenders⟩
      rw [piecesFrom, hagrees.reads]
      simp only [piecesFrom_skip dialect step.count, hagrees.plain, hpieces, map_some]
    by_cases hsingle : byte = singleQuote
    · subst hsingle
      exact hagrees (agrees_singleQuote hhere htext)
    by_cases hquoted : byte = doubleQuote ∨ byte = backquote
    · exact hagrees (agrees_quoted hquoted hhere htext)
    by_cases hdollar : byte = dollar
    · subst hdollar
      exact hagrees (agrees_dollar hhere htext)
    by_cases hdashes : byte = dash ∧ rest.head? = some dash
    · obtain ⟨rfl, hhead⟩ := hdashes
      obtain ⟨rest, rfl⟩ := head?_eq_some_iff.mp hhead
      exact hagrees (agrees_dashes hhere htext)
    by_cases hcomment : byte = slash ∧ rest.head? = some star
    · obtain ⟨rfl, hhead⟩ := hcomment
      obtain ⟨rest, rfl⟩ := head?_eq_some_iff.mp hhead
      by_cases hbang : rest.head? = some bang
      · obtain ⟨rest, rfl⟩ := head?_eq_some_iff.mp hbang
        have hversioned : dialect.versionedComments = true := by
          by_contra hplain
          change dialect.commentQuirks (bang :: rest) = [] at hhere
          rw [commentQuirks, if_neg hplain] at hhere
          cases hhere
        have hstep : dialect.step inWord false slash (star :: bang :: rest) =
            some ⟨.space, 2 + (rest.takeWhile isDigitByte).length, false, true⟩ :=
          (rfl : _ = ite (dialect.versionedComments = true ∧ some bang = some bang) _ _).trans
            (if_pos ⟨hversioned, rfl⟩)
        obtain ⟨body, after, next, hdrop, hindex, hnext, rfl⟩ := versioned_split htext
        have hskip : (star :: bang :: rest).drop (2 + (rest.takeWhile isDigitByte).length) =
            body ++ star :: slash :: after := by
          rw [← drop_drop, ← hdrop]
          rfl
        rw [hstep] at hbehind
        simp only [quirksFrom_skip dialect (2 + (rest.takeWhile isDigitByte).length), hskip] at hbehind
        obtain ⟨inner, hinner, hafter, hreads⟩ := renders_versioned hbehind hindex
        have hshort : after.length < length := by
          have := congrArg List.length hskip
          simp only [length_drop, length_append, length_cons] at this hlength
          omega
        obtain ⟨pieces, hpieces, hrenders⟩ := ih after.length hshort hafter hnext rfl
        refine ⟨.space :: (inner ++ .space :: pieces), ?_, ?_⟩
        · rw [piecesFrom, hstep]
          simp only [piecesFrom_skip dialect (2 + (rest.takeWhile isDigitByte).length), hskip, hreads,
            hpieces, map_some]
        · rw [cons_append]
          exact .cons renders_blank (hinner.append (.cons renders_blank hrenders))
      · exact hagrees (agrees_comment hhere hbang htext)
    exact hagrees (agrees_plain hsingle hquoted hdollar hcomment hdashes hhere htext)

end OpenTrace.Guardrail
