import OpenTrace.Guardrail.Detection

/-!
# Soundness of the read-only check

A query that the check accepts and that has no quirk for a dialect is a single reading statement to that
dialect: the normal form then spells the tokens of the dialect, a second statement leaves a semicolon
in what is left after trimming, and a write is found in it. Each quirk gives a query that the check
accepts and that is more than a reading statement.
-/

namespace OpenTrace.Guardrail

open Library List

/-! ### Trimming -/

/-- What trimming leaves of a text. -/
structure Trims (text middle lead tail : Bytes) : Prop where
  split : text = lead ++ (middle ++ tail)
  lead_blank : ∀ byte ∈ lead, isBlank byte = true
  tail_end : IsEnd tail
  head : ∀ byte, middle.head? = some byte → isBlank byte = false

theorem isAscii_append {first second : Bytes} :
    isAscii (first ++ second) = true ↔ isAscii first = true ∧ isAscii second = true := by
  rw [isAscii, all_append, Bool.and_eq_true]
  rfl

variable {text : Bytes} {query : Bytes}

theorem trims_trimSpace (hascii : isAscii text = true) :
    ∃ lead tail, Trims text (trimSpace text) lead tail ∧ ∀ byte ∈ tail, isBlank byte = true := by
  obtain ⟨lead, tail, hsplit, hlead, htail, hhead⟩ := trimSpace_ascii hascii
  have hbytes : ∀ byte ∈ text, isSpace byte.toNat = isBlank byte := fun byte hbyte ↦
    isSpace_toNat (of_decide_eq_true (all_eq_true.mp hascii byte hbyte))
  have hleadtext : ∀ byte ∈ lead, byte ∈ text := fun byte hbyte ↦ by rw [hsplit]; simp [hbyte]
  have htailtext : ∀ byte ∈ tail, byte ∈ text := fun byte hbyte ↦ by rw [hsplit]; simp [hbyte]
  have htail' : ∀ byte ∈ tail, isBlank byte = true := fun byte hbyte ↦ by
    rw [← hbytes byte (htailtext byte hbyte)]
    exact htail byte hbyte
  refine ⟨lead, tail, ⟨by rw [← append_assoc, ← hsplit], fun byte hbyte ↦ ?_,
    fun byte hbyte ↦ .inl (htail' byte hbyte), fun byte hbyte ↦ ?_⟩, htail'⟩
  · rw [← hbytes byte (hleadtext byte hbyte)]
    exact hlead byte hbyte
  · have hmem : byte ∈ text := by
      rw [hsplit]
      simp [mem_of_mem_head? hbyte]
    rw [← hbytes byte hmem]
    exact Bool.eq_false_of_not_eq_true (hhead byte hbyte)

theorem Trims.statementEnd {text middle lead tail : Bytes} (htrims : Trims text middle lead tail) :
    ∃ tail', Trims text (trimStatementEnd middle) lead tail' := by
  have hsplit := takeWhile_append_dropWhile
    (p := fun byte : UInt8 ↦ byte == semicolon || byte == blank) (l := middle.reverse)
  have hmiddle := congrArg reverse hsplit
  rw [reverse_append, reverse_reverse] at hmiddle
  refine ⟨(middle.reverse.takeWhile fun byte ↦ byte == semicolon || byte == blank).reverse ++ tail,
    ?_, htrims.lead_blank, fun byte hbyte ↦ ?_, fun byte hhead ↦ htrims.head byte ?_⟩
  · rw [htrims.split]
    nth_rewrite 1 [← hmiddle]
    rw [trimStatementEnd, append_assoc]
  · rcases mem_append.mp hbyte with hbyte | hbyte
    · have hcut := mem_takeWhile_imp (mem_reverse.mp hbyte)
      rw [Bool.or_eq_true, beq_iff_eq, beq_iff_eq] at hcut
      rcases hcut with rfl | rfl
      · exact .inr rfl
      · exact .inl (by decide)
    · exact htrims.tail_end byte hbyte
  · rw [← hmiddle, head?_append]
    rw [trimStatementEnd] at hhead
    rw [hhead]
    rfl

/-- The word that a text starts with is left. -/
theorem Trims.word {blanks word rest middle lead tail : Bytes}
    (htrims : Trims (blanks ++ (word ++ rest)) middle lead tail) (hmiddle : middle ≠ [])
    (hblanks : ∀ byte ∈ blanks, isBlank byte = true) (hword : IsName word) :
    ∃ rest', middle = word ++ rest' ∧ rest = rest' ++ tail := by
  obtain ⟨first, word, rfl⟩ := exists_cons_of_ne_nil hword.nonempty
  obtain ⟨start, middle, rfl⟩ := exists_cons_of_ne_nil hmiddle
  have hfirst : isBlank first = false := by
    refine isBlank_of_isWordByte ?_
    rw [isWordByte, hword.ident first mem_cons_self]
    rfl
  have hsame := congrArg (dropWhile isBlank) htrims.split
  rw [dropWhile_append_of_pos hblanks, dropWhile_append_of_pos htrims.lead_blank,
    cons_append, cons_append, dropWhile_cons_of_neg (by rw [hfirst]; simp),
    dropWhile_cons_of_neg (by rw [htrims.head start rfl]; simp), ← cons_append,
    ← cons_append] at hsame
  rcases append_eq_append_iff.mp hsame with ⟨rest', hmiddle', hrest⟩ | ⟨extra, hword', htail⟩
  · exact ⟨rest', hmiddle', hrest⟩
  · cases extra with
    | nil => exact ⟨[], by rw [hword', append_nil, append_nil], htail.symm⟩
    | cons byte extra =>
      have hident := hword.ident byte (by rw [hword']; simp)
      rw [htrims.tail_end.ident byte (by rw [htail]; simp)] at hident
      cases hident

/-- A semicolon with more behind it is left. -/
theorem Trims.semicolon_mem {text before after middle lead tail : Bytes}
    (htrims : Trims text middle lead tail) (htext : text = before ++ semicolon :: after)
    (hafter : ∃ byte ∈ after, isSolid byte = true) : semicolon ∈ middle := by
  obtain ⟨byte, hbyte, hsolid⟩ := hafter
  have htail : byte ∉ tail := by
    intro hmem
    rw [isSolid, Bool.and_eq_true, Bool.not_eq_true', bne_iff_ne] at hsolid
    rcases htrims.tail_end byte hmem with hblank | hsame
    · rw [hblank] at hsolid
      cases hsolid.1
    · exact hsolid.2 hsame
  have hsplit := htext.symm.trans htrims.split
  rw [← append_assoc] at hsplit
  rcases append_eq_append_iff.mp hsplit with ⟨inner, hfront, hrest⟩ | ⟨inner, -, hrest⟩
  · cases inner with
    | nil => exact absurd (by rw [← show semicolon :: after = tail from hrest]; simp [hbyte]) htail
    | cons first inner =>
      obtain ⟨rfl, -⟩ := cons.inj hrest
      have hmem : semicolon ∈ lead ++ middle := by rw [hfront]; simp
      rcases mem_append.mp hmem with hlead | hmiddle
      · cases htrims.lead_blank _ hlead
      · exact hmiddle
  · exact absurd (by rw [hrest]; simp [hbyte]) htail

theorem Trims.found {text middle lead tail : Bytes} (htrims : Trims text middle lead tail)
    (hfound : Found text) : Found middle :=
  (htrims.split ▸ hfound).trim (fun byte hbyte ↦ .inl (htrims.lead_blank byte hbyte)) htrims.tail_end

/-! ### Statements -/

theorem subset_collapseFrom (prevSpace : Bool) (text : Bytes) : collapseFrom prevSpace text ⊆ text := by
  induction text generalizing prevSpace with
  | nil => exact Subset.refl _
  | cons byte text ih =>
    rw [collapseFrom]
    split_ifs with hblank
    · exact Subset.trans (ih true) (subset_cons_self _ _)
    · rw [hblank]
      exact cons_subset_cons _ (ih true)
    · exact cons_subset_cons _ (ih false)

theorem isAscii_of_subset {first second : Bytes} (hsubset : first ⊆ second)
    (hascii : isAscii second = true) : isAscii first = true :=
  all_eq_true.mpr fun byte hbyte ↦ all_eq_true.mp hascii byte (hsubset hbyte)

theorem Renders.isAscii {pieces : List Piece} (hrenders : Renders pieces text) :
    isAscii text = true := by
  have hplain : ∀ {content : Bytes}, Plain content → Library.isAscii (unquoted content) = true := by
    intro content hplain
    rw [unquoted, ← singleton_append, isAscii_append, isAscii_append]
    exact ⟨⟨by decide, hplain.ascii⟩, by decide⟩
  induction hrenders with
  | nil => rfl
  | @cons piece pieces shown text hpiece _ ih =>
    rw [isAscii_append]
    refine ⟨?_, ih⟩
    cases piece with
    | space => exact all_eq_true.mpr fun byte hbyte ↦
      decide_eq_true (isAscii_of_isSpaceByte (hpiece.2 byte hbyte))
    | literal =>
      rcases hpiece with rfl | ⟨content, hcontent, rfl⟩
      · decide
      · exact hplain hcontent
    | quoted name => exact hpiece.2 ▸ hplain hpiece.1
    | code byte => exact hpiece.1 ▸ by simpa [Library.isAscii] using hpiece.2.2

theorem startsWith_ascii (start : String) (rest : Bytes) : startsWith (ascii start ++ rest) start = true :=
  isPrefixOf_iff_prefix.mpr (prefix_append _ _)

/-- What is behind `EXPLAIN`, given that it does not start with a parenthesis. -/
theorem stripExplainPrefix_of_trims {rest middle lead tail : Bytes}
    (htrims : Trims rest middle lead tail) (hmiddle : trimSpace (rest.map upperByte) = middle.map upperByte)
    (hparen : (rest.dropWhile isBlank).head? ≠ some openParen) :
    stripExplainPrefix (ascii "EXPLAIN" ++ rest.map upperByte) = middle.map upperByte := by
  have hhead : (middle.map upperByte).head? ≠ some openParen := by
    intro hhead
    rw [head?_map, Option.map_eq_some_iff] at hhead
    obtain ⟨byte, hhead, hbyte⟩ := hhead
    rw [upperByte_eq_iff (by decide)] at hbyte
    subst hbyte
    obtain ⟨middle, rfl⟩ := head?_eq_some_iff.mp hhead
    refine hparen ?_
    rw [htrims.split, dropWhile_append_of_pos htrims.lead_blank]
    rfl
  rw [stripExplainPrefix, withoutStart, if_pos (startsWith_ascii _ _), drop_left, hmiddle,
    if_neg hhead]

/-- A query that starts with `EXPLAIN` is checked without that word. -/
theorem checkStatement_explain {rest : Bytes}
    (hok : checkStatement (ascii "EXPLAIN" ++ rest) = .ok ()) :
    checkNoWriteAnywhere (stripExplainPrefix (ascii "EXPLAIN" ++ rest)) = .ok () := by
  have hselect : startsWith (ascii "EXPLAIN" ++ rest) "SELECT" = false := rfl
  have hwith : startsWith (ascii "EXPLAIN" ++ rest) "WITH" = false := rfl
  rw [checkStatement, hselect, hwith, startsWith_ascii] at hok
  simp only [Bool.or_self, Bool.false_eq_true, if_false, if_true] at hok
  split_ifs at hok
  exact hok

theorem isBlank_upperByte (byte : UInt8) : isBlank (upperByte byte) = isBlank byte := by
  unfold upperByte
  split_ifs with hlower
  · have hsub := toNat_upperByte hlower.1
    rw [Bool.eq_iff_iff]
    simp only [isBlank, Bool.or_eq_true, Bool.and_eq_true, decide_eq_true_eq, beq_iff_eq,
      ← UInt8.toNat_inj, hsub, blank, UInt8.reduceToNat]
    omega
  · rfl

theorem isAscii_map_upperByte (hascii : isAscii text = true) :
    isAscii (text.map upperByte) = true := by
  rw [isAscii, all_map]
  refine all_eq_true.mpr fun byte hbyte ↦ decide_eq_true ?_
  have hbyte : byte.toNat < 0x80 := of_decide_eq_true (all_eq_true.mp hascii byte hbyte)
  unfold upperByte
  split_ifs with hlower
  · rw [toNat_upperByte hlower.1]
    omega
  · exact hbyte

theorem trims_upper {rest : Bytes} (hascii : isAscii rest = true) :
    ∃ middle lead tail, Trims rest middle lead tail ∧
      trimSpace (rest.map upperByte) = middle.map upperByte := by
  obtain ⟨lead, tail, htrims, htail⟩ := trims_trimSpace (isAscii_map_upperByte hascii)
  obtain ⟨lead', behind, hrest, rfl, hbehind⟩ := map_eq_append_iff.mp htrims.split
  obtain ⟨middle, tail', rfl, hmiddle, rfl⟩ := map_eq_append_iff.mp hbehind
  refine ⟨middle, lead', tail', ⟨hrest, fun byte hbyte ↦ ?_, fun byte hbyte ↦ .inl ?_, fun byte hhead ↦ ?_⟩,
    hmiddle.symm⟩
  · rw [← isBlank_upperByte]
    exact htrims.lead_blank _ (mem_map_of_mem hbyte)
  · rw [← isBlank_upperByte]
    exact htail _ (mem_map_of_mem hbyte)
  · rw [← isBlank_upperByte]
    exact htrims.head _ (by rw [← hmiddle, head?_map, hhead]; rfl)

theorem not_writes_explain {word : Bytes} (hword : ascii "EXPLAIN" = word.map upperByte)
    (next : Option Token) : (Token.word word).writes next = false := by
  have hwrite : isOneOf writeKeywords word = false := by
    rw [isOneOf, ← hword]
    decide +kernel
  have hfunctionLike : isOneOf functionLikeWriteKeywords word = false := by
    rw [isOneOf, ← hword]
    decide +kernel
  have hdenied : isDenied word = false := by
    rw [isDenied, isOneOf, ← hword, Bool.or_eq_false_iff, Bool.and_eq_false_iff]
    exact ⟨by decide +kernel, .inr (by decide +kernel)⟩
  rw [Token.writes, hwrite, hfunctionLike, hdenied]
  rfl

/-- A statement that is let through and starts as a reading one has no write in it. -/
theorem writesAnywhere_of_checkStatement {tokens : List Token} {text cleaned lead tail : Bytes}
    (hspells : Spells tokens text) (hascii : isAscii text = true)
    (htrims : Trims (collapseFrom false text) cleaned lead tail) (hcleaned : cleaned ≠ [])
    (hreading : startsReading tokens = true) (hoptions : Dialect.explainQuirks tokens = [])
    (hok : checkStatement (cleaned.map upperByte) = .ok ()) : writesAnywhere tokens = false := by
  by_contra hwrites
  rw [Bool.not_eq_false] at hwrites
  have hfound : Found cleaned := htrims.found ((hspells.writes hwrites).collapse false)
  cases hspells with
  | nil htext => cases hreading
  | @cons token tokens spaces shown text hspaces hshown hapart htext =>
    cases token with
    | quoted name => cases hreading
    | literal => cases hreading
    | symbol byte => cases hreading
    | word word =>
      obtain ⟨rfl, -, -⟩ := hshown
      have hname : IsName shown := isName_of_isOneOf (by decide +kernel) hreading
      obtain ⟨prevSpace, happend⟩ := collapseFrom_append false spaces
      rw [happend, collapseFrom_solid hname.nonempty hname.ne_blank] at htrims
      obtain ⟨rest, rfl, hrest⟩ := htrims.word hcleaned (fun byte hbyte ↦
        isBlank_of_isSpaceByte (hspaces byte (subset_collapseFrom _ _ hbyte))) hname
      obtain ⟨start, hstart, hshown⟩ := any_eq_true.mp hreading
      rw [beq_iff_eq] at hshown
      rw [map_append, ← hshown] at hok
      have hdirect : startsWith (ascii start ++ rest.map upperByte) "SELECT" = true ∨
          startsWith (ascii start ++ rest.map upperByte) "WITH" = true → False := by
        intro hselect
        rw [checkStatement, if_pos (by rwa [Bool.or_eq_true]), hshown, ← map_append] at hok
        exact hfound.refused hok
      simp only [mem_cons, not_mem_nil, or_false] at hstart
      rcases hstart with rfl | rfl | rfl
      · exact hdirect (.inl (startsWith_ascii _ _))
      · exact hdirect (.inr (startsWith_ascii _ _))
      · -- the word itself is no write, so the write is in what is checked
        have hbehind : writesAnywhere tokens = true := by
          rwa [writesAnywhere, not_writes_explain hshown, Bool.false_or] at hwrites
        have hparen : tokens.head? ≠ some (.symbol openParen) := by
          intro hhead
          obtain ⟨tokens, rfl⟩ := head?_eq_some_iff.mp hhead
          rw [Dialect.explainQuirks, if_pos ⟨by rw [isOneOf, ← hshown]; decide +kernel, rfl⟩] at hoptions
          cases hoptions
        have hrestascii : isAscii (rest ++ tail) = true := by
          rw [← hrest]
          refine isAscii_of_subset (Subset.trans (subset_collapseFrom _ _) ?_) hascii
          exact Subset.trans (subset_append_right shown text) (subset_append_right spaces _)
        obtain ⟨middle, lead', tail', htrims', hmiddle⟩ := trims_upper (isAscii_append.mp hrestascii).1
        have hinner := checkStatement_explain hok
        rw [stripExplainPrefix_of_trims htrims' hmiddle ?_] at hinner
        · refine (htrims'.found ?_).refused hinner
          have hcollapsed := (htext.writes hbehind).collapse false
          rw [hrest, ← nil_append (rest ++ tail)] at hcollapsed
          exact hcollapsed.trim (fun _ hbyte ↦ absurd hbyte not_mem_nil) htrims.tail_end
        · rw [ne_eq, ← head?_dropWhile_append htrims.tail_end.openParen, ← hrest,
            head?_dropWhile_collapseFrom (by decide)]
          exact htext.first hparen fun _ hblank ↦ hblank

/-! ### Accepted queries -/

/-- What the check has seen of an accepted query. -/
theorem validateReadOnlyGeneric_ok {upper : ℕ → ℕ}
    (hok : validateReadOnlyGeneric upper query = .ok ()) :
    ∃ text, normalizeFrom 0 query = .ok text ∧
      trimStatementEnd (trimSpace (collapseFrom false text)) ≠ [] ∧
      semicolon ∉ trimStatementEnd (trimSpace (collapseFrom false text)) ∧
      checkStatement (toUpper upper (trimStatementEnd (trimSpace (collapseFrom false text)))) = .ok () := by
  rw [validateReadOnlyGeneric, normalizeSQL] at hok
  split_ifs at hok
  cases htext : normalizeFrom 0 query with
  | error error =>
    rw [htext] at hok
    cases hok
  | ok text =>
    rw [htext] at hok
    change (if trimStatementEnd (trimSpace (collapseFrom false text)) = [] then _ else _) = _ at hok
    split_ifs at hok with hempty hsemicolon
    exact ⟨text, rfl, hempty, hsemicolon, hok⟩

/-- An accepted query without quirks is a reading statement to the dialect. -/
theorem Dialect.sound_of_no_quirks (dialect : Dialect) {upper : ℕ → ℕ}
    (hok : validateReadOnlyGeneric upper query = .ok ()) (hquirks : dialect.quirks query = []) :
    dialect.sound query = true := by
  obtain ⟨text, htext, hcleaned, hsemicolon, hstatement⟩ := validateReadOnlyGeneric_ok hok
  rw [quirks, append_eq_nil_iff] at hquirks
  obtain ⟨pieces, hpieces, hrenders⟩ := renders_of_quirks hquirks.1 htext
  have hlex : dialect.lex query = some (tokensFrom [] pieces) := by
    rw [lex, Dialect.pieces, hpieces]
    rfl
  have hspells : Spells (tokensFrom [] pieces) text :=
    hrenders.spells fun _ hbyte ↦ absurd hbyte not_mem_nil
  have hcollapsed : isAscii (collapseFrom false text) = true :=
    isAscii_of_subset (subset_collapseFrom _ _) hrenders.isAscii
  obtain ⟨lead, tail, htrims, -⟩ := trims_trimSpace hcollapsed
  obtain ⟨tail, htrims⟩ := htrims.statementEnd
  have hsingle : isSingle (tokensFrom [] pieces) = true := by
    by_contra hmany
    obtain ⟨before, after, hsplit, byte, hbyte, hsolid⟩ :=
      hspells.semicolon (Bool.eq_false_of_not_eq_true hmany)
    obtain ⟨prevSpace, happend⟩ := collapseFrom_append false before
    have hcollapse : collapseFrom false text =
        collapseFrom false before ++ semicolon :: collapseFrom false after := by
      rw [hsplit, happend, collapseFrom, if_neg (by decide)]
    have hnotblank : byte ≠ blank := by
      rintro rfl
      cases hsolid
    exact hsemicolon (htrims.semicolon_mem hcollapse ⟨byte, mem_collapseFrom hnotblank hbyte _, hsolid⟩)
  rw [sound, hlex]
  change (!startsReading (tokensFrom [] pieces) || readOnly (tokensFrom [] pieces)) = true
  cases hreading : startsReading (tokensFrom [] pieces) with
  | false => rfl
  | true =>
    have hoptions : explainQuirks (tokensFrom [] pieces) = [] := by
      rw [hlex] at hquirks
      exact hquirks.2
    have hascii : isAscii (trimStatementEnd (trimSpace (collapseFrom false text))) = true := by
      rw [htrims.split, isAscii_append, isAscii_append] at hcollapsed
      exact hcollapsed.2.1
    rw [toUpper, if_pos hascii] at hstatement
    have hwrites := writesAnywhere_of_checkStatement hspells hrenders.isAscii htrims hcleaned hreading
      hoptions hstatement
    rw [readOnly, hsingle, hwrites]
    rfl

/-! ### Quirks that matter -/

/-- The quirks that a query can have for the dialect. -/
def Dialect.hasQuirk (dialect : Dialect) : Quirk → Bool
  | .bareDashes => !dialect.dashesNeedSpace
  | .carriageReturn => dialect.carriageReturnEndsLine
  | .nestedComment => dialect.nestedComments
  | .backquote => !dialect.backquotedNames
  | .bracketedName => dialect.bracketedNames
  | .hashComment => dialect.hashComments
  | _ => true

/-- An accepted query that has this quirk and no other, and is no reading statement. -/
structure Dialect.Bypass (dialect : Dialect) (quirk : Quirk) (query : Bytes) : Prop where
  accepted : ∀ upper, validateReadOnlyGeneric upper query = .ok ()
  has : quirk ∈ dialect.quirks query
  only : ∀ other ∈ dialect.quirks query, other = quirk
  unsound : dialect.sound query = false

/-- Only quirks that a query can have. -/
def Dialect.HasQuirks (dialect : Dialect) (quirks : List Quirk) : Prop :=
  ∀ quirk ∈ quirks, dialect.hasQuirk quirk = true

section HasQuirks

variable {dialect : Dialect}

theorem hasQuirks_nil : dialect.HasQuirks [] := fun _ hquirk ↦ absurd hquirk not_mem_nil

theorem hasQuirks_singleton {quirk : Quirk} (hquirk : dialect.hasQuirk quirk = true) :
    dialect.HasQuirks [quirk] := fun _ hother ↦ mem_singleton.mp hother ▸ hquirk

theorem hasQuirks_ite {condition : Prop} [Decidable condition] {first second : List Quirk}
    (hfirst : condition → dialect.HasQuirks first) (hsecond : ¬ condition → dialect.HasQuirks second) :
    dialect.HasQuirks (if condition then first else second) := by
  by_cases hcondition : condition
  · rw [if_pos hcondition]
    exact hfirst hcondition
  · rw [if_neg hcondition]
    exact hsecond hcondition

theorem hasQuirks_nameQuirks (content : Bytes) : dialect.HasQuirks (nameQuirks content) := by
  intro quirk hquirk
  rcases mem_append.mp hquirk with hhead | hascii
  · exact hasQuirks_ite (fun _ ↦ hasQuirks_nil) (fun _ ↦ hasQuirks_singleton rfl) quirk hhead
  · exact hasQuirks_ite (fun _ ↦ hasQuirks_nil) (fun _ ↦ hasQuirks_singleton rfl) quirk hascii

theorem hasQuirks_commentQuirks (body : Bytes) : dialect.HasQuirks (dialect.commentQuirks body) := by
  refine hasQuirks_ite (fun _ ↦ ?_) (fun _ ↦ ?_)
  · exact hasQuirks_ite (fun _ ↦ hasQuirks_nil) (fun _ ↦ hasQuirks_singleton rfl)
  · exact hasQuirks_ite (fun hnested ↦ hasQuirks_singleton hnested.1) (fun _ ↦ hasQuirks_nil)

theorem lineLength_eq (hreturn : dialect.carriageReturnEndsLine = false) (text : Bytes) :
    dialect.lineLength text = lineLength text := by
  have hends : ∀ byte, (!dialect.endsLine byte) = (byte != newline) := by
    intro byte
    rw [Dialect.endsLine, hreturn]
    simp [bne]
  rw [Dialect.lineLength, lineLength]
  simp only [hends]

theorem hasQuirks_dashQuirks (rest : Bytes) : dialect.HasQuirks (dialect.dashQuirks rest) := by
  refine hasQuirks_ite (fun _ ↦ hasQuirks_singleton ?_) fun _ ↦
    hasQuirks_ite (fun hreturn ↦ hasQuirks_singleton ?_) fun _ ↦ hasQuirks_nil
  · split_ifs with hspace
    · rfl
    · rw [Dialect.hasQuirk, Bool.eq_false_of_not_eq_true hspace]
      rfl
  · by_contra hends
    exact hreturn.2 (lineLength_eq (Bool.eq_false_of_not_eq_true hends) rest)

theorem hasQuirks_quirksAt (inWord versioned : Bool) (byte : UInt8) (rest : Bytes) :
    dialect.HasQuirks (dialect.quirksAt inWord versioned byte rest) := by
  rw [Dialect.quirksAt]
  refine hasQuirks_ite (fun _ ↦ ?_) fun _ ↦ ?_
  · exact hasQuirks_ite (fun _ ↦ hasQuirks_singleton rfl) fun _ ↦ hasQuirks_nil
  refine hasQuirks_ite (fun _ ↦ ?_) fun _ ↦ ?_
  · exact hasQuirks_ite (fun _ ↦ hasQuirks_nil) fun _ ↦ hasQuirks_singleton rfl
  refine hasQuirks_ite (fun _ ↦ hasQuirks_singleton rfl) fun _ ↦ ?_
  refine hasQuirks_ite (fun _ ↦ ?_) fun hname ↦ ?_
  · cases scanQuoted byte false rest with
    | none => exact hasQuirks_nil
    | some count => exact hasQuirks_nameQuirks _
  refine hasQuirks_ite (fun hback ↦ hasQuirks_singleton ?_) fun _ ↦ ?_
  · rw [Dialect.hasQuirk, Bool.not_eq_true']
    exact Bool.eq_false_of_not_eq_true fun hnames ↦ hname (.inr ⟨hback, hnames⟩)
  refine hasQuirks_ite (fun hbracket ↦ hasQuirks_singleton hbracket.2) fun _ ↦ ?_
  refine hasQuirks_ite (fun _ ↦ ?_) fun _ ↦ ?_
  · exact hasQuirks_ite (fun _ ↦ hasQuirks_nil) fun _ ↦ hasQuirks_singleton rfl
  refine hasQuirks_ite (fun _ ↦ hasQuirks_commentQuirks _) fun _ ↦ ?_
  refine hasQuirks_ite (fun _ ↦ hasQuirks_dashQuirks _) fun _ ↦ ?_
  refine hasQuirks_ite (fun hhash ↦ hasQuirks_singleton hhash.2) fun _ ↦ ?_
  exact hasQuirks_ite (fun _ ↦ hasQuirks_singleton rfl) fun _ ↦ hasQuirks_nil

theorem hasQuirks_quirksFrom (skip : ℕ) (inWord versioned : Bool) (text : Bytes) :
    dialect.HasQuirks (dialect.quirksFrom skip inWord versioned text) := by
  induction text generalizing skip inWord versioned with
  | nil =>
    rw [Dialect.quirksFrom]
    exact hasQuirks_nil
  | cons byte text ih =>
    cases skip with
    | succ skip =>
      rw [Dialect.quirksFrom]
      exact ih skip inWord versioned
    | zero =>
      intro quirk hquirk
      rw [Dialect.quirksFrom, mem_append] at hquirk
      rcases hquirk with hhere | hbehind
      · exact hasQuirks_quirksAt _ _ _ _ quirk hhere
      · cases hstep : dialect.step inWord versioned byte text with
        | none =>
          rw [hstep] at hbehind
          exact absurd hbehind not_mem_nil
        | some step =>
          rw [hstep] at hbehind
          exact ih step.count step.inWord step.versioned quirk hbehind

theorem hasQuirks_explainQuirks (tokens : List Token) :
    dialect.HasQuirks (Dialect.explainQuirks tokens) := by
  rw [Dialect.explainQuirks.eq_def]
  split
  · exact hasQuirks_ite (fun _ ↦ hasQuirks_singleton rfl) fun _ ↦ hasQuirks_nil
  · exact hasQuirks_nil

theorem hasQuirks_quirks (query : Bytes) : dialect.HasQuirks (dialect.quirks query) := by
  intro quirk hquirk
  rcases mem_append.mp hquirk with hquirk | hquirk
  · exact hasQuirks_quirksFrom _ _ _ _ quirk hquirk
  · cases hlex : dialect.lex query with
    | none =>
      rw [hlex] at hquirk
      exact absurd hquirk not_mem_nil
    | some tokens =>
      rw [hlex] at hquirk
      exact hasQuirks_explainQuirks tokens quirk hquirk

end HasQuirks

/-! ### Bypasses -/

/-- The text that the keyword checks see is ASCII, so that upper-casing needs no table. -/
def cleansToAscii (query : Bytes) : Bool :=
  match normalizeSQL query with
  | .error _ => true
  | .ok normalized => isAscii (trimStatementEnd normalized)

theorem validateReadOnlyGeneric_upper (hascii : cleansToAscii query = true) (first second : ℕ → ℕ) :
    validateReadOnlyGeneric first query = validateReadOnlyGeneric second query := by
  rw [validateReadOnlyGeneric, validateReadOnlyGeneric]
  rw [cleansToAscii] at hascii
  cases hnormal : normalizeSQL query with
  | error error => rfl
  | ok normalized =>
    rw [hnormal] at hascii
    simp only [toUpper, show isAscii (trimStatementEnd normalized) = true from hascii, if_true]

/-- What a bypass is, by evaluation. -/
def isBypass (dialect : Dialect) (quirk : Quirk) (query : Bytes) : Bool :=
  decide (validateReadOnlyGeneric id query = .ok ()) && cleansToAscii query &&
    (dialect.quirks query).contains quirk && (dialect.quirks query).all (· == quirk) &&
    !dialect.sound query

theorem bypass_of_isBypass {dialect : Dialect} {quirk : Quirk}
    (hbypass : isBypass dialect quirk query = true) : dialect.Bypass quirk query := by
  simp only [isBypass, Bool.and_eq_true, decide_eq_true_eq, contains_iff_mem, all_eq_true,
    beq_iff_eq, Bool.not_eq_true'] at hbypass
  obtain ⟨⟨⟨⟨haccepted, hascii⟩, hhas⟩, honly⟩, hunsound⟩ := hbypass
  exact ⟨fun upper ↦ (validateReadOnlyGeneric_upper hascii upper id).trans haccepted, hhas, honly, hunsound⟩

/-- For each quirk, a query that gets past the check. -/
def bypassQuery (dialect : Dialect) : Quirk → Bytes
  | .escapedQuote =>
    if dialect.backslashEscapes then ascii "SELECT \"\\\" ' \" INTO OUTFILE @x -- '"
    else ascii "SELECT '\\'; DELETE FROM t -- '"
  | .bareDashes => ascii "SELECT 1 --'\n; DELETE FROM t -- '"
  | .carriageReturn => ascii "SELECT 1 -- x\r; DELETE FROM t"
  | .nestedComment => ascii "SELECT 1 /* /* */ ' */; DELETE FROM t -- '"
  | .versionedComment =>
    if dialect.versionedComments then ascii "SELECT 1 /*! ' */ ' INTO OUTFILE @x */ -- '"
    else ascii "SELECT pg_reload_conf/*!x*/()"
  | .dollarQuote =>
    if dialect.versionedComments then ascii "SELECT a$$ INTO OUTFILE @x, b$$"
    else ascii "SELECT a$$; DELETE FROM t; SELECT b$$"
  | .backquote => ascii "SELECT ` ' ` '; DELETE FROM t -- '"
  | .bracketedName => ascii "SELECT [']; DELETE FROM t -- '"
  | .hashComment => ascii "SELECT 1 # '\n INTO OUTFILE @x -- '"
  | .oddName => ascii "SELECT TRUNCATE \"(\""
  | .wideByte => ascii "SELECT 1; " ++ [0xC2, 0xA0]
  | .explainOptions => ascii "EXPLAIN (DELETE) SELECT 1"

def allQuirks : List Quirk :=
  [.escapedQuote, .bareDashes, .carriageReturn, .nestedComment, .versionedComment, .dollarQuote, .backquote,
    .bracketedName, .hashComment, .oddName, .wideByte, .explainOptions]

theorem mem_allQuirks (quirk : Quirk) : quirk ∈ allQuirks := by
  cases quirk <;> decide

-- One evaluation for all databases, since most of its time goes into the keyword lists.
theorem isBypass_bypassQuery : ∀ dialect ∈ [postgres, sqlite, mysql], ∀ quirk ∈ allQuirks,
    dialect.hasQuirk quirk = true → isBypass dialect quirk (bypassQuery dialect quirk) = true := by
  decide +kernel

theorem exists_bypass_iff {dialect : Dialect} (hdialect : dialect ∈ [postgres, sqlite, mysql])
    (quirk : Quirk) : dialect.hasQuirk quirk = true ↔ ∃ query, dialect.Bypass quirk query := by
  constructor
  · intro hquirk
    exact ⟨_, bypass_of_isBypass (isBypass_bypassQuery dialect hdialect quirk (mem_allQuirks quirk) hquirk)⟩
  · rintro ⟨query, hbypass⟩
    exact hasQuirks_quirks query quirk hbypass.has

/-! ### The databases -/

end OpenTrace.Guardrail
