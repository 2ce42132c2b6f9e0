import OpenTrace.Library.Utf8

/-!
# Tokens

`tokenizer.go`: a text is lowercased and split at every rune that is no letter, digit, underscore or
hyphen; fields of one byte are dropped. The live predicate of the search engine, `messageMatchesQuery`
(`query.go`), asks whether a message has every token of a query.
-/

namespace OpenTrace.Index

open Library

variable (unicode : Unicode)

/-- A rune that ends a token: neither letter nor digit, and not `_` or `-`. -/
def separates (rune : ℕ) : Bool :=
  !unicode.isLetter rune && !unicode.isDigit rune && rune != 95 && rune != 45

def tokenize (text : Bytes) : List Bytes :=
  (fieldsFunc (separates unicode) (toLower unicode text)).filter (2 ≤ ·.length)

/-- The loop of `TokenizeUnique`: the tokens that are not among those seen. -/
def uniqueFrom : List Bytes → List Bytes → List Bytes
  | _, [] => []
  | seen, token :: tokens =>
    if token ∈ seen then uniqueFrom seen tokens else token :: uniqueFrom (token :: seen) tokens

def tokenizeUnique (text : Bytes) : List Bytes := uniqueFrom [] (tokenize unicode text)

def messageMatchesQuery (message query : Bytes) : Bool :=
  let tokens := tokenizeUnique unicode query
  if tokens = [] then false else tokens.all fun token ↦ token ∈ tokenize unicode message

theorem mem_uniqueFrom {seen tokens : List Bytes} {token : Bytes} :
    token ∈ uniqueFrom seen tokens ↔ token ∈ tokens ∧ token ∉ seen := by
  induction tokens generalizing seen with
  | nil => simp [uniqueFrom]
  | cons head tokens ih =>
    rw [uniqueFrom]
    split_ifs with hseen
    · rw [ih, List.mem_cons]
      constructor
      · exact fun hmem ↦ ⟨.inr hmem.1, hmem.2⟩
      · rintro ⟨rfl | htail, hfresh⟩
        · exact absurd hseen hfresh
        · exact ⟨htail, hfresh⟩
    · rw [List.mem_cons, ih]
      by_cases hhead : token = head
      · subst hhead
        simp [hseen]
      · simp [hhead]

theorem nodup_uniqueFrom (seen tokens : List Bytes) : (uniqueFrom seen tokens).Nodup := by
  induction tokens generalizing seen with
  | nil => exact List.nodup_nil
  | cons token tokens ih =>
    rw [uniqueFrom]
    split_ifs with hseen
    · exact ih seen
    · refine List.nodup_cons.mpr ⟨fun hmem ↦ ?_, ih _⟩
      exact (mem_uniqueFrom.mp hmem).2 List.mem_cons_self

theorem mem_tokenizeUnique {text token : Bytes} :
    token ∈ tokenizeUnique unicode text ↔ token ∈ tokenize unicode text := by
  rw [tokenizeUnique, mem_uniqueFrom]
  simp

theorem nodup_tokenizeUnique (text : Bytes) : (tokenizeUnique unicode text).Nodup :=
  nodup_uniqueFrom [] _

/-- A message matches a query that has tokens, and has all of them itself. -/
theorem messageMatchesQuery_iff {message query : Bytes} :
    messageMatchesQuery unicode message query ↔ tokenizeUnique unicode query ≠ [] ∧
        ∀ token ∈ tokenizeUnique unicode query, token ∈ tokenizeUnique unicode message := by
  rw [messageMatchesQuery]
  by_cases hempty : tokenizeUnique unicode query = []
  · simp [hempty]
  · simp [mem_tokenizeUnique]

example : tokenize Unicode.ascii (ascii "GET /users?id=42 failed-x a") =
    [ascii "get", ascii "users", ascii "id", ascii "42", ascii "failed-x"] := by decide +kernel

end OpenTrace.Index
