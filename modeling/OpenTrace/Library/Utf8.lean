import OpenTrace.Library.Bytes

/-!
# UTF-8 as Go reads and writes it

A rune is a number. Decoding never fails: a byte that starts no well-formed sequence is read alone,
as the replacement rune (`decodeRune`); surrogates and numbers past the last code point are written
as the replacement rune (`encodeRune`). `Unicode` holds what the `unicode` package knows about runes,
which the functions of the `strings` package below take from its tables.
-/

namespace OpenTrace.Library

/-- `utf8.RuneError` -/
def runeError : ℕ := 0xFFFD

/-- The byte lies between two bounds. -/
def byteIn (low high : ℕ) (byte : UInt8) : Bool := low ≤ byte.toNat ∧ byte.toNat ≤ high

/-- A continuation byte. -/
def continuation (byte : UInt8) : Bool := byteIn 0x80 0xBF byte

/-- The bounds of the second byte after a first byte of three or four, `acceptRanges` in the
source. -/
def secondByteIn (first second : UInt8) : Bool :=
  if first = 0xE0 then byteIn 0xA0 0xBF second
  else if first = 0xED then byteIn 0x80 0x9F second
  else if first = 0xF0 then byteIn 0x90 0xBF second
  else if first = 0xF4 then byteIn 0x80 0x8F second
  else continuation second

/-- `utf8.DecodeRuneInString` on a string that is not empty, given as its first byte and the
rest: the rune and the bytes it takes. -/
def decodeRune (first : UInt8) (rest : Bytes) : ℕ × ℕ :=
  let invalid := (runeError, 1)
  if first.toNat < 0x80 then (first.toNat, 1)
  else if byteIn 0xC2 0xDF first then
    match rest with
    | second :: _ =>
      if continuation second then (first.toNat % 32 * 64 + second.toNat % 64, 2) else invalid
    | _ => invalid
  else if byteIn 0xE0 0xEF first then
    match rest with
    | second :: third :: _ =>
      if secondByteIn first second && continuation third then
        (first.toNat % 16 * 4096 + second.toNat % 64 * 64 + third.toNat % 64, 3)
      else invalid
    | _ => invalid
  else if byteIn 0xF0 0xF4 first then
    match rest with
    | second :: third :: fourth :: _ =>
      if secondByteIn first second && continuation third && continuation fourth then
        (first.toNat % 8 * 262144 + second.toNat % 64 * 4096 + third.toNat % 64 * 64 +
          fourth.toNat % 64, 4)
      else invalid
    | _ => invalid
  else invalid

/-- The runes of a string, each with its bytes: the loop `for _, r := range s`, in at most `fuel`
rounds. -/
def runesIn : ℕ → Bytes → List (ℕ × Bytes)
  | fuel + 1, first :: rest =>
    let (rune, width) := decodeRune first rest
    (rune, (first :: rest).take width) :: runesIn fuel ((first :: rest).drop width)
  | _, _ => []

def runes (text : Bytes) : List (ℕ × Bytes) := runesIn text.length text

/-- `utf8.AppendRune` -/
def encodeRune (rune : ℕ) : Bytes :=
  if rune < 0x80 then [UInt8.ofNat rune]
  else if rune < 0x800 then [UInt8.ofNat (0xC0 + rune / 64), UInt8.ofNat (0x80 + rune % 64)]
  else if 0xD800 ≤ rune ∧ rune ≤ 0xDFFF ∨ 0x10FFFF < rune then [0xEF, 0xBF, 0xBD]
  else if rune < 0x10000 then
    [UInt8.ofNat (0xE0 + rune / 4096), UInt8.ofNat (0x80 + rune / 64 % 64),
      UInt8.ofNat (0x80 + rune % 64)]
  else
    [UInt8.ofNat (0xF0 + rune / 262144), UInt8.ofNat (0x80 + rune / 4096 % 64),
      UInt8.ofNat (0x80 + rune / 64 % 64), UInt8.ofNat (0x80 + rune % 64)]

/-- The tables of the `unicode` package. -/
structure Unicode where
  toLower : ℕ → ℕ
  isLetter : ℕ → Bool
  isDigit : ℕ → Bool

/-- The tables, as far as ASCII goes. -/
def Unicode.ascii : Unicode where
  toLower := fun rune ↦ if 65 ≤ rune ∧ rune ≤ 90 then rune + 32 else rune
  isLetter := fun rune ↦ (65 ≤ rune ∧ rune ≤ 90) ∨ (97 ≤ rune ∧ rune ≤ 122)
  isDigit := fun rune ↦ 48 ≤ rune ∧ rune ≤ 57

/-- `strings.ToLower`: every rune is mapped and written again, so that bytes which are no UTF-8 come
out as the replacement rune; on ASCII that is the fast path of the source. -/
def toLower (unicode : Unicode) (text : Bytes) : Bytes :=
  if text.all (·.toNat < 0x80) then
    text.map fun byte ↦ if 65 ≤ byte.toNat ∧ byte.toNat ≤ 90 then byte + 32 else byte
  else (runes text).flatMap fun (rune, _) ↦ encodeRune (unicode.toLower rune)

/-- The loop of `strings.FieldsFunc` over the runes that are left, with the field that is open. -/
def fieldsFrom (separates : ℕ → Bool) : Bytes → List (ℕ × Bytes) → List Bytes
  | field, [] => if field = [] then [] else [field]
  | field, (rune, bytes) :: rest =>
    if separates rune then
      (if field = [] then [] else [field]) ++ fieldsFrom separates [] rest
    else fieldsFrom separates (field ++ bytes) rest

/-- `strings.FieldsFunc`: the maximal runs of runes that do not separate. -/
def fieldsFunc (separates : ℕ → Bool) (text : Bytes) : List Bytes :=
  fieldsFrom separates [] (runes text)

end OpenTrace.Library
