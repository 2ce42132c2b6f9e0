import OpenTrace.Library.Bytes

/-!
# Decimal numerals

The decimal text of a number (`decimal`, the `%d` verb on a number that is not negative) and the
reader that `strconv.Atoi` is on a 64-bit machine: an optional sign, at least one digit, digits only,
and a value within the range of an `int`. `atoi_decimal` is the round trip.
-/

namespace OpenTrace.Library

/-- The digits of a number, most significant first, with room for at most `room` of them. -/
def decimalIn : ℕ → ℕ → Bytes
  | 0, _ => []
  | room + 1, n =>
    (if n < 10 then [] else decimalIn room (n / 10)) ++ [UInt8.ofNat (48 + n % 10)]

/-- The decimal text of a number below `10 ^ 20`, which every 64-bit number is. -/
def decimal (n : ℕ) : Bytes := decimalIn 20 n

/-- Reads digits on to a value; nothing when a byte is not a digit. -/
def parseDigits : ℕ → Bytes → Option ℕ
  | value, [] => some value
  | value, byte :: rest =>
    if 48 ≤ byte.toNat ∧ byte.toNat ≤ 57 then parseDigits (10 * value + (byte.toNat - 48)) rest
    else none

/-- The signed number that digits stand for, within the range of an `int`. -/
def signedDigits (negative : Bool) (digits : Bytes) : Option Int64 :=
  if digits = [] then none
  else
    match parseDigits 0 digits with
    | none => none
    | some value =>
      if negative then (if value ≤ 2 ^ 63 then some (Int64.ofInt (-value)) else none)
      else if value < 2 ^ 63 then some (Int64.ofNat value) else none

/-- `strconv.Atoi`: nothing where the source reports a syntax or a range error. -/
def atoi (text : Bytes) : Option Int64 :=
  match text with
  | 43 :: digits => signedDigits false digits
  | 45 :: digits => signedDigits true digits
  | digits => signedDigits false digits

theorem parseDigits_append (value : ℕ) (digits more : Bytes) : parseDigits value (digits ++ more) =
      (parseDigits value digits).bind fun read ↦ parseDigits read more := by
  induction digits generalizing value with
  | nil => rfl
  | cons byte digits ih =>
    rw [List.cons_append, parseDigits, parseDigits]
    split_ifs with hdigit
    · exact ih _
    · rfl

theorem parseDigits_digit (value : ℕ) {digit : ℕ} (hdigit : digit < 10) :
    parseDigits value [UInt8.ofNat (48 + digit)] = some (10 * value + digit) := by
  have hbyte : (UInt8.ofNat (48 + digit)).toNat = 48 + digit := by
    rw [UInt8.toNat_ofNat']
    omega
  rw [parseDigits, hbyte, if_pos (by omega), parseDigits, Nat.add_sub_cancel_left]

theorem parseDigits_decimalIn {room n : ℕ} (hroom : n < 10 ^ room) (hpositive : 0 < room) :
    parseDigits 0 (decimalIn room n) = some n := by
  induction room generalizing n with
  | zero => omega
  | succ room ih =>
    have hlast : n % 10 < 10 := Nat.mod_lt _ (by omega)
    rw [decimalIn, parseDigits_append]
    split_ifs with hsmall
    · rw [parseDigits, Option.bind_some, parseDigits_digit _ hlast, Nat.mod_eq_of_lt hsmall]
      simp
    · have hfits : n / 10 < 10 ^ room := by
        exact Nat.div_lt_of_lt_mul (by rwa [mul_comm])
      have hmore : 0 < room := by
        by_contra hnone
        have hzero : room = 0 := by omega
        subst hzero
        omega
      rw [ih hfits hmore, Option.bind_some, parseDigits_digit _ hlast, Nat.div_add_mod]

theorem length_decimal_le (n : ℕ) : (decimal n).length ≤ 20 := by
  have hroom : ∀ room value, (decimalIn room value).length ≤ room := by
    intro room
    induction room with
    | zero => exact fun value ↦ le_rfl
    | succ room ih =>
      intro value
      rw [decimalIn, List.length_append]
      split_ifs
      · exact Nat.succ_le_succ (Nat.zero_le _)
      · exact Nat.succ_le_succ (ih _)
  exact hroom 20 n

/-- A text that starts with a digit. -/
theorem decimalIn_eq_cons {room : ℕ} (hpositive : 0 < room) (n : ℕ) :
    ∃ digit < 10, ∃ rest, decimalIn room n = UInt8.ofNat (48 + digit) :: rest := by
  induction room generalizing n with
  | zero => omega
  | succ room ih =>
    have hlast : n % 10 < 10 := Nat.mod_lt _ (by omega)
    rw [decimalIn]
    split_ifs with hsmall
    · exact ⟨n % 10, hlast, [], rfl⟩
    · rcases Nat.eq_zero_or_pos room with rfl | hmore
      · exact ⟨n % 10, hlast, [], rfl⟩
      · obtain ⟨digit, hdigit, rest, hrest⟩ := ih hmore (n / 10)
        exact ⟨digit, hdigit, rest ++ [UInt8.ofNat (48 + n % 10)], by rw [hrest]; rfl⟩

/-- Reading a numeral that was just written gives its number back. Assumes: the number is within the
range of an `int`. -/
theorem atoi_decimal {n : ℕ} (hn : n < 2 ^ 63) : atoi (decimal n) = some (Int64.ofNat n) := by
  have hparse : parseDigits 0 (decimal n) = some n :=
    parseDigits_decimalIn (hn.trans (by omega)) (by omega)
  obtain ⟨digit, hdigit, rest, hrest⟩ := @decimalIn_eq_cons 20 (by omega) n
  have hnumeral : decimal n = UInt8.ofNat (48 + digit) :: rest := hrest
  have hbyte : (UInt8.ofNat (48 + digit)).toNat = 48 + digit := by
    rw [UInt8.toNat_ofNat']
    omega
  rw [hnumeral] at hparse ⊢
  unfold atoi
  split
  · rename_i hplus
    have hsign : UInt8.ofNat (48 + digit) = 43 := (List.cons.inj hplus).1
    rw [hsign] at hbyte
    simp at hbyte
    omega
  · rename_i hminus
    have hsign : UInt8.ofNat (48 + digit) = 45 := (List.cons.inj hminus).1
    rw [hsign] at hbyte
    simp at hbyte
    omega
  · simp only [signedDigits, hparse]
    exact if_pos hn

example : decimal 404 = ascii "404" := by decide

end OpenTrace.Library
