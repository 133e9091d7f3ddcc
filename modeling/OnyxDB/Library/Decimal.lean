import Mathlib.Algebra.Group.Int.Defs
import Mathlib.Algebra.Group.Nat.Defs
import Mathlib.Tactic.Common

/-! Decimal integers as text, and texts as bytes. -/

namespace OnyxDB.Library.Decimal

/-- A non-empty run of decimal digits whose value is below `limit`. -/
def parseDigits (limit : Nat) (digits : List Char) : Option Nat :=
  if digits.isEmpty || !digits.all Char.isDigit then none
  else if Nat.ofDigitChars 10 digits 0 < limit then some (Nat.ofDigitChars 10 digits 0)
  else none

/-- An unsigned integer below `limit`, with an optional plus sign. -/
def parseUnsigned (limit : Nat) (text : List Char) : Option Nat :=
  match text with
  | '+' :: digits => parseDigits limit digits
  | digits => parseDigits limit digits

/-- A signed integer of at least `-limit` and below `limit`. -/
def parseSigned (limit : Nat) (text : List Char) : Option Int :=
  match text with
  | '-' :: digits => (parseDigits (limit + 1) digits).map (fun value => -(value : Int))
  | digits => (parseUnsigned limit digits).map Int.ofNat

theorem parseDigits_toDigits {limit value : Nat} (fits : value < limit) :
    parseDigits limit (Nat.toDigits 10 value) = some value := by
  have nonempty : (Nat.toDigits 10 value).isEmpty = false := by
    simp [Nat.toDigits_ne_nil]
  have digits : (Nat.toDigits 10 value).all Char.isDigit = true := by
    rw [List.all_eq_true]
    intro digit member
    exact Nat.isDigit_of_mem_toDigits (by decide) (by decide) member
  rw [parseDigits, nonempty, digits, Nat.ofDigitChars_ten_toDigits, if_neg (by simp), if_pos fits]

theorem parseUnsigned_toDigits {limit value : Nat} (fits : value < limit) :
    parseUnsigned limit (Nat.toDigits 10 value) = some value := by
  rw [← parseDigits_toDigits fits]
  unfold parseUnsigned
  split
  next digits written =>
    have digit := Nat.isDigit_of_mem_toDigits (b := 10) (n := value) (c := '+') (by decide) (by decide)
      (by rw [written]; exact List.mem_cons_self)
    exact absurd digit (by decide)
  · rfl

/-- Whatever the limit, the digits of a value are read as no other value. -/
theorem parseUnsigned_toDigits_some {limit value other : Nat}
    (parsed : parseUnsigned limit (Nat.toDigits 10 value) = some other) : other = value := by
  have read : parseDigits limit (Nat.toDigits 10 value) = some other := by
    unfold parseUnsigned at parsed
    split at parsed
    next digits written =>
      have digit := Nat.isDigit_of_mem_toDigits (b := 10) (n := value) (c := '+') (by decide) (by decide)
        (by rw [written]; exact List.mem_cons_self)
      exact absurd digit (by decide)
    · exact parsed
  unfold parseDigits at read
  rw [Nat.ofDigitChars_ten_toDigits] at read
  split at read
  · cases read
  · split at read
    · exact (Option.some.inj read).symm
    · cases read

theorem parseSigned_toDigits {limit value : Nat} (fits : value < limit) :
    parseSigned limit (Nat.toDigits 10 value) = some (value : Int) := by
  unfold parseSigned
  split
  next digits written =>
    have digit := Nat.isDigit_of_mem_toDigits (b := 10) (n := value) (c := '-') (by decide) (by decide)
      (by rw [written]; exact List.mem_cons_self)
    exact absurd digit (by decide)
  · rw [parseUnsigned_toDigits fits]
    rfl

theorem parseSigned_minus {limit value : Nat} (fits : value ≤ limit) :
    parseSigned limit ('-' :: Nat.toDigits 10 value) = some (-(value : Int)) := by
  rw [parseSigned, parseDigits_toDigits (Nat.lt_succ_of_le fits)]
  rfl

/-- Strict decoding of UTF-8. -/
def decodeUtf8 (bytes : List UInt8) : Option (List Char) :=
  bytes.toByteArray.utf8Decode?.map Array.toList

theorem decodeUtf8_encode (text : List Char) :
    decodeUtf8 (text.flatMap String.utf8EncodeChar) = some text := by
  have decoded := List.utf8Decode?_utf8Encode (l := text)
  rw [List.utf8Encode] at decoded
  rw [decodeUtf8, decoded]
  simp

/-- A byte of the first half is a character of its own. -/
theorem ascii_of_mem_utf8EncodeChar {char : Char} {byte : UInt8}
    (member : byte ∈ String.utf8EncodeChar char) (small : byte < 128) : char.toNat = byte.toNat := by
  have bound : byte.toNat < 128 := small
  change byte ∈ (if char.val.toNat ≤ 0x7f then _ else _) at member
  rw [Char.toNat]
  split at member
  · rw [List.mem_singleton] at member
    rw [member, UInt8.toNat_ofNat']
    omega
  · exfalso
    split at member
    · simp only [List.mem_cons, List.not_mem_nil, or_false] at member
      rcases member with rfl | rfl <;> rw [UInt8.toNat_ofNat'] at bound <;> omega
    · split at member
      · simp only [List.mem_cons, List.not_mem_nil, or_false] at member
        rcases member with rfl | rfl | rfl <;> rw [UInt8.toNat_ofNat'] at bound <;> omega
      · simp only [List.mem_cons, List.not_mem_nil, or_false] at member
        rcases member with rfl | rfl | rfl | rfl <;> rw [UInt8.toNat_ofNat'] at bound <;> omega

/-- The decimal digits of a number, as bytes. -/
def digitBytes (value : Nat) : List UInt8 := (Nat.toDigits 10 value).flatMap String.utf8EncodeChar

/-- The byte of one digit. -/
theorem utf8EncodeChar_digitChar {digit : Nat} (small : digit < 10) :
    String.utf8EncodeChar (Nat.digitChar digit) = [UInt8.ofNat (48 + digit)] := by
  have all : ∀ digit : Fin 10,
      String.utf8EncodeChar (Nat.digitChar digit) = [UInt8.ofNat (48 + digit)] := by decide
  exact all ⟨digit, small⟩

theorem digitBytes_small {digit : Nat} (small : digit < 10) :
    digitBytes digit = [UInt8.ofNat (48 + digit)] := by
  rw [digitBytes, Nat.toDigits_of_lt_base small, List.flatMap_singleton, utf8EncodeChar_digitChar small]

/-- The last digit of a number follows the digits of its tenth part. -/
theorem digitBytes_large {value : Nat} (large : 10 ≤ value) :
    digitBytes value = digitBytes (value / 10) ++ [UInt8.ofNat (48 + value % 10)] := by
  have small : value % 10 < 10 := Nat.mod_lt _ (by decide)
  rw [digitBytes, Nat.toDigits_of_base_le (by decide) large, List.flatMap_append, List.flatMap_singleton,
    utf8EncodeChar_digitChar small]
  rfl

theorem mem_digitBytes {value : Nat} {byte : UInt8} (member : byte ∈ digitBytes value) :
    48 ≤ byte ∧ byte ≤ 57 := by
  have digit : ∀ digit : Fin 10, 48 ≤ UInt8.ofNat (48 + digit) ∧ UInt8.ofNat (48 + digit) ≤ 57 := by
    decide
  induction value using Nat.strongRecOn with
  | ind value smaller =>
      rcases Nat.lt_or_ge value 10 with small | large
      · rw [digitBytes_small small, List.mem_singleton] at member
        rw [member]
        exact digit ⟨value, small⟩
      · rw [digitBytes_large large, List.mem_append, List.mem_singleton] at member
        rcases member with front | rfl
        · exact smaller (value / 10) (by omega) front
        · exact digit ⟨value % 10, Nat.mod_lt _ (by decide)⟩

theorem digitBytes_ne_nil (value : Nat) : digitBytes value ≠ [] := by
  rcases Nat.lt_or_ge value 10 with small | large
  · rw [digitBytes_small small]
    simp
  · rw [digitBytes_large large]
    simp

theorem digitBytes_length_le {value digits : Nat} (positive : 0 < digits) (bound : value < 10 ^ digits) :
    (digitBytes value).length ≤ digits := by
  induction digits generalizing value with
  | zero => cases positive
  | succ digits shorter =>
      rcases Nat.lt_or_ge value 10 with small | large
      · rw [digitBytes_small small]
        simp
      · have more : 0 < digits := by
          by_contra none_left
          obtain rfl : digits = 0 := by omega
          omega
        have tenth : value / 10 < 10 ^ digits := by
          rw [Nat.pow_succ] at bound
          omega
        have front := shorter more tenth
        rw [digitBytes_large large, List.length_append, List.length_singleton]
        omega

end OnyxDB.Library.Decimal
