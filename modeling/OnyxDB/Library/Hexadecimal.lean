import Mathlib.Tactic.Common

/-! Bytes as hexadecimal digits, and lists cut into pieces of one size. -/

namespace OnyxDB.Library.Hexadecimal

section Digits

/-- The two lower-case digits of a byte. -/
def byteDigits (byte : UInt8) : List Char := [Nat.digitChar (byte >>> 4).toNat, Nat.digitChar (byte &&& 15).toNat]

def digits (bytes : List UInt8) : List Char := bytes.flatMap byteDigits

/-- The value of a digit of either case. -/
def nibble (digit : UInt8) : Option UInt8 :=
  if 48 ≤ digit ∧ digit ≤ 57 then some (digit - 48)
  else if 97 ≤ digit ∧ digit ≤ 102 then some (digit - 97 + 10)
  else if 65 ≤ digit ∧ digit ≤ 70 then some (digit - 65 + 10)
  else none

/-- The bytes that pairs of digits stand for; a digit that is left over is dropped. -/
def fromDigits : List UInt8 → Option (List UInt8)
  | high :: low :: rest => do
      let high ← nibble high
      let low ← nibble low
      let bytes ← fromDigits rest
      return (high <<< 4 ||| low) :: bytes
  | _ => some []

/-- A digit is one byte of UTF-8. -/
theorem utf8_digitChar (value : Fin 16) :
    ∃ digit, String.utf8EncodeChar (Nat.digitChar value) = [digit] ∧ nibble digit = some (UInt8.ofNat value) := by
  have all : ∀ value : Fin 16, (String.utf8EncodeChar (Nat.digitChar value)).length = 1 ∧
      (String.utf8EncodeChar (Nat.digitChar value)).head?.bind nibble = some (UInt8.ofNat value) := by decide
  obtain ⟨single, read⟩ := all value
  obtain ⟨digit, written⟩ := List.length_eq_one_iff.mp single
  rw [written] at read
  exact ⟨digit, written, read⟩

theorem byte_halves (byte : UInt8) :
    (byte >>> 4).toNat < 16 ∧ (byte &&& 15).toNat < 16 ∧ (byte >>> 4) <<< 4 ||| (byte &&& 15) = byte := by
  have all : ∀ value : Fin 256, (UInt8.ofNat value >>> 4).toNat < 16 ∧ (UInt8.ofNat value &&& 15).toNat < 16 ∧
      (UInt8.ofNat value >>> 4) <<< 4 ||| (UInt8.ofNat value &&& 15) = UInt8.ofNat value := by decide +kernel
  have here := all ⟨byte.toNat, byte.toNat_lt⟩
  rw [UInt8.ofNat_toNat] at here
  exact here

/-- The digits of a byte are two bytes of UTF-8 that are read back as the byte. -/
theorem utf8_byteDigits (byte : UInt8) : ∃ high low, (byteDigits byte).flatMap String.utf8EncodeChar = [high, low] ∧
    nibble high = some (byte >>> 4) ∧ nibble low = some (byte &&& 15) := by
  obtain ⟨highBound, lowBound, _⟩ := byte_halves byte
  obtain ⟨high, highWritten, highRead⟩ := utf8_digitChar ⟨_, highBound⟩
  obtain ⟨low, lowWritten, lowRead⟩ := utf8_digitChar ⟨_, lowBound⟩
  refine ⟨high, low, ?_, ?_, ?_⟩
  · rw [byteDigits, List.flatMap_cons, List.flatMap_singleton, highWritten, lowWritten]
    rfl
  · rw [highRead, UInt8.ofNat_toNat]
  · rw [lowRead, UInt8.ofNat_toNat]

theorem utf8_digits_length (bytes : List UInt8) :
    ((digits bytes).flatMap String.utf8EncodeChar).length = 2 * bytes.length := by
  induction bytes with
  | nil => rfl
  | cons byte bytes shorter =>
      obtain ⟨high, low, written, _⟩ := utf8_byteDigits byte
      rw [digits, List.flatMap_cons, List.flatMap_append, written, ← digits, List.length_append, shorter,
        List.length_cons]
      simp only [List.length_cons, List.length_nil]
      omega

/-- Reading the digits of bytes returns the bytes. -/
theorem fromDigits_digits (bytes : List UInt8) :
    fromDigits ((digits bytes).flatMap String.utf8EncodeChar) = some bytes := by
  induction bytes with
  | nil => rfl
  | cons byte bytes rest =>
      obtain ⟨high, low, written, highRead, lowRead⟩ := utf8_byteDigits byte
      obtain ⟨_, _, whole⟩ := byte_halves byte
      rw [digits, List.flatMap_cons, List.flatMap_append, written, ← digits, List.cons_append, List.cons_append,
        List.nil_append, fromDigits, highRead, lowRead, rest]
      exact congrArg (fun first => some (first :: bytes)) whole

end Digits

section Chunks
variable {α : Type}

/-- The list in pieces of `size`; the last one may be shorter. -/
def chunks (size : Nat) (items : List α) : List (List α) :=
  if items = [] ∨ size = 0 then [] else items.take size :: chunks size (items.drop size)
termination_by items.length
decreasing_by
  have filled : items ≠ [] ∧ size ≠ 0 := not_or.mp ‹_›
  have long := List.length_pos_iff.mpr filled.1
  rw [List.length_drop]
  omega

theorem chunks_length {size : Nat} {items chunk : List α} (member : chunk ∈ chunks size items) :
    chunk ≠ [] ∧ chunk.length ≤ size := by
  fun_induction chunks size items with
  | case1 => cases member
  | case2 items filled later =>
      obtain ⟨some_left, positive⟩ := not_or.mp filled
      rcases List.mem_cons.mp member with rfl | further
      · refine ⟨?_, List.length_take_le _ _⟩
        rw [ne_eq, List.take_eq_nil_iff]
        exact not_or.mpr ⟨positive, some_left⟩
      · exact later further

theorem chunks_flatten {size : Nat} (positive : 0 < size) (items : List α) : (chunks size items).flatten = items := by
  fun_induction chunks size items with
  | case1 items stops =>
      rcases stops with rfl | zero
      · rfl
      · omega
  | case2 items filled later => rw [List.flatten_cons, later, List.take_append_drop]

end Chunks

end OnyxDB.Library.Hexadecimal
