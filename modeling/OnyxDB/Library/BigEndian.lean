import Mathlib.Data.Nat.ModEq
import Mathlib.Tactic.Ring

/-! Fixed-width big-endian naturals over byte lists. -/

namespace OnyxDB.Library.BigEndian

/-- The `width` low-order base-256 digits of `value`, most significant first. -/
def toBigEndian : Nat → Nat → List UInt8
  | 0, _ => []
  | width + 1, value => UInt8.ofNat (value / 256 ^ width) :: toBigEndian width value

def ofBigEndian (bytes : List UInt8) : Nat :=
  bytes.foldl (fun value byte => 256 * value + byte.toNat) 0

@[simp]
theorem toBigEndian_length (width value : Nat) : (toBigEndian width value).length = width := by
  induction width with
  | zero => rfl
  | succ width inductive_length => simp [toBigEndian, inductive_length]

private theorem foldl_toBigEndian (width value start : Nat) :
    (toBigEndian width value).foldl (fun total byte => 256 * total + byte.toNat) start =
      256 ^ width * start + value % 256 ^ width := by
  induction width generalizing start with
  | zero => simp [toBigEndian, Nat.mod_one]
  | succ width rest =>
      have digit : (UInt8.ofNat (value / 256 ^ width)).toNat = value / 256 ^ width % 256 := by
        simp
      have expand : value % 256 ^ (width + 1) =
          value % 256 ^ width + 256 ^ width * (value / 256 ^ width % 256) := by
        rw [pow_succ, Nat.mod_mul]
      simp only [toBigEndian, List.foldl_cons]
      rw [rest, digit, expand, pow_succ]
      ring

/-- Reading back a written value returns it, up to the width. -/
theorem ofBigEndian_toBigEndian (width value : Nat) :
    ofBigEndian (toBigEndian width value) = value % 256 ^ width := by
  rw [ofBigEndian, foldl_toBigEndian]
  simp

theorem ofBigEndian_toBigEndian_of_lt {width value : Nat} (fits : value < 256 ^ width) :
    ofBigEndian (toBigEndian width value) = value := by
  rw [ofBigEndian_toBigEndian, Nat.mod_eq_of_lt fits]

private theorem foldl_lt (bytes : List UInt8) (start : Nat) :
    bytes.foldl (fun total byte => 256 * total + byte.toNat) start <
      256 ^ bytes.length * (start + 1) := by
  induction bytes generalizing start with
  | nil => simp
  | cons byte rest bound =>
      have step := bound (256 * start + byte.toNat)
      have small := byte.toNat_lt
      have grow : 256 ^ rest.length * (256 * start + byte.toNat + 1) ≤
          256 ^ rest.length * (256 * (start + 1)) := by
        apply Nat.mul_le_mul_left
        omega
      simp only [List.foldl_cons, List.length_cons]
      calc _ < 256 ^ rest.length * (256 * start + byte.toNat + 1) := step
        _ ≤ 256 ^ rest.length * (256 * (start + 1)) := grow
        _ = 256 ^ (rest.length + 1) * (start + 1) := by ring

theorem ofBigEndian_lt (bytes : List UInt8) : ofBigEndian bytes < 256 ^ bytes.length := by
  simpa [ofBigEndian] using foldl_lt bytes 0

private theorem foldl_start (bytes : List UInt8) (start : Nat) :
    bytes.foldl (fun total byte => 256 * total + byte.toNat) start =
      256 ^ bytes.length * start + ofBigEndian bytes := by
  induction bytes generalizing start with
  | nil => simp [ofBigEndian]
  | cons byte rest shorter =>
      simp only [ofBigEndian, List.foldl_cons, List.length_cons]
      rw [shorter, shorter (256 * 0 + byte.toNat), pow_succ]
      ring

/-- Multiples of the range do not show. -/
theorem toBigEndian_mul_add (width factor value : Nat) :
    toBigEndian width (256 ^ width * factor + value) = toBigEndian width value := by
  induction width generalizing factor with
  | zero => rfl
  | succ width rest =>
      have shape : 256 ^ (width + 1) * factor + value = 256 ^ width * (256 * factor) + value := by
        ring
      have positive : 0 < 256 ^ width := Nat.pow_pos (by decide)
      have digit : UInt8.ofNat (256 * factor + value / 256 ^ width) =
          UInt8.ofNat (value / 256 ^ width) := by
        apply UInt8.toNat_inj.mp
        simp
      rw [toBigEndian, toBigEndian, shape, rest, Nat.mul_add_div positive, digit]

/-- Writing a value that was read gives the bytes back. -/
theorem toBigEndian_ofBigEndian (bytes : List UInt8) :
    toBigEndian bytes.length (ofBigEndian bytes) = bytes := by
  induction bytes with
  | nil => rfl
  | cons byte rest shorter =>
      have value : ofBigEndian (byte :: rest) = 256 ^ rest.length * byte.toNat + ofBigEndian rest := by
        rw [ofBigEndian, List.foldl_cons, foldl_start]
        ring
      have positive : 0 < 256 ^ rest.length := Nat.pow_pos (by decide)
      have small := ofBigEndian_lt rest
      rw [List.length_cons, toBigEndian, value, toBigEndian_mul_add, shorter, Nat.mul_add_div positive,
        Nat.div_eq_of_lt small, Nat.add_zero, UInt8.ofNat_toNat]

end OnyxDB.Library.BigEndian
