import IndustrialRuntime.Lib.Bytes
import Mathlib.Data.List.Induction
import Mathlib.Tactic.Ring

namespace IndustrialRuntime.BigEndian

/-- The bytes of a number, the highest first; what does not fit is dropped. -/
def bytes : Nat → Nat → Bytes
  | 0, _ => []
  | width + 1, n => bytes width (n / 256) ++ [UInt8.ofNat n]

/-- The number that the bytes stand for. -/
def value (b : Bytes) : Nat := b.foldl (fun n byte => 256 * n + byte.toNat) 0

@[simp] theorem length_bytes (width n : Nat) : (bytes width n).length = width := by
  induction width generalizing n with
  | zero => rfl
  | succ width ih => rw [bytes, List.length_append, ih, List.length_singleton]

theorem value_snoc (b : Bytes) (byte : UInt8) :
    value (b ++ [byte]) = 256 * value b + byte.toNat := by
  rw [value, List.foldl_append]
  rfl

theorem value_bytes (width n : Nat) : value (bytes width n) = n % 256 ^ width := by
  induction width generalizing n with
  | zero => rw [pow_zero, Nat.mod_one]; rfl
  | succ width ih =>
    have low : n % 2 ^ 8 = n % 256 := rfl
    rw [bytes, value_snoc, ih, UInt8.toNat_ofNat', low, pow_succ', Nat.mod_mul]
    omega

theorem value_bytes_of_lt {width n : Nat} (small : n < 256 ^ width) :
    value (bytes width n) = n := by
  rw [value_bytes, Nat.mod_eq_of_lt small]

theorem value_lt (b : Bytes) : value b < 256 ^ b.length := by
  induction b using List.reverseRecOn with
  | nil => exact Nat.one_pos
  | append_singleton b byte ih =>
    have low : byte.toNat < 256 := byte.toNat_lt
    rw [value_snoc, List.length_append, List.length_singleton, pow_succ]
    omega

/-- Bytes are those of the number that they stand for. -/
theorem bytes_value (b : Bytes) : bytes b.length (value b) = b := by
  induction b using List.reverseRecOn with
  | nil => rfl
  | append_singleton b byte ih =>
    have low : byte.toNat < 256 := byte.toNat_lt
    have high : (256 * value b + byte.toNat) / 256 = value b := by omega
    have last : UInt8.ofNat (256 * value b + byte.toNat) = byte := by
      apply UInt8.toNat.inj
      rw [UInt8.toNat_ofNat']
      omega
    rw [List.length_append, List.length_singleton, bytes, value_snoc, high, ih, last]

end IndustrialRuntime.BigEndian
