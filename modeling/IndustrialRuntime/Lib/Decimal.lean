import IndustrialRuntime.Lib.Bytes
import Mathlib.Data.List.TakeWhile
import Mathlib.Tactic.Common
import Mathlib.Algebra.Order.Ring.Int

namespace IndustrialRuntime

/-- `std::to_string` of an unsigned number. -/
def decimal (n : Nat) : Bytes := (Nat.toDigits 10 n).map (fun c => UInt8.ofNat c.toNat)

/-- `std::to_string` of a signed number. -/
def decimalInt (i : Int) : Bytes := if i < 0 then 45 :: decimal i.natAbs else decimal i.natAbs

def isDigit (b : UInt8) : Bool := 48 ≤ b && b ≤ 57

/-- Value of a run of decimal digits. -/
def decimalValue (digits : Bytes) : Nat :=
  digits.foldl (fun acc b => 10 * acc + (b.toNat - 48)) 0

/-- `std::from_chars` into `std::int64_t`: an optional minus sign and the longest
run of digits, with what follows them. `none` is `invalid_argument` (no digits)
or `result_out_of_range`. -/
def fromChars (s : Bytes) : Option (Int64 × Bytes) :=
  let neg : Bool := s.head? = some 45
  let body := if neg then s.tail else s
  let digits := body.takeWhile isDigit
  if digits = [] then none
  else
    let v : Int := if neg then -(decimalValue digits : Int) else decimalValue digits
    if -2 ^ 63 ≤ v ∧ v < 2 ^ 63 then some (Int64.ofInt v, body.dropWhile isDigit) else none

theorem toNat_of_mem_toDigits {n : Nat} {c : Char} (h : c ∈ Nat.toDigits 10 n) :
    48 ≤ c.toNat ∧ c.toNat ≤ 57 := by
  have hd := Nat.isDigit_of_mem_toDigits (by decide) (by decide) h
  simp only [Char.isDigit, Bool.and_eq_true, decide_eq_true_eq] at hd
  exact ⟨by simpa [UInt32.le_iff_toNat_le] using hd.1,
    by simpa [UInt32.le_iff_toNat_le] using hd.2⟩

theorem digit_of_mem_decimal {n : Nat} {b : UInt8} (h : b ∈ decimal n) : isDigit b := by
  obtain ⟨c, hc, rfl⟩ := List.mem_map.mp h
  obtain ⟨low, high⟩ := toNat_of_mem_toDigits hc
  have value : (UInt8.ofNat c.toNat).toNat = c.toNat :=
    UInt8.toNat_ofNat_of_lt (show c.toNat < 256 by omega)
  rw [isDigit, Bool.and_eq_true, decide_eq_true_eq, decide_eq_true_eq, UInt8.le_iff_toNat_le,
    UInt8.le_iff_toNat_le, value]
  exact ⟨low, high⟩

theorem decimal_ne_nil (n : Nat) : decimal n ≠ [] := by
  simp [decimal, Nat.toDigits_ne_nil]

theorem decimalValue_map (cs : List Char) (h : ∀ c ∈ cs, c.toNat < 256) (acc : Nat) :
    (cs.map (fun c => UInt8.ofNat c.toNat)).foldl (fun acc b => 10 * acc + (b.toNat - 48)) acc =
      Nat.ofDigitChars 10 cs acc := by
  induction cs generalizing acc with
  | nil => rfl
  | cons c cs ih =>
    have hc : c.toNat % 2 ^ 8 = c.toNat := Nat.mod_eq_of_lt (h c (by simp))
    rw [List.map_cons, List.foldl_cons, ih (fun d hd => h d (by simp [hd])),
      Nat.ofDigitChars_cons, UInt8.toNat_ofNat', hc]
    rfl

/-- Printing is inverted by reading the digits back. -/
theorem decimalValue_decimal (n : Nat) : decimalValue (decimal n) = n := by
  have small : ∀ c ∈ Nat.toDigits 10 n, c.toNat < 256 := by
    intro c hc
    have := toNat_of_mem_toDigits hc
    omega
  rw [decimalValue, decimal, decimalValue_map _ small, Nat.ofDigitChars_ten_toDigits]

theorem takeWhile_decimal (n : Nat) : (decimal n).takeWhile isDigit = decimal n :=
  List.takeWhile_eq_self_iff.mpr (fun _ h => digit_of_mem_decimal h)

theorem dropWhile_decimal (n : Nat) : (decimal n).dropWhile isDigit = [] :=
  List.dropWhile_eq_nil_iff.mpr (fun _ h => digit_of_mem_decimal h)

theorem head_decimal_ne_minus (n : Nat) : (decimal n).head? ≠ some 45 := by
  intro h
  have hd := digit_of_mem_decimal (List.mem_of_mem_head? h)
  exact absurd hd (by decide)

/-- `from_chars` inverts `to_string` on every 64-bit integer. -/
theorem fromChars_decimalInt (i : Int64) : fromChars (decimalInt i.toInt) = some (i, []) := by
  have low := i.le_toInt
  have high := i.toInt_lt
  by_cases hneg : i.toInt < 0
  · have value : -(i.toInt.natAbs : Int) = i.toInt := by omega
    simp only [decimalInt, hneg, if_true, fromChars, List.head?_cons, decide_true, List.tail_cons,
      takeWhile_decimal, dropWhile_decimal, decimal_ne_nil, if_false, decimalValue_decimal, value,
      low, high, and_self, Int64.ofInt_toInt]
  · have value : (i.toInt.natAbs : Int) = i.toInt := by omega
    simp only [decimalInt, hneg, if_false, fromChars, head_decimal_ne_minus, decide_false,
      Bool.false_eq_true, takeWhile_decimal, dropWhile_decimal, decimal_ne_nil,
      decimalValue_decimal, value, low, high, and_self, if_true, Int64.ofInt_toInt]

/-- A size below `2^63` is read back as itself. -/
theorem fromChars_decimal {n : Nat} (h : n < 2 ^ 63) :
    fromChars (decimal n) = some (Int64.ofInt n, []) := by
  have value : (Int64.ofInt n).toInt = n := Int64.toInt_ofInt_of_le (by omega) (by omega)
  have print : decimalInt (Int64.ofInt n).toInt = decimal n := by
    rw [value, decimalInt, if_neg (by omega), Int.natAbs_natCast]
  rw [← print, fromChars_decimalInt]

/-- No digit string holds a carriage return. -/
theorem cr_notMem_decimal (n : Nat) : (13 : UInt8) ∉ decimal n := by
  intro h
  exact absurd (digit_of_mem_decimal h) (by decide)

theorem cr_notMem_decimalInt (i : Int) : (13 : UInt8) ∉ decimalInt i := by
  rw [decimalInt]
  split_ifs
  · simp [cr_notMem_decimal]
  · exact cr_notMem_decimal _

end IndustrialRuntime
