import IndustrialRuntime.Server.CoreTagSource

namespace IndustrialRuntime.Irsp.CoreTagWriter

open IndustrialRuntime.Core

/-- The number that the first bytes of a buffer hold on a little-endian host. -/
def readLE (width : Nat) (b : Bytes) : Nat :=
  (b.take width).foldr (fun byte value => byte.toNat + 256 * value) 0

/-- Type label and bytes to a variant; `none` for an unknown label or too few bytes. -/
def toVariant (type b : Bytes) : Option Variant :=
  let fits (width : Nat) : Bool := decide (width ≤ b.length)
  if type = ascii "null" then some .null
  else if type = ascii "bool" then some (.bool (b.head?.any (· ≠ 0)))
  else if type = ascii "i8" ∧ fits 1 then some (.int8 (UInt8.ofNat (readLE 1 b)).toInt8)
  else if type = ascii "i16" ∧ fits 2 then some (.int16 (UInt16.ofNat (readLE 2 b)).toInt16)
  else if type = ascii "i32" ∧ fits 4 then some (.int32 (UInt32.ofNat (readLE 4 b)).toInt32)
  else if type = ascii "i64" ∧ fits 8 then some (.int64 (UInt64.ofNat (readLE 8 b)).toInt64)
  else if type = ascii "u8" ∧ fits 1 then some (.uint8 (UInt8.ofNat (readLE 1 b)))
  else if type = ascii "u16" ∧ fits 2 then some (.uint16 (UInt16.ofNat (readLE 2 b)))
  else if type = ascii "u32" ∧ fits 4 then some (.uint32 (UInt32.ofNat (readLE 4 b)))
  else if type = ascii "u64" ∧ fits 8 then some (.uint64 (UInt64.ofNat (readLE 8 b)))
  else if type = ascii "f32" ∧ fits 4 then some (.float (UInt32.ofNat (readLE 4 b)))
  else if type = ascii "f64" ∧ fits 8 then some (.double (UInt64.ofNat (readLE 8 b)))
  else if type = ascii "str" then some (.string b)
  else none

/-! ### Reading back what `CoreTagSource` encodes -/

theorem rawBytes_succ (width value : Nat) :
    rawBytes (width + 1) value = UInt8.ofNat value :: rawBytes width (value / 256) := by
  simp [rawBytes, List.range_succ_eq_map, Nat.div_div_eq_div_mul, Nat.pow_succ']

@[simp] theorem length_rawBytes (width value : Nat) : (rawBytes width value).length = width := by
  simp [rawBytes]

/-- A little-endian number is read back modulo its width. -/
theorem readLE_rawBytes (width value : Nat) :
    readLE width (rawBytes width value) = value % 256 ^ width := by
  induction width generalizing value with
  | zero => simp [readLE, Nat.mod_one]
  | succ width ih =>
    have rest := ih (value / 256)
    rw [readLE] at rest
    rw [rawBytes_succ, readLE, List.take_succ_cons, List.foldr_cons, rest, Nat.pow_succ',
      Nat.mod_mul]
    simp

theorem toVariant_encodeVariant (v : Variant) :
    toVariant (encodeVariant v).1 (encodeVariant v).2 = some v := by
  cases v with
  | bool value => cases value <;> rfl
  | _ => simp [toVariant, encodeVariant, ascii, readLE_rawBytes]

theorem encodeVariant_injective : Function.Injective encodeVariant := by
  intro v w same
  apply Option.some.inj
  rw [← toVariant_encodeVariant v, same, toVariant_encodeVariant]

end IndustrialRuntime.Irsp.CoreTagWriter
