import IndustrialRuntime.Lib.Bytes

namespace IndustrialRuntime.Core

/-- Nanoseconds of `std::chrono::system_clock` since the epoch. -/
abbrev Timestamp := Int64

inductive DataType where
  | null | bool | int8 | int16 | int32 | int64 | uint8 | uint16 | uint32 | uint64
  | float | double | string
  deriving DecidableEq, Repr

/-- `core::Variant`; a `float` or `double` is its IEEE 754 bit pattern. -/
inductive Variant where
  | null
  | bool (value : Bool)
  | int8 (value : Int8)
  | int16 (value : Int16)
  | int32 (value : Int32)
  | int64 (value : Int64)
  | uint8 (value : UInt8)
  | uint16 (value : UInt16)
  | uint32 (value : UInt32)
  | uint64 (value : UInt64)
  | float (bits : UInt32)
  | double (bits : UInt64)
  | string (value : Bytes)
  deriving DecidableEq, Repr

def dataTypeOf : Variant → DataType
  | .null => .null
  | .bool _ => .bool
  | .int8 _ => .int8
  | .int16 _ => .int16
  | .int32 _ => .int32
  | .int64 _ => .int64
  | .uint8 _ => .uint8
  | .uint16 _ => .uint16
  | .uint32 _ => .uint32
  | .uint64 _ => .uint64
  | .float _ => .float
  | .double _ => .double
  | .string _ => .string

/-- A number of an IEEE 754 format is a NaN when its magnitude bits exceed those of infinity. -/
def floatIsNan (bits : UInt32) : Bool := 0x7f800000 < bits &&& 0x7fffffff

def doubleIsNan (bits : UInt64) : Bool := 0x7ff0000000000000 < bits &&& 0x7fffffffffffffff

/-- `==` on `float`: no NaN equals anything, and the two zeros are equal. -/
def floatEqual (a b : UInt32) : Bool :=
  !floatIsNan a && !floatIsNan b && (a == b || (a &&& 0x7fffffff == 0 && b &&& 0x7fffffff == 0))

def doubleEqual (a b : UInt64) : Bool :=
  !doubleIsNan a && !doubleIsNan b &&
    (a == b || (a &&& 0x7fffffffffffffff == 0 && b &&& 0x7fffffffffffffff == 0))

/-- `operator==` of the variant: the same alternative, and equal values in it. -/
def valuesEqual : Variant → Variant → Bool
  | .float a, .float b => floatEqual a b
  | .double a, .double b => doubleEqual a b
  | a, b => a == b

/-- The values that are not equal to themselves. -/
def Variant.isNan : Variant → Bool
  | .float bits => floatIsNan bits
  | .double bits => doubleIsNan bits
  | _ => false

theorem valuesEqual_self (v : Variant) : valuesEqual v v = !v.isNan := by
  cases v <;> simp [valuesEqual, Variant.isNan, floatEqual, doubleEqual]

theorem floatEqual_trans {a b c : UInt32} (h : floatEqual a b) (h' : floatEqual b c) :
    floatEqual a c := by
  simp only [floatEqual, Bool.and_eq_true, Bool.or_eq_true, beq_iff_eq] at h h' ⊢
  obtain ⟨⟨ha, -⟩, same⟩ := h
  obtain ⟨⟨-, hc⟩, same'⟩ := h'
  refine ⟨⟨ha, hc⟩, ?_⟩
  rcases same with rfl | ⟨zero, middle⟩
  · exact same'
  · rcases same' with rfl | ⟨-, zero'⟩
    · exact .inr ⟨zero, middle⟩
    · exact .inr ⟨zero, zero'⟩

theorem doubleEqual_trans {a b c : UInt64} (h : doubleEqual a b) (h' : doubleEqual b c) :
    doubleEqual a c := by
  simp only [doubleEqual, Bool.and_eq_true, Bool.or_eq_true, beq_iff_eq] at h h' ⊢
  obtain ⟨⟨ha, -⟩, same⟩ := h
  obtain ⟨⟨-, hc⟩, same'⟩ := h'
  refine ⟨⟨ha, hc⟩, ?_⟩
  rcases same with rfl | ⟨zero, middle⟩
  · exact same'
  · rcases same' with rfl | ⟨-, zero'⟩
    · exact .inr ⟨zero, middle⟩
    · exact .inr ⟨zero, zero'⟩

/-- Equal values are identical or two equal numbers. -/
theorem valuesEqual_cases {v w : Variant} (h : valuesEqual v w) :
    v = w ∨ (∃ a b, v = .float a ∧ w = .float b ∧ floatEqual a b) ∨
      ∃ a b, v = .double a ∧ w = .double b ∧ doubleEqual a b := by
  unfold valuesEqual at h
  split at h
  · exact .inr (.inl ⟨_, _, rfl, rfl, h⟩)
  · exact .inr (.inr ⟨_, _, rfl, rfl, h⟩)
  · exact .inl (beq_iff_eq.mp h)

theorem valuesEqual_trans {u v w : Variant} (h : valuesEqual u v) (h' : valuesEqual v w) :
    valuesEqual u w := by
  rcases valuesEqual_cases h with rfl | ⟨a, b, rfl, rfl, same⟩ | ⟨a, b, rfl, rfl, same⟩
  · exact h'
  · cases w with
    | float c => exact floatEqual_trans same h'
    | _ => simp [valuesEqual] at h'
  · cases w with
    | double c => exact doubleEqual_trans same h'
    | _ => simp [valuesEqual] at h'

structure TagValue where
  name : Bytes
  type : DataType
  timestamp : Timestamp
  value : Variant
  deriving DecidableEq, Repr

/-- The constructor of `TagValue` from a name and a value. -/
def TagValue.of (name : Bytes) (value : Variant) (timestamp : Timestamp) : TagValue :=
  ⟨name, dataTypeOf value, timestamp, value⟩

end IndustrialRuntime.Core
