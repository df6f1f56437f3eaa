import IndustrialRuntime.Lib.Bytes

namespace IndustrialRuntime.Irsp

structure TagRecord where
  name : Bytes
  type : Bytes
  ts : Int64
  value : Bytes
  deriving DecidableEq, Repr

structure ScanResult where
  nextCursor : Bytes
  names : List Bytes
  deriving DecidableEq, Repr

/-- The read side of a tag store in state `ω`. -/
structure TagSource (ω : Type*) where
  read : ω → Bytes → Option TagRecord
  contains : ω → Bytes → Bool
  scan : ω → Bytes → Bytes → UInt64 → ScanResult

inductive WriteResult where
  | accepted | notHandled | error
  deriving DecidableEq, Repr

/-- The write-back outlet: a write of `(name, type, value)` may change the state. -/
abbrev TagWriter (ω : Type*) := ω → Bytes → Bytes → Bytes → WriteResult × ω

end IndustrialRuntime.Irsp
