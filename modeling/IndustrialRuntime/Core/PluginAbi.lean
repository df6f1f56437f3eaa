import IndustrialRuntime.Core.PluginHost
import IndustrialRuntime.Core.TagEngine

namespace IndustrialRuntime.Core

/-- `IrPluginDataType`; a C enumeration can hold codes that have no name. -/
inductive IrPluginDataType where
  | null | bool | int8 | int16 | int32 | int64 | uint8 | uint16 | uint32 | uint64
  | float | double | string
  | unnamed (code : UInt32)
  deriving DecidableEq, Repr

/-- `data` is what can be read from the pointer on; the null pointer is `none`. -/
structure IrPluginString where
  data : Option Bytes
  len : Nat
  deriving DecidableEq, Repr

/-- The union `as`, with the member that was written last. -/
inductive IrPluginUnion where
  | boolean (value : UInt8)
  | i8 (value : Int8)
  | i16 (value : Int16)
  | i32 (value : Int32)
  | i64 (value : Int64)
  | u8 (value : UInt8)
  | u16 (value : UInt16)
  | u32 (value : UInt32)
  | u64 (value : UInt64)
  | f32 (bits : UInt32)
  | f64 (bits : UInt64)
  | str (value : IrPluginString)
  deriving DecidableEq, Repr

structure IrPluginVariant where
  type : IrPluginDataType
  as : IrPluginUnion
  deriving DecidableEq, Repr

structure IrPluginTagValue where
  name : IrPluginString
  timestampNs : Int64
  value : IrPluginVariant
  deriving DecidableEq, Repr

namespace PluginHost

def toTimestamp (clock : Timestamp) (ns : Int64) : Timestamp := if ns = 0 then clock else ns

def fromTimestamp (ts : Timestamp) : Int64 := ts

def toString (s : IrPluginString) : Bytes :=
  match s.data with
  | none => []
  | some data => if s.len = 0 then [] else data.take s.len

/-- A view of the bytes of a `std::string`. -/
def viewOf (s : Bytes) : IrPluginString := ⟨some s, s.length⟩

/-- `toVariant`; reading a member that is not the written one is undefined. -/
def toVariant (v : IrPluginVariant) : Option Variant :=
  match v.type, v.as with
  | .bool, .boolean value => some (.bool (value ≠ 0))
  | .int8, .i8 value => some (.int8 value)
  | .int16, .i16 value => some (.int16 value)
  | .int32, .i32 value => some (.int32 value)
  | .int64, .i64 value => some (.int64 value)
  | .uint8, .u8 value => some (.uint8 value)
  | .uint16, .u16 value => some (.uint16 value)
  | .uint32, .u32 value => some (.uint32 value)
  | .uint64, .u64 value => some (.uint64 value)
  | .float, .f32 bits => some (.float bits)
  | .double, .f64 bits => some (.double bits)
  | .string, .str value => some (.string (toString value))
  | .null, _ | .unnamed _, _ => some .null
  | _, _ => none

/-- `fromVariant` into the zeroed `IrPluginTagValue` of `write`: for a null the
union stays as it is, with its first member zero. -/
def fromVariant : Variant → IrPluginVariant
  | .null => ⟨.null, .boolean 0⟩
  | .bool value => ⟨.bool, .boolean (if value then 1 else 0)⟩
  | .int8 value => ⟨.int8, .i8 value⟩
  | .int16 value => ⟨.int16, .i16 value⟩
  | .int32 value => ⟨.int32, .i32 value⟩
  | .int64 value => ⟨.int64, .i64 value⟩
  | .uint8 value => ⟨.uint8, .u8 value⟩
  | .uint16 value => ⟨.uint16, .u16 value⟩
  | .uint32 value => ⟨.uint32, .u32 value⟩
  | .uint64 value => ⟨.uint64, .u64 value⟩
  | .float bits => ⟨.float, .f32 bits⟩
  | .double bits => ⟨.double, .f64 bits⟩
  | .string value => ⟨.string, .str (viewOf value)⟩

/-- The C value that `write` hands to the handler. -/
def toAbi (tag : TagValue) : IrPluginTagValue :=
  ⟨viewOf tag.name, fromTimestamp tag.timestamp, fromVariant tag.value⟩

/-- The tag that `pushTagThunk` builds from the C value. -/
def fromAbi (clock : Timestamp) (tag : IrPluginTagValue) : Option TagValue :=
  (toVariant tag.value).map fun value =>
    ⟨toString tag.name, dataTypeOf value, toTimestamp clock tag.timestampNs, value⟩

theorem toString_viewOf (s : Bytes) : toString (viewOf s) = s := by
  cases s with
  | nil => rfl
  | cons c s => simp [toString, viewOf]

/-- Both conversions name the same member for every type. -/
theorem toVariant_fromVariant (v : Variant) : toVariant (fromVariant v) = some v := by
  cases v with
  | bool value => cases value <;> rfl
  | string value => simp [toVariant, fromVariant, toString_viewOf]
  | _ => rfl

/-- A tag comes back from the C boundary with its name and value. -/
theorem fromAbi_toAbi (clock : Timestamp) (tag : TagValue) :
    fromAbi clock (toAbi tag) =
      some ⟨tag.name, dataTypeOf tag.value, toTimestamp clock tag.timestamp, tag.value⟩ := by
  simp [fromAbi, toAbi, toVariant_fromVariant, toString_viewOf, fromTimestamp]

/-! ### Which registration is responsible -/

/-- No two registrations have the same prefix. -/
def Distinct (h : PluginHost) : Prop := (h.writers.map WriteReg.topicPrefix).Nodup

theorem distinct_initial : initial.Distinct := List.nodup_nil

theorem distinct_registerWriter {h : PluginHost} (distinct : h.Distinct) (topicPrefix : Bytes)
    (pluginCtx : Nat) (handler : Handler) :
    (h.registerWriter topicPrefix pluginCtx handler).Distinct := by
  unfold registerWriter
  split_ifs with taken
  · exact distinct
  · unfold Distinct
    rw [List.map_append, List.nodup_append]
    refine ⟨distinct, by simp, ?_⟩
    intro p held q new
    obtain ⟨reg, found, rfl⟩ := List.mem_map.mp held
    obtain rfl : q = topicPrefix := by simpa using new
    rintro same
    exact taken (List.any_eq_true.mpr ⟨reg, found, by simpa using same⟩)

theorem distinct_retireOwner {h : PluginHost} (distinct : h.Distinct) (owner : OwnerId) :
    (h.retireOwner owner).Distinct := by
  unfold retireOwner
  split_ifs
  · exact distinct
  · exact List.Nodup.sublist (List.filter_sublist.map _) distinct
  · exact distinct

/-- The registration under the longest prefix of the name. -/
structure Responsible (h : PluginHost) (name : Bytes) (reg : WriteReg) : Prop where
  registered : reg ∈ h.writers
  matching : reg.topicPrefix <+: name
  longest : ∀ other ∈ h.writers, other.topicPrefix <+: name →
    other.topicPrefix.length ≤ reg.topicPrefix.length

theorem Responsible.unique {h : PluginHost} (distinct : h.Distinct) {name : Bytes}
    {reg reg' : WriteReg} (first : h.Responsible name reg) (second : h.Responsible name reg') :
    reg = reg' := by
  have shorter := first.longest reg' second.registered second.matching
  have longer := second.longest reg first.registered first.matching
  have same : reg.topicPrefix = reg'.topicPrefix := by
    obtain ⟨rest, rfl⟩ := first.matching
    have held := List.prefix_append reg.topicPrefix rest
    exact List.IsPrefix.eq_of_length (List.prefix_of_prefix_length_le held second.matching longer)
      (Nat.le_antisymm longer shorter)
  exact List.inj_on_of_nodup_map distinct first.registered second.registered same

/-- `best` is the longest match among the registrations seen. -/
def Best (name : Bytes) (seen : List WriteReg) : Option WriteReg → Prop
  | none => ∀ reg ∈ seen, ¬reg.topicPrefix <+: name
  | some b => b ∈ seen ∧ b.topicPrefix <+: name ∧
    ∀ reg ∈ seen, reg.topicPrefix <+: name → reg.topicPrefix.length ≤ b.topicPrefix.length

theorem best_better {name : Bytes} {seen : List WriteReg} {best : Option WriteReg}
    (h : Best name seen best) (reg : WriteReg) :
    Best name (seen ++ [reg]) (better name best reg) := by
  unfold better
  by_cases matching : reg.topicPrefix.isPrefixOf name
  · have here : reg.topicPrefix <+: name := List.isPrefixOf_iff_prefix.mp matching
    rw [if_pos matching]
    cases best with
    | none =>
      refine ⟨by simp, here, fun other seen_other held => ?_⟩
      obtain before | new := List.mem_append.mp seen_other
      · exact absurd held (h other before)
      · rw [List.mem_singleton.mp new]
    | some b =>
      obtain ⟨found, held, longest⟩ := h
      by_cases longer : b.topicPrefix.length < reg.topicPrefix.length
      · simp only [longer, if_true]
        refine ⟨by simp, here, fun other seen_other other_held => ?_⟩
        obtain before | new := List.mem_append.mp seen_other
        · exact (longest other before other_held).trans longer.le
        · rw [List.mem_singleton.mp new]
      · simp only [longer, if_false]
        refine ⟨List.mem_append_left _ found, held, fun other seen_other other_held => ?_⟩
        obtain before | new := List.mem_append.mp seen_other
        · exact longest other before other_held
        · rw [List.mem_singleton.mp new]
          exact Nat.le_of_not_lt longer
  · have away : ¬reg.topicPrefix <+: name := fun held =>
      matching (List.isPrefixOf_iff_prefix.mpr held)
    rw [if_neg matching]
    cases best with
    | none =>
      intro other seen_other
      obtain before | new := List.mem_append.mp seen_other
      · exact h other before
      · rwa [List.mem_singleton.mp new]
    | some b =>
      obtain ⟨found, held, longest⟩ := h
      refine ⟨List.mem_append_left _ found, held, fun other seen_other other_held => ?_⟩
      obtain before | new := List.mem_append.mp seen_other
      · exact longest other before other_held
      · rw [List.mem_singleton.mp new] at other_held
        exact absurd other_held away

theorem best_foldl {name : Bytes} (regs : List WriteReg) {seen : List WriteReg}
    {best : Option WriteReg} (h : Best name seen best) :
    Best name (seen ++ regs) (regs.foldl (better name) best) := by
  induction regs generalizing seen best with
  | nil => rwa [List.append_nil]
  | cons reg regs ih =>
    have next := ih (best_better h reg)
    rwa [List.append_assoc, List.singleton_append] at next

theorem best_select (h : PluginHost) (name : Bytes) : Best name h.writers (h.select name) := by
  have start : Best name [] none := fun reg absent => absurd absent List.not_mem_nil
  exact best_foldl h.writers start

/-- `write` selects the registration under the longest prefix. -/
theorem responsible_of_select {h : PluginHost} {name : Bytes} {reg : WriteReg}
    (selected : h.select name = some reg) : h.Responsible name reg := by
  have best := best_select h name
  rw [selected] at best
  exact ⟨best.1, best.2.1, best.2.2⟩

theorem not_matching_of_select {h : PluginHost} {name : Bytes} (selected : h.select name = none) :
    ∀ reg ∈ h.writers, ¬reg.topicPrefix <+: name := by
  have best := best_select h name
  rwa [selected] at best

end PluginHost

end IndustrialRuntime.Core
