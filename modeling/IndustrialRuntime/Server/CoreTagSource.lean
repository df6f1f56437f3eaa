import IndustrialRuntime.Core.TagEngine
import IndustrialRuntime.Semantic.TagSource
import IndustrialRuntime.Semantic.TopicLemmas
import Mathlib.Data.List.Sort

namespace IndustrialRuntime.Irsp

open IndustrialRuntime.Core

/-- The bytes of a number of the given width, as a little-endian host stores it. -/
def rawBytes (width value : Nat) : Bytes :=
  (List.range width).map (fun i => UInt8.ofNat (value / 256 ^ i))

/-- Type label and value bytes of a variant. -/
def encodeVariant : Variant → Bytes × Bytes
  | .null => (ascii "null", [])
  | .bool value => (ascii "bool", [if value then 1 else 0])
  | .int8 value => (ascii "i8", rawBytes 1 value.toUInt8.toNat)
  | .int16 value => (ascii "i16", rawBytes 2 value.toUInt16.toNat)
  | .int32 value => (ascii "i32", rawBytes 4 value.toUInt32.toNat)
  | .int64 value => (ascii "i64", rawBytes 8 value.toUInt64.toNat)
  | .uint8 value => (ascii "u8", rawBytes 1 value.toNat)
  | .uint16 value => (ascii "u16", rawBytes 2 value.toNat)
  | .uint32 value => (ascii "u32", rawBytes 4 value.toNat)
  | .uint64 value => (ascii "u64", rawBytes 8 value.toNat)
  | .float bits => (ascii "f32", rawBytes 4 bits.toNat)
  | .double bits => (ascii "f64", rawBytes 8 bits.toNat)
  | .string value => (ascii "str", value)

namespace CoreTagSource

variable {hash : Bytes → UInt64}

/-- The protocol record of a stored tag. -/
def toRecord (tag : TagValue) : TagRecord :=
  ⟨tag.name, (encodeVariant tag.value).1, tag.timestamp, (encodeVariant tag.value).2⟩

def read (engine : TagEngine hash) (name : Bytes) : Option TagRecord :=
  (engine.read name).map toRecord

/-- The batch size: no count and the count 0 ask for the default. -/
def batchLimit (count : UInt64) : Nat := if count = 0 then 1000 else count.toNat

/-- The end-of-iteration mark, which is also the cursor to start from. -/
def zero : Bytes := ascii "0"

def scan (engine : TagEngine hash) (cursor pattern : Bytes) (count : UInt64) : ScanResult :=
  let start := if cursor = zero then [] else cursor
  let limit := batchLimit count
  let found := engine.snapshot.filter
    (fun tag => decide (start < tag.name) && TopicMatcher.matches pattern tag.name)
  let names := (found.map TagValue.name).insertionSort (· ≤ ·)
  if names.length ≤ limit then ⟨zero, names⟩
  else ⟨((names.take limit).getLast?).getD [], names.take limit⟩

def tagSource (hash : Bytes → UInt64) : TagSource (TagEngine hash) where
  read := read
  contains := TagEngine.contains
  scan := scan

/-! ### What one call returns -/

theorem batchLimit_pos (count : UInt64) : 0 < batchLimit count := by
  unfold batchLimit
  split_ifs with h
  · decide
  · have : count.toNat ≠ 0 := fun hz => h (UInt64.toNat_inj.mp hz)
    omega

/-- The stored names that match a pattern, ascending. -/
def matching (engine : TagEngine hash) (pattern : Bytes) : List Bytes :=
  ((engine.snapshot.map TagValue.name).filter (TopicMatcher.matches pattern)).insertionSort (· ≤ ·)

theorem mem_matching (engine : TagEngine hash) (pattern name : Bytes) :
    name ∈ matching engine pattern ↔
      (∃ tag, engine.lookup name = some tag) ∧ TopicMatcher.matches pattern name := by
  rw [matching, List.mem_insertionSort, List.mem_filter, List.mem_map]
  apply and_congr_left
  intro _
  constructor
  · intro h
    obtain ⟨tag, ht, rfl⟩ := h
    exact ⟨tag, (engine.mem_snapshot tag).mp ht⟩
  · intro h
    obtain ⟨tag, ht⟩ := h
    have hn : tag.name = name := TagEngine.name_of_lookup ht
    subst hn
    exact ⟨tag, (engine.mem_snapshot tag).mpr ht, rfl⟩

/-- The names are strictly ascending, so each occurs once. -/
theorem matching_ascending (engine : TagEngine hash) (pattern : Bytes) :
    (matching engine pattern).Pairwise (· < ·) := by
  have sorted : (matching engine pattern).Pairwise (· ≤ ·) := List.pairwise_insertionSort _ _
  have distinct : (matching engine pattern).Nodup := by
    rw [matching, (List.perm_insertionSort _ _).nodup_iff]
    exact engine.nodup_snapshot_names.filter _
  exact (sorted.and distinct).imp (fun h => lt_of_le_of_ne h.1 h.2)

theorem ne_nil_of_mem_matching {engine : TagEngine hash} {pattern name : Bytes}
    (h : name ∈ matching engine pattern) : name ≠ [] :=
  TopicMatcher.ne_nil_of_matches ((mem_matching engine pattern name).mp h).2

theorem scan_names (engine : TagEngine hash) (start pattern : Bytes) :
    ((engine.snapshot.filter
      (fun tag => decide (start < tag.name) && TopicMatcher.matches pattern tag.name)).map
        TagValue.name).insertionSort (· ≤ ·) =
      (matching engine pattern).filter (fun name => decide (start < name)) := by
  refine List.Perm.eq_of_pairwise
    (fun a b _ _ (hab : a ≤ b) (hba : b ≤ a) => le_antisymm hab hba) ?_ ?_ ?_
  · exact List.pairwise_insertionSort _ _
  · exact (List.pairwise_insertionSort _ _).filter _
  · have expected : ((engine.snapshot.map TagValue.name).filter
        (TopicMatcher.matches pattern)).filter (fun name => decide (start < name)) =
        (engine.snapshot.filter (fun tag => decide (start < tag.name) &&
          TopicMatcher.matches pattern tag.name)).map TagValue.name := by
      rw [List.filter_filter, List.filter_map]
      rfl
    refine (List.perm_insertionSort _ _).trans ?_
    rw [← expected]
    exact ((List.perm_insertionSort _ _).filter _).symm

end CoreTagSource

end IndustrialRuntime.Irsp
