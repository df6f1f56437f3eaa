import IndustrialRuntime.Server.WriteLoop

namespace IndustrialRuntime.Irsp

open IndustrialRuntime.Core

namespace CoreTagWriter

/-- `toVariant` checks only that there are enough bytes. -/
def Accepts (type bytes : Bytes) : Prop :=
  type = ascii "null" ∨ type = ascii "bool" ∨
    (∃ number ∈ widths, number.1 = type ∧ number.2 ≤ bytes.length) ∨ type = ascii "str"

/-- Bytes that are read although no value of the type is written so. -/
def Lenient (type bytes : Bytes) : Prop :=
  (type = ascii "null" ∧ bytes ≠ []) ∨ (type = ascii "bool" ∧ bytes ≠ [0] ∧ bytes ≠ [1]) ∨
    ∃ number ∈ widths, number.1 = type ∧ number.2 < bytes.length

theorem accepts_of_toVariant {type bytes : Bytes} {v : Variant}
    (converts : toVariant type bytes = some v) : Accepts type bytes := by
  by_contra refused
  simp only [Accepts, not_or, not_exists, not_and] at refused
  obtain ⟨null, bool, number, str⟩ := refused
  have short {label : Bytes} (width : Nat) (listed : (label, width) ∈ widths) :
      ¬(type = label ∧ decide (width ≤ bytes.length) = true) := by
    rintro ⟨same, enough⟩
    exact number _ listed same.symm (of_decide_eq_true enough)
  have none : toVariant type bytes = none := by
    unfold toVariant
    rw [if_neg null, if_neg bool, if_neg (short 1 (by decide)), if_neg (short 2 (by decide)),
      if_neg (short 4 (by decide)), if_neg (short 8 (by decide)), if_neg (short 1 (by decide)),
      if_neg (short 2 (by decide)), if_neg (short 4 (by decide)), if_neg (short 8 (by decide)),
      if_neg (short 4 (by decide)), if_neg (short 8 (by decide)), if_neg str]
  rw [none] at converts
  contradiction

/-- More bytes than a type needs are read like as many as it needs. -/
theorem toVariant_of_accepts {type bytes : Bytes} (accepts : Accepts type bytes) :
    ∃ v, toVariant type bytes = some v := by
  obtain rfl | rfl | ⟨number, listed, rfl, enough⟩ | rfl := accepts
  · exact ⟨_, rfl⟩
  · exact ⟨_, rfl⟩
  · simp only [widths, List.mem_cons, List.not_mem_nil, or_false] at listed
    obtain rfl | rfl | rfl | rfl | rfl | rfl | rfl | rfl | rfl | rfl := listed <;>
      simp only at enough <;> simp [toVariant, ascii, enough]
  · exact ⟨_, rfl⟩

theorem canonical_encodeVariant (v : Variant) :
    Canonical (encodeVariant v).1 (encodeVariant v).2 := by
  cases v with
  | null => exact .inl ⟨rfl, rfl⟩
  | bool value => cases value <;> simp [Canonical, encodeVariant, ascii]
  | string value => exact .inr (.inr (.inr rfl))
  | _ => simp [Canonical, encodeVariant, widths, ascii]

/-- A label has one width. -/
theorem width_unique {m n : Bytes × Nat} (listed : m ∈ widths) (other : n ∈ widths)
    (same : m.1 = n.1) : m.2 = n.2 := by
  have labels : (widths.map Prod.fst).Nodup := by decide
  have equal : m = n := List.inj_on_of_nodup_map labels listed other same
  rw [equal]

theorem not_lenient_of_canonical {type bytes : Bytes} (canonical : Canonical type bytes) :
    ¬Lenient type bytes := by
  have number_null : ∀ n ∈ widths, n.1 ≠ ascii "null" := by decide
  have number_bool : ∀ n ∈ widths, n.1 ≠ ascii "bool" := by decide
  have number_str : ∀ n ∈ widths, n.1 ≠ ascii "str" := by decide
  rintro (⟨null, some⟩ | ⟨bool, zero, one⟩ | ⟨n, listed, same, long⟩)
  · subst null
    obtain ⟨-, none⟩ | ⟨other, -⟩ | number | other := canonical
    · exact some none
    · exact absurd other (by decide)
    · exact number_null _ number rfl
    · exact absurd other (by decide)
  · subst bool
    obtain ⟨other, -⟩ | ⟨-, found | found⟩ | number | other := canonical
    · exact absurd other (by decide)
    · exact zero found
    · exact one found
    · exact number_bool _ number rfl
    · exact absurd other (by decide)
  · subst same
    obtain ⟨null, -⟩ | ⟨bool, -⟩ | number | str := canonical
    · exact number_null n listed null
    · exact number_bool n listed bool
    · have width := width_unique listed number rfl
      simp only at width
      omega
    · exact number_str n listed str

theorem canonical_of_accepts {type bytes : Bytes} (accepts : Accepts type bytes)
    (exact_bytes : ¬Lenient type bytes) : Canonical type bytes := by
  simp only [Lenient, not_or, not_and, not_exists, ne_eq, not_not, not_lt] at exact_bytes
  obtain ⟨null_bytes, bool_bytes, number_bytes⟩ := exact_bytes
  obtain null | bool | ⟨n, listed, same, enough⟩ | str := accepts
  · exact .inl ⟨null, null_bytes null⟩
  · refine .inr (.inl ⟨bool, ?_⟩)
    by_cases zero : bytes = [0]
    · exact .inl zero
    · exact .inr (bool_bytes bool zero)
  · have width : n.2 = bytes.length := by
      have most := number_bytes n listed same
      omega
    refine .inr (.inr (.inl ?_))
    rw [← same, ← width]
    exact listed
  · exact .inr (.inr (.inr str))

/-- Reading is the inverse of writing on all bytes but the lenient ones. -/
theorem toVariant_iff_of_not_lenient {type bytes : Bytes} (strict : ¬Lenient type bytes)
    (v : Variant) : toVariant type bytes = some v ↔ encodeVariant v = (type, bytes) := by
  constructor
  · intro converts
    have canonical := canonical_of_accepts (accepts_of_toVariant converts) strict
    obtain ⟨w, converted, encoded⟩ := toVariant_canonical canonical
    have same : w = v := Option.some.inj (converted.symm.trans converts)
    rw [← same, encoded]
  · intro encoded
    have decoded := toVariant_encodeVariant v
    rwa [encoded] at decoded

/-- Lenient bytes are read as a value that is written otherwise. -/
theorem reinterpreted_of_lenient {type bytes : Bytes} (lenient : Lenient type bytes) :
    ∃ v, toVariant type bytes = some v ∧ encodeVariant v ≠ (type, bytes) := by
  have accepts : Accepts type bytes := by
    obtain ⟨null, -⟩ | ⟨bool, -⟩ | ⟨n, listed, same, long⟩ := lenient
    · exact .inl null
    · exact .inr (.inl bool)
    · exact .inr (.inr (.inl ⟨n, listed, same, long.le⟩))
  obtain ⟨v, converts⟩ := toVariant_of_accepts accepts
  refine ⟨v, converts, ?_⟩
  intro encoded
  have canonical := canonical_encodeVariant v
  rw [encoded] at canonical
  exact not_lenient_of_canonical canonical lenient

end CoreTagWriter

namespace Backend

/-- `CoreTagWriter::write` refuses the bytes, or hands on the value that they encode. -/
def Forwards (type bytes : Bytes) : Prop :=
  ∀ (hash : Bytes → UInt64) (code : Handler → IrPluginWriteFn hash) (clock : Timestamp)
    (b : Backend hash) (name : Bytes),
    tagWriter code clock b name type bytes = (.error, b) ∨
      ∃ v, encodeVariant v = (type, bytes) ∧
        tagWriter code clock b name type bytes =
          let r := b.writeTag (some (hostWrite code)) (TagValue.of name v clock)
          (if r.1 then .accepted else .notHandled, r.2)

theorem forwards_of_not_lenient {type bytes : Bytes} (strict : ¬CoreTagWriter.Lenient type bytes) :
    Forwards type bytes := by
  intro hash code clock b name
  cases converts : CoreTagWriter.toVariant type bytes with
  | none =>
    left
    simp only [tagWriter, converts]
  | some v =>
    right
    refine ⟨v, (CoreTagWriter.toVariant_iff_of_not_lenient strict v).mp converts, ?_⟩
    simp only [tagWriter, converts]

/-- The decoder of SET is the inverse of the encoder of GET, and no device gets a value
other than the bytes say, on exactly the bytes that are not lenient. -/
theorem value_decoding_exact_iff (type bytes : Bytes) :
    ((∀ v, CoreTagWriter.toVariant type bytes = some v ↔ encodeVariant v = (type, bytes)) ∧
      Forwards type bytes) ↔ ¬CoreTagWriter.Lenient type bytes := by
  constructor
  · rintro ⟨inverse, -⟩ lenient
    obtain ⟨v, converts, differs⟩ := CoreTagWriter.reinterpreted_of_lenient lenient
    exact differs ((inverse v).mp converts)
  · intro strict
    exact ⟨CoreTagWriter.toVariant_iff_of_not_lenient strict, forwards_of_not_lenient strict⟩

/-- Two bytes for an `i8`: the second is dropped, and the write is accepted. -/
theorem second_byte_dropped :
    ¬(∀ v, CoreTagWriter.toVariant (ascii "i8") [5, 1] = some v ↔
        encodeVariant v = (ascii "i8", [5, 1])) ∧
      (tagWriter echoing 3 oneWriter (ascii "a/x") (ascii "i8") [5, 1]).1 = .accepted ∧
      ((tagWriter echoing 3 oneWriter (ascii "a/x") (ascii "i8") [5, 1]).2.engine.read
        (ascii "a/x")).map TagValue.value = some (.int8 5) := by
  refine ⟨?_, rfl, by decide⟩
  intro inverse
  have differs : encodeVariant (.int8 5) ≠ (ascii "i8", [5, 1]) := by
    decide
  exact differs ((inverse (.int8 5)).mp rfl)

end Backend

end IndustrialRuntime.Irsp
