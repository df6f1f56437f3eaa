import IndustrialRuntime.Lib.Decimal

namespace IndustrialRuntime.Irsp

/-- `std::variant<IrspNull, IrspSimple, IrspError, IrspInteger, IrspBulk, IrspArray, IrspMap>`. -/
inductive IrspValue where
  | null
  | simple (text : Bytes)
  | error (code message : Bytes)
  | integer (value : Int64)
  | bulk (data : Bytes)
  | array (items : List IrspValue)
  | map (entries : List (IrspValue × IrspValue))

/-- Induction over values whose arrays and maps nest other values. -/
@[elab_as_elim]
theorem IrspValue.nested_induction {P : IrspValue → Prop} (null : P .null)
    (simple : ∀ text, P (.simple text)) (error : ∀ code message, P (.error code message))
    (integer : ∀ value, P (.integer value)) (bulk : ∀ data, P (.bulk data))
    (array : ∀ items, (∀ v ∈ items, P v) → P (.array items))
    (map : ∀ entries, (∀ e ∈ entries, P e.1 ∧ P e.2) → P (.map entries)) (v : IrspValue) :
    P v := by
  refine IrspValue.rec (motive_2 := fun items => ∀ v ∈ items, P v)
    (motive_3 := fun entries => ∀ e ∈ entries, P e.1 ∧ P e.2)
    (motive_4 := fun e => P e.1 ∧ P e.2)
    null simple error integer bulk array map ?_ ?_ ?_ ?_ ?_ v
  · simp
  · intro head tail hh ht
    simpa using ⟨hh, ht⟩
  · simp
  · intro head tail hh ht
    simp only [List.mem_cons, forall_eq_or_imp]
    exact ⟨hh, ht⟩
  · exact fun _ _ hk hv => ⟨hk, hv⟩

def crlf : Bytes := [13, 10]

namespace Irsp1Codec

mutual

def encode : IrspValue → Bytes
  | .null => ascii "$-1" ++ crlf
  | .simple text => ascii "+" ++ text ++ crlf
  | .error code message =>
    ascii "-" ++ code ++ (if message.isEmpty then [] else ascii " " ++ message) ++ crlf
  | .integer value => ascii ":" ++ decimalInt value.toInt ++ crlf
  | .bulk data => ascii "$" ++ decimal data.length ++ crlf ++ data ++ crlf
  | .array items => ascii "*" ++ decimal items.length ++ crlf ++ encodeItems items
  | .map entries => ascii "%" ++ decimal entries.length ++ crlf ++ encodeEntries entries

def encodeItems : List IrspValue → Bytes
  | [] => []
  | item :: items => encode item ++ encodeItems items

def encodeEntries : List (IrspValue × IrspValue) → Bytes
  | [] => []
  | entry :: entries => encodeEntry entry ++ encodeEntries entries

def encodeEntry : IrspValue × IrspValue → Bytes
  | (key, val) => encode key ++ encode val

end

end Irsp1Codec

end IndustrialRuntime.Irsp
