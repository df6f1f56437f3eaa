import IndustrialRuntime.Sdk.ClientAgreement
import IndustrialRuntime.Sdk.IrspClient
import IndustrialRuntime.Server.Closing

namespace IndustrialRuntime.Sdk

open Core Irsp Irsp.IrspValue

/-- What `decodeValue` and `decode_value` return; a `float` or `double` is its bit pattern. -/
inductive ClientDatum where
  | null
  | bool (value : Bool)
  | integer (value : Int)
  | float (bits : UInt32)
  | double (bits : UInt64)
  | text (value : Text)
  | bytes (value : Bytes)
  deriving DecidableEq

/-- `TagValue` of the clients. -/
structure ClientTag (K : Type) where
  name : Option Text
  type : Option Text
  ts : ClientValue K
  value : ClientDatum
  quality : Option Text

/-- `IrspEvent` -/
structure ClientEvent (K : Type) where
  source : Option Text
  category : Option Text
  severity : Option Text
  ts : ClientValue K
  message : Option Text

/-- What `_onFrame` makes of a frame; `raised` is an exception out of the handling of a push. -/
inductive Received (K : Type) where
  | undecodable
  | reply (value : ClientValue K)
  | tag (tag : ClientTag K)
  | event (event : ClientEvent K)
  | otherPush
  | raised

/-- The number that bytes of two's complement hold. -/
def twosComplement (width value : Nat) : Int :=
  if value < 2 ^ (8 * width - 1) then value else value - 2 ^ (8 * width)

/-- The numeric types with their widths, and how the little-endian bytes are read. -/
def numberFormat (type : Text) : Option (Nat × (Nat → ClientDatum)) :=
  if type = "i8".toList then some (1, fun n => .integer (twosComplement 1 n))
  else if type = "i16".toList then some (2, fun n => .integer (twosComplement 2 n))
  else if type = "i32".toList then some (4, fun n => .integer (twosComplement 4 n))
  else if type = "i64".toList then some (8, fun n => .integer (twosComplement 8 n))
  else if type = "u8".toList then some (1, fun n => .integer n)
  else if type = "u16".toList then some (2, fun n => .integer n)
  else if type = "u32".toList then some (4, fun n => .integer n)
  else if type = "u64".toList then some (8, fun n => .integer n)
  else if type = "f32".toList then some (4, fun n => .float (UInt32.ofNat n))
  else if type = "f64".toList then some (8, fun n => .double (UInt64.ofNat n))
  else none

/-- `m.key` and `m.get(key)`: a property that is missing is `undefined` or `None`, which the
callers treat as `null`. -/
def property {K : Type} [DecidableEq K] (properties : List (K × ClientValue K)) (key : K) :
    ClientValue K :=
  ((properties.find? fun e => e.1 = key).map Prod.snd).getD .null

namespace JavaScript

/-- `decodeValue`; `none` is an exception: `b` is not bytes, or too short for the number. -/
def decodeValue (type : Option Text) : ClientValue Text → Option ClientDatum
  | .null => some .null
  | .bytes b =>
    match type with
    | none => some (.bytes b)
    | some type =>
      if type = "null".toList then some .null
      else if type = "bool".toList then some (.bool (b.head? != some 0))
      else
        match numberFormat type with
        | some (width, read) =>
          if width ≤ b.length then some (read (CoreTagWriter.readLE width b)) else none
        | none =>
          if type = "str".toList then some (.text (textDecode b)) else some (.bytes b)
  | _ => none

def decodeTag (m : List (Text × ClientValue Text)) : Option (ClientTag Text) :=
  match asStr (property m "type".toList), asStr (property m "name".toList) with
  | .ok type, .ok name =>
    match decodeValue type (property m "value".toList), asStr (property m "quality".toList) with
    | some value, .ok quality => some ⟨name, type, property m "ts".toList, value, quality⟩
    | _, _ => none
  | _, _ => none

def decodeEvent (m : List (Text × ClientValue Text)) : Option (ClientEvent Text) :=
  match asStr (property m "source".toList), asStr (property m "category".toList),
      asStr (property m "severity".toList), asStr (property m "message".toList) with
  | .ok source, .ok category, .ok severity, .ok message =>
    some ⟨source, category, severity, property m "ts".toList, message⟩
  | _, _, _, _ => none

/-- `_onFrame` up to the callbacks and the queue of calls. -/
def onFrame (room : Nat) (frame : Bytes) : Received Text :=
  match decode room frame with
  | .error _ => .undecodable
  | .ok (.map m) =>
    if isPushFrame "push".toList (.map m) then
      match asStr (property m "push".toList) with
      | .error _ => .raised
      | .ok kind =>
        if kind = some "tag".toList then (decodeTag m).elim .raised .tag
        else if kind = some "event".toList then (decodeEvent m).elim .raised .event
        else .otherPush
    else .reply (.map m)
  | .ok v => .reply v

/-- The rest of `get`, from the reply on; `none` is an exception. A value that is no object has
none of the properties. -/
def getReply : ClientValue Text → Option (Option (ClientTag Text))
  | .null => some none
  | .map m => (decodeTag m).map some
  | _ => (decodeTag []).map some

end JavaScript

namespace Python

variable (py : Interpreter)

/-- `decode_value`; `none` is an exception. -/
def decodeValue (type : Text) : Option Bytes → Option ClientDatum
  | none => some .null
  | some b =>
    if type = "null".toList then some .null
    else if type = "bool".toList then b.head?.map fun c => .bool (c != 0)
    else if type = "str".toList then (Utf8.decode? b).map .text
    else
      match numberFormat type with
      | some (width, read) =>
        if b.length = width then some (read (CoreTagWriter.readLE width b)) else none
      | none => some (.bytes b)

/-- `as_str(v) or otherwise` -/
def asStrOr (otherwise : Text) (v : ClientValue (Option Text)) : Except Failure Text :=
  (asStr py v).map fun text =>
    match text with
    | none | some [] => otherwise
    | some text => text

/-- `int(v or 0)`; bytes are read as a number in ASCII. -/
def intOrZero : ClientValue (Option Text) → Option Int
  | .null | .text [] | .bytes [] | .array [] | .map [] => some 0
  | .integer n => some n
  | .text t => int py t
  | .bytes b => if b.all (· < 127) then int py (b.map fun c => Char.ofNat c.toNat) else none
  | .array _ | .map _ | .error _ _ => none

def bytesOf : ClientValue (Option Text) → Option Bytes
  | .bytes b => some b
  | _ => none

def decodeTag (m : List (Option Text × ClientValue (Option Text))) :
    Option (ClientTag (Option Text)) :=
  match asStrOr py "null".toList (property m "type".toList),
      asStrOr py [] (property m "name".toList) with
  | .ok type, .ok name =>
    match intOrZero py (property m "ts".toList),
        decodeValue type (bytesOf (property m "value".toList)),
        asStr py (property m "quality".toList) with
    | some ts, some value, .ok quality => some ⟨some name, some type, .integer ts, value, quality⟩
    | _, _, _ => none
  | _, _ => none

def decodeEvent (m : List (Option Text × ClientValue (Option Text))) :
    Option (ClientEvent (Option Text)) :=
  match asStrOr py [] (property m "source".toList), asStrOr py [] (property m "category".toList),
      asStrOr py "info".toList (property m "severity".toList),
      asStrOr py [] (property m "message".toList), intOrZero py (property m "ts".toList) with
  | .ok source, .ok category, .ok severity, .ok message, some ts =>
    some ⟨some source, some category, some severity, .integer ts, some message⟩
  | _, _, _, _, _ => none

/-- `_on_frame` up to the callbacks and the queue of calls. -/
def onFrame (room : Nat) (frame : Bytes) : Received (Option Text) :=
  match decode py room frame with
  | .error _ => .undecodable
  | .ok (.map m) =>
    if isPushFrame (some "push".toList) (.map m) then
      match asStr py (property m "push".toList) with
      | .error _ => .raised
      | .ok kind =>
        if kind = some "tag".toList then (decodeTag py m).elim .raised .tag
        else if kind = some "event".toList then (decodeEvent py m).elim .raised .event
        else .otherPush
    else .reply (.map m)
  | .ok v => .reply v

/-- The rest of `get`, from the reply on; `none` is an exception. -/
def getReply : ClientValue (Option Text) → Option (Option (ClientTag (Option Text)))
  | .null => some none
  | .map m => (decodeTag py m).map some
  | _ => none

end Python

/-! ### What a tag means to a client -/

/-- The datum stands for the value; a string value is the UTF-8 of the text. -/
def Denotes : Variant → ClientDatum → Prop
  | .null, d => d = .null
  | .bool value, d => d = .bool value
  | .int8 value, d => d = .integer value.toInt
  | .int16 value, d => d = .integer value.toInt
  | .int32 value, d => d = .integer value.toInt
  | .int64 value, d => d = .integer value.toInt
  | .uint8 value, d => d = .integer value.toNat
  | .uint16 value, d => d = .integer value.toNat
  | .uint32 value, d => d = .integer value.toNat
  | .uint64 value, d => d = .integer value.toNat
  | .float bits, d => d = .float bits
  | .double bits, d => d = .double bits
  | .string value, d => ∃ t, d = .text t ∧ Utf8.encode t = value

/-- The text stands for the bytes. -/
def Spelled (b : Bytes) (text : Option Text) : Prop := ∃ t, text = some t ∧ Utf8.encode t = b

/-- The client is told the stored tag. -/
structure Faithful {K : Type} (tag : TagValue) (told : ClientTag K) : Prop where
  name : Spelled tag.name told.name
  type : Spelled (encodeVariant tag.value).1 told.type
  ts : told.ts = .integer tag.timestamp.toInt
  value : Denotes tag.value told.value
  quality : told.quality = none

/-- The client is told the published event. -/
structure FaithfulEvent {K : Type} (event : Event) (told : ClientEvent K) : Prop where
  source : Spelled event.source told.source
  category : Spelled event.category told.category
  severity : Spelled (severityLower event.severity) told.severity
  ts : told.ts = .integer event.timestamp.toInt
  message : Spelled event.message told.message

/-- The texts of a tag: its name, and its value if that is a string. -/
def texts (tag : TagValue) : List Bytes :=
  match tag.value with
  | .string value => [tag.name, value]
  | _ => [tag.name]

/-! ### Reading a value -/

theorem twosComplement_toInt {width bits : Nat} (same : 8 * width = bits) (positive : 0 < width)
    (value : BitVec bits) : twosComplement width value.toNat = value.toInt := by
  have half : 2 ^ bits = 2 * 2 ^ (bits - 1) := by
    rw [← Nat.pow_succ']
    congr 1
    omega
  rw [twosComplement, BitVec.toInt_eq_toNat_cond, same]
  push_cast
  split_ifs <;> omega

/-- The label of a value. -/
def label : Variant → Text
  | .null => "null".toList
  | .bool _ => "bool".toList
  | .int8 _ => "i8".toList
  | .int16 _ => "i16".toList
  | .int32 _ => "i32".toList
  | .int64 _ => "i64".toList
  | .uint8 _ => "u8".toList
  | .uint16 _ => "u16".toList
  | .uint32 _ => "u32".toList
  | .uint64 _ => "u64".toList
  | .float _ => "f32".toList
  | .double _ => "f64".toList
  | .string _ => "str".toList

theorem encode_toList {s : String} (low : ∀ c ∈ s.toList, c.toNat ≤ 127) :
    Utf8.encode s.toList = ascii s := Utf8.encode_ascii _ low

theorem encode_label (v : Variant) : Utf8.encode (label v) = (encodeVariant v).1 := by
  cases v <;> exact encode_toList (by simp)

/-- The width and the bits of a number. -/
def numberOf : Variant → Option (Nat × Nat)
  | .int8 value => some (1, value.toUInt8.toNat)
  | .int16 value => some (2, value.toUInt16.toNat)
  | .int32 value => some (4, value.toUInt32.toNat)
  | .int64 value => some (8, value.toUInt64.toNat)
  | .uint8 value => some (1, value.toNat)
  | .uint16 value => some (2, value.toNat)
  | .uint32 value => some (4, value.toNat)
  | .uint64 value => some (8, value.toNat)
  | .float bits => some (4, bits.toNat)
  | .double bits => some (8, bits.toNat)
  | .null | .bool _ | .string _ => none

/-- The clients read a number with its own width, and as what it is. -/
theorem number_read {v : Variant} {width n : Nat} (number : numberOf v = some (width, n)) :
    (encodeVariant v).2 = rawBytes width n ∧ n < 256 ^ width ∧
      label v ∉ ["null".toList, "bool".toList, "str".toList] ∧
      ∃ read, numberFormat (label v) = some (width, read) ∧ Denotes v (read n) := by
  cases v with
  | null | bool _ | string _ => cases number
  | int8 value =>
    obtain ⟨rfl, rfl⟩ : 1 = width ∧ value.toUInt8.toNat = n := by simpa [numberOf] using number
    refine ⟨rfl, value.toUInt8.toNat_lt, by simp [label], _, rfl, ?_⟩
    exact congrArg _ (twosComplement_toInt (by decide) (by decide) value.toBitVec)
  | int16 value =>
    obtain ⟨rfl, rfl⟩ : 2 = width ∧ value.toUInt16.toNat = n := by simpa [numberOf] using number
    refine ⟨rfl, value.toUInt16.toNat_lt, by simp [label], _, rfl, ?_⟩
    exact congrArg _ (twosComplement_toInt (by decide) (by decide) value.toBitVec)
  | int32 value =>
    obtain ⟨rfl, rfl⟩ : 4 = width ∧ value.toUInt32.toNat = n := by simpa [numberOf] using number
    refine ⟨rfl, value.toUInt32.toNat_lt, by simp [label], _, rfl, ?_⟩
    exact congrArg _ (twosComplement_toInt (by decide) (by decide) value.toBitVec)
  | int64 value =>
    obtain ⟨rfl, rfl⟩ : 8 = width ∧ value.toUInt64.toNat = n := by simpa [numberOf] using number
    refine ⟨rfl, value.toUInt64.toNat_lt, by simp [label], _, rfl, ?_⟩
    exact congrArg _ (twosComplement_toInt (by decide) (by decide) value.toBitVec)
  | uint8 value =>
    obtain ⟨rfl, rfl⟩ : 1 = width ∧ value.toNat = n := by simpa [numberOf] using number
    exact ⟨rfl, value.toNat_lt, by simp [label], _, rfl, rfl⟩
  | uint16 value =>
    obtain ⟨rfl, rfl⟩ : 2 = width ∧ value.toNat = n := by simpa [numberOf] using number
    exact ⟨rfl, value.toNat_lt, by simp [label], _, rfl, rfl⟩
  | uint32 value =>
    obtain ⟨rfl, rfl⟩ : 4 = width ∧ value.toNat = n := by simpa [numberOf] using number
    exact ⟨rfl, value.toNat_lt, by simp [label], _, rfl, rfl⟩
  | uint64 value =>
    obtain ⟨rfl, rfl⟩ : 8 = width ∧ value.toNat = n := by simpa [numberOf] using number
    exact ⟨rfl, value.toNat_lt, by simp [label], _, rfl, rfl⟩
  | float bits =>
    obtain ⟨rfl, rfl⟩ : 4 = width ∧ bits.toNat = n := by simpa [numberOf] using number
    exact ⟨rfl, bits.toNat_lt, by simp [label], _, rfl, congrArg _ UInt32.ofNat_toNat⟩
  | double bits =>
    obtain ⟨rfl, rfl⟩ : 8 = width ∧ bits.toNat = n := by simpa [numberOf] using number
    exact ⟨rfl, bits.toNat_lt, by simp [label], _, rfl, congrArg _ UInt64.ofNat_toNat⟩

/-- The bytes of a number give back its bits. -/
theorem readLE_number {width n : Nat} (small : n < 256 ^ width) :
    CoreTagWriter.readLE width (rawBytes width n) = n := by
  rw [CoreTagWriter.readLE_rawBytes, Nat.mod_eq_of_lt small]

/-- Bytes that a JavaScript client reads as they are. -/
def JavaScript.Readable (b : Bytes) : Prop := (∃ t, Utf8.encode t = b) ∧ ¬byteOrderMark <+: b

/-- Bytes that a Python client reads at all. -/
def Python.Readable (b : Bytes) : Prop := ∃ t, Utf8.encode t = b

theorem JavaScript.encode_textDecode_iff (b : Bytes) :
    Utf8.encode (textDecode b) = b ↔ Readable b := by
  constructor
  · intro same
    refine ⟨⟨textDecode b, same⟩, fun marked => ?_⟩
    have kept : dropMark (textDecode b) = textDecode b := by
      conv_lhs => rw [← Utf8.decode_encode_text (textDecode b), same]
      rfl
    have unmarked := (dropMark_iff (textDecode b)).mp kept
    rw [same] at unmarked
    exact unmarked marked
  · rintro ⟨⟨t, rfl⟩, unmarked⟩
    rw [textDecode, Utf8.decode_encode_text, (dropMark_iff t).mpr unmarked]

theorem Python.decode?_iff (b : Bytes) : (∃ t, Utf8.decode? b = some t) ↔ Readable b := by
  simp only [Utf8.decode?_eq_some_iff, Readable]

theorem JavaScript.decodeValue_iff (v : Variant) :
    (∃ d, decodeValue (some (label v)) (.bytes (encodeVariant v).2) = some d ∧ Denotes v d) ↔
      ∀ s, v = .string s → Readable s := by
  cases number : numberOf v with
  | some bits =>
    obtain ⟨width, n⟩ := bits
    obtain ⟨bytes, small, other, read, format, denotes⟩ := number_read number
    simp only [List.mem_cons, List.not_mem_nil, or_false, not_or] at other
    constructor
    · rintro - s rfl
      cases number
    · intro _
      refine ⟨read n, ?_, denotes⟩
      simp only [decodeValue, other, if_false, format, bytes, CoreTagWriter.length_rawBytes,
        le_refl, if_true, readLE_number small]
  | none =>
    cases v with
    | null => simp [decodeValue, label, Denotes]
    | bool value => cases value <;> simp [decodeValue, label, encodeVariant, Denotes]
    | string value =>
      have decoded : decodeValue (some (label (.string value))) (.bytes value) =
          some (.text (textDecode value)) := by
        simp [decodeValue, label, numberFormat]
      have bytes : (encodeVariant (.string value)).2 = value := rfl
      rw [bytes, decoded]
      simp only [Denotes, Option.some.injEq, Variant.string.injEq, forall_eq',
        ← encode_textDecode_iff]
      constructor
      · rintro ⟨d, rfl, t, same, spelled⟩
        injection same with same
        rw [same]
        exact spelled
      · exact fun spelled => ⟨_, rfl, _, rfl, spelled⟩
    | _ => cases number

/-- A Python client reads a value right or not at all. -/
theorem Python.decodeValue_iff (v : Variant) :
    (∀ d, decodeValue (label v) (some (encodeVariant v).2) = some d → Denotes v d) ∧
      ((decodeValue (label v) (some (encodeVariant v).2)).isSome ↔
        ∀ s, v = .string s → Readable s) := by
  cases number : numberOf v with
  | some bits =>
    obtain ⟨width, n⟩ := bits
    obtain ⟨bytes, small, other, read, format, denotes⟩ := number_read number
    simp only [List.mem_cons, List.not_mem_nil, or_false, not_or] at other
    have value : decodeValue (label v) (some (encodeVariant v).2) = some (read n) := by
      simp only [decodeValue, other, if_false, format, bytes, CoreTagWriter.length_rawBytes,
        if_true, readLE_number small]
    rw [value]
    refine ⟨fun d same => ?_, iff_of_true rfl ?_⟩
    · rw [← Option.some.inj same]
      exact denotes
    · rintro s rfl
      cases number
  | none =>
    cases v with
    | null => simp [decodeValue, label, Denotes]
    | bool value => cases value <;> simp [decodeValue, label, encodeVariant, Denotes]
    | string value =>
      have decoded : decodeValue (label (.string value)) (some value) =
          (Utf8.decode? value).map .text := by
        simp [decodeValue, label]
      have bytes : (encodeVariant (.string value)).2 = value := rfl
      rw [bytes, decoded]
      simp only [Variant.string.injEq, forall_eq', ← decode?_iff, Option.isSome_map,
        Option.isSome_iff_exists, and_true]
      intro d same
      obtain ⟨t, read, rfl⟩ := Option.map_eq_some_iff.mp same
      exact ⟨t, rfl, (Utf8.decode?_eq_some_iff value t).mp read⟩
    | _ => cases number

end IndustrialRuntime.Sdk
