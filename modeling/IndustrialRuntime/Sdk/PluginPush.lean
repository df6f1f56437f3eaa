import IndustrialRuntime.Sdk.ClientTold
import IndustrialRuntime.Sdk.PluginWrites

namespace IndustrialRuntime.Irsp.IrPlugin

open Core Sdk

/-! ### What a plugin pushes -/

/-- `sizeof` of an integral type. -/
inductive Size where
  | one | two | four | eight
  deriving DecidableEq, Repr

def Size.bits : Size → Nat
  | .one => 8
  | .two => 16
  | .four => 32
  | .eight => 64

/-- A value of an arithmetic type; the integral types other than `bool` by signedness and size. -/
inductive Arithmetic where
  | bool (value : Bool)
  | float (bits : UInt32)
  | double (bits : UInt64)
  | signed (size : Size) (value : BitVec size.bits)
  | unsigned (size : Size) (value : BitVec size.bits)

/-- `Host::fillVariant` -/
def fillVariant : Arithmetic → IrPluginVariant
  | .bool value => ⟨.bool, .boolean (if value then 1 else 0)⟩
  | .float bits => ⟨.float, .f32 bits⟩
  | .double bits => ⟨.double, .f64 bits⟩
  | .signed .one value => ⟨.int8, .i8 (Int8.ofBitVec value)⟩
  | .signed .two value => ⟨.int16, .i16 (Int16.ofBitVec value)⟩
  | .signed .four value => ⟨.int32, .i32 (Int32.ofBitVec value)⟩
  | .signed .eight value => ⟨.int64, .i64 (Int64.ofBitVec value)⟩
  | .unsigned .one value => ⟨.uint8, .u8 (UInt8.ofBitVec value)⟩
  | .unsigned .two value => ⟨.uint16, .u16 (UInt16.ofBitVec value)⟩
  | .unsigned .four value => ⟨.uint32, .u32 (UInt32.ofBitVec value)⟩
  | .unsigned .eight value => ⟨.uint64, .u64 (UInt64.ofBitVec value)⟩

/-- What the two overloads of `Host::pushTag` take. -/
inductive Pushed where
  | number (value : Arithmetic)
  | text (value : Text)

/-- The structure that `Host::pushTag` hands over. -/
def pushTag (name : Bytes) (value : Pushed) (timestampNs : Int64) : IrPluginTagValue :=
  match value with
  | .number value => ⟨PluginHost.viewOf name, timestampNs, fillVariant value⟩
  | .text value =>
    ⟨PluginHost.viewOf name, timestampNs, ⟨.string, .str (PluginHost.viewOf (Utf8.encode value))⟩⟩

/-- The number itself. -/
def Arithmetic.datum : Arithmetic → ClientDatum
  | .bool value => .bool value
  | .float bits => .float bits
  | .double bits => .double bits
  | .signed _ value => .integer value.toInt
  | .unsigned _ value => .integer value.toNat

def Pushed.datum : Pushed → ClientDatum
  | .number value => value.datum
  | .text value => .text value

/-- The texts of a push. -/
def Pushed.texts (name : Text) : Pushed → List Text
  | .number _ => [name]
  | .text value => [name, value]

/-- What the host makes of a push. -/
def Pushed.variant : Pushed → Variant
  | .number (.bool value) => .bool value
  | .number (.float bits) => .float bits
  | .number (.double bits) => .double bits
  | .number (.signed .one value) => .int8 (Int8.ofBitVec value)
  | .number (.signed .two value) => .int16 (Int16.ofBitVec value)
  | .number (.signed .four value) => .int32 (Int32.ofBitVec value)
  | .number (.signed .eight value) => .int64 (Int64.ofBitVec value)
  | .number (.unsigned .one value) => .uint8 (UInt8.ofBitVec value)
  | .number (.unsigned .two value) => .uint16 (UInt16.ofBitVec value)
  | .number (.unsigned .four value) => .uint32 (UInt32.ofBitVec value)
  | .number (.unsigned .eight value) => .uint64 (UInt64.ofBitVec value)
  | .text value => .string (Utf8.encode value)

/-- The tag that is stored. -/
def Pushed.tag (name : Text) (value : Pushed) (clock : Timestamp) (timestampNs : Int64) :
    TagValue :=
  ⟨Utf8.encode name, dataTypeOf value.variant, PluginHost.toTimestamp clock timestampNs,
    value.variant⟩

theorem fromAbi_pushTag (name : Text) (value : Pushed) (clock : Timestamp) (timestampNs : Int64) :
    PluginHost.fromAbi clock (pushTag (Utf8.encode name) value timestampNs) =
      some (value.tag name clock timestampNs) := by
  have converts : PluginHost.toVariant (pushTag (Utf8.encode name) value timestampNs).value =
      some value.variant := by
    match value with
    | .number (.bool value) => cases value <;> rfl
    | .number (.float _) | .number (.double _) => rfl
    | .number (.signed size _) => cases size <;> rfl
    | .number (.unsigned size _) => cases size <;> rfl
    | .text value => exact congrArg (some ∘ Variant.string) (PluginHost.toString_viewOf _)
  have named : PluginHost.toString (pushTag (Utf8.encode name) value timestampNs).name =
      Utf8.encode name := by
    cases value <;> exact PluginHost.toString_viewOf _
  have stamped : (pushTag (Utf8.encode name) value timestampNs).timestampNs = timestampNs := by
    cases value <;> rfl
  rw [PluginHost.fromAbi, converts, named, stamped]
  rfl

/-- The variant stands for the value that was pushed. -/
theorem denotes_variant {value : Pushed} {d : ClientDatum} (told : Denotes value.variant d) :
    d = value.datum := by
  match value with
  | .number (.bool _) | .number (.float _) | .number (.double _) => exact told
  | .number (.signed size _) => cases size <;> exact told
  | .number (.unsigned size _) => cases size <;> exact told
  | .text value =>
    obtain ⟨t, rfl, same⟩ := told
    have text := congrArg Utf8.decode same
    rw [Utf8.decode_encode_text, Utf8.decode_encode_text] at text
    rw [text]
    rfl

theorem texts_tag (name : Text) (value : Pushed) (clock : Timestamp) (timestampNs : Int64) :
    Sdk.texts (value.tag name clock timestampNs) = (value.texts name).map Utf8.encode := by
  match value with
  | .number (.bool _) | .number (.float _) | .number (.double _) => rfl
  | .number (.signed size _) => cases size <;> rfl
  | .number (.unsigned size _) => cases size <;> rfl
  | .text _ => rfl

/-- Only a string takes more than eight bytes. -/
theorem length_number {v : Variant} (number : ∀ s, v ≠ .string s) :
    (encodeVariant v).2.length ≤ 8 := by
  cases v with
  | string s => exact absurd rfl (number s)
  | _ => simp [encodeVariant, rawBytes]

theorem fitsMemory_tag {name : Text} {value : Pushed}
    (short : ∀ t ∈ value.texts name, (Utf8.encode t).length < 2 ^ 63) (clock : Timestamp)
    (timestampNs : Int64) : FitsMemory (value.tag name clock timestampNs) := by
  cases value with
  | text value =>
    exact ⟨short name (by simp [Pushed.texts]), short value (by simp [Pushed.texts])⟩
  | number value =>
    have number : ∀ s, (Pushed.number value).variant ≠ .string s := by
      intro s
      match value with
      | .bool _ | .float _ | .double _ => exact Variant.noConfusion
      | .signed size _ => cases size <;> exact Variant.noConfusion
      | .unsigned size _ => cases size <;> exact Variant.noConfusion
    have bytes := length_number number
    refine ⟨short name (by simp [Pushed.texts]), ?_⟩
    show (encodeVariant (Pushed.number value).variant).2.length < 2 ^ 63
    omega

/-! ### From the plugin to the client -/

variable {hash : Bytes → UInt64}

/-- What a client makes of the answer to `GET`. -/
structure Told {K : Type} (name : Text) (value : Pushed) (clock : Timestamp) (timestampNs : Int64)
    (told : ClientTag K) : Prop where
  name : told.name = some name
  value : told.value = value.datum
  ts : told.ts = .integer (PluginHost.toTimestamp clock timestampNs).toInt

theorem text_of_spelled {t : Text} {told : Option Text} (spelled : Spelled (Utf8.encode t) told) :
    told = some t := by
  obtain ⟨u, rfl, same⟩ := spelled
  have text := congrArg Utf8.decode same
  rw [Utf8.decode_encode_text, Utf8.decode_encode_text] at text
  rw [text]

theorem told_of_faithful {K : Type} {name : Text} {value : Pushed} {clock : Timestamp}
    {timestampNs : Int64} {told : ClientTag K}
    (faithful : Faithful (value.tag name clock timestampNs) told) :
    Told name value clock timestampNs told := by
  exact ⟨text_of_spelled faithful.name, denotes_variant faithful.value, faithful.ts⟩

/-- A push stores the tag. -/
theorem pushTagThunk_pushTag (b : Backend hash) (clock : Timestamp) (name : Text) (value : Pushed)
    (timestampNs : Int64) :
    Backend.pushTagThunk clock (pushTag (Utf8.encode name) value timestampNs) b =
      some (if (b.engine.writeImpl (value.tag name clock timestampNs)).1 then 1 else 0,
        { b with engine := (b.engine.writeImpl (value.tag name clock timestampNs)).2 }) := by
  rw [Backend.pushTagThunk, fromAbi_pushTag]
  rfl

theorem encode_ne_nil {name : Text} (named : name ≠ []) : Utf8.encode name ≠ [] := by
  intro empty
  apply named
  rw [← Utf8.decode_encode_text name, empty]
  rfl

/-- What the server answers to `GET`. -/
def getAnswer (writer : Option (TagWriter (Backend hash))) (d : Dispatcher) (session : Session)
    (b : Backend hash) (name : Text) : Bytes :=
  Irsp1Codec.encode (Dispatcher.handle (Backend.tagSource hash) writer d session b
    (Dispatcher.commandLine (ascii "GET") [Utf8.encode name])).reply

theorem getAnswer_stored (writer : Option (TagWriter (Backend hash))) (d : Dispatcher)
    {session : Session} (greeted : session.hello) {b : Backend hash} {name : Text} {tag : TagValue}
    (stored : b.engine.read (Utf8.encode name) = some tag) :
    getAnswer writer d session b name =
      Irsp1Codec.encode (tagToMap (CoreTagSource.toRecord tag)) := by
  rw [getAnswer, Dispatcher.handle_get _ _ _ _ greeted]
  simp only [Dispatcher.getTag, Backend.tagSource, CoreTagSource.read, stored, Option.map_some,
    Option.elim_some]

/-- Both clients make the value of the answer to `GET`. -/
def GetTold (py : Python.Interpreter) (room : Nat) (b : Backend hash) (name : Text) (value : Pushed)
    (clock : Timestamp) (timestampNs : Int64) : Prop :=
  ∀ (writer : Option (TagWriter (Backend hash))) (d : Dispatcher) (session : Session),
    session.hello →
      (∃ reply told,
        JavaScript.onFrame (room + 2) (getAnswer writer d session b name) = .reply reply ∧
        JavaScript.getReply reply = some (some told) ∧ Told name value clock timestampNs told) ∧
      ∃ reply told,
        Python.onFrame py (room + 2) (getAnswer writer d session b name) = .reply reply ∧
        Python.getReply py reply = some (some told) ∧ Told name value clock timestampNs told

/-- Both clients are told a stored value. -/
theorem stored_told (py : Python.Interpreter) (room : Nat) {b : Backend hash} {name : Text}
    {value : Pushed} {clock : Timestamp} {timestampNs : Int64}
    (stored : b.engine.read (Utf8.encode name) = some (value.tag name clock timestampNs))
    (short : ∀ t ∈ value.texts name, (Utf8.encode t).length < 2 ^ 63)
    (unmarked : ∀ t ∈ value.texts name, ¬IrspValue.byteOrderMark <+: Utf8.encode t) :
    GetTold py room b name value clock timestampNs := by
  intro writer d session greeted
  have fits := fitsMemory_tag short clock timestampNs
  rw [getAnswer_stored writer d greeted stored]
  constructor
  · obtain ⟨reply, received, exact_⟩ := JavaScript.answered_iff _ fits room
    have readable : ∀ c ∈ Sdk.texts (value.tag name clock timestampNs), JavaScript.Readable c := by
      rw [texts_tag]
      intro c listed
      obtain ⟨t, found, rfl⟩ := List.mem_map.mp listed
      exact ⟨⟨t, rfl⟩, unmarked t found⟩
    obtain ⟨told, got, faithful⟩ := exact_.mpr readable
    exact ⟨reply, told, received, got, told_of_faithful faithful⟩
  · obtain ⟨reply, received, exact_, -⟩ := Python.answered_iff _ fits room py
    have readable : ∀ c ∈ Sdk.texts (value.tag name clock timestampNs), Python.Readable c := by
      rw [texts_tag]
      intro c listed
      obtain ⟨t, found, rfl⟩ := List.mem_map.mp listed
      exact ⟨t, rfl⟩
    obtain ⟨told, got, faithful⟩ := exact_.mpr readable
    exact ⟨reply, told, received, got, told_of_faithful faithful⟩

theorem read_pushed (b : Backend hash) (clock : Timestamp) {name : Text} (named : name ≠ [])
    (value : Pushed) (timestampNs : Int64) :
    (b.engine.writeImpl (value.tag name clock timestampNs)).2.read (Utf8.encode name) =
      some (value.tag name clock timestampNs) := by
  have own : (value.tag name clock timestampNs).name = Utf8.encode name := rfl
  rw [TagEngine.read_eq _ (encode_ne_nil named), TagEngine.lookup_writeImpl, own, if_pos rfl]

structure IrPluginEvent where
  source : IrPluginString
  category : IrPluginString
  message : IrPluginString
  severity : Int32
  timestampNs : Int64
  deriving DecidableEq, Repr

/-- `toSeverity`; a code without a name counts as information. -/
def toSeverity (s : Int32) : EventSeverity :=
  if s = 1 then .warning else if s = 2 then .alarm else if s = 3 then .critical else .info

/-- The event that `pushEventThunk` builds. -/
def toEvent (clock : Timestamp) (event : IrPluginEvent) : Event where
  source := PluginHost.toString event.source
  category := PluginHost.toString event.category
  message := PluginHost.toString event.message
  severity := toSeverity event.severity
  timestamp := PluginHost.toTimestamp clock event.timestampNs

/-- The structure that `Host::pushEvent` hands over. -/
def pushEvent (source category message : Bytes) (severity : Int32) (timestampNs : Int64) :
    IrPluginEvent :=
  ⟨PluginHost.viewOf source, PluginHost.viewOf category, PluginHost.viewOf message, severity,
    timestampNs⟩

end IndustrialRuntime.Irsp.IrPlugin
