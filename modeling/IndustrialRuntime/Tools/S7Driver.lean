import IndustrialRuntime.Lib.BigEndian
import IndustrialRuntime.Sdk.ClientDialects
import IndustrialRuntime.Sdk.PluginPush

namespace IndustrialRuntime.S7Driver

open Core Irsp Irsp.IrPlugin

/-! ### The driver -/

def tBool : Nat := 1
def tInt16 : Nat := 3
def tInt32 : Nat := 4
def tUint16 : Nat := 7
def tFloat : Nat := 10

def sevInfo : Int32 := 0
def sevWarning : Int32 := 1

/-- A number in a field of the type `IrPluginDataType`. -/
def dataType (code : Nat) : IrPluginDataType :=
  ([.null, .bool, .int8, .int16, .int32, .int64, .uint8, .uint16, .uint32, .uint64, .float, .double,
    .string][code]?).getD (.unnamed (UInt32.ofNat code))

/-- An entry of `tags.items`; without the key `"bit"` the bit is 0. -/
structure Item where
  name : Text
  kind : Text
  offset : Int
  bit : Option Int := none

structure Config where
  ip : Text
  port : Option Int := none
  pre : Text
  items : List Item

/-- The exceptions of `_decode`. -/
inductive Failure where
  | noByte
  | negativeShift
  | outside
  | kind (name : Text)
  deriving DecidableEq

/-- What the Python library decides: a binary32 that was a `float` in between, where only a NaN may
change, and the texts of its exceptions. -/
structure Library where
  single : UInt32 → UInt32
  single_eq : ∀ bits, floatIsNan bits = false → single bits = bits
  text : Failure → Text

variable (lib : Library)

def Library.message : Failure → Text
  | .kind name => "未支持的 kind: ".toList ++ name
  | failure => lib.text failure

/-- An index into a buffer; a negative one counts from the end. -/
def position (buf : Bytes) (off : Int) : Int := if off < 0 then off + buf.length else off

/-- `buf[off]` -/
def byteAt (buf : Bytes) (off : Int) : Except Failure UInt8 :=
  if 0 ≤ position buf off then
    match buf[(position buf off).toNat]? with
    | some byte => .ok byte
    | none => .error .noByte
  else .error .noByte

/-- `struct.unpack_from` of one big-endian number. -/
def unpackFrom (width : Nat) (buf : Bytes) (off : Int) : Except Failure Nat :=
  if 0 ≤ position buf off ∧ position buf off + width ≤ buf.length then
    .ok (BigEndian.value ((buf.drop (position buf off).toNat).take width))
  else .error .outside

/-- `_decode` -/
def decode (buf : Bytes) (item : Item) : Except Failure IrPluginVariant :=
  let off := item.offset
  if item.kind = "bool".toList then
    match byteAt buf off with
    | .error failure => .error failure
    | .ok byte =>
      if item.bit.getD 0 < 0 then .error .negativeShift
      else .ok ⟨dataType tBool,
        .boolean (if byte.toNat.testBit (item.bit.getD 0).toNat then 1 else 0)⟩
  else if item.kind = "uint16".toList then
    (unpackFrom 2 buf off).map fun v => ⟨dataType tUint16, .u16 (UInt16.ofNat v)⟩
  else if item.kind = "int16".toList then
    (unpackFrom 2 buf off).map fun v => ⟨dataType tInt16, .i16 (Int16.ofNat v)⟩
  else if item.kind = "int32".toList then
    (unpackFrom 4 buf off).map fun v => ⟨dataType tInt32, .i32 (Int32.ofNat v)⟩
  else if item.kind = "real".toList then
    (unpackFrom 4 buf off).map fun v => ⟨dataType tFloat, .f32 (lib.single (UInt32.ofNat v))⟩
  else .error (.kind item.kind)

/-- The structure of `_push_tag`. -/
def pushedTag (name : Text) (value : IrPluginVariant) : IrPluginTagValue :=
  ⟨PluginHost.viewOf (Utf8.encode name), 0, value⟩

/-- The structure of `_push_event`. -/
def pushedEvent (source category message : Text) (severity : Int32) : IrPluginEvent :=
  ⟨PluginHost.viewOf (Utf8.encode source), PluginHost.viewOf (Utf8.encode category),
    PluginHost.viewOf (Utf8.encode message), severity, 0⟩

/-- A call of the host or of the client library. -/
inductive Call where
  | pushTag (tag : IrPluginTagValue)
  | pushEvent (event : IrPluginEvent)
  | disconnect

/-- What one round of the loop meets: whether the client is connected, what `connect` comes to, and
the block that is read; an exception is its text. -/
structure Round where
  connected : Bool
  connect : Except Text Bool
  block : Except Text Bytes

/-- `_ensure_connected` -/
def ensureConnected (c : Config) (r : Round) : List Call × Bool :=
  if r.connected then ([], true)
  else
    match r.connect with
    | .ok true =>
      ([.pushEvent (pushedEvent "py-s7".toList "state".toList
        ("connected to ".toList ++ c.ip ++ ":".toList ++ Utf8.signed (c.port.getD 102))
        sevInfo)], true)
    | .ok false => ([], false)
    | .error e =>
      ([.pushEvent (pushedEvent "py-s7".toList "error".toList ("connect failed: ".toList ++ e)
        sevWarning)], false)

/-- The loop over the items: what is pushed, and the exception that ends it. -/
def pushItems (c : Config) (buf : Bytes) : List Item → List IrPluginTagValue × Option Failure
  | [] => ([], none)
  | item :: rest =>
    match decode lib buf item with
    | .error failure => ([], some failure)
    | .ok value =>
      let later := pushItems c buf rest
      (pushedTag (c.pre ++ item.name) value :: later.1, later.2)

/-- The `except` branch of `_loop`. -/
def readFailed (e : Text) : List Call :=
  [.pushEvent (pushedEvent "py-s7".toList "error".toList ("read failed: ".toList ++ e) sevWarning),
    .disconnect]

/-- One round of `_loop`. -/
def poll (c : Config) (r : Round) : List Call :=
  match ensureConnected c r with
  | (calls, false) => calls
  | (calls, true) => calls ++
    match r.block with
    | .error e => readFailed e
    | .ok buf =>
      match pushItems lib c buf c.items with
      | (tags, none) => tags.map .pushTag
      | (tags, some failure) => tags.map .pushTag ++ readFailed (lib.message failure)

/-- The rounds of `_loop` until `_stop` is set. -/
def loop (c : Config) (rounds : List Round) : List Call := rounds.flatMap (poll lib c)

/-! ### What a block holds -/

/-- The bytes stand at an offset. -/
def At (buf : Bytes) (off : Int) (bytes : Bytes) : Prop :=
  ∃ before after, buf = before ++ bytes ++ after ∧ position buf off = before.length

/-- The number that stands at the place of an item, as the device writes it. -/
inductive Holds (buf : Bytes) (item : Item) : Arithmetic → Prop
  | bool (byte : UInt8) (bit : Nat) (kind : item.kind = "bool".toList)
      (place : At buf item.offset [byte]) (number : item.bit.getD 0 = bit) :
      Holds buf item (.bool (byte.toNat.testBit bit))
  | uint16 (v : BitVec 16) (kind : item.kind = "uint16".toList)
      (place : At buf item.offset (BigEndian.bytes 2 v.toNat)) : Holds buf item (.unsigned .two v)
  | int16 (v : BitVec 16) (kind : item.kind = "int16".toList)
      (place : At buf item.offset (BigEndian.bytes 2 v.toNat)) : Holds buf item (.signed .two v)
  | int32 (v : BitVec 32) (kind : item.kind = "int32".toList)
      (place : At buf item.offset (BigEndian.bytes 4 v.toNat)) : Holds buf item (.signed .four v)
  | real (bits : UInt32) (kind : item.kind = "real".toList)
      (place : At buf item.offset (BigEndian.bytes 4 bits.toNat)) : Holds buf item (.float bits)

/-- The number after it was a Python object. -/
def Library.through : Arithmetic → Arithmetic
  | .float bits => .float (lib.single bits)
  | v => v

theorem byteAt_ok_iff {buf : Bytes} {off : Int} {byte : UInt8} :
    byteAt buf off = .ok byte ↔ At buf off [byte] := by
  unfold byteAt
  constructor
  · intro read
    split_ifs at read with inside
    split at read
    · rename_i found
      obtain rfl := Except.ok.inj read
      obtain ⟨short, there⟩ := List.getElem?_eq_some_iff.mp found
      refine ⟨buf.take (position buf off).toNat, buf.drop ((position buf off).toNat + 1), ?_, ?_⟩
      · rw [← there, List.append_assoc, List.singleton_append, List.getElem_cons_drop,
          List.take_append_drop]
      · rw [List.length_take]
        omega
    · contradiction
  · intro place
    obtain ⟨before, after, split_, offset⟩ := place
    have found : buf[before.length]? = some byte := by simp [split_]
    rw [offset, if_pos (Int.natCast_nonneg _), Int.toNat_natCast, found]

theorem unpackFrom_ok_iff {width : Nat} {buf : Bytes} {off : Int} {n : Nat} :
    unpackFrom width buf off = .ok n ↔
      n < 256 ^ width ∧ At buf off (BigEndian.bytes width n) := by
  unfold unpackFrom
  constructor
  · intro read
    split_ifs at read with inside
    obtain rfl := Except.ok.inj read
    let start := (position buf off).toNat
    have room : ((buf.drop start).take width).length = width := by
      rw [List.length_take, List.length_drop]
      omega
    have small := BigEndian.value_lt ((buf.drop start).take width)
    have spelt := BigEndian.bytes_value ((buf.drop start).take width)
    rw [room] at small spelt
    refine ⟨small, buf.take start, (buf.drop start).drop width, ?_, ?_⟩
    · rw [spelt, List.append_assoc, List.take_append_drop, List.take_append_drop]
    · rw [List.length_take]
      omega
  · intro held
    obtain ⟨small, before, after, split_, offset⟩ := held
    have long : buf.length = before.length + width + after.length := by
      rw [split_, List.length_append, List.length_append, BigEndian.length_bytes]
    have there : (buf.drop before.length).take width = BigEndian.bytes width n := by
      rw [split_, List.append_assoc, List.drop_left]
      exact List.take_left' (BigEndian.length_bytes width n)
    rw [offset, if_pos (by omega), Int.toNat_natCast, there, BigEndian.value_bytes_of_lt small]

theorem map_unpackFrom_iff {width : Nat} {buf : Bytes} {off : Int} {α : Type} {f : Nat → α}
    {value : α} : (unpackFrom width buf off).map f = .ok value ↔
      ∃ n, n < 256 ^ width ∧ At buf off (BigEndian.bytes width n) ∧ value = f n := by
  constructor
  · intro mapped
    cases read : unpackFrom width buf off with
    | error failure =>
      rw [read] at mapped
      contradiction
    | ok n =>
      rw [read] at mapped
      obtain ⟨small, place⟩ := unpackFrom_ok_iff.mp read
      exact ⟨n, small, place, (Except.ok.inj mapped).symm⟩
  · intro held
    obtain ⟨n, small, place, rfl⟩ := held
    rw [unpackFrom_ok_iff.mpr ⟨small, place⟩]
    rfl

/-- An item is decoded to the number that stands at its place. -/
theorem decode_of_holds {buf : Bytes} {item : Item} {v : Arithmetic} (held : Holds buf item v) :
    decode lib buf item = .ok (fillVariant (lib.through v)) := by
  cases held with
  | bool byte bit kind place number =>
    have natural : ¬(bit : Int) < 0 := by omega
    rw [decode, if_pos kind, byteAt_ok_iff.mpr place, number]
    simp only [natural, if_false, Int.toNat_natCast]
    rfl
  | uint16 v kind place =>
    have other : "uint16".toList ≠ "bool".toList := by decide
    rw [decode, kind, if_neg other, if_pos rfl]
    refine map_unpackFrom_iff.mpr ⟨v.toNat, v.isLt, place, ?_⟩
    rw [UInt16.ofNat, BitVec.ofNat_toNat, BitVec.setWidth_eq]
    rfl
  | int16 v kind place =>
    have bool : "int16".toList ≠ "bool".toList := by decide
    have uint16 : "int16".toList ≠ "uint16".toList := by decide
    rw [decode, kind, if_neg bool, if_neg uint16, if_pos rfl]
    refine map_unpackFrom_iff.mpr ⟨v.toNat, v.isLt, place, ?_⟩
    rw [Int16.ofNat, BitVec.ofNat_toNat, BitVec.setWidth_eq]
    rfl
  | int32 v kind place =>
    have bool : "int32".toList ≠ "bool".toList := by decide
    have uint16 : "int32".toList ≠ "uint16".toList := by decide
    have int16 : "int32".toList ≠ "int16".toList := by decide
    rw [decode, kind, if_neg bool, if_neg uint16, if_neg int16, if_pos rfl]
    refine map_unpackFrom_iff.mpr ⟨v.toNat, v.isLt, place, ?_⟩
    rw [Int32.ofNat, BitVec.ofNat_toNat, BitVec.setWidth_eq]
    rfl
  | real bits kind place =>
    have bool : "real".toList ≠ "bool".toList := by decide
    have uint16 : "real".toList ≠ "uint16".toList := by decide
    have int16 : "real".toList ≠ "int16".toList := by decide
    have int32 : "real".toList ≠ "int32".toList := by decide
    rw [decode, kind, if_neg bool, if_neg uint16, if_neg int16, if_neg int32, if_pos rfl]
    refine map_unpackFrom_iff.mpr ⟨bits.toNat, bits.toNat_lt, place, ?_⟩
    rw [UInt32.ofNat_toNat]
    rfl

/-- Nothing else is decoded. -/
theorem holds_of_decode {buf : Bytes} {item : Item} {value : IrPluginVariant}
    (decoded : decode lib buf item = .ok value) : ∃ v, Holds buf item v := by
  have narrow {width n : Nat} (small : n < 2 ^ width) : (BitVec.ofNat width n).toNat = n :=
    Nat.mod_eq_of_lt small
  unfold decode at decoded
  dsimp only at decoded
  split_ifs at decoded with bool negative uint16 int16 int32 real
  · cases read : byteAt buf item.offset <;> rw [read] at decoded <;> contradiction
  · cases read : byteAt buf item.offset with
    | error failure =>
      rw [read] at decoded
      contradiction
    | ok byte =>
      obtain ⟨bit, number⟩ := Int.eq_ofNat_of_zero_le (not_lt.mp negative)
      exact ⟨_, .bool byte bit bool (byteAt_ok_iff.mp read) number⟩
  · obtain ⟨n, small, place, -⟩ := map_unpackFrom_iff.mp decoded
    exact ⟨_, .uint16 (BitVec.ofNat 16 n) uint16 (by rwa [narrow small])⟩
  · obtain ⟨n, small, place, -⟩ := map_unpackFrom_iff.mp decoded
    exact ⟨_, .int16 (BitVec.ofNat 16 n) int16 (by rwa [narrow small])⟩
  · obtain ⟨n, small, place, -⟩ := map_unpackFrom_iff.mp decoded
    exact ⟨_, .int32 (BitVec.ofNat 32 n) int32 (by rwa [narrow small])⟩
  · obtain ⟨n, small, place, -⟩ := map_unpackFrom_iff.mp decoded
    refine ⟨_, .real (UInt32.ofNat n) real ?_⟩
    rwa [UInt32.toNat_ofNat_of_lt' small]

theorem isOk_decode_iff {buf : Bytes} {item : Item} :
    (∃ value, decode lib buf item = .ok value) ↔ ∃ v, Holds buf item v := by
  constructor
  · intro decoded
    obtain ⟨value, decoded⟩ := decoded
    exact holds_of_decode lib decoded
  · intro held
    obtain ⟨v, held⟩ := held
    exact ⟨_, decode_of_holds lib held⟩

/-! ### A round -/

/-- The calls that push tags. -/
def tagsOf (calls : List Call) : List IrPluginTagValue :=
  calls.filterMap fun
    | .pushTag tag => some tag
    | _ => none

variable {hash : Bytes → UInt64}

/-- The host takes one tag after the other, each at its time. -/
def pushAll (clock : Nat → Timestamp) : Nat → List IrPluginTagValue → Backend hash →
    Option (Backend hash)
  | _, [], b => some b
  | n, tag :: rest, b =>
    (Backend.pushTagThunk (clock n) tag b).bind fun r => pushAll clock (n + 1) rest r.2

/-- The topic of an item. -/
def Config.topic (c : Config) (item : Item) : Text := c.pre ++ item.name

theorem pushedTag_eq (name : Text) (v : Arithmetic) :
    pushedTag name (fillVariant v) = pushTag (Utf8.encode name) (.number v) 0 := rfl

theorem read_other (b : Backend hash) (clock : Timestamp) {name other : Text} (value : Pushed)
    (timestampNs : Int64) (differs : other ≠ name) :
    (b.engine.writeImpl (value.tag name clock timestampNs)).2.read (Utf8.encode other) =
      b.engine.read (Utf8.encode other) := by
  have apart : Utf8.encode other ≠ (value.tag name clock timestampNs).name := by
    intro same
    have texts := congrArg Utf8.decode same
    rw [Utf8.decode_encode_text] at texts
    exact differs (texts.trans (Utf8.decode_encode_text name))
  by_cases empty : (Utf8.encode other).isEmpty
  · simp only [TagEngine.read, empty, if_true]
  · have some_ : Utf8.encode other ≠ [] := by simpa using empty
    rw [TagEngine.read_eq _ some_, TagEngine.read_eq _ some_, TagEngine.lookup_writeImpl,
      if_neg apart]

/-- An item is stored as one number. -/
theorem tag_unique {buf : Bytes} {item : Item} {v w : Arithmetic} (first : Holds buf item v)
    (second : Holds buf item w) (name : Text) (clock : Timestamp) :
    (Pushed.number (lib.through v)).tag name clock 0 =
      (Pushed.number (lib.through w)).tag name clock 0 := by
  have decoded := (decode_of_holds lib first).symm.trans (decode_of_holds lib second)
  have pushed : pushTag (Utf8.encode name) (.number (lib.through v)) 0 =
      pushTag (Utf8.encode name) (.number (lib.through w)) 0 := by
    rw [← pushedTag_eq, ← pushedTag_eq, Except.ok.inj decoded]
  have tags := congrArg (PluginHost.fromAbi clock) pushed
  rw [fromAbi_pushTag, fromAbi_pushTag] at tags
  exact Option.some.inj tags

/-- What a round makes of the store. -/
structure Polled (c : Config) (buf : Bytes) (clock : Nat → Timestamp) (n : Nat) (items : List Item)
    (b b' : Backend hash) : Prop where
  frame : ∀ name, (∀ item ∈ items, c.topic item ≠ name) →
    b'.engine.read (Utf8.encode name) = b.engine.read (Utf8.encode name)
  stored : ∀ before item after v, items = before ++ item :: after →
    (∀ x ∈ before, ∃ w, Holds buf x w) → Holds buf item v →
      b'.engine.read (Utf8.encode (c.topic item)) =
        some ((Pushed.number (lib.through v)).tag (c.topic item) (clock (n + before.length)) 0)
  unread : ∀ before item after, items = before ++ item :: after → (∀ v, ¬Holds buf item v) →
    ∀ x ∈ item :: after, b'.engine.read (Utf8.encode (c.topic x)) =
      b.engine.read (Utf8.encode (c.topic x))

/-- The loop over the items raises at the first one. -/
theorem polled_of_raise {c : Config} {buf : Bytes} {clock : Nat → Timestamp} {n : Nat} {item : Item}
    {rest : List Item} {b : Backend hash} (absent : ∀ v, ¬Holds buf item v) :
    Polled lib c buf clock n (item :: rest) b b where
  frame _ _ := rfl
  stored before first after v split held here := by
    cases before with
    | nil =>
      obtain ⟨rfl, -⟩ := List.cons.inj split
      exact absurd here (absent v)
    | cons x before =>
      obtain ⟨rfl, -⟩ := List.cons.inj split
      obtain ⟨w, holds⟩ := held item List.mem_cons_self
      exact absurd holds (absent w)
  unread _ _ _ _ _ _ _ := rfl

/-- The first item is pushed, and the loop goes on. -/
theorem polled_of_push {c : Config} {buf : Bytes} {clock : Nat → Timestamp} {n : Nat} {item : Item}
    {rest : List Item} {b b' : Backend hash} (named : c.topic item ≠ []) {v : Arithmetic}
    (holds : Holds buf item v) (fresh : ∀ x ∈ rest, c.topic x ≠ c.topic item)
    (later : Polled lib c buf clock (n + 1) rest { b with engine := (b.engine.writeImpl
      ((Pushed.number (lib.through v)).tag (c.topic item) (clock n) 0)).2 } b') :
    Polled lib c buf clock n (item :: rest) b b' where
  frame name others := by
    rw [later.frame name fun x found => others x (List.mem_cons_of_mem item found)]
    exact read_other b _ _ _ (others item List.mem_cons_self).symm
  stored before first after w split held here := by
    cases before with
    | nil =>
      obtain ⟨rfl, rfl⟩ := List.cons.inj split
      rw [later.frame _ fresh, tag_unique lib here holds]
      exact read_pushed b (clock n) named _ 0
    | cons x before =>
      obtain ⟨rfl, rfl⟩ := List.cons.inj split
      have number : n + 1 + before.length = n + (item :: before).length := by
        rw [List.length_cons]
        omega
      rw [← number]
      exact later.stored before first after w rfl
        (fun y found => held y (List.mem_cons_of_mem item found)) here
  unread before first after split absent x found := by
    cases before with
    | nil =>
      obtain ⟨rfl, rfl⟩ := List.cons.inj split
      exact absurd holds (absent v)
    | cons y before =>
      obtain ⟨rfl, rfl⟩ := List.cons.inj split
      have other : c.topic x ≠ c.topic item := fresh x (List.mem_append_right before found)
      rw [later.unread before first after rfl absent x found]
      exact read_other b _ _ _ other

theorem polled_of_pushAll (c : Config) (buf : Bytes) (clock : Nat → Timestamp) {items : List Item}
    (distinct : (items.map Item.name).Nodup) (named : ∀ item ∈ items, c.topic item ≠ [])
    (n : Nat) (b : Backend hash) :
    ∃ b', pushAll clock n (pushItems lib c buf items).1 b = some b' ∧
      Polled lib c buf clock n items b b' := by
  induction items generalizing n b with
  | nil =>
    refine ⟨b, rfl, fun _ _ => rfl, ?_, ?_⟩
    · intro before item after v split
      simp at split
    · intro before item after split
      simp at split
  | cons item rest ih =>
    rw [List.map_cons, List.nodup_cons] at distinct
    cases decoded : decode lib buf item with
    | error failure =>
      refine ⟨b, by rw [pushItems, decoded]; rfl, polled_of_raise lib fun v holds => ?_⟩
      rw [decode_of_holds lib holds] at decoded
      contradiction
    | ok value =>
      obtain ⟨v, holds⟩ := holds_of_decode lib decoded
      obtain rfl := Except.ok.inj (decoded.symm.trans (decode_of_holds lib holds))
      have fresh : ∀ x ∈ rest, c.topic x ≠ c.topic item := by
        intro x found same
        have names := List.append_cancel_left same
        exact distinct.1 (names ▸ List.mem_map_of_mem found)
      obtain ⟨b', pushed, later⟩ := ih distinct.2
        (fun x found => named x (List.mem_cons_of_mem item found)) (n + 1) { b with
          engine := (b.engine.writeImpl
            ((Pushed.number (lib.through v)).tag (c.topic item) (clock n) 0)).2 }
      refine ⟨b', ?_, polled_of_push lib (named item List.mem_cons_self) holds fresh later⟩
      rw [pushItems, decoded]
      simp only [pushAll]
      rw [pushedTag_eq, pushTagThunk_pushTag]
      exact pushed

theorem tagsOf_append (first second : List Call) :
    tagsOf (first ++ second) = tagsOf first ++ tagsOf second := List.filterMap_append

theorem tagsOf_pushTag (tags : List IrPluginTagValue) : tagsOf (tags.map .pushTag) = tags := by
  induction tags with
  | nil => rfl
  | cons tag tags ih => exact congrArg (tag :: ·) ih

/-- Connecting pushes no tag. -/
theorem tagsOf_ensureConnected (c : Config) (r : Round) : tagsOf (ensureConnected c r).1 = [] := by
  unfold ensureConnected
  split_ifs
  · rfl
  · split <;> rfl

/-- A round in which a block is read pushes the items up to the first one that raises. -/
theorem tagsOf_poll {c : Config} {r : Round} {buf : Bytes}
    (connected : (ensureConnected c r).2 = true) (read : r.block = .ok buf) :
    tagsOf (poll lib c r) = (pushItems lib c buf c.items).1 := by
  have quiet := tagsOf_ensureConnected c r
  unfold poll
  split
  · rename_i calls outcome
    rw [outcome] at connected
    contradiction
  · rename_i calls outcome
    rw [outcome] at quiet
    rw [tagsOf_append, quiet, read, List.nil_append]
    dsimp only
    split
    · rename_i tags ended
      rw [ended, tagsOf_pushTag]
    · rename_i tags failure ended
      rw [ended, tagsOf_append, tagsOf_pushTag]
      exact List.append_nil tags

/-- Any other round pushes no tag. -/
theorem tagsOf_poll_eq_nil {c : Config} {r : Round}
    (unread : (ensureConnected c r).2 = true → ∃ e, r.block = .error e) :
    tagsOf (poll lib c r) = [] := by
  have quiet := tagsOf_ensureConnected c r
  unfold poll
  split
  · rename_i calls outcome
    rw [outcome] at quiet
    exact quiet
  · rename_i calls outcome
    rw [outcome] at quiet unread
    obtain ⟨e, failed⟩ := unread rfl
    rw [tagsOf_append, quiet, failed]
    rfl

/-- Only a NaN may change on the way. -/
theorem through_eq {v : Arithmetic} (number : ∀ bits, v = .float bits → floatIsNan bits = false) :
    lib.through v = v := by
  cases v with
  | float bits => exact congrArg Arithmetic.float (lib.single_eq bits (number bits rfl))
  | _ => rfl

/-- After a round of the polling thread that read a block, in any state of the host, both clients
are told for each item, up to the first one that raises, the number that stands at its place of
the block in the byte order of the device; from that item on the tags are as they were. A round
that read no block pushes no tag. -/
theorem polled_told (py : Sdk.Python.Interpreter) (room : Nat) (c : Config)
    (distinct : (c.items.map Item.name).Nodup) (named : ∀ item ∈ c.items, c.topic item ≠ [])
    (short : ∀ item ∈ c.items, (Utf8.encode (c.topic item)).length < 2 ^ 63)
    (unmarked : ∀ item ∈ c.items, ¬IrspValue.byteOrderMark <+: Utf8.encode (c.topic item))
    (r : Round) (b : Backend hash) (clock : Nat → Timestamp) :
    (∀ buf, (ensureConnected c r).2 = true → r.block = .ok buf →
      ∃ b', pushAll clock 0 (tagsOf (poll lib c r)) b = some b' ∧
        (∀ before item after v, c.items = before ++ item :: after →
          (∀ x ∈ before, ∃ w, Holds buf x w) → Holds buf item v →
            GetTold py room b' (c.topic item) (.number (lib.through v)) (clock before.length) 0) ∧
        ∀ before item after, c.items = before ++ item :: after → (∀ v, ¬Holds buf item v) →
          ∀ x ∈ item :: after, b'.engine.read (Utf8.encode (c.topic x)) =
            b.engine.read (Utf8.encode (c.topic x))) ∧
    (((ensureConnected c r).2 = true → ∃ e, r.block = .error e) →
      tagsOf (poll lib c r) = []) := by
  refine ⟨fun buf connected read => ?_, tagsOf_poll_eq_nil lib⟩
  obtain ⟨b', pushed, polled⟩ := polled_of_pushAll lib c buf clock distinct named 0 b
  refine ⟨b', by rw [tagsOf_poll lib connected read]; exact pushed, ?_, polled.unread⟩
  intro before item after v split held here
  have listed : item ∈ c.items := by
    rw [split]
    exact List.mem_append_right _ List.mem_cons_self
  have stored := polled.stored before item after v split held here
  rw [Nat.zero_add] at stored
  refine stored_told py room stored ?_ ?_
  · intro t found
    obtain rfl := List.mem_singleton.mp found
    exact short item listed
  · intro t found
    obtain rfl := List.mem_singleton.mp found
    exact unmarked item listed

/-- The items that the driver has built in. -/
def builtIn : Config where
  ip := "127.0.0.1".toList
  pre := "s7/db1/".toList
  items := [⟨"heartbeat".toList, "bool".toList, 0, some 0⟩,
    ⟨"counter".toList, "uint16".toList, 8, none⟩, ⟨"sine".toList, "real".toList, 46, none⟩]

/-- A block that ends before the third item. -/
def shortBlock : Bytes := [1, 0, 0, 0, 0, 0, 0, 0, 0xEA, 0x60]

def exactLibrary : Library := ⟨id, fun _ _ => rfl, fun _ => []⟩

theorem polled_told_builtIn :
    ∃ b', pushAll (fun _ => 7) 0
        (tagsOf (poll exactLibrary builtIn ⟨true, .ok true, .ok shortBlock⟩))
        Backend.oneWriter = some b' ∧
      GetTold Sdk.Python.asciiInterpreter 0 b' "s7/db1/counter".toList
        (.number (.unsigned .two 60000)) 7 0 := by
  have told := (polled_told exactLibrary Sdk.Python.asciiInterpreter 0 builtIn (by decide)
    (by decide) (by decide) (by decide) ⟨true, .ok true, .ok shortBlock⟩ Backend.oneWriter
    fun _ => 7).1 shortBlock rfl rfl
  obtain ⟨b', pushed, counted, -⟩ := told
  refine ⟨b', pushed, counted [_] ⟨"counter".toList, "uint16".toList, 8, none⟩ [_]
    (.unsigned .two 60000) rfl ?_ ?_⟩
  · intro x found
    obtain rfl := List.mem_singleton.mp found
    exact ⟨_, .bool 1 0 rfl ⟨[], shortBlock.tail, rfl, rfl⟩ rfl⟩
  · exact .uint16 60000 rfl ⟨shortBlock.take 8, [], by decide, by decide⟩

end IndustrialRuntime.S7Driver
