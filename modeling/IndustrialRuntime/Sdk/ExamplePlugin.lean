import IndustrialRuntime.Sdk.PluginPush

namespace IndustrialRuntime.Irsp.IrPlugin

open Core

/-- A call of the host. -/
inductive Push where
  | tag (tag : IrPluginTagValue)
  | event (event : IrPluginEvent)

/-- The host after a call, and the event that the call publishes. -/
def deliver {hash : Bytes → UInt64} (clock : Timestamp) (s : Backend hash × List Event) :
    Push → Backend hash × List Event
  | .tag tag => (((Backend.pushTagThunk clock tag s.1).map Prod.snd).getD s.1, s.2)
  | .event event => (s.1, s.2 ++ [toEvent clock event])

namespace ExamplePlugin

/-- The pushes of `start`: 25.5 is given by its bits. -/
def start : List Push :=
  [.tag (pushTag (ascii "example/temperature") (.number (.double 0x4039800000000000)) 0),
    .tag (pushTag (ascii "example/running") (.number (.bool true)) 0),
    .event (pushEvent (ascii "example") (ascii "state") (ascii "plugin started") 0 0)]

def stop : List Push :=
  [.event (pushEvent (ascii "example") (ascii "state") (ascii "plugin stopped") 0 0)]

/-- The value that `onWrite` pushes back; reading a member that is not the written one is
undefined. -/
def readBack (t : IrPluginTagValue) : Option IrPluginVariant :=
  match t.value.type, t.value.as with
  | .bool, .boolean value => some (fillVariant (.bool (value ≠ 0)))
  | .int32, .i32 value => some (fillVariant (.signed .four value.toBitVec))
  | .int64, .i64 value => some (fillVariant (.signed .eight value.toBitVec))
  | .float, .f32 bits => some (fillVariant (.float bits))
  | .double, .f64 bits => some (fillVariant (.double bits))
  | .string, .str value => some ⟨.string, .str value⟩
  | _, _ => none

/-- `onWrite`: whether the write is accepted, and the pushes. -/
def onWrite (t : IrPluginTagValue) : Bool × List Push :=
  let name := PluginHost.toString t.name
  match readBack t with
  | none => (false, [])
  | some value => (true, [.tag ⟨PluginHost.viewOf name, 0, value⟩,
      .event (pushEvent (ascii "example") (ascii "write") (ascii "wrote " ++ name) 0 0)])

/-- The types that `onWrite` has a case for. -/
def Supported (v : Variant) : Prop :=
  dataTypeOf v ∈ [.bool, .int32, .int64, .float, .double, .string]

instance decidableSupported : DecidablePred Supported := fun v =>
  inferInstanceAs (Decidable (dataTypeOf v ∈ [.bool, .int32, .int64, .float, .double, .string]))

/-- The closure that `init` passes to `Host::onWrite`, with what its pushes do to the host. -/
def closure {hash : Bytes → UInt64} (clock : Timestamp) (t : IrPluginTagValue)
    (b : Backend hash) : Answer × Backend hash :=
  (.returned (onWrite t).1, ((onWrite t).2.foldl (deliver clock) (b, [])).1)

theorem readBack_toAbi (tag : TagValue) : readBack (PluginHost.toAbi tag) =
    if Supported tag.value then some (PluginHost.fromVariant tag.value) else none := by
  obtain ⟨name, type, ts, v⟩ := tag
  cases v with
  | bool value => cases value <;> rfl
  | _ => rfl

variable {hash : Bytes → UInt64}

/-- What the closure does with a tag of the host. -/
theorem closure_toAbi (clock : Timestamp) (tag : TagValue) (b : Backend hash) :
    closure clock (PluginHost.toAbi tag) b =
      if Supported tag.value then
        (.returned true, { b with engine :=
          (b.engine.writeImpl ⟨tag.name, dataTypeOf tag.value, clock, tag.value⟩).2 })
      else (.returned false, b) := by
  have named : PluginHost.toString (PluginHost.toAbi tag).name = tag.name :=
    PluginHost.toString_viewOf tag.name
  by_cases supported : Supported tag.value
  · have pushed : PluginHost.fromAbi clock
        ⟨PluginHost.viewOf tag.name, 0, PluginHost.fromVariant tag.value⟩ =
          some ⟨tag.name, dataTypeOf tag.value, clock, tag.value⟩ :=
      PluginHost.fromAbi_toAbi clock { tag with timestamp := 0 }
    rw [if_pos supported]
    simp only [closure, onWrite, readBack_toAbi, supported, if_true, named, List.foldl_cons,
      List.foldl_nil, deliver, Backend.pushTagThunk, pushed, Option.map_some, Option.getD_some]
  · rw [if_neg supported]
    simp only [closure, onWrite, readBack_toAbi, supported, if_false, List.foldl_nil]

/-- The example plugin answers for a name: the registration is that of its `Host`, which has the
closure of `init`. -/
structure Serves (trampoline : Handler) (run : Closures hash) (clock : Timestamp) (host : Host)
    (reg : WriteReg) : Prop where
  handler : reg.handler = trampoline
  address : reg.pluginCtx = host.address
  callback : ∃ cb, host.writeCb = some cb ∧ run cb = closure clock

/-- A call of the plugin's registration. -/
theorem Serves.call {trampoline : Handler} {run : Closures hash} {clock : Timestamp} {host : Host}
    {reg : WriteReg} (serves : Serves trampoline run clock host reg)
    (others : Handler → IrPluginWriteFn hash) (tag : TagValue) (b : Backend hash) :
    let called := b.call (code trampoline run host others) reg tag
    (called.1.Positive ↔ Supported tag.value) ∧
      called.2.engine = if Supported tag.value then
        (b.engine.writeImpl ⟨tag.name, dataTypeOf tag.value, clock, tag.value⟩).2
      else b.engine := by
  intro called
  obtain ⟨cb, held, same⟩ := serves.callback
  let during : Backend hash := { b with host := b.host.addInflight reg.owner 1 }
  have trampolined : called = writeTrampoline run host (PluginHost.toAbi tag) during := by
    show code trampoline run host others reg.handler reg.pluginCtx (PluginHost.toAbi tag) during = _
    rw [code, if_pos ⟨serves.handler, serves.address⟩]
  obtain ⟨answers, leaves⟩ :=
    positive_writeTrampoline run held (PluginHost.toAbi tag) during
  rw [same, closure_toAbi] at answers leaves
  rw [trampolined, leaves]
  by_cases supported : Supported tag.value
  · simp only [supported, if_true, decide_true, decide_eq_true_eq] at answers ⊢
    exact ⟨iff_true_intro answers, rfl⟩
  · simp only [supported, if_false] at answers ⊢
    refine ⟨iff_false_intro ?_, rfl⟩
    simpa using answers

/-- A `SET` that is routed to the example plugin is answered with `OK` if and only if the value is
a boolean, a signed integer of 32 or 64 bits, a floating-point number or a string. Then the tag is
stored with that value under the time of the plugin's push, and else no tag changes. -/
theorem example_set_iff {trampoline : Handler} {run : Closures hash} {clock : Timestamp}
    {host : Host} {reg : WriteReg} (serves : Serves trampoline run clock host reg)
    (setClock : Timestamp) (others : Handler → IrPluginWriteFn hash) (d : Dispatcher)
    {session : Session} (greeted : session.hello) (b : Backend hash) {name type bytes : Bytes}
    {v : Variant}
    (converts : CoreTagWriter.toVariant type bytes = some v)
    (routed : b.host.select name = some reg) :
    let writer := some (Backend.tagWriter (code trampoline run host others) setClock)
    let r := Dispatcher.handle (Backend.tagSource hash) writer d session b
      (Dispatcher.commandLine (ascii "SET") [name, type, bytes])
    (r.reply = if Supported v then .simple (ascii "OK")
      else makeError "NOT_FOUND" "no writer for topic") ∧
      ∀ other, r.store.engine.lookup other =
        if Supported v ∧ other = name then some ⟨name, dataTypeOf v, clock, v⟩
        else b.engine.lookup other := by
  intro writer r
  have answered : r = _ := Dispatcher.handle_set (Backend.tagSource hash)
    (Backend.tagWriter (code trampoline run host others) setClock) d b greeted name type bytes
  have written : Backend.tagWriter (code trampoline run host others) setClock b name type bytes =
    _ := Backend.tagWriter_routed converts routed
  obtain ⟨accepted, left⟩ := serves.call others (TagValue.of name v setClock) b
  have value : (TagValue.of name v setClock).value = v := rfl
  rw [value] at accepted left
  rw [answered]
  by_cases supported : Supported v
  · have positive := accepted.mpr supported
    simp only [supported, if_true, true_and] at left ⊢
    simp only [Dispatcher.set, written, positive, if_true, left, true_and]
    intro other
    rw [TagEngine.lookup_writeImpl]
    rfl
  · have refused := mt accepted.mp supported
    simp only [supported, if_false, false_and] at left ⊢
    simp only [Dispatcher.set, written, refused, if_false, left, true_and]
    exact fun _ => trivial

/-- The closure is the first of the plugin's module. -/
def firstClosure (cb : Callback) (t : IrPluginTagValue) (b : Backend fun _ => 0) :
    Answer × Backend fun _ => 0 :=
  if cb = 0 then closure 7 t b else (.threw, b)

/-- A 16-bit value is refused, and the 32-bit -2 is stored. -/
theorem example_set_iff_refused :
    let host : Host := ⟨true, 0, some 0, ascii "a/"⟩
    let writer := some (Backend.tagWriter (code ⟨1, 0⟩ firstClosure host refusing) 3)
    let set (type bytes : Bytes) := Dispatcher.handle (Backend.tagSource fun _ => 0) writer .empty
      ⟨1, true⟩ Backend.oneWriter
        (Dispatcher.commandLine (ascii "SET") [ascii "a/x", type, bytes])
    (set (ascii "i16") [254, 255]).reply = makeError "NOT_FOUND" "no writer for topic" ∧
      (set (ascii "i32") [254, 255, 255, 255]).reply = .simple (ascii "OK") ∧
      (set (ascii "i32") [254, 255, 255, 255]).store.engine.lookup (ascii "a/x") =
        some ⟨ascii "a/x", .int32, 7, .int32 (-2)⟩ := by
  intro host writer set
  have serves : Serves ⟨1, 0⟩ firstClosure 7 host ⟨ascii "a/", 0, ⟨1, 0⟩, 1⟩ :=
    ⟨rfl, rfl, 0, rfl, rfl⟩
  have routed : Backend.oneWriter.host.select (ascii "a/x") = some ⟨ascii "a/", 0, ⟨1, 0⟩, 1⟩ := by
    decide
  have short : CoreTagWriter.toVariant (ascii "i16") [254, 255] = some (.int16 (-2)) := by decide
  have long : CoreTagWriter.toVariant (ascii "i32") [254, 255, 255, 255] = some (.int32 (-2)) := by
    decide
  have greeted : (⟨1, true⟩ : Session).hello := rfl
  have refused := example_set_iff serves 3 refusing .empty greeted Backend.oneWriter short routed
  have stored := example_set_iff serves 3 refusing .empty greeted Backend.oneWriter long routed
  refine ⟨refused.1.trans (if_neg (by decide)), stored.1.trans (if_pos (by decide)), ?_⟩
  exact (stored.2 (ascii "a/x")).trans (if_pos ⟨by decide, rfl⟩)

end ExamplePlugin

end IndustrialRuntime.Irsp.IrPlugin
