import IndustrialRuntime.Core.PluginAbi
import IndustrialRuntime.Semantic.Handshake
import IndustrialRuntime.Server.CoreTagWriter

namespace IndustrialRuntime.Irsp

open IndustrialRuntime.Core

/-- How a call of a write handler ends. -/
inductive Outcome where
  | returned (value : Int32)
  | threw
  deriving DecidableEq, Repr

namespace Outcome

def Positive : Outcome → Prop
  | returned value => 0 < value
  | threw => False

/-- A negative result or an exception. -/
def Failed : Outcome → Prop
  | returned value => value < 0
  | threw => True

instance decidablePositive : DecidablePred Positive
  | returned value => inferInstanceAs (Decidable (0 < value))
  | threw => inferInstanceAs (Decidable False)

end Outcome

/-- What a write reaches behind the server: the write-back table and the tag store. -/
structure Backend (hash : Bytes → UInt64) where
  host : PluginHost
  engine : TagEngine hash

/-- `IrPluginWriteFn`, with all that the handler does through the host's functions. -/
abbrev IrPluginWriteFn (hash : Bytes → UInt64) :=
  Nat → IrPluginTagValue → Backend hash → Outcome × Backend hash

namespace Backend

variable {hash : Bytes → UInt64}

/-- `PluginHost::pushTagThunk`; `none` when the C value reads an unwritten member. -/
def pushTagThunk (clock : Timestamp) (tag : IrPluginTagValue) (b : Backend hash) :
    Option (Int32 × Backend hash) :=
  (PluginHost.fromAbi clock tag).map fun tv =>
    let r := b.engine.writeImpl tv
    (if r.1 then 1 else 0, { b with engine := r.2 })

/-- The call of the selected handler, inside its owner's inflight count. -/
def call (code : Handler → IrPluginWriteFn hash) (reg : WriteReg) (tag : TagValue)
    (b : Backend hash) : Outcome × Backend hash :=
  code reg.handler reg.pluginCtx (PluginHost.toAbi tag)
    { b with host := b.host.addInflight reg.owner 1 }

/-- `PluginHost::write` -/
def hostWrite (code : Handler → IrPluginWriteFn hash) (tag : TagValue) (b : Backend hash) :
    Bool × Backend hash :=
  match b.host.select tag.name with
  | none => (false, b)
  | some reg =>
    let r := b.call code reg tag
    (decide r.1.Positive, { r.2 with host := r.2.host.addInflight reg.owner (-1) })

/-- `RuntimeEngine::writeTag` with the write handler that is installed. -/
def writeTag (handler : Option (TagValue → Backend hash → Bool × Backend hash)) (tag : TagValue)
    (b : Backend hash) : Bool × Backend hash :=
  match handler with
  | some handler => handler tag b
  | none => (false, b)

/-- `CoreTagWriter::write` on a runtime whose write handler is the plugin host;
`clock` is the time at which the tag is built. -/
def tagWriter (code : Handler → IrPluginWriteFn hash) (clock : Timestamp) :
    TagWriter (Backend hash) :=
  fun b name type value =>
    match CoreTagWriter.toVariant type value with
    | none => (.error, b)
    | some v =>
      let r := b.writeTag (some (hostWrite code)) (TagValue.of name v clock)
      (if r.1 then .accepted else .notHandled, r.2)

/-- `CoreTagSource` over the store of the backend. -/
def tagSource (hash : Bytes → UInt64) : TagSource (Backend hash) where
  read b := CoreTagSource.read b.engine
  contains b := b.engine.contains
  scan b := CoreTagSource.scan b.engine

variable {code : Handler → IrPluginWriteFn hash} {clock : Timestamp}

theorem tagWriter_unrouted {b : Backend hash} {name type value : Bytes} {v : Variant}
    (converts : CoreTagWriter.toVariant type value = some v)
    (unrouted : b.host.select name = none) :
    tagWriter code clock b name type value = (.notHandled, b) := by
  simp [tagWriter, converts, writeTag, hostWrite, TagValue.of, unrouted]

theorem tagWriter_routed {b : Backend hash} {name type value : Bytes} {v : Variant} {reg : WriteReg}
    (converts : CoreTagWriter.toVariant type value = some v)
    (routed : b.host.select name = some reg) :
    tagWriter code clock b name type value =
      let r := b.call code reg (TagValue.of name v clock)
      (if r.1.Positive then .accepted else .notHandled,
        { r.2 with host := r.2.host.addInflight reg.owner (-1) }) := by
  by_cases positive : (b.call code reg (TagValue.of name v clock)).1.Positive
  · simp only [tagWriter, converts, writeTag, hostWrite, routed, TagValue.of] at positive ⊢
    simp only [positive, decide_true, if_true]
  · simp only [tagWriter, converts, writeTag, hostWrite, routed, TagValue.of] at positive ⊢
    simp only [positive, decide_false, Bool.false_eq_true, if_false]

/-- One plugin registered for `a/`. -/
def oneWriter : Backend (fun _ => 0) where
  host := { PluginHost.initial with
    writers := [⟨ascii "a/", 0, ⟨1, 0⟩, 1⟩]
    owners := {0, 1}
    activeOwner := 0
    nextOwner := 2 }
  engine := .empty

end Backend

/-! ### SET and GET through the dispatcher -/

namespace Dispatcher

variable {ω : Type*} (tags : TagSource ω) (write : TagWriter ω) (d : Dispatcher)
  {session : Session} (store : ω)

theorem handle_closed (writer : Option (TagWriter ω)) {word : Bytes} (args : List Bytes)
    (closed : ¬session.hello) (other : toUpper word ≠ ascii "HELLO") :
    handle tags writer d session store (commandLine word args) =
      ⟨makeError "NOT_READY" "HELLO required first", session, d, store⟩ := by
  have spelt := words_commandLine word args
  exact handle_notReady tags writer d session store spelt other (by simpa using closed)

theorem handle_set (greeted : session.hello) (name type value : Bytes) :
    handle tags (some write) d session store (commandLine (ascii "SET") [name, type, value]) =
      ⟨(set (some write) store [name, type, value]).1, session, d,
        (set (some write) store [name, type, value]).2⟩ := by
  have spelt := words_commandLine (ascii "SET") [name, type, value]
  rw [handle_command tags (some write) d session store spelt (by decide) greeted]
  simp [command, toUpper, toUpperByte, ascii]

theorem handle_get (writer : Option (TagWriter ω)) (greeted : session.hello) (name : Bytes) :
    handle tags writer d session store (commandLine (ascii "GET") [name]) =
      ⟨getTag tags store name, session, d, store⟩ := by
  have spelt := words_commandLine (ascii "GET") [name]
  rw [handle_command tags writer d session store spelt (by decide) greeted]
  simp [command, toUpper, toUpperByte, ascii]

end Dispatcher

end IndustrialRuntime.Irsp
