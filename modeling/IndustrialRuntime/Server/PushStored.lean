import IndustrialRuntime.Lib.Machine
import IndustrialRuntime.Server.WriteBack

namespace IndustrialRuntime.Irsp

open IndustrialRuntime.Core

/-- A `push_tag` call of a plugin, and the host's clock at that moment. -/
structure Push where
  clock : Timestamp
  tag : IrPluginTagValue
  deriving DecidableEq

namespace Backend

variable {hash : Bytes → UInt64}

def push (b : Backend hash) (p : Push) : Option (Int32 × Backend hash) :=
  pushTagThunk p.clock p.tag b

/-- The histories of `push_tag` calls on a backend. -/
def pushes (b : Backend hash) : Machine (Backend hash) Push :=
  ⟨b, fun b p => (b.push p).map Prod.snd⟩

/-- The engine holds a tag of that name with the pushed value and timestamp. -/
def Holds (b : Backend hash) (p : Push) : Prop :=
  ∃ stored, b.engine.lookup (PluginHost.toString p.tag.name) = some stored ∧
    PluginHost.toVariant p.tag.value = some stored.value ∧
    stored.timestamp = PluginHost.toTimestamp p.clock p.tag.timestampNs

/-- `push_tag` returns 1 just in case the value was written, and 0 only when it was dropped. -/
def ReturnsStored (b : Backend hash) (p : Push) : Prop :=
  ∀ r c, b.push p = some (r, c) → (r = 1 ↔ c.Holds p) ∧ (r = 0 → ¬c.Holds p)

/-- No tag of that name is stored, or the stored one has another value under `==`. -/
def Changes (b : Backend hash) (p : Push) : Prop :=
  ∀ stored value, b.engine.lookup (PluginHost.toString p.tag.name) = some stored →
    PluginHost.toVariant p.tag.value = some value → valuesEqual stored.value value = false

theorem push_eq_some {b c : Backend hash} {p : Push} {r : Int32} (h : b.push p = some (r, c)) :
    ∃ tv, PluginHost.fromAbi p.clock p.tag = some tv ∧
      r = (if (b.engine.writeImpl tv).1 then 1 else 0) ∧
      c = { b with engine := (b.engine.writeImpl tv).2 } := by
  obtain ⟨tv, read, same⟩ := Option.map_eq_some_iff.mp h
  injection same with returned next
  exact ⟨tv, read, returned.symm, next.symm⟩

/-- The thunk's tag has the name, the value and the timestamp of the pushed one. -/
theorem fromAbi_eq_some {clock : Timestamp} {tag : IrPluginTagValue} {tv : TagValue}
    (h : PluginHost.fromAbi clock tag = some tv) :
    tv.name = PluginHost.toString tag.name ∧ PluginHost.toVariant tag.value = some tv.value ∧
      tv.timestamp = PluginHost.toTimestamp clock tag.timestampNs := by
  obtain ⟨value, read, rfl⟩ := Option.map_eq_some_iff.mp h
  exact ⟨rfl, read, rfl⟩

/-- Whatever the thunk returns, the pushed tag is stored. -/
theorem holds_of_push {b c : Backend hash} {p : Push} {r : Int32} (h : b.push p = some (r, c)) :
    c.Holds p := by
  obtain ⟨tv, read, -, rfl⟩ := push_eq_some h
  obtain ⟨name, value, timestamp⟩ := fromAbi_eq_some read
  refine ⟨tv, ?_, value, timestamp⟩
  change (b.engine.writeImpl tv).2.lookup _ = some tv
  rw [← name, TagEngine.lookup_writeImpl, if_pos rfl]

/-- The thunk returns 1 just in case the push changes the value. -/
theorem returned_one_iff {b c : Backend hash} {p : Push} {r : Int32}
    (h : b.push p = some (r, c)) : r = 1 ↔ b.Changes p := by
  obtain ⟨tv, read, rfl, -⟩ := push_eq_some h
  obtain ⟨name, value, -⟩ := fromAbi_eq_some read
  have one : (if (b.engine.writeImpl tv).1 then (1 : Int32) else 0) = 1 ↔
      (b.engine.writeImpl tv).1 = true := by
    cases (b.engine.writeImpl tv).1 <;> simp
  rw [one, TagEngine.changed_iff, name]
  constructor
  · intro differs stored other found same
    obtain rfl : tv.value = other := Option.some.inj (value.symm.trans same)
    exact differs stored found
  · intro changes stored found
    exact changes stored tv.value found value

theorem returnsStored_iff {b c : Backend hash} {p : Push} {r : Int32} (h : b.push p = some (r, c)) :
    b.ReturnsStored p ↔ b.Changes p := by
  have holds := holds_of_push h
  have one := returned_one_iff h
  constructor
  · intro returns
    obtain ⟨written, -⟩ := returns r c h
    exact one.mp (written.mpr holds)
  · intro changes r' c' h'
    obtain ⟨rfl, rfl⟩ := Prod.mk.inj (Option.some.inj (h.symm.trans h'))
    have returned : r = 1 := one.mpr changes
    refine ⟨iff_of_true returned holds, fun zero => ?_⟩
    rw [returned] at zero
    exact absurd zero (by decide)

/-- In every history of `push_tag` calls the return values tell what was written if and only if
every push changes the value stored under its name. -/
theorem returnsStored_run_iff (b c : Backend hash) (history : List Push)
    (run : b.pushes.run history = some c) :
    b.pushes.Steps ReturnsStored b history ↔ b.pushes.Steps Changes b history := by
  apply b.pushes.steps_iff ReturnsStored Changes (fun _ => True) ?_ b history c trivial run
  intro u p v _ next
  obtain ⟨⟨r, w⟩, pushed, -⟩ := Option.map_eq_some_iff.mp next
  exact ⟨trivial, returnsStored_iff pushed⟩

/-- A host before the first push. -/
def fresh : Backend fun _ => 0 := ⟨.initial, .empty⟩

/-- `a = value` as an `int32` with a timestamp. -/
def pushInt (value : Int32) (ns : Int64) : Push :=
  ⟨0, PluginHost.toAbi ⟨ascii "a", .int32, ns, .int32 value⟩⟩

theorem returnsStored_run_iff_two : ∃ c, fresh.pushes.run [pushInt 1 10, pushInt 2 20] = some c ∧
    (fresh.pushes.Steps ReturnsStored fresh [pushInt 1 10, pushInt 2 20] ↔
      fresh.pushes.Steps Changes fresh [pushInt 1 10, pushInt 2 20]) := by
  have ends : (fresh.pushes.run [pushInt 1 10, pushInt 2 20]).isSome := by decide +kernel
  obtain ⟨c, run⟩ := Option.isSome_iff_exists.mp ends
  exact ⟨c, run, returnsStored_run_iff fresh c _ run⟩

/-- The same value is pushed again: its new timestamp is stored, and `push_tag` returns 0. -/
theorem not_returnsStored : ∃ b c, fresh.pushes.run [pushInt 1 10] = some b ∧
    b.push (pushInt 1 20) = some (0, c) ∧ c.Holds (pushInt 1 20) := by
  have ends : (fresh.pushes.run [pushInt 1 10]).bind (fun b =>
      (b.push (pushInt 1 20)).map Prod.fst) = some 0 := by
    decide +kernel
  obtain ⟨b, run, rest⟩ := Option.bind_eq_some_iff.mp ends
  obtain ⟨⟨r, c⟩, pushed, rfl⟩ := Option.map_eq_some_iff.mp rest
  exact ⟨b, c, run, pushed, holds_of_push pushed⟩

end Backend

end IndustrialRuntime.Irsp
