import IndustrialRuntime.Core.FlatMap
import IndustrialRuntime.Lib.Machine

namespace IndustrialRuntime.Core

/-- A call on the engine, or `setChangeCallback` with a callback or an empty one. -/
inductive EngineCall where
  | op (op : EngineOp)
  | setChangeCallback (registered : Bool)
  deriving DecidableEq

/-- The engine, and whether it has a change callback. -/
structure Monitored (hash : Bytes → UInt64) where
  engine : TagEngine hash
  registered : Bool

/-- Every tag that the call writes has a name. -/
def EngineCall.Named : EngineCall → Prop
  | .op (.write tag) | .op (.writeMove tag) => tag.name ≠ []
  | .op (.writeBatch tags) => ∀ tag ∈ tags, tag.name ≠ []
  | _ => True

namespace FlatMap

/-- What the map holds after a call. -/
def afterCall (m : FlatMap) : EngineCall → FlatMap
  | .op op => m.next op
  | .setChangeCallback _ => m

def afterCalls (calls : List EngineCall) : FlatMap := calls.foldl afterCall ∅

theorem lookup_insert_eq_none (m : FlatMap) (tag : TagValue) (name : Bytes) :
    (m.insert tag.name tag).lookup name = none ↔ m.lookup name = none ∧ tag.name ≠ name := by
  by_cases same : name = tag.name
  · rw [same, Finmap.lookup_insert]
    simp
  · rw [Finmap.lookup_insert_of_ne _ same, and_iff_left (Ne.symm same)]

theorem lookup_insertAll_eq_none (m : FlatMap) (tags : List TagValue) (name : Bytes) :
    (tags.foldl (fun m tag => m.insert tag.name tag) m).lookup name = none ↔
      m.lookup name = none ∧ ∀ tag ∈ tags, tag.name ≠ name := by
  induction tags generalizing m with
  | nil => simp
  | cons tag tags ih =>
    rw [List.foldl_cons, ih, lookup_insert_eq_none, List.forall_mem_cons, and_assoc]

/-- Where nothing is stored under the empty name, a call stores something there just in case it
writes a tag without a name. -/
theorem unnamed_afterCall {m : FlatMap} (absent : m.lookup [] = none) (call : EngineCall) :
    (m.afterCall call).lookup [] = none ↔ call.Named := by
  cases call with
  | setChangeCallback registered => exact iff_of_true absent trivial
  | op op =>
    cases op with
    | write tag =>
      change (m.insert tag.name tag).lookup [] = none ↔ tag.name ≠ []
      rw [lookup_insert_eq_none, and_iff_right absent]
    | writeMove tag =>
      change (m.insert tag.name tag).lookup [] = none ↔ tag.name ≠ []
      rw [lookup_insert_eq_none, and_iff_right absent]
    | writeBatch tags =>
      change (tags.foldl _ m).lookup [] = none ↔ ∀ tag ∈ tags, tag.name ≠ []
      rw [lookup_insertAll_eq_none, and_iff_right absent]
    | remove name =>
      refine iff_of_true ?_ trivial
      change (m.erase name).lookup [] = none
      by_cases same : [] = name
      · rw [← same, Finmap.lookup_erase]
      · rw [Finmap.lookup_erase_ne same, absent]
    | _ => exact iff_of_true absent trivial

end FlatMap

namespace Monitored

variable {hash : Bytes → UInt64}

def initial : Monitored hash := ⟨.empty, false⟩

def step (s : Monitored hash) : EngineCall → Option (Monitored hash)
  | .op op => some { s with engine := (s.engine.call s.registered op).2 }
  | .setChangeCallback registered => some { s with registered := registered }

def machine (hash : Bytes → UInt64) : Machine (Monitored hash) EngineCall := ⟨initial, step⟩

/-- `exists` and `read` have one notion of presence. -/
def OnePresence (s : Monitored hash) : Prop :=
  ∀ name, s.engine.contains name ↔ (s.engine.read name).isSome

/-- The overloads of `write` return the same, call the callback with the same tags and leave the
same store. -/
def OneWrite (s : Monitored hash) (tag : TagValue) : Prop :=
  s.engine.writeMove s.registered tag = s.engine.write s.registered tag

theorem onePresence_iff (s : Monitored hash) : s.OnePresence ↔ s.engine.lookup [] = none := by
  have point (name : Bytes) : s.engine.contains name = (s.engine.lookup name).isSome := rfl
  constructor
  · intro one
    have unnamed := one []
    rw [point] at unnamed
    simpa [TagEngine.read] using unnamed
  · intro absent name
    rw [point]
    by_cases unnamed : name = []
    · simp [unnamed, absent, TagEngine.read]
    · rw [TagEngine.read_eq _ unnamed]

/-- The overloads differ only in the callback, which one of them calls with what is read back. -/
theorem oneWrite_iff {s : Monitored hash} {m : FlatMap} (h : s.engine.Represents m)
    (tag : TagValue) :
    s.OneWrite tag ↔ (s.registered = true → tag.name = [] → m.changes tag = false) := by
  have back := TagEngine.read_written s.engine tag
  simp only [OneWrite, TagEngine.writeMove, TagEngine.write, h.changes tag, back, Prod.mk.injEq,
    true_and, and_true]
  by_cases unnamed : tag.name = []
  · cases s.registered <;> cases m.changes tag <;> simp [unnamed]
  · simp [unnamed]

theorem represents_step {s t : Monitored hash} {m : FlatMap} {call : EngineCall}
    (h : s.engine.Represents m) (next : s.step call = some t) :
    t.engine.Represents (m.afterCall call) := by
  cases call with
  | op op =>
    obtain rfl := Option.some.inj next
    exact h.next s.registered op
  | setChangeCallback registered =>
    obtain rfl := Option.some.inj next
    exact h

/-- A call keeps the one notion of presence just in case it writes no tag without a name. -/
theorem onePresence_step {s t : Monitored hash} {m : FlatMap} {call : EngineCall}
    (h : s.engine.Represents m) (one : s.OnePresence) (next : s.step call = some t) :
    t.OnePresence ↔ call.Named := by
  rw [onePresence_iff, h []] at one
  rw [onePresence_iff, represents_step h next []]
  exact FlatMap.unnamed_afterCall one call

/-- Every sequence of calls is a run. -/
theorem exists_run (s : Monitored hash) (calls : List EngineCall) {m : FlatMap}
    (h : s.engine.Represents m) :
    ∃ t, (machine hash).runFrom s calls = some t ∧
      t.engine.Represents (calls.foldl FlatMap.afterCall m) := by
  induction calls generalizing s m with
  | nil => exact ⟨s, rfl, h⟩
  | cons call calls ih =>
    obtain ⟨u, next⟩ : ∃ u, s.step call = some u := by
      cases call <;> exact ⟨_, rfl⟩
    obtain ⟨t, run, represents⟩ := ih u (represents_step h next)
    refine ⟨t, ?_, represents⟩
    rw [Machine.runFrom_cons]
    change (s.step call).bind _ = some t
    rw [next]
    exact run

/-- For every sequence of calls: `exists` and `read` agree on every name in every state of the
run if and only if no call writes a tag without a name; and in the state reached the overloads of
`write` have the same effect for a tag if and only if it has a name, or there is no callback, or
it changes nothing. -/
theorem presence_and_writes_iff (hash : Bytes → UInt64) (calls : List EngineCall) :
    ∃ s, (machine hash).run calls = some s ∧
      ((machine hash).init.OnePresence ∧
          (machine hash).Steps ((machine hash).After OnePresence) initial calls ↔
        (machine hash).Steps (fun _ call => call.Named) initial calls) ∧
      ∀ tag, s.OneWrite tag ↔ (s.registered = true → tag.name = [] →
        (FlatMap.afterCalls calls).changes tag = false) := by
  obtain ⟨s, run, represents⟩ := exists_run initial calls TagEngine.represents_empty
  refine ⟨s, run, ?_, oneWrite_iff represents⟩
  have empty : (machine hash).init.OnePresence := by
    rw [onePresence_iff]
    exact TagEngine.represents_empty []
  rw [and_iff_right empty]
  apply (machine hash).steps_after_iff (fun _ call => call.Named)
    (fun u => ∃ m, u.engine.Represents m) OnePresence ?_ initial calls s
    ⟨∅, TagEngine.represents_empty⟩ empty run
  intro u call v stands one next
  obtain ⟨m, represents⟩ := stands
  exact ⟨⟨m.afterCall call, represents_step represents next⟩,
    onePresence_step represents one next⟩

/-- A tag without a name is written; it exists and is not read, and a callback does not hear of
another one. -/
theorem not_presence_nor_writes :
    ∃ s : Monitored fun _ => 0,
      (machine fun _ => 0).run [.setChangeCallback true, .op (.write (.of [] (.int32 1) 0))] =
        some s ∧
      ¬s.OnePresence ∧ ¬s.OneWrite (.of [] (.int32 2) 0) := by
  obtain ⟨s, run, represents⟩ := exists_run (initial : Monitored fun _ => 0)
    [.setChangeCallback true, .op (.write (.of [] (.int32 1) 0))] TagEngine.represents_empty
  have registered : s.registered = true := by
    have last : some s.registered = some true := by
      rw [← Option.map_some, ← run]
      rfl
    exact Option.some.inj last
  refine ⟨s, run, ?_, ?_⟩
  · rw [onePresence_iff, represents []]
    decide
  · rw [oneWrite_iff represents, registered]
    decide

end Monitored

end IndustrialRuntime.Core
