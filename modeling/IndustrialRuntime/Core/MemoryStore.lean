import IndustrialRuntime.Core.TagEngine
import IndustrialRuntime.Lib.Atomic
import IndustrialRuntime.Lib.Sharded

namespace IndustrialRuntime.Core

/-- Sixteen shards, each with its lock; a key is in the shard of its hash. -/
abbrev MemoryStore (hash : Bytes → UInt64) := Sharded (shardFor hash) Variant

namespace MemoryStore

inductive Call where
  | set (key : Bytes) (value : Variant)
  | get (key : Bytes)
  | getAs (type : DataType) (key : Bytes)
  /-- `MemoryStore::exists` -/
  | contains (key : Bytes)
  | erase (key : Bytes)
  | size
  | keys
  | clear
  deriving DecidableEq

/-- What a call returns, with the call it belongs to. -/
inductive Answer where
  | set (key : Bytes)
  | get (key : Bytes) (value : Option Variant)
  | getAs (type : DataType) (key : Bytes) (value : Option Variant)
  | contains (key : Bytes) (found : Bool)
  | erase (key : Bytes) (erased : Bool)
  | size (total : Nat)
  | keys (result : List Bytes)
  | clear
  deriving DecidableEq

/-- Where a thread is in the store; between two locks of a loop it holds none. -/
inductive Thread where
  | idle
  | locking (call : Call)
  /-- The loop of `size`. -/
  | counting (shard total : Nat)
  /-- The loop of the `size` that `keys` calls to reserve its result. -/
  | reserving (shard total : Nat)
  /-- The loop of `keys`. -/
  | gathering (shard : Nat) (result : List Bytes)
  /-- The loop of `clear`. -/
  | clearing (shard : Nat)
  | returning (answer : Answer)
  deriving DecidableEq

variable {hash : Bytes → UInt64}

/-- `getAs` of the value that `get` found. -/
def ofType (type : DataType) (value : Option Variant) : Option Variant :=
  value.filter fun v => dataTypeOf v = type

/-- What a thread does up to the next point where it holds no lock. -/
def work (m : MemoryStore hash) : Thread → Option (MemoryStore hash × Thread)
  | .idle | .returning _ => none
  | .locking (.set key value) => some (m.insert key value, .returning (.set key))
  | .locking (.get key) => some (m, .returning (.get key (m.lookup key)))
  | .locking (.getAs type key) =>
    some (m, .returning (.getAs type key (ofType type (m.lookup key))))
  | .locking (.contains key) => some (m, .returning (.contains key (m.lookup key).isSome))
  | .locking (.erase key) => some (m.erase key, .returning (.erase key (m.lookup key).isSome))
  | .locking .size => some (m, .counting 0 0)
  | .locking .keys => some (m, .reserving 0 0)
  | .locking .clear => some (m, .clearing 0)
  | .counting shard total =>
    if more : shard < 16 then
      some (m, .counting (shard + 1) (total + (m.keysAt ⟨shard, more⟩).length))
    else some (m, .returning (.size total))
  | .reserving shard total =>
    if more : shard < 16 then
      some (m, .reserving (shard + 1) (total + (m.keysAt ⟨shard, more⟩).length))
    else some (m, .gathering 0 [])
  | .gathering shard result =>
    if more : shard < 16 then
      some (m, .gathering (shard + 1) (result ++ m.keysAt ⟨shard, more⟩))
    else some (m, .returning (.keys result))
  | .clearing shard =>
    if more : shard < 16 then some (m.clearAt ⟨shard, more⟩, .clearing (shard + 1))
    else some (m, .returning .clear)

/-- The store and the threads that call it. -/
structure State (hash : Bytes → UInt64) (T : Type) where
  store : MemoryStore hash
  threads : T → Thread
  history : List (Atomic.Seen T Call Answer)

inductive Action (T : Type) where
  | call (thread : T) (call : Call)
  | work (thread : T)
  | return_ (thread : T)
  deriving DecidableEq

section

variable {T : Type} [DecidableEq T]

def step (s : State hash T) : Action T → Option (State hash T)
  | .call t call =>
    if s.threads t = .idle then
      some { s with
        threads := Function.update s.threads t (.locking call)
        history := s.history ++ [.called t call] }
    else none
  | .work t =>
    (work s.store (s.threads t)).map fun next => { s with
      store := next.1
      threads := Function.update s.threads t next.2 }
  | .return_ t =>
    match s.threads t with
    | .returning answer =>
      some { s with
        threads := Function.update s.threads t .idle
        history := s.history ++ [.returned t answer] }
    | _ => none

def machine (hash : Bytes → UInt64) (T : Type) [DecidableEq T] :
    Machine (State hash T) (Action T) :=
  ⟨⟨.empty, fun _ => .idle, []⟩, step⟩

end

/-! ### One key of the store -/

/-- What can be asked of one key. -/
inductive CellCall where
  | set (value : Variant)
  | get
  | getAs (type : DataType)
  | contains
  | erase
  | clear

inductive CellAnswer where
  | done
  | value (value : Option Variant)
  | flag (flag : Bool)
  deriving DecidableEq

/-- One key by itself: it has a value or none. -/
def cell : CellCall → Option Variant → Option Variant × CellAnswer
  | .set value, _ => (some value, .done)
  | .get, stored => (stored, .value stored)
  | .getAs type, stored => (stored, .value (ofType type stored))
  | .contains, stored => (stored, .flag stored.isSome)
  | .erase, stored => (none, .flag stored.isSome)
  | .clear, _ => (none, .done)

/-- What a call asks of a key: `keys` asks whether it is there, and `size` nothing. -/
def Call.on (key : Bytes) : Call → Option CellCall
  | .set other value => if other = key then some (.set value) else none
  | .get other => if other = key then some .get else none
  | .getAs type other => if other = key then some (.getAs type) else none
  | .contains other => if other = key then some .contains else none
  | .erase other => if other = key then some .erase else none
  | .size => none
  | .keys => some .contains
  | .clear => some .clear

/-- What an answer says of a key. -/
def Answer.on (key : Bytes) : Answer → Option CellAnswer
  | .set other => if other = key then some .done else none
  | .get other value | .getAs _ other value => if other = key then some (.value value) else none
  | .contains other flag | .erase other flag => if other = key then some (.flag flag) else none
  | .size _ => none
  | .keys result => some (.flag (decide (key ∈ result)))
  | .clear => some .done

/-- What is seen of a key. -/
def seenOn {T : Type} (key : Bytes) :
    Atomic.Seen T Call Answer → Option (Atomic.Seen T CellCall CellAnswer)
  | .called t call => (call.on key).map (.called t)
  | .returned t answer => (answer.on key).map (.returned t)

/-- How far a thread is with a key. A loop is done with it once it has passed the key's shard. -/
def Thread.on (hash : Bytes → UInt64) (key : Bytes) :
    Thread → Atomic.Progress CellCall CellAnswer
  | .idle | .counting _ _ => .idle
  | .locking call => (call.on key).elim .idle .pending
  | .reserving _ _ => .pending .contains
  | .gathering shard result =>
    if (shardFor hash key).val < shard then .settled (.flag (decide (key ∈ result)))
    else .pending .contains
  | .clearing shard => if (shardFor hash key).val < shard then .settled .done else .pending .clear
  | .returning answer => (answer.on key).elim .idle .settled

theorem on_locking (key : Bytes) (call : Call) :
    (Thread.locking call).on hash key = (call.on key).elim .idle .pending := rfl

theorem on_returning (key : Bytes) (answer : Answer) :
    (Thread.returning answer).on hash key = (answer.on key).elim .idle .settled := rfl

def State.on {T : Type} (key : Bytes) (s : State hash T) :
    Atomic.State T (Option Variant) CellCall CellAnswer where
  value := s.store.lookup key
  threads t := (s.threads t).on hash key
  history := s.history.filterMap (seenOn key)

/-- What `keys` has gathered: keys of the shards it has passed, each once. -/
def Thread.Gathered (hash : Bytes → UInt64) : Thread → Prop
  | .gathering shard result => result.Nodup ∧ ∀ key ∈ result, (shardFor hash key).val < shard
  | .returning (.keys result) => result.Nodup
  | _ => True

/-- One critical section leaves a key alone, or is the instant at which the call on it happens. -/
theorem work_on {m m' : MemoryStore hash} {th th' : Thread} (gathered : th.Gathered hash)
    (worked : work m th = some (m', th')) (key : Bytes) :
    (m'.lookup key = m.lookup key ∧ th'.on hash key = th.on hash key) ∨
      ∃ call, th.on hash key = .pending call ∧ (cell call (m.lookup key)).1 = m'.lookup key ∧
        th'.on hash key = .settled (cell call (m.lookup key)).2 := by
  cases th with
  | idle | returning answer => cases worked
  | locking call =>
    cases call with
    | size =>
      obtain ⟨rfl, rfl⟩ : m = m' ∧ Thread.counting 0 0 = th' := by simpa [work] using worked
      exact .inl ⟨rfl, rfl⟩
    | keys =>
      obtain ⟨rfl, rfl⟩ : m = m' ∧ Thread.reserving 0 0 = th' := by simpa [work] using worked
      exact .inl ⟨rfl, rfl⟩
    | clear =>
      obtain ⟨rfl, rfl⟩ : m = m' ∧ Thread.clearing 0 = th' := by simpa [work] using worked
      exact .inl ⟨rfl, rfl⟩
    | set other value =>
      obtain ⟨rfl, rfl⟩ : m.insert other value = m' ∧ Thread.returning (.set other) = th' := by
        simpa [work] using worked
      by_cases same : other = key
      · right
        refine ⟨.set value, ?_⟩
        simp [Thread.on, Call.on, Answer.on, cell, same]
      · left
        simp [Thread.on, Call.on, Answer.on, same, Ne.symm same]
    | erase other =>
      obtain ⟨rfl, rfl⟩ : m.erase other = m' ∧
          Thread.returning (.erase other (m.lookup other).isSome) = th' := by
        simpa [work] using worked
      by_cases same : other = key
      · right
        refine ⟨.erase, ?_⟩
        simp [Thread.on, Call.on, Answer.on, cell, same]
      · left
        simp [Thread.on, Call.on, Answer.on, same, Ne.symm same]
    | get other =>
      obtain ⟨rfl, rfl⟩ : m = m' ∧ Thread.returning (.get other (m.lookup other)) = th' := by
        simpa [work] using worked
      by_cases same : other = key
      · right
        refine ⟨.get, ?_⟩
        simp [Thread.on, Call.on, Answer.on, cell, same]
      · left
        simp [Thread.on, Call.on, Answer.on, same]
    | getAs type other =>
      obtain ⟨rfl, rfl⟩ : m = m' ∧
          Thread.returning (.getAs type other (ofType type (m.lookup other))) = th' := by
        simpa [work] using worked
      by_cases same : other = key
      · right
        refine ⟨.getAs type, ?_⟩
        simp [Thread.on, Call.on, Answer.on, cell, same]
      · left
        simp [Thread.on, Call.on, Answer.on, same]
    | contains other =>
      obtain ⟨rfl, rfl⟩ : m = m' ∧
          Thread.returning (.contains other (m.lookup other).isSome) = th' := by
        simpa [work] using worked
      by_cases same : other = key
      · right
        refine ⟨.contains, ?_⟩
        simp [Thread.on, Call.on, Answer.on, cell, same]
      · left
        simp [Thread.on, Call.on, Answer.on, same]
  | counting shard total | reserving shard total =>
    rw [work] at worked
    split_ifs at worked <;> cases worked <;> exact .inl ⟨rfl, by simp [Thread.on, Answer.on]⟩
  | gathering shard result =>
    have bounded := (shardFor hash key).isLt
    rw [work] at worked
    split_ifs at worked with more
    · cases worked
      by_cases passed : (shardFor hash key).val < shard
      · have other : key ∉ m.keysAt ⟨shard, more⟩ := by
          intro found
          have own := congrArg Fin.val (Sharded.place_of_mem_keysAt found)
          have shardValue : (⟨shard, more⟩ : Fin 16).val = shard := rfl
          omega
        left
        refine ⟨rfl, ?_⟩
        simp [Thread.on, passed, Nat.lt_succ_of_lt passed, other]
      · have later : key ∉ result := fun inside => passed (gathered.2 key inside)
        by_cases now : (shardFor hash key).val = shard
        · right
          have own : shardFor hash key = ⟨shard, more⟩ := Fin.ext now
          refine ⟨.contains, ?_⟩
          simp [Thread.on, cell, later, Sharded.mem_keysAt, own]
        · left
          have ahead : ¬(shardFor hash key).val < shard + 1 := by omega
          refine ⟨rfl, ?_⟩
          simp only [Thread.on, passed, ahead, if_false]
    · cases worked
      have passed : (shardFor hash key).val < shard := by omega
      left
      refine ⟨rfl, ?_⟩
      simp [Thread.on, Answer.on, passed]
  | clearing shard =>
    have bounded := (shardFor hash key).isLt
    rw [work] at worked
    split_ifs at worked with more
    · cases worked
      by_cases now : (shardFor hash key).val = shard
      · right
        have own : shardFor hash key = ⟨shard, more⟩ := Fin.ext now
        refine ⟨.clear, ?_⟩
        simp [Thread.on, cell, own]
      · left
        have other : shardFor hash key ≠ ⟨shard, more⟩ := fun own => now (congrArg Fin.val own)
        have same : (shardFor hash key).val < shard + 1 ↔ (shardFor hash key).val < shard := by
          omega
        simp only [Sharded.lookup_clearAt, other, if_false, Thread.on, same, and_self]
    · cases worked
      have passed : (shardFor hash key).val < shard := by omega
      left
      refine ⟨rfl, ?_⟩
      simp [Thread.on, Answer.on, passed]

theorem gathered_work {m m' : MemoryStore hash} {th th' : Thread} (gathered : th.Gathered hash)
    (worked : work m th = some (m', th')) : th'.Gathered hash := by
  cases th with
  | idle | returning answer => cases worked
  | locking call => cases call <;> cases worked <;> trivial
  | counting shard total =>
    rw [work] at worked
    split_ifs at worked <;> cases worked <;> trivial
  | clearing shard =>
    rw [work] at worked
    split_ifs at worked <;> cases worked <;> trivial
  | reserving shard total =>
    rw [work] at worked
    split_ifs at worked <;> cases worked
    · trivial
    · exact ⟨List.nodup_nil, fun key none => absurd none List.not_mem_nil⟩
  | gathering shard result =>
    rw [work] at worked
    split_ifs at worked with more <;> cases worked
    · have own (key : Bytes) (found : key ∈ m.keysAt ⟨shard, more⟩) :
          (shardFor hash key).val = shard :=
        congrArg Fin.val (Sharded.place_of_mem_keysAt found)
      refine ⟨List.nodup_append.mpr ⟨gathered.1, m.nodup_keysAt _, ?_⟩, ?_⟩
      · intro key before other now same
        have passed := gathered.2 key before
        have here := own other now
        rw [same] at passed
        omega
      · intro key inside
        rcases List.mem_append.mp inside with before | now
        · have passed := gathered.2 key before
          omega
        · have here := own key now
          omega
    · exact gathered.1

section

variable {T : Type} [DecidableEq T]

/-- No key is listed twice. -/
structure Listed (s : State hash T) : Prop where
  threads : ∀ t, (s.threads t).Gathered hash
  history : ∀ t result, .returned t (.keys result) ∈ s.history → result.Nodup

theorem on_update (key : Bytes) (threads : T → Thread) (t : T) (th : Thread) :
    (fun u => (Function.update threads t th u).on hash key) =
      Function.update (fun u => (threads u).on hash key) t (th.on hash key) := by
  funext u
  by_cases same : u = t
  · rw [same, Function.update_self, Function.update_self]
  · rw [Function.update_of_ne same, Function.update_of_ne same]

theorem on_update_same (key : Bytes) (threads : T → Thread) (t : T) (th : Thread)
    (same : th.on hash key = (threads t).on hash key) :
    (fun u => (Function.update threads t th u).on hash key) =
      fun u => (threads u).on hash key := by
  rw [on_update, same, Function.update_eq_self]

theorem gathered_update {threads : T → Thread} (before : ∀ t, (threads t).Gathered hash) (t : T)
    {th : Thread} (now : th.Gathered hash) (u : T) :
    (Function.update threads t th u).Gathered hash := by
  by_cases same : u = t
  · rw [same, Function.update_self]
    exact now
  · rw [Function.update_of_ne same]
    exact before u

/-- A step of the store is a step of each of its keys, or leaves the key alone. -/
theorem step_on (key : Bytes) {s s' : State hash T} {a : Action T} (listed : Listed s)
    (next : step s a = some s') : Listed s' ∧
      (s'.on key = s.on key ∨ ∃ b, Atomic.step cell (s.on key) b = some (s'.on key)) := by
  cases a with
  | call t call =>
    rw [step] at next
    split_ifs at next with outside
    cases next
    refine ⟨⟨gathered_update listed.threads t trivial, ?_⟩, ?_⟩
    · intro u result found
      exact listed.history u result (by simpa using found)
    · have idle : (s.on key).threads t = .idle := by simp [State.on, outside, Thread.on]
      cases asked : call.on key with
      | none =>
        left
        have same : (Thread.locking call).on hash key = (s.threads t).on hash key := by
          rw [outside, on_locking, asked]
          rfl
        simp [State.on, on_update_same key s.threads t _ same, seenOn, asked]
      | some request =>
        right
        refine ⟨.call t request, ?_⟩
        have pending : (Thread.locking call).on hash key = .pending request := by
          rw [on_locking, asked]
          rfl
        rw [Atomic.step_call idle]
        simp only [State.on, on_update, pending, List.filterMap_append]
        simp [seenOn, asked]
  | work t =>
    rw [step] at next
    obtain ⟨⟨m', th'⟩, worked, rfl⟩ := Option.map_eq_some_iff.mp next
    refine ⟨⟨gathered_update listed.threads t (gathered_work (listed.threads t) worked),
      listed.history⟩, ?_⟩
    rcases work_on (listed.threads t) worked key with ⟨value, same⟩ | ⟨request, waits, value, done⟩
    · left
      simp only [State.on, value, on_update_same key s.threads t th' same]
    · right
      refine ⟨.effect t, ?_⟩
      have pending : (s.on key).threads t = .pending request := waits
      rw [Atomic.step_effect pending]
      have stored : (s.on key).value = s.store.lookup key := rfl
      rw [stored, value]
      simp only [State.on, on_update, done]
  | return_ t =>
    rw [step] at next
    split at next
    case h_2 => cases next
    case h_1 answer returning =>
      cases next
      have gathered := listed.threads t
      rw [returning] at gathered
      refine ⟨⟨gathered_update listed.threads t trivial, ?_⟩, ?_⟩
      · intro u result found
        rcases List.mem_append.mp found with before | now
        · exact listed.history u result before
        · obtain ⟨-, rfl⟩ : u = t ∧ Answer.keys result = answer := by simpa using now
          exact gathered
      · cases told : answer.on key with
        | none =>
          left
          have same : Thread.idle.on hash key = (s.threads t).on hash key := by
            rw [returning, on_returning, told]
            rfl
          simp [State.on, on_update_same key s.threads t _ same, seenOn, told]
        | some cellAnswer =>
          right
          refine ⟨.return_ t, ?_⟩
          have settled : (s.on key).threads t = .settled cellAnswer := by
            show (s.threads t).on hash key = _
            rw [returning, on_returning, told]
            rfl
          have outside : Thread.idle.on hash key = .idle := rfl
          rw [Atomic.step_return settled]
          simp only [State.on, on_update, outside, List.filterMap_append]
          simp [seenOn, told]

theorem listed_init : Listed (machine hash T).init :=
  ⟨fun _ => trivial, fun _ _ none => absurd none List.not_mem_nil⟩

/-- However the calls of any number of threads interleave, each key is seen to be a cell whose
calls happen one at a time, each at an instant inside the call; `keys` asks each key at an instant
of its own, and lists none twice. -/
theorem run_linearizable (hash : Bytes → UInt64) (as : List (Action T)) (s : State hash T)
    (run : (machine hash T).run as = some s) :
    (∀ key, Atomic.Linearizable cell none (s.history.filterMap (seenOn key))) ∧
      ∀ t result, .returned t (.keys result) ∈ s.history → result.Nodup := by
  have linear (key : Bytes) :
      Listed s ∧ Atomic.Linearizable cell none (s.history.filterMap (seenOn key)) :=
    Atomic.linearizable_of_projection (machine hash T) (State.on key)
      (by simp [machine, State.on, Thread.on, Atomic.machine]) Listed listed_init
      (fun s a t before next => step_on key before next) as s run
  exact ⟨fun key => (linear key).2, (linear []).1.history⟩

/-- `a` is stored while `keys` is past its shard. -/
def storedMeanwhile : List (Action Bool) :=
  [.call false .keys, .call true (.set (ascii "a") (.bool true))] ++
    List.replicate 20 (.work false) ++ [.work true, .return_ true] ++
    List.replicate 15 (.work false) ++ [.return_ false, .call true (.get (ascii "a")), .work true,
      .return_ true]

theorem run_linearizable_storedMeanwhile :
    ∃ s, (machine (fun _ => 0) Bool).run storedMeanwhile = some s ∧
      s.history = [.called false .keys, .called true (.set (ascii "a") (.bool true)),
        .returned true (.set (ascii "a")), .returned false (.keys []),
        .called true (.get (ascii "a")),
        .returned true (.get (ascii "a") (some (.bool true)))] ∧
      ∀ key, Atomic.Linearizable cell none (s.history.filterMap (seenOn key)) := by
  have runs : ((machine (fun _ => 0) Bool).run storedMeanwhile).any (fun s =>
      decide (s.history = [.called false .keys, .called true (.set (ascii "a") (.bool true)),
        .returned true (.set (ascii "a")), .returned false (.keys []),
        .called true (.get (ascii "a")),
        .returned true (.get (ascii "a") (some (.bool true)))])) = true := by
    decide +kernel
  obtain ⟨s, run, seen⟩ := (Option.any_eq_true _ _).mp runs
  exact ⟨s, run, of_decide_eq_true seen, (run_linearizable (fun _ => 0) _ s run).1⟩

end

end MemoryStore

end IndustrialRuntime.Core
