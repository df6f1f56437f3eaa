import Mathlib.Data.Finmap
import IndustrialRuntime.Core.TagEngine

namespace IndustrialRuntime.Core

/-- The calls on a `TagEngine`. `write` has an overload for temporaries. -/
inductive EngineOp where
  | write (tag : TagValue)
  | writeMove (tag : TagValue)
  | writeBatch (tags : List TagValue)
  | remove (name : Bytes)
  | read (name : Bytes)
  | contains (name : Bytes)
  | size
  | snapshot
  deriving DecidableEq

inductive EngineAnswer where
  | flag (value : Bool)
  | count (value : Nat)
  | tag (value : Option TagValue)
  | tags (value : List TagValue)
  deriving DecidableEq

/-- What a call returns, and the tags that the change callback was called with. -/
structure EngineReply where
  answer : EngineAnswer
  fired : List TagValue
  deriving DecidableEq

namespace TagEngine

variable {hash : Bytes → UInt64}

/-- `write(const TagValue &)`; `registered` tells whether there is a change callback. -/
def write (registered : Bool) (e : TagEngine hash) (tag : TagValue) :
    Bool × List TagValue × TagEngine hash :=
  let r := e.writeImpl tag
  (r.1, if r.1 && registered then [tag] else [], r.2)

/-- `write(TagValue &&)`: the callback gets what is read back under the name. -/
def writeMove (registered : Bool) (e : TagEngine hash) (tag : TagValue) :
    Bool × List TagValue × TagEngine hash :=
  let r := e.writeImpl tag
  (r.1, if r.1 && registered then (r.2.read tag.name).toList else [], r.2)

def writeBatch (registered : Bool) (e : TagEngine hash) :
    List TagValue → Nat × List TagValue × TagEngine hash
  | [] => (0, [], e)
  | tag :: tags =>
    let first := e.write registered tag
    let rest := first.2.2.writeBatch registered tags
    ((if first.1 then 1 else 0) + rest.1, first.2.1 ++ rest.2.1, rest.2.2)

def call (registered : Bool) (e : TagEngine hash) : EngineOp → EngineReply × TagEngine hash
  | .write tag =>
    let r := e.write registered tag
    (⟨.flag r.1, r.2.1⟩, r.2.2)
  | .writeMove tag =>
    let r := e.writeMove registered tag
    (⟨.flag r.1, r.2.1⟩, r.2.2)
  | .writeBatch tags =>
    let r := e.writeBatch registered tags
    (⟨.count r.1, r.2.1⟩, r.2.2)
  | .remove name => (⟨.flag (e.remove name).1, []⟩, (e.remove name).2)
  | .read name => (⟨.tag (e.read name), []⟩, e)
  | .contains name => (⟨.flag (e.contains name), []⟩, e)
  | .size => (⟨.count e.size, []⟩, e)
  | .snapshot => (⟨.tags e.snapshot, []⟩, e)

/-- The replies to a sequence of calls. -/
def calls (registered : Bool) (e : TagEngine hash) : List EngineOp → List EngineReply
  | [] => []
  | op :: ops => (e.call registered op).1 :: (e.call registered op).2.calls registered ops

end TagEngine

/-- What the engine stands for: one map from names to tags. -/
abbrev FlatMap := Finmap (fun _ : Bytes => TagValue)

namespace FlatMap

/-- A write changes the map: the name is absent, or the value differs under `==`. -/
def changes (m : FlatMap) (tag : TagValue) : Bool :=
  match m.lookup tag.name with
  | some stored => !valuesEqual stored.value tag.value
  | none => true

/-- The tags of a batch that change the map when they are written in turn. -/
def changing (m : FlatMap) : List TagValue → List TagValue
  | [] => []
  | tag :: tags =>
    (if m.changes tag then [tag] else []) ++ changing (m.insert tag.name tag) tags

/-- A list holds the tag of every key exactly once, and no other. -/
structure Lists (m : FlatMap) (tags : List TagValue) : Prop where
  once : (tags.map TagValue.name).Nodup
  every : ∀ name tag, m.lookup name = some tag → tag ∈ tags ∧ tag.name = name
  only : ∀ tag ∈ tags, m.lookup tag.name = some tag

/-- The replies of the map; the order of a snapshot is open. -/
def Answers (registered : Bool) (m : FlatMap) : EngineOp → EngineReply → Prop
  | .write tag, r | .writeMove tag, r =>
    r = ⟨.flag (m.changes tag), if m.changes tag && registered then [tag] else []⟩
  | .writeBatch tags, r =>
    r = ⟨.count (m.changing tags).length, if registered then m.changing tags else []⟩
  | .remove name, r | .contains name, r => r = ⟨.flag (m.lookup name).isSome, []⟩
  | .read name, r => r = ⟨.tag (m.lookup name), []⟩
  | .size, r => r = ⟨.count m.keys.card, []⟩
  | .snapshot, r => ∃ tags, r = ⟨.tags tags, []⟩ ∧ m.Lists tags

def next (m : FlatMap) : EngineOp → FlatMap
  | .write tag | .writeMove tag => m.insert tag.name tag
  | .writeBatch tags => tags.foldl (fun m tag => m.insert tag.name tag) m
  | .remove name => m.erase name
  | _ => m

/-- The replies to a sequence of calls are those of the map. -/
def Follows (registered : Bool) (m : FlatMap) : List EngineOp → List EngineReply → Prop
  | [], [] => True
  | op :: ops, r :: rs => m.Answers registered op r ∧ (m.next op).Follows registered ops rs
  | _, _ => False

/-- No temporary with the empty name changes the map while there is a callback. -/
def Heard (registered : Bool) (m : FlatMap) : EngineOp → Prop
  | .writeMove tag => registered = true → tag.name = [] → m.changes tag = false
  | _ => True

instance decidableHeard (registered : Bool) (m : FlatMap) : DecidablePred (m.Heard registered)
  | .writeMove tag => inferInstanceAs
      (Decidable (registered = true → tag.name = [] → m.changes tag = false))
  | .write _ | .writeBatch _ | .remove _ | .read _ | .contains _ | .size | .snapshot =>
    isTrue trivial

def AllHeard (registered : Bool) (m : FlatMap) : List EngineOp → Prop
  | [] => True
  | op :: ops => m.Heard registered op ∧ (m.next op).AllHeard registered ops

instance decidableAllHeard (registered : Bool) :
    ∀ (m : FlatMap) (ops : List EngineOp), Decidable (m.AllHeard registered ops)
  | _, [] => isTrue trivial
  | m, op :: ops =>
    have := decidableAllHeard registered (m.next op) ops
    inferInstanceAs (Decidable (_ ∧ _))

end FlatMap

namespace TagEngine

variable {hash : Bytes → UInt64} {e : TagEngine hash} {m : FlatMap}

/-- The engine finds under every name what the map holds. -/
def Represents (e : TagEngine hash) (m : FlatMap) : Prop := ∀ name, e.lookup name = m.lookup name

theorem represents_empty : Represents (empty : TagEngine hash) ∅ := by
  intro name
  simp [lookup, shard, empty]

theorem Represents.changes (h : Represents e m) (tag : TagValue) :
    (e.writeImpl tag).1 = m.changes tag := by
  change (match e.lookup tag.name with
    | some stored => !valuesEqual stored.value tag.value
    | none => true) = m.changes tag
  rw [h tag.name]
  rfl

theorem Represents.writeImpl (h : Represents e m) (tag : TagValue) :
    Represents (e.writeImpl tag).2 (m.insert tag.name tag) := by
  intro name
  rw [lookup_writeImpl]
  by_cases same : name = tag.name
  · rw [if_pos same, same, Finmap.lookup_insert]
  · rw [if_neg same, Finmap.lookup_insert_of_ne _ same, h name]

theorem Represents.remove (h : Represents e m) (name : Bytes) :
    Represents (e.remove name).2 (m.erase name) := by
  intro key
  rw [lookup_remove]
  by_cases same : key = name
  · rw [if_pos same, same, Finmap.lookup_erase]
  · rw [if_neg same, Finmap.lookup_erase_ne same, h key]

theorem Represents.writeBatch (h : Represents e m) (registered : Bool) (tags : List TagValue) :
    (e.writeBatch registered tags).1 = (m.changing tags).length ∧
      (e.writeBatch registered tags).2.1 = (if registered then m.changing tags else []) ∧
      Represents (e.writeBatch registered tags).2.2 (m.next (.writeBatch tags)) := by
  induction tags generalizing e m with
  | nil => exact ⟨rfl, by simp [TagEngine.writeBatch, FlatMap.changing], h⟩
  | cons tag tags ih =>
    obtain ⟨count, fired, represents⟩ := ih (h.writeImpl tag)
    have changed := h.changes tag
    refine ⟨?_, ?_, represents⟩
    · simp only [TagEngine.writeBatch, TagEngine.write, changed, count, FlatMap.changing,
        List.length_append]
      cases m.changes tag <;> rfl
    · simp only [TagEngine.writeBatch, TagEngine.write, changed, fired, FlatMap.changing]
      cases m.changes tag <;> cases registered <;> rfl

theorem length_snapshot (e : TagEngine hash) : e.snapshot.length = e.size := by
  rw [snapshot, List.length_flatMap, size]
  simp [shardTags]

theorem Represents.lists (h : Represents e m) : m.Lists e.snapshot where
  once := e.nodup_snapshot_names
  every name tag found := by
    rw [← h name] at found
    have own := name_of_lookup found
    refine ⟨(e.mem_snapshot tag).mpr ?_, own⟩
    rw [own]
    exact found
  only tag listed := by
    rw [← h tag.name]
    exact (e.mem_snapshot tag).mp listed

/-- The names of a snapshot are the keys, so their number is the size. -/
theorem Represents.size (h : Represents e m) : e.size = m.keys.card := by
  have names : (e.snapshot.map TagValue.name).toFinset = m.keys := by
    ext name
    rw [List.mem_toFinset, List.mem_map, Finmap.mem_keys, ← Finmap.lookup_isSome,
      Option.isSome_iff_exists]
    constructor
    · rintro ⟨tag, listed, rfl⟩
      exact ⟨tag, h.lists.only tag listed⟩
    · rintro ⟨tag, found⟩
      exact ⟨tag, h.lists.every name tag found⟩
  rw [← names, List.toFinset_card_of_nodup e.nodup_snapshot_names, List.length_map,
    length_snapshot]

theorem Represents.next (h : Represents e m) (registered : Bool) (op : EngineOp) :
    Represents (e.call registered op).2 (m.next op) := by
  cases op with
  | write tag => exact h.writeImpl tag
  | writeMove tag => exact h.writeImpl tag
  | writeBatch tags => exact (h.writeBatch registered tags).2.2
  | remove name => exact h.remove name
  | _ => exact h

/-- What the callback gets when a temporary is written. -/
theorem read_written (e : TagEngine hash) (tag : TagValue) :
    ((e.writeImpl tag).2.read tag.name).toList = if tag.name = [] then [] else [tag] := by
  by_cases unnamed : tag.name = []
  · simp [TagEngine.read, unnamed]
  · rw [read_eq _ unnamed, lookup_writeImpl, if_pos rfl, if_neg unnamed]
    rfl

/-- Every call but one answers as the map does. The overload for temporaries reads the tag back
before it calls the callback, and nothing is read under the empty name. -/
theorem Represents.answers_iff (h : Represents e m) (registered : Bool) (op : EngineOp)
    (named : op ≠ .read []) :
    m.Answers registered op (e.call registered op).1 ↔ m.Heard registered op := by
  cases op with
  | write tag =>
    refine iff_of_true ?_ trivial
    simp only [FlatMap.Answers, call, write, h.changes tag]
  | writeMove tag =>
    simp only [FlatMap.Answers, FlatMap.Heard, call, writeMove, h.changes tag, read_written e tag,
      EngineReply.mk.injEq, true_and]
    by_cases unnamed : tag.name = []
    · cases registered <;> cases m.changes tag <;> simp [unnamed]
    · simp [unnamed]
  | writeBatch tags =>
    refine iff_of_true ?_ trivial
    obtain ⟨count, fired, _⟩ := h.writeBatch registered tags
    simp only [FlatMap.Answers, call, count, fired]
  | remove name =>
    refine iff_of_true ?_ trivial
    have found : (e.remove name).1 = (e.lookup name).isSome := rfl
    simp only [FlatMap.Answers, call, found, h name]
  | read name =>
    refine iff_of_true ?_ trivial
    have nonempty : name ≠ [] := fun same => named (by rw [same])
    simp only [FlatMap.Answers, call, read_eq e nonempty, h name]
  | contains name =>
    refine iff_of_true ?_ trivial
    have found : e.contains name = (e.lookup name).isSome := rfl
    simp only [FlatMap.Answers, call, found, h name]
  | size =>
    refine iff_of_true ?_ trivial
    simp only [FlatMap.Answers, call, h.size]
  | snapshot =>
    refine iff_of_true ?_ trivial
    exact ⟨e.snapshot, rfl, h.lists⟩

theorem Represents.follows_iff (h : Represents e m) (registered : Bool) (ops : List EngineOp)
    (named : EngineOp.read [] ∉ ops) :
    m.Follows registered ops (e.calls registered ops) ↔ m.AllHeard registered ops := by
  induction ops generalizing e m with
  | nil => exact Iff.rfl
  | cons op ops ih =>
    have first : op ≠ .read [] := fun same => named (same ▸ List.mem_cons_self)
    have rest : EngineOp.read [] ∉ ops := fun later => named (List.mem_cons_of_mem _ later)
    exact and_congr (h.answers_iff registered op first) (ih (h.next registered op) rest)

/-- For every hash function and every sequence of calls the engine behaves as one map if and
only if no temporary with the empty name changes it while there is a change callback. -/
theorem refines_flatMap_iff (hash : Bytes → UInt64) (registered : Bool) (ops : List EngineOp)
    (named : EngineOp.read [] ∉ ops) :
    FlatMap.Follows registered ∅ ops ((empty : TagEngine hash).calls registered ops) ↔
      FlatMap.AllHeard registered ∅ ops :=
  represents_empty.follows_iff registered ops named

/-- A history with every kind of call. -/
def history : List EngineOp :=
  [.write (.of (ascii "a") (.int32 1) 0), .writeMove (.of (ascii "a") (.int32 2) 1),
    .write (.of [] .null 2), .writeMove (.of [] .null 3), .writeBatch [.of (ascii "b") .null 4],
    .remove (ascii "a"), .read (ascii "b"), .contains (ascii "a"), .size, .snapshot]

theorem refines_flatMap_iff_history :
    FlatMap.Follows true ∅ history ((empty : TagEngine fun _ => 0).calls true history) :=
  (refines_flatMap_iff (fun _ => 0) true history (by decide)).mpr
    (by decide)

/-- A callback is registered, and a temporary with the empty name is the first to be stored. -/
theorem not_refines_flatMap : ¬ ∀ (hash : Bytes → UInt64) (registered : Bool)
    (ops : List EngineOp), EngineOp.read [] ∉ ops →
      FlatMap.Follows registered ∅ ops ((empty : TagEngine hash).calls registered ops) := by
  intro refines
  have follows := refines (fun _ => 0) true [.writeMove (.of [] (.int32 1) 0)] (by decide)
  have silent : ((empty : TagEngine fun _ => 0).calls true [.writeMove (.of [] (.int32 1) 0)]) =
      [⟨.flag true, []⟩] := by decide
  rw [silent] at follows
  simp [FlatMap.Follows, FlatMap.Answers, FlatMap.changes] at follows

end TagEngine

end IndustrialRuntime.Core
