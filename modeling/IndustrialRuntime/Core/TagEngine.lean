import IndustrialRuntime.Core.Types
import Mathlib.Algebra.BigOperators.Ring.Finset
import Mathlib.Data.List.AList

namespace IndustrialRuntime.Core

/-- `std::unordered_map<std::string, TagValue>` of one shard. -/
abbrev ShardMap := AList (fun _ : Bytes => TagValue)

/-- `std::hash<std::string_view>` reduced to a shard index. -/
def shardFor (hash : Bytes → UInt64) (name : Bytes) : Fin 16 :=
  Fin.ofNat 16 (hash name &&& 15).toNat

/-- Sixteen shards; every entry lies in the shard of its name and under it. -/
structure TagEngine (hash : Bytes → UInt64) where
  shards : Fin 16 → ShardMap
  placed : ∀ i name tag, (shards i).lookup name = some tag →
    tag.name = name ∧ shardFor hash name = i

namespace TagEngine

variable {hash : Bytes → UInt64}

def empty : TagEngine hash where
  shards _ := ∅
  placed i name tag h := by simp at h

def shard (e : TagEngine hash) (name : Bytes) : ShardMap := e.shards (shardFor hash name)

theorem placed_insert (e : TagEngine hash) (tag : TagValue) (i : Fin 16) (name : Bytes)
    (stored : TagValue)
    (h : (Function.update e.shards (shardFor hash tag.name)
      ((e.shard tag.name).insert tag.name tag) i).lookup name = some stored) :
    stored.name = name ∧ shardFor hash name = i := by
  by_cases hi : i = shardFor hash tag.name
  · subst hi
    rw [Function.update_self] at h
    by_cases hn : name = tag.name
    · subst hn
      rw [AList.lookup_insert, Option.some_inj] at h
      subst h
      exact ⟨rfl, rfl⟩
    · rw [AList.lookup_insert_ne hn] at h
      exact e.placed _ _ _ h
  · rw [Function.update_of_ne hi] at h
    exact e.placed _ _ _ h

theorem placed_erase (e : TagEngine hash) (name : Bytes) (i : Fin 16) (key : Bytes)
    (stored : TagValue)
    (h : (Function.update e.shards (shardFor hash name) ((e.shard name).erase name) i).lookup key =
      some stored) :
    stored.name = key ∧ shardFor hash key = i := by
  by_cases hi : i = shardFor hash name
  · subst hi
    rw [Function.update_self] at h
    by_cases hk : key = name
    · subst hk
      rw [AList.lookup_erase] at h
      contradiction
    · rw [AList.lookup_erase_ne hk] at h
      exact e.placed _ _ _ h
  · rw [Function.update_of_ne hi] at h
    exact e.placed _ _ _ h

/-- The locked part of both `write` overloads: whether the value changed, and
the shard with the tag assigned or emplaced. -/
def writeImpl (e : TagEngine hash) (tag : TagValue) : Bool × TagEngine hash :=
  let changed :=
    match (e.shard tag.name).lookup tag.name with
    | some stored => !valuesEqual stored.value tag.value
    | none => true
  (changed,
    { shards := Function.update e.shards (shardFor hash tag.name)
        ((e.shard tag.name).insert tag.name tag)
      placed := e.placed_insert tag })

def read (e : TagEngine hash) (name : Bytes) : Option TagValue :=
  if name.isEmpty then none else (e.shard name).lookup name

/-- `TagEngine::exists` -/
def contains (e : TagEngine hash) (name : Bytes) : Bool := ((e.shard name).lookup name).isSome

def remove (e : TagEngine hash) (name : Bytes) : Bool × TagEngine hash :=
  (((e.shard name).lookup name).isSome,
    { shards := Function.update e.shards (shardFor hash name) ((e.shard name).erase name)
      placed := e.placed_erase name })

/-- The tags of one shard in the order its map iterates them. -/
def shardTags (m : ShardMap) : List TagValue := m.entries.map Sigma.snd

def snapshot (e : TagEngine hash) : List TagValue :=
  (List.finRange 16).flatMap (fun i => shardTags (e.shards i))

def size (e : TagEngine hash) : Nat :=
  ((List.finRange 16).map (fun i => (e.shards i).entries.length)).sum

/-! ### Lookup by name -/

def lookup (e : TagEngine hash) (name : Bytes) : Option TagValue := (e.shard name).lookup name

theorem name_of_lookup {e : TagEngine hash} {name : Bytes} {tag : TagValue}
    (h : e.lookup name = some tag) : tag.name = name :=
  (e.placed _ _ _ h).1

theorem lookup_writeImpl (e : TagEngine hash) (tag : TagValue) (name : Bytes) :
    (e.writeImpl tag).2.lookup name = if name = tag.name then some tag else e.lookup name := by
  unfold lookup writeImpl shard
  split_ifs with hn
  · subst hn
    simp
  · by_cases hs : shardFor hash name = shardFor hash tag.name
    · simp [hs, AList.lookup_insert_ne hn]
    · simp [Function.update_of_ne hs]

/-- A write reports a change when no tag of that name has an equal value. -/
theorem changed_iff (e : TagEngine hash) (tag : TagValue) :
    (e.writeImpl tag).1 = true ↔
      ∀ stored, e.lookup tag.name = some stored → valuesEqual stored.value tag.value = false := by
  change (match e.lookup tag.name with
    | some stored => !valuesEqual stored.value tag.value
    | none => true) = true ↔ _
  cases e.lookup tag.name with
  | none => simp
  | some stored => simp

/-- A write that reports no change finds an equal value. -/
theorem equal_of_unchanged {e : TagEngine hash} {tag : TagValue}
    (unchanged : (e.writeImpl tag).1 = false) :
    ∃ stored, e.lookup tag.name = some stored ∧ valuesEqual stored.value tag.value := by
  by_contra differs
  have changed : (e.writeImpl tag).1 = true := by
    rw [changed_iff]
    intro stored found
    by_contra equal
    exact differs ⟨stored, found, by simpa using equal⟩
  rw [unchanged] at changed
  contradiction

theorem lookup_remove (e : TagEngine hash) (name key : Bytes) :
    (e.remove name).2.lookup key = if key = name then none else e.lookup key := by
  unfold lookup remove shard
  split_ifs with hk
  · subst hk
    simp
  · by_cases hs : shardFor hash key = shardFor hash name
    · simp [hs, AList.lookup_erase_ne hk]
    · simp [Function.update_of_ne hs]

theorem read_eq (e : TagEngine hash) {name : Bytes} (h : name ≠ []) :
    e.read name = e.lookup name := by
  simp [read, lookup, h]

theorem mem_shardTags (m : ShardMap) (tag : TagValue) :
    tag ∈ shardTags m ↔ ∃ name, m.lookup name = some tag := by
  simp only [shardTags, List.mem_map, Sigma.exists, AList.mem_lookup_iff, ← Option.mem_def]
  constructor
  · intro h
    obtain ⟨name, t, ht, rfl⟩ := h
    exact ⟨name, ht⟩
  · intro h
    obtain ⟨name, ht⟩ := h
    exact ⟨name, tag, ht, rfl⟩

theorem mem_snapshot (e : TagEngine hash) (tag : TagValue) :
    tag ∈ e.snapshot ↔ e.lookup tag.name = some tag := by
  simp only [snapshot, List.mem_flatMap, List.mem_finRange, true_and, mem_shardTags]
  constructor
  · intro h
    obtain ⟨i, name, ht⟩ := h
    obtain ⟨hn, hi⟩ := e.placed _ _ _ ht
    subst hn hi
    exact ht
  · intro h
    exact ⟨shardFor hash tag.name, tag.name, h⟩

theorem nodup_shard_names (e : TagEngine hash) (i : Fin 16) :
    ((shardTags (e.shards i)).map TagValue.name).Nodup := by
  have names : (shardTags (e.shards i)).map TagValue.name = (e.shards i).entries.keys := by
    rw [shardTags, List.map_map, List.keys]
    apply List.map_congr_left
    intro s hs
    exact (e.placed i s.1 s.2 (AList.mem_lookup_iff.mpr hs)).1
  rw [names]
  exact (e.shards i).nodupKeys

/-- No two tags of a snapshot have the same name. -/
theorem nodup_snapshot_names (e : TagEngine hash) : (e.snapshot.map TagValue.name).Nodup := by
  rw [snapshot, List.map_flatMap, List.nodup_flatMap]
  refine ⟨fun i _ => e.nodup_shard_names i, ?_⟩
  apply (List.nodup_finRange 16).imp
  intro i j hij name hi hj
  have shardOf (k : Fin 16) (hk : name ∈ (shardTags (e.shards k)).map TagValue.name) :
      shardFor hash name = k := by
    obtain ⟨tag, ht, rfl⟩ := List.mem_map.mp hk
    obtain ⟨key, hl⟩ := (mem_shardTags _ tag).mp ht
    obtain ⟨hn, hs⟩ := e.placed _ _ _ hl
    rw [hn]
    exact hs
  exact hij ((shardOf i hi).symm.trans (shardOf j hj))

end TagEngine

end IndustrialRuntime.Core
