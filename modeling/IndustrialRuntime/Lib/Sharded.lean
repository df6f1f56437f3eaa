import Mathlib.Data.List.AList
import Mathlib.Data.Fintype.Defs

namespace IndustrialRuntime

/-- A map whose keys are spread over several shards: every key is in the shard of its place. -/
structure Sharded {κ : Type*} {n : Nat} (place : κ → Fin n) (ν : Type*) where
  shards : Fin n → AList fun _ : κ => ν
  placed : ∀ i key, key ∈ shards i → place key = i

namespace Sharded

variable {κ ν : Type*} {n : Nat} {place : κ → Fin n}

def empty : Sharded place ν where
  shards _ := ∅
  placed _ key inside := absurd inside (AList.notMem_empty key)

/-- The keys of a shard, in the order in which its map iterates them. -/
def keysAt (m : Sharded place ν) (i : Fin n) : List κ := (m.shards i).keys

theorem nodup_keysAt (m : Sharded place ν) (i : Fin n) : (m.keysAt i).Nodup :=
  (m.shards i).keys_nodup

theorem place_of_mem_keysAt {m : Sharded place ν} {i : Fin n} {key : κ} (found : key ∈ m.keysAt i) :
    place key = i := m.placed i key (AList.mem_keys.mp found)

/-- Another map in one shard. -/
def replace (m : Sharded place ν) (i : Fin n) (shard : AList fun _ : κ => ν)
    (placed : ∀ key ∈ shard, place key = i) : Sharded place ν where
  shards := Function.update m.shards i shard
  placed j key inside := by
    by_cases same : j = i
    · rw [same] at inside ⊢
      rw [Function.update_self] at inside
      exact placed key inside
    · rw [Function.update_of_ne same] at inside
      exact m.placed j key inside

def clearAt (m : Sharded place ν) (i : Fin n) : Sharded place ν :=
  m.replace i ∅ fun key inside => absurd inside (AList.notMem_empty key)

section

variable [DecidableEq κ]

def lookup (m : Sharded place ν) (key : κ) : Option ν := (m.shards (place key)).lookup key

def insert (m : Sharded place ν) (key : κ) (value : ν) : Sharded place ν :=
  m.replace (place key) ((m.shards (place key)).insert key value) fun other inside => by
    rcases AList.mem_insert _ |>.mp inside with rfl | before
    · rfl
    · exact m.placed _ other before

def erase (m : Sharded place ν) (key : κ) : Sharded place ν :=
  m.replace (place key) ((m.shards (place key)).erase key) fun other inside =>
    m.placed _ other (AList.mem_erase.mp inside).2

@[simp] theorem lookup_empty (key : κ) : (empty : Sharded place ν).lookup key = none :=
  AList.lookup_empty key

theorem lookup_replace (m : Sharded place ν) (i : Fin n) (shard : AList fun _ : κ => ν)
    (placed : ∀ key ∈ shard, place key = i) (key : κ) :
    (m.replace i shard placed).lookup key =
      if place key = i then shard.lookup key else m.lookup key := by
  show (Function.update m.shards i shard (place key)).lookup key = _
  split_ifs with same
  · rw [same, Function.update_self]
  · rw [Function.update_of_ne same]
    rfl

@[simp] theorem lookup_insert (m : Sharded place ν) (key other : κ) (value : ν) :
    (m.insert key value).lookup other = if other = key then some value else m.lookup other := by
  rw [insert, lookup_replace]
  by_cases same : other = key
  · rw [same, if_pos rfl, if_pos rfl, AList.lookup_insert]
  · rw [if_neg same, AList.lookup_insert_ne same]
    split_ifs with beside
    · rw [lookup, beside]
    · rfl

@[simp] theorem lookup_erase (m : Sharded place ν) (key other : κ) :
    (m.erase key).lookup other = if other = key then none else m.lookup other := by
  rw [erase, lookup_replace]
  by_cases same : other = key
  · rw [same, if_pos rfl, if_pos rfl, AList.lookup_erase]
  · rw [if_neg same, AList.lookup_erase_ne same]
    split_ifs with beside
    · rw [lookup, beside]
    · rfl

@[simp] theorem lookup_clearAt (m : Sharded place ν) (i : Fin n) (key : κ) :
    (m.clearAt i).lookup key = if place key = i then none else m.lookup key := by
  rw [clearAt, lookup_replace, AList.lookup_empty]

/-- A shard lists the keys of its own that have a value. -/
theorem mem_keysAt {m : Sharded place ν} {i : Fin n} {key : κ} :
    key ∈ m.keysAt i ↔ place key = i ∧ (m.lookup key).isSome := by
  constructor
  · intro found
    have own := place_of_mem_keysAt found
    refine ⟨own, ?_⟩
    rw [lookup, own, AList.lookup_isSome]
    exact AList.mem_keys.mp found
  · rintro ⟨rfl, stored⟩
    rw [lookup, AList.lookup_isSome] at stored
    exact AList.mem_keys.mpr stored

end

end Sharded

end IndustrialRuntime
