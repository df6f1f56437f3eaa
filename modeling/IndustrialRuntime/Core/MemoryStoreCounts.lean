import IndustrialRuntime.Core.MemoryStore

namespace IndustrialRuntime.Core.MemoryStore

variable {hash : Bytes → UInt64} {T : Type} [DecidableEq T]

/-- The keys of the shards before this one. -/
def keysBefore (hash : Bytes → UInt64) (keys : Finset Bytes) (shard : Nat) : Finset Bytes :=
  keys.filter fun key => (shardFor hash key).val < shard

theorem keysBefore_zero (keys : Finset Bytes) : keysBefore hash keys 0 = ∅ := by
  simp [keysBefore]

theorem keysBefore_all (keys : Finset Bytes) {shard : Nat} (all : 16 ≤ shard) :
    keysBefore hash keys shard = keys := by
  apply Finset.filter_true_of_mem
  intro key _
  have bounded := (shardFor hash key).isLt
  omega

theorem card_keysBefore_succ (keys : Finset Bytes) (shard : Nat) :
    (keysBefore hash keys (shard + 1)).card = (keysBefore hash keys shard).card +
      (keys.filter fun key => (shardFor hash key).val = shard).card := by
  have split : keysBefore hash keys (shard + 1) = keysBefore hash keys shard ∪
      keys.filter fun key => (shardFor hash key).val = shard := by
    rw [keysBefore, keysBefore, ← Finset.filter_or]
    apply Finset.filter_congr
    intro key _
    omega
  rw [split, Finset.card_union_of_disjoint]
  apply Finset.disjoint_filter.mpr
  intro key _ less same
  omega

/-- Some keys are stored, and only keys among others. -/
def Between (kept all : Finset Bytes) (m : MemoryStore hash) : Prop :=
  (∀ key ∈ kept, (m.lookup key).isSome) ∧ ∀ key, (m.lookup key).isSome → key ∈ all

instance decidableBetween (kept all : Finset Bytes) (m : MemoryStore hash) :
    Decidable (Between kept all m) :=
  decidable_of_iff ((∀ key ∈ kept, (m.lookup key).isSome) ∧
      ∀ i, ∀ key ∈ m.keysAt i, key ∈ all) <| by
    refine and_congr_right fun _ => ⟨fun listed key stored => ?_, fun stored i key found => ?_⟩
    · exact listed _ key (Sharded.mem_keysAt.mpr ⟨rfl, stored⟩)
    · exact stored key (Sharded.mem_keysAt.mp found).2

/-- The count of one shard. -/
theorem Between.count {kept all : Finset Bytes} {m : MemoryStore hash}
    (between : Between kept all m) {shard : Nat} (more : shard < 16) :
    (kept.filter fun key => (shardFor hash key).val = shard).card ≤
        (m.keysAt ⟨shard, more⟩).length ∧
      (m.keysAt ⟨shard, more⟩).length ≤
        (all.filter fun key => (shardFor hash key).val = shard).card := by
  rw [← List.toFinset_card_of_nodup (m.nodup_keysAt ⟨shard, more⟩)]
  constructor
  · apply Finset.card_le_card
    intro key found
    obtain ⟨inside, own⟩ := Finset.mem_filter.mp found
    exact List.mem_toFinset.mpr (Sharded.mem_keysAt.mpr ⟨Fin.ext own, between.1 key inside⟩)
  · apply Finset.card_le_card
    intro key found
    obtain ⟨own, stored⟩ := Sharded.mem_keysAt.mp (List.mem_toFinset.mp found)
    exact Finset.mem_filter.mpr ⟨between.2 key stored, congrArg Fin.val own⟩

/-- How far a `size` has counted. -/
def Thread.Counted (hash : Bytes → UInt64) (kept all : Finset Bytes) : Thread → Prop
  | .locking .size => True
  | .counting shard total => (keysBefore hash kept shard).card ≤ total ∧
    total ≤ (keysBefore hash all shard).card
  | .returning (.size total) => kept.card ≤ total ∧ total ≤ all.card
  | _ => False

theorem counted_work {kept all : Finset Bytes} {m m' : MemoryStore hash} {th th' : Thread}
    (between : Between kept all m) (counted : th.Counted hash kept all)
    (worked : work m th = some (m', th')) : th'.Counted hash kept all := by
  cases th with
  | locking call =>
    cases call with
    | size =>
      cases worked
      simp [Thread.Counted, keysBefore_zero]
    | _ => cases counted
  | counting shard total =>
    rw [work] at worked
    split_ifs at worked with more <;> cases worked
    · have count := between.count more
      have below := counted.1
      have above := counted.2
      rw [Thread.Counted, card_keysBefore_succ, card_keysBefore_succ]
      omega
    · have done := counted
      rw [Thread.Counted, keysBefore_all _ (by omega), keysBefore_all _ (by omega)] at done
      exact done
  | _ => first | cases worked | cases counted

/-- A `size` that other threads interfere with returns at least the number of keys that were
stored all the time, and at most the number of keys that were stored at some time. -/
theorem size_between {kept all : Finset Bytes} {s s' : State hash T} {t : T} {as : List (Action T)}
    {total : Nat} (called : s.threads t = .locking .size)
    (inside : (machine hash T).Steps
      (fun s a => a ≠ .return_ t ∧ Between kept all s.store) s as)
    (run : (machine hash T).runFrom s as = some s')
    (returns : s'.threads t = .returning (.size total)) :
    kept.card ≤ total ∧ total ≤ all.card := by
  have counted : (s'.threads t).Counted hash kept all := by
    refine (machine hash T).invariant_of_steps _ (fun s => (s.threads t).Counted hash kept all) ?_
      s as s' (by rw [called]; trivial) inside run
    intro s a s' counted meets next
    change step s a = some s' at next
    cases a with
    | call u call =>
      rw [step] at next
      split_ifs at next with outside
      cases next
      have other : t ≠ u := by
        intro same
        rw [same, outside] at counted
        exact counted
      show (Function.update s.threads u (.locking call) t).Counted hash kept all
      rw [Function.update_of_ne other]
      exact counted
    | work u =>
      rw [step] at next
      obtain ⟨⟨m', th'⟩, worked, rfl⟩ := Option.map_eq_some_iff.mp next
      show (Function.update s.threads u th' t).Counted hash kept all
      by_cases same : t = u
      · rw [same, Function.update_self]
        rw [same] at counted
        exact counted_work meets.2 counted worked
      · rw [Function.update_of_ne same]
        exact counted
    | return_ u =>
      have other : t ≠ u := fun same => meets.1 (by rw [same])
      rw [step] at next
      split at next <;> cases next
      show (Function.update s.threads u .idle t).Counted hash kept all
      rw [Function.update_of_ne other]
      exact counted
  rw [returns] at counted
  exact counted

/-- The shards by the first byte. -/
def firstByte (key : Bytes) : UInt64 := (key.head?.getD 0).toUInt64

/-- `a` is stored and a `size` begins. -/
def sizeBegins : List (Action Bool) :=
  [.call true (.set (ascii "a") (.bool true)), .work true, .return_ true, .call false .size]

/-- Meanwhile `b` is stored, and a key of a shard that was counted before. -/
def othersStore : List (Action Bool) :=
  [.work false, .work false,
    .call true (.set (ascii "b") (.bool true)), .work true, .return_ true,
    .call true (.set [0] (.bool true)), .work true, .return_ true] ++
    List.replicate 16 (.work false)

theorem size_between_interfered :
    ∃ s s', (machine firstByte Bool).run sizeBegins = some s ∧
      (machine firstByte Bool).runFrom s othersStore = some s' ∧
      s'.threads false = .returning (.size 2) ∧
      ({ascii "a"} : Finset Bytes).card ≤ 2 ∧
      2 ≤ ({ascii "a", ascii "b", [0]} : Finset Bytes).card := by
  have runs : ((machine firstByte Bool).run sizeBegins).any (fun s =>
      decide (s.threads false = .locking .size) &&
      decide ((machine firstByte Bool).Steps (fun s a => a ≠ .return_ false ∧
        Between {ascii "a"} {ascii "a", ascii "b", [0]} s.store) s othersStore) &&
      ((machine firstByte Bool).runFrom s othersStore).any (fun s' =>
        decide (s'.threads false = .returning (.size 2)))) = true := by
    decide +kernel
  obtain ⟨s, begun, rest⟩ := (Option.any_eq_true _ _).mp runs
  simp only [Bool.and_eq_true, decide_eq_true_eq] at rest
  obtain ⟨⟨called, inside⟩, ended⟩ := rest
  obtain ⟨s', run, returns⟩ := (Option.any_eq_true _ _).mp ended
  have returns := of_decide_eq_true returns
  exact ⟨s, s', begun, run, returns, size_between called inside run returns⟩

end IndustrialRuntime.Core.MemoryStore
