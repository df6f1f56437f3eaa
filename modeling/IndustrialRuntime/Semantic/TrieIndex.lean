import IndustrialRuntime.Semantic.TrieRefinement

namespace IndustrialRuntime.Irsp.TopicTrie

open TopicMatcher

/-- `idPatterns_[id]` is the set of patterns whose node contains `id`. -/
def Agree (t : TopicTrie) : Prop := ∀ id p, p ∈ t.patterns id ↔ t.Registered p id

/-- What a caller of `unsubscribe(p, id)` may rely on. -/
structure UnsubscribeExact (t : TopicTrie) (p : Bytes) (id : SubscriberId) : Prop where
  result : (t.unsubscribe p id).1 = true ↔ t.Registered p id
  trie : (t.unsubscribe p id).1 = true → ∀ q i,
    (t.unsubscribe p id).2.Registered q i ↔ t.Registered q i ∧ ¬(q = p ∧ i = id)
  index : (t.unsubscribe p id).1 = true → ∀ q i,
    q ∈ (t.unsubscribe p id).2.patterns i ↔ q ∈ t.patterns i ∧ ¬(q = p ∧ i = id)
  count : (t.unsubscribe p id).1 = true →
    (t.unsubscribe p id).2.countFor id + 1 = t.countFor id ∧
      (t.unsubscribe p id).2.size + 1 = t.size
  others : (t.unsubscribe p id).1 = true → ∀ q topic, q ≠ p → t.Registered q id →
    «matches» q topic → id ∈ (t.unsubscribe p id).2.matchTopic topic
  unchanged : (t.unsubscribe p id).1 = false → (t.unsubscribe p id).2 = t

/-- The string is no valid pattern, yet it reads as a pattern of `id` up to its
first `"#"`, so the walk stops in that pattern's node. -/
def Misdirected (t : TopicTrie) (p : Bytes) (id : SubscriberId) : Prop :=
  ¬isValidPattern p ∧ ∃ q, t.Registered q id ∧ splitTopic q = upToHash (splitTopic p)

/-- Off the misdirected calls, a walk that finds `id` was given a held pattern. -/
theorem registered_of_found {t : TopicTrie} (ht : t.Spelled) {p : Bytes} {id : SubscriberId}
    (hm : ¬t.Misdirected p id) (h : id ∈ t.root.subscribersAt (splitTopic p)) :
    t.Registered p id := by
  by_cases hp : isValidPattern p
  · exact ⟨hp, h⟩
  · exact absurd ⟨hp, (mem_subscribersAt_iff ht _ id).mp h⟩ hm

theorem agree_empty : empty.Agree := by
  intro id p
  simp [patterns, empty, Registered, Node.subscribersAt_empty]

theorem agree_subscribe {t : TopicTrie} (h : t.Agree) (p : Bytes) (id : SubscriberId) :
    (t.subscribe p id).2.Agree := by
  intro i q
  rw [subscribe_patterns, subscribe_registered, h]

theorem agree_unsubscribe {t : TopicTrie} (ht : t.Spelled) (h : t.Agree) {p : Bytes}
    {id : SubscriberId} (hm : ¬t.Misdirected p id) : (t.unsubscribe p id).2.Agree := by
  intro i q
  by_cases hf : id ∈ t.root.subscribersAt (splitTopic p)
  · have hp := registered_of_found ht hm hf
    rw [unsubscribe_patterns, unsubscribe_registered_valid hp.1, h]
    simp [hf]
  · rw [unsubscribe_absent hf]
    exact h i q

theorem agree_unsubscribeAll {t : TopicTrie} (h : t.Agree) (id : SubscriberId) :
    (t.unsubscribeAll id).Agree := by
  intro i q
  have valid : ∀ p ∈ (t.patterns id).sort (· ≤ ·), isValidPattern p := by
    intro p hp
    exact ((h id p).mp ((Finset.mem_sort _).mp hp)).1
  rw [unsubscribeAll_eq, unsubscribeList_patterns t id i _ valid,
    unsubscribeList_registered t id i _ valid, h, Finset.mem_sort, h]
  simp

/-! ### The counts -/

theorem patterns_unsubscribe_self {t : TopicTrie} {p : Bytes} {id : SubscriberId}
    (h : id ∈ t.root.subscribersAt (splitTopic p)) :
    (t.unsubscribe p id).2.patterns id = (t.patterns id).erase p := by
  ext q
  rw [unsubscribe_patterns, Finset.mem_erase]
  simp [h, and_comm]

theorem patterns_unsubscribe_ne (t : TopicTrie) (p : Bytes) {id i : SubscriberId} (h : i ≠ id) :
    (t.unsubscribe p id).2.patterns i = t.patterns i := by
  ext q
  rw [unsubscribe_patterns]
  simp [h]

theorem countFor_unsubscribe {t : TopicTrie} {p : Bytes} {id : SubscriberId}
    (h : id ∈ t.root.subscribersAt (splitTopic p)) (hp : p ∈ t.patterns id) :
    (t.unsubscribe p id).2.countFor id + 1 = t.countFor id := by
  rw [countFor_eq, countFor_eq, patterns_unsubscribe_self h]
  exact Finset.card_erase_add_one hp

theorem size_unsubscribe {t : TopicTrie} {p : Bytes} {id : SubscriberId}
    (h : id ∈ t.root.subscribersAt (splitTopic p)) (hp : p ∈ t.patterns id) :
    (t.unsubscribe p id).2.size + 1 = t.size := by
  let u := (t.unsubscribe p id).2
  let ids := insert id (t.idPatterns.keys ∪ u.idPatterns.keys)
  have hid : id ∈ ids := Finset.mem_insert_self _ _
  have before : t.size = ∑ i ∈ ids, t.countFor i :=
    size_eq_sum t (fun i hi => Finset.mem_insert_of_mem (Finset.mem_union_left _ hi))
  have after : u.size = ∑ i ∈ ids, u.countFor i :=
    size_eq_sum u (fun i hi => Finset.mem_insert_of_mem (Finset.mem_union_right _ hi))
  have rest : ∑ i ∈ ids.erase id, u.countFor i = ∑ i ∈ ids.erase id, t.countFor i := by
    apply Finset.sum_congr rfl
    intro i hi
    rw [countFor_eq, countFor_eq, patterns_unsubscribe_ne t p (Finset.ne_of_mem_erase hi)]
  have own : u.countFor id + 1 = t.countFor id := countFor_unsubscribe h hp
  change u.size + 1 = t.size
  rw [before, after, ← Finset.add_sum_erase _ _ hid, ← Finset.add_sum_erase _ _ hid, rest]
  omega

theorem unsubscribeExact_of_agree {t : TopicTrie} (ht : t.Spelled) (h : t.Agree) {p : Bytes}
    {id : SubscriberId} (hm : ¬t.Misdirected p id) : t.UnsubscribeExact p id := by
  have held (found : (t.unsubscribe p id).1 = true) : t.Registered p id :=
    registered_of_found ht hm ((unsubscribe_fst t p id).mp found)
  have removed (found : (t.unsubscribe p id).1 = true) (q : Bytes) (i : SubscriberId) :
      (t.unsubscribe p id).2.Registered q i ↔ t.Registered q i ∧ ¬(q = p ∧ i = id) := by
    rw [unsubscribe_registered_valid (held found).1, and_comm (a := i = id)]
  constructor
  · exact ⟨held, fun hp => (unsubscribe_fst t p id).mpr hp.2⟩
  · exact removed
  · intro found q i
    have at_node := (unsubscribe_fst t p id).mp found
    rw [unsubscribe_patterns]
    simp [at_node, and_comm (a := i = id)]
  · intro found
    have at_node := (unsubscribe_fst t p id).mp found
    have hp : p ∈ t.patterns id := (h id p).mpr (held found)
    exact ⟨countFor_unsubscribe at_node hp, size_unsubscribe at_node hp⟩
  · intro found q topic hne hq hmatch
    rw [mem_matchTopic (unsubscribe_spelled ht p id)]
    exact ⟨q, (removed found q id).mpr ⟨hq, fun hb => hne hb.1⟩, hmatch⟩
  · intro absent
    have no_node : id ∉ t.root.subscribersAt (splitTopic p) := by
      rw [← unsubscribe_fst, absent]
      decide
    rw [unsubscribe_absent no_node]

/-- A misdirected call answers true although `id` does not hold the string. -/
theorem not_unsubscribeExact {t : TopicTrie} {p : Bytes} {id : SubscriberId}
    (h : t.Misdirected p id) : ¬t.UnsubscribeExact p id := by
  obtain ⟨invalid, q, hq, he⟩ := h
  intro hx
  have found : (t.unsubscribe p id).1 = true := by
    rw [unsubscribe_fst, ← Node.subscribersAt_upToHash, ← he]
    exact hq.2
  exact invalid (hx.result.mp found).1

/-! ### Whole runs -/

/-- In every state of the run the index agrees with the trie, and every
`unsubscribe` call of the run is exact. -/
def IndexSound (ops : List TrieOp) : Prop :=
  (∀ pre, pre <+: ops → (runOps pre).Agree) ∧
    ∀ pre p id, pre ++ [.unsubscribe p id] <+: ops → (runOps pre).UnsubscribeExact p id

/-- No `unsubscribe` call of the run is misdirected in the state it is made in. -/
def NoMisdirected (ops : List TrieOp) : Prop :=
  ∀ pre p id, pre ++ [.unsubscribe p id] <+: ops → ¬(runOps pre).Misdirected p id

theorem agree_runOps (ops : List TrieOp) (h : NoMisdirected ops) : (runOps ops).Agree := by
  induction ops using List.reverseRecOn with
  | nil => exact agree_empty
  | append_singleton ops op ih =>
    have before := ih (fun pre p id hp => h pre p id (hp.trans (List.prefix_append ops [op])))
    rw [runOps_snoc]
    cases op with
    | subscribe p id => exact agree_subscribe before p id
    | unsubscribe p id =>
      exact agree_unsubscribe (runOps_spelled ops) before (h ops p id List.prefix_rfl)
    | unsubscribeAll id => exact agree_unsubscribeAll before id

/-- The trie and its reverse index stay one relation through a run if and only
if no call of the run is misdirected. -/
theorem indexSound_iff (ops : List TrieOp) : IndexSound ops ↔ NoMisdirected ops := by
  constructor
  · rintro ⟨-, sound⟩ pre p id hp bad
    exact not_unsubscribeExact bad (sound pre p id hp)
  · intro h
    have agree (pre : List TrieOp) (hpre : pre <+: ops) : (runOps pre).Agree :=
      agree_runOps pre (fun r p id hr => h r p id (hr.trans hpre))
    refine ⟨agree, fun pre p id hp => ?_⟩
    exact unsubscribeExact_of_agree (runOps_spelled pre)
      (agree pre ((List.prefix_append pre _).trans hp)) (h pre p id hp)

/-- `unsubscribe("a/#/b", 1)` after `subscribe("a/#", 1)` empties the node of
`"a/#"`, answers true, and leaves `"a/#"` in the index. -/
theorem not_indexSound :
    ¬IndexSound [.subscribe (ascii "a/#") 1, .unsubscribe (ascii "a/#/b") 1] := by
  rintro ⟨-, sound⟩
  refine not_unsubscribeExact ⟨by decide, ascii "a/#", ?_, by decide⟩
    (sound [.subscribe (ascii "a/#") 1] (ascii "a/#/b") 1 List.prefix_rfl)
  unfold Registered
  decide

end IndustrialRuntime.Irsp.TopicTrie
