import IndustrialRuntime.Semantic.TrieRegistry

namespace IndustrialRuntime.Irsp

/-- The calls that change a `TopicTrie`. -/
inductive TrieOp where
  | subscribe (pattern : Bytes) (id : SubscriberId)
  | unsubscribe (pattern : Bytes) (id : SubscriberId)
  | unsubscribeAll (id : SubscriberId)
  deriving DecidableEq

namespace TopicTrie

open TopicMatcher

def apply (t : TopicTrie) : TrieOp → TopicTrie
  | .subscribe p id => (t.subscribe p id).2
  | .unsubscribe p id => (t.unsubscribe p id).2
  | .unsubscribeAll id => t.unsubscribeAll id

/-- The trie after a sequence of calls on an empty one. -/
def runOps (ops : List TrieOp) : TopicTrie := ops.foldl apply empty

theorem runOps_snoc (ops : List TrieOp) (op : TrieOp) :
    runOps (ops ++ [op]) = (runOps ops).apply op := by
  simp [runOps]

theorem apply_spelled {t : TopicTrie} (ht : t.Spelled) (op : TrieOp) : (t.apply op).Spelled := by
  cases op with
  | subscribe p id => exact subscribe_spelled ht p id
  | unsubscribe p id => exact unsubscribe_spelled ht p id
  | unsubscribeAll id => exact unsubscribeAll_spelled ht id

theorem runOps_spelled (ops : List TrieOp) : (runOps ops).Spelled := by
  induction ops using List.reverseRecOn with
  | nil => exact empty_spelled
  | append_singleton ops op ih =>
    rw [runOps_snoc]
    exact apply_spelled ih op

end TopicTrie

/-- What the trie stands for: the pairs subscribed and not since unsubscribed,
kept as a plain table with no structure of topics. -/
abbrev Registry := Finset (Bytes × SubscriberId)

namespace Registry

def apply (r : Registry) : TrieOp → Registry
  | .subscribe p id => insert (p, id) r
  | .unsubscribe p id => r.erase (p, id)
  | .unsubscribeAll id => r.filter (fun x => x.2 ≠ id)

def runOps (ops : List TrieOp) : Registry := ops.foldl apply ∅

theorem runOps_snoc (ops : List TrieOp) (op : TrieOp) :
    runOps (ops ++ [op]) = (runOps ops).apply op := by
  simp [runOps]

end Registry

/-- An `unsubscribe` is given a pattern that `isValidPattern` accepts. -/
def TrieOp.Accepted : TrieOp → Prop
  | .unsubscribe p _ => TopicMatcher.isValidPattern p
  | _ => True

instance : DecidablePred TrieOp.Accepted
  | .subscribe _ _ | .unsubscribeAll _ => inferInstanceAs (Decidable True)
  | .unsubscribe p _ => inferInstanceAs (Decidable (TopicMatcher.isValidPattern p = true))

namespace TopicTrie

open TopicMatcher

/-- The trie and the index both hold the valid pairs of the table. -/
structure Refines (t : TopicTrie) (r : Registry) : Prop where
  trie : ∀ p id, t.Registered p id ↔ isValidPattern p ∧ (p, id) ∈ r
  index : ∀ p id, p ∈ t.patterns id ↔ isValidPattern p ∧ (p, id) ∈ r

theorem refines_empty : Refines empty ∅ where
  trie p id := by simp [not_registered_empty]
  index p id := by simp [patterns, empty]

theorem refines_subscribe {t : TopicTrie} {r : Registry} (h : Refines t r) (p : Bytes)
    (id : SubscriberId) : Refines (t.subscribe p id).2 (insert (p, id) r) where
  trie q i := by
    rw [subscribe_registered, h.trie]
    constructor
    · rintro (⟨hq, hr⟩ | ⟨hp, rfl, rfl⟩)
      · exact ⟨hq, by simp [hr]⟩
      · exact ⟨hp, by simp⟩
    · rintro ⟨hq, hr⟩
      rcases Finset.mem_insert.mp hr with he | hr
      · obtain ⟨rfl, rfl⟩ := Prod.mk.inj he
        exact .inr ⟨hq, rfl, rfl⟩
      · exact .inl ⟨hq, hr⟩
  index q i := by
    rw [subscribe_patterns, h.index]
    constructor
    · rintro (⟨hq, hr⟩ | ⟨hp, rfl, rfl⟩)
      · exact ⟨hq, by simp [hr]⟩
      · exact ⟨hp, by simp⟩
    · rintro ⟨hq, hr⟩
      rcases Finset.mem_insert.mp hr with he | hr
      · obtain ⟨rfl, rfl⟩ := Prod.mk.inj he
        exact .inr ⟨hq, rfl, rfl⟩
      · exact .inl ⟨hq, hr⟩

theorem refines_unsubscribe {t : TopicTrie} {r : Registry} (h : Refines t r) {p : Bytes}
    (hp : isValidPattern p) (id : SubscriberId) :
    Refines (t.unsubscribe p id).2 (r.erase (p, id)) where
  trie q i := by
    rw [unsubscribe_registered_valid hp, h.trie]
    simp only [Finset.mem_erase, ne_eq, Prod.mk.injEq]
    tauto
  index q i := by
    have held : id ∈ t.root.subscribersAt (splitTopic p) ↔ (p, id) ∈ r := by
      simpa [Registered, hp] using h.trie p id
    rw [unsubscribe_patterns, h.index, held]
    simp only [Finset.mem_erase, ne_eq, Prod.mk.injEq]
    constructor
    · rintro ⟨⟨hq, hr⟩, hn⟩
      refine ⟨hq, ?_, hr⟩
      rintro ⟨rfl, rfl⟩
      exact hn ⟨hr, rfl, rfl⟩
    · rintro ⟨hq, hn, hr⟩
      exact ⟨⟨hq, hr⟩, fun hb => hn ⟨hb.2.2, hb.2.1⟩⟩

theorem refines_unsubscribeAll {t : TopicTrie} {r : Registry} (h : Refines t r)
    (id : SubscriberId) : Refines (t.unsubscribeAll id) (r.filter (fun x => x.2 ≠ id)) := by
  have valid : ∀ p ∈ (t.patterns id).sort (· ≤ ·), isValidPattern p := by
    intro p hp
    exact ((h.index p id).mp ((Finset.mem_sort _).mp hp)).1
  have all (q : Bytes) : q ∈ (t.patterns id).sort (· ≤ ·) ↔ isValidPattern q ∧ (q, id) ∈ r := by
    rw [Finset.mem_sort, h.index]
  rw [unsubscribeAll_eq]
  constructor
  · intro q i
    rw [unsubscribeList_registered t id i _ valid, h.trie, all]
    simp only [Finset.mem_filter, ne_eq]
    constructor
    · rintro ⟨⟨hq, hr⟩, hn⟩
      refine ⟨hq, hr, ?_⟩
      rintro rfl
      exact hn ⟨rfl, hq, hr⟩
    · rintro ⟨hq, hr, hi⟩
      exact ⟨⟨hq, hr⟩, fun hb => hi hb.1⟩
  · intro q i
    rw [unsubscribeList_patterns t id i _ valid, h.index, all, h.trie]
    simp only [Finset.mem_filter, ne_eq]
    constructor
    · rintro ⟨⟨hq, hr⟩, hn⟩
      refine ⟨hq, hr, ?_⟩
      rintro rfl
      exact hn ⟨rfl, ⟨hq, hr⟩, hq, hr⟩
    · rintro ⟨hq, hr, hi⟩
      exact ⟨⟨hq, hr⟩, fun hb => hi hb.1⟩

theorem refines_runOps (ops : List TrieOp) (h : ∀ op ∈ ops, op.Accepted) :
    Refines (runOps ops) (Registry.runOps ops) := by
  induction ops using List.reverseRecOn with
  | nil => exact refines_empty
  | append_singleton ops op ih =>
    have before := ih (fun o ho => h o (by simp [ho]))
    rw [runOps_snoc, Registry.runOps_snoc]
    cases op with
    | subscribe p id => exact refines_subscribe before p id
    | unsubscribe p id => exact refines_unsubscribe before (h (.unsubscribe p id) (by simp)) id
    | unsubscribeAll id => exact refines_unsubscribeAll before id

/-- Matching through the trie is the linear scan of the table by `matches`:
ascending, without repetition, and empty for a topic that is not concrete. -/
theorem matchTopic_refines_matches (ops : List TrieOp) (accepted : ∀ op ∈ ops, op.Accepted)
    (topic : Bytes) :
    ((runOps ops).matchTopic topic).Pairwise (· < ·) ∧
      (∀ id, id ∈ (runOps ops).matchTopic topic ↔
        ∃ p, (p, id) ∈ Registry.runOps ops ∧ «matches» p topic) ∧
      (¬isConcrete topic → (runOps ops).matchTopic topic = []) := by
  have h := refines_runOps ops accepted
  refine ⟨matchTopic_ascending _ topic, ?_, fun hc => matchTopic_of_not_concrete _ hc⟩
  intro id
  rw [mem_matchTopic (runOps_spelled ops)]
  constructor
  · rintro ⟨p, hp, hm⟩
    exact ⟨p, ((h.trie p id).mp hp).2, hm⟩
  · rintro ⟨p, hp, hm⟩
    exact ⟨p, (h.trie p id).mpr ⟨(matches_iff.mp hm).1, hp⟩, hm⟩

/-- Two patterns of one id overlap on the topic, and one of them is dropped again. -/
theorem matchTopic_overlap :
    7 ∈ (runOps [.subscribe (ascii "a/#") 7, .subscribe (ascii "a/+") 7,
      .unsubscribe (ascii "a/#") 7]).matchTopic (ascii "a/b") := by
  have h := matchTopic_refines_matches
    [.subscribe (ascii "a/#") 7, .subscribe (ascii "a/+") 7, .unsubscribe (ascii "a/#") 7]
    (by decide) (ascii "a/b")
  exact (h.2.1 7).mpr ⟨ascii "a/+", by decide, by decide⟩

end TopicTrie

end IndustrialRuntime.Irsp
