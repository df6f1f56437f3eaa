import IndustrialRuntime.Semantic.Effects
import IndustrialRuntime.Semantic.TrieIndex

namespace IndustrialRuntime.Irsp

namespace TopicTrie

/-- Two tries hold the same for one subscriber. -/
structure SameFor (id : SubscriberId) (t t' : TopicTrie) : Prop where
  nodes : ∀ q, id ∈ t.root.subscribersAt q ↔ id ∈ t'.root.subscribersAt q
  patterns : t.patterns id = t'.patterns id

namespace SameFor

variable {id i : SubscriberId} {t t' u : TopicTrie}

theorem refl (id : SubscriberId) (t : TopicTrie) : SameFor id t t := ⟨fun _ => Iff.rfl, rfl⟩

theorem symm (h : SameFor id t t') : SameFor id t' t :=
  ⟨fun q => (h.nodes q).symm, h.patterns.symm⟩

theorem trans (h : SameFor id t t') (h' : SameFor id t' u) : SameFor id t u :=
  ⟨fun q => (h.nodes q).trans (h'.nodes q), h.patterns.trans h'.patterns⟩

theorem subscribe (h : SameFor i t t') (p : Bytes) (id : SubscriberId) :
    SameFor i (t.subscribe p id).2 (t'.subscribe p id).2 := by
  constructor
  · intro q
    by_cases hp : TopicMatcher.isValidPattern p
    · rw [subscribe_root hp, subscribe_root hp, Node.mem_insertAt, Node.mem_insertAt, h.nodes]
    · rw [subscribe_invalid id hp, subscribe_invalid id hp]
      exact h.nodes q
  · ext q
    rw [subscribe_patterns, subscribe_patterns, h.patterns]

theorem unsubscribe (h : SameFor i t t') (p : Bytes) (id : SubscriberId) :
    SameFor i (t.unsubscribe p id).2 (t'.unsubscribe p id).2 := by
  constructor
  · intro q
    rw [unsubscribe_subscribersAt, unsubscribe_subscribersAt, h.nodes]
  · ext q
    rw [unsubscribe_patterns, unsubscribe_patterns, h.patterns]
    by_cases own : i = id
    · subst own
      rw [h.nodes]
    · simp only [own, false_and, and_false, not_false_eq_true, and_true]

theorem subscribe_other (p : Bytes) (other : i ≠ id) (t : TopicTrie) :
    SameFor i (t.subscribe p id).2 t := by
  constructor
  · intro q
    by_cases hp : TopicMatcher.isValidPattern p
    · rw [subscribe_root hp, Node.mem_insertAt]
      simp only [other, false_and, or_false]
    · rw [subscribe_invalid id hp]
  · ext q
    rw [subscribe_patterns]
    simp only [other, and_false, or_false]

theorem unsubscribe_other (p : Bytes) (other : i ≠ id) (t : TopicTrie) :
    SameFor i (t.unsubscribe p id).2 t := by
  constructor
  · intro q
    rw [unsubscribe_subscribersAt]
    simp only [other, false_and, not_false_eq_true, and_true]
  · exact patterns_unsubscribe_ne t p other

theorem unsubscribeList (h : SameFor i t t') (id : SubscriberId) (ps : List Bytes) :
    SameFor i (t.unsubscribeList id ps) (t'.unsubscribeList id ps) := by
  induction ps generalizing t t' with
  | nil => exact h
  | cons p ps ih => exact ih (h.unsubscribe p id)

theorem unsubscribeList_other (other : i ≠ id) (ps : List Bytes) (t : TopicTrie) :
    SameFor i (t.unsubscribeList id ps) t := by
  induction ps generalizing t with
  | nil => exact refl i t
  | cons p ps ih => exact (ih (t.unsubscribe p id).2).trans (unsubscribe_other p other t)

theorem unsubscribeAll_other (other : i ≠ id) (t : TopicTrie) :
    SameFor i (t.unsubscribeAll id) t := by
  rw [unsubscribeAll_eq]
  exact unsubscribeList_other other _ t

theorem unsubscribeAll (h : SameFor i t t') (id : SubscriberId) :
    SameFor i (t.unsubscribeAll id) (t'.unsubscribeAll id) := by
  by_cases own : i = id
  · subst own
    rw [unsubscribeAll_eq, unsubscribeAll_eq, h.patterns]
    exact h.unsubscribeList i _
  · have left := unsubscribeAll_other own t
    have right := unsubscribeAll_other own t'
    exact (left.trans h).trans right.symm

theorem countFor (h : SameFor id t t') : t.countFor id = t'.countFor id := by
  rw [countFor_eq, countFor_eq, h.patterns]

/-- Who is matched is read off the nodes. -/
theorem mem_matchTopic (h : SameFor id t t') (topic : Bytes) :
    id ∈ t.matchTopic topic ↔ id ∈ t'.matchTopic topic := by
  by_cases hc : TopicMatcher.isConcrete topic
  · simp only [matchTopic, hc, if_true, Finset.mem_sort,
      Node.mem_collect id _ _ ∅ (TopicMatcher.concrete_segments hc), h.nodes]
  · rw [matchTopic_of_not_concrete t hc, matchTopic_of_not_concrete t' hc]

end SameFor

end TopicTrie

namespace Dispatcher

/-- Two dispatchers hold the same for one session. -/
structure SameFor (id : SubscriberId) (d d' : Dispatcher) : Prop where
  trie : d.tagSubs.SameFor id d'.tagSubs
  filter : d.eventSubs.lookup id = d'.eventSubs.lookup id

theorem mem_eventSubscribers (d : Dispatcher) (rank : Int) (category : Bytes)
    (id : SubscriberId) :
    id ∈ d.eventSubscribers rank category ↔ ∃ filter, d.eventSubs.lookup id = some filter ∧
      (filter.minSeverityRank : Int) ≤ rank ∧
        (filter.category = [] ∨ filter.category = category) := by
  simp only [eventSubscribers, Finset.mem_sort, Finset.mem_filter, decide_eq_true_eq,
    Finmap.mem_keys]
  constructor
  · exact And.right
  · intro selected
    obtain ⟨filter, held, rest⟩ := selected
    exact ⟨Finmap.mem_of_lookup_eq_some held, filter, held, rest⟩

namespace SameFor

variable {id i : SubscriberId} {d d' e : Dispatcher}

theorem refl (id : SubscriberId) (d : Dispatcher) : SameFor id d d := ⟨.refl id _, rfl⟩

theorem trans (h : SameFor id d d') (h' : SameFor id d' e) : SameFor id d e :=
  ⟨h.trie.trans h'.trie, h.filter.trans h'.filter⟩

theorem mem_tagSubscribers (h : SameFor id d d') (topic : Bytes) :
    id ∈ d.tagSubscribers topic ↔ id ∈ d'.tagSubscribers topic :=
  h.trie.mem_matchTopic topic

theorem mem_eventSubscribers (h : SameFor id d d') (rank : Int) (category : Bytes) :
    id ∈ d.eventSubscribers rank category ↔ id ∈ d'.eventSubscribers rank category := by
  rw [Dispatcher.mem_eventSubscribers, Dispatcher.mem_eventSubscribers, h.filter]

theorem onSessionClosed_other (other : i ≠ id) (d : Dispatcher) :
    SameFor i (d.onSessionClosed id) d where
  trie := .unsubscribeAll_other other d.tagSubs
  filter := Finmap.lookup_erase_ne other

end SameFor

theorem subscribeEach_same {t t' : TopicTrie} {i : SubscriberId} (h : t.SameFor i t')
    (topics : List Bytes) (id : SubscriberId) :
    (subscribeEach t topics id).SameFor i (subscribeEach t' topics id) := by
  induction topics generalizing t t' with
  | nil => exact h
  | cons topic topics ih => exact ih (h.subscribe topic id)

theorem subscribeEach_other {i id : SubscriberId} (other : i ≠ id) (topics : List Bytes)
    (t : TopicTrie) : (subscribeEach t topics id).SameFor i t := by
  induction topics generalizing t with
  | nil => exact .refl i t
  | cons topic topics ih =>
    exact (ih (t.subscribe topic id).2).trans (.subscribe_other topic other t)

end Dispatcher

namespace Effect

open TopicTrie

variable {id i : SubscriberId} {d d' : Dispatcher}

theorem apply_same (effect : Effect) (h : d.SameFor i d') (id : SubscriberId) :
    (effect.apply d id).SameFor i (effect.apply d' id) := by
  cases effect with
  | answer reply => exact h
  | subscribe topics => exact ⟨Dispatcher.subscribeEach_same h.trie topics id, h.filter⟩
  | unsubscribe topics => exact ⟨h.trie.unsubscribeList id topics, h.filter⟩
  | unsubscribeAll => exact ⟨h.trie.unsubscribeAll id, h.filter⟩
  | setFilter filter =>
    refine ⟨h.trie, ?_⟩
    by_cases own : i = id
    · subst own
      simp only [apply, Finmap.lookup_insert]
    · simp only [apply, Finmap.lookup_insert_of_ne _ own, h.filter]
  | clearFilter =>
    refine ⟨h.trie, ?_⟩
    by_cases own : i = id
    · subst own
      simp only [apply, Finmap.lookup_erase]
    · simp only [apply, Finmap.lookup_erase_ne own, h.filter]

/-- A request is not noticed by any other session. -/
theorem apply_other (effect : Effect) (other : i ≠ id) (d : Dispatcher) :
    (effect.apply d id).SameFor i d := by
  cases effect with
  | answer reply => exact .refl i d
  | subscribe topics => exact ⟨Dispatcher.subscribeEach_other other topics _, rfl⟩
  | unsubscribe topics => exact ⟨.unsubscribeList_other other topics _, rfl⟩
  | unsubscribeAll => exact ⟨.unsubscribeAll_other other _, rfl⟩
  | setFilter filter => exact ⟨.refl i _, Finmap.lookup_insert_of_ne _ other⟩
  | clearFilter => exact ⟨.refl i _, Finmap.lookup_erase_ne other⟩

theorem reply_same (effect : Effect) (h : d.SameFor id d') :
    effect.reply d id = effect.reply d' id := by
  cases effect with
  | answer reply => rfl
  | subscribe _ | unsubscribe _ | unsubscribeAll =>
    simp only [reply, Dispatcher.countReply, h.trie.countFor]
  | setFilter _ | clearFilter => rfl

end Effect

namespace Dispatcher

variable {ω : Type*} (tags : TagSource ω) (writer : Option (TagWriter ω)) {d d' : Dispatcher}

theorem handle_other {session : Session} {i : SubscriberId} (other : i ≠ session.id)
    (d : Dispatcher) (store : ω) (request : IrspValue) :
    (handle tags writer d session store request).dispatcher.SameFor i d := by
  obtain ⟨effect, left, store', -, -, explained⟩ :=
    handle_effect tags writer session store request
  rw [explained]
  exact effect.apply_other other d

/-- A session gets the same answer from every dispatcher that holds the same for it. -/
theorem handle_same {session : Session} (h : d.SameFor session.id d') (store : ω)
    (request : IrspValue) :
    (handle tags writer d session store request).reply =
        (handle tags writer d' session store request).reply ∧
      (handle tags writer d session store request).session =
        (handle tags writer d' session store request).session ∧
      (handle tags writer d session store request).dispatcher.SameFor session.id
        (handle tags writer d' session store request).dispatcher := by
  obtain ⟨effect, left, store', -, -, explained⟩ :=
    handle_effect tags writer session store request
  have after := effect.apply_same h session.id
  rw [explained, explained]
  exact ⟨effect.reply_same after, rfl, after⟩

end Dispatcher

end IndustrialRuntime.Irsp
