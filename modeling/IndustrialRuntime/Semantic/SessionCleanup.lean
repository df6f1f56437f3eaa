import IndustrialRuntime.Semantic.Sessions

namespace IndustrialRuntime.Irsp

namespace TopicTrie

open TopicMatcher

/-- The reverse index covers the trie. The converse fails after a misdirected
`unsubscribe`, which erases from the trie alone. -/
structure Covered (t : TopicTrie) : Prop where
  index : ∀ p id, t.Registered p id → p ∈ t.patterns id
  valid : ∀ p id, p ∈ t.patterns id → isValidPattern p

theorem covered_empty : empty.Covered where
  index p id held := absurd held (not_registered_empty p id)
  valid p id listed := by simp [patterns, empty] at listed

theorem Covered.subscribe {t : TopicTrie} (h : t.Covered) (p : Bytes) (id : SubscriberId) :
    (t.subscribe p id).2.Covered where
  index q i held := by
    rw [subscribe_patterns]
    rw [subscribe_registered] at held
    exact held.imp_left (h.index q i)
  valid q i listed := by
    rw [subscribe_patterns] at listed
    obtain listed | ⟨hp, rfl, -⟩ := listed
    · exact h.valid q i listed
    · exact hp

theorem Covered.unsubscribe {t : TopicTrie} (h : t.Covered) (p : Bytes) (id : SubscriberId) :
    (t.unsubscribe p id).2.Covered where
  index q i held := by
    rw [unsubscribe_registered] at held
    obtain ⟨held, kept⟩ := held
    rw [unsubscribe_patterns]
    refine ⟨h.index q i held, ?_⟩
    rintro ⟨-, own, rfl⟩
    exact kept ⟨own, (upToHash_splitTopic held.1).symm⟩
  valid q i listed := by
    rw [unsubscribe_patterns] at listed
    exact h.valid q i listed.1

theorem Covered.unsubscribeList {t : TopicTrie} (h : t.Covered) (id : SubscriberId)
    (ps : List Bytes) : (t.unsubscribeList id ps).Covered := by
  induction ps generalizing t with
  | nil => exact h
  | cons p ps ih => exact ih (h.unsubscribe p id)

theorem Covered.unsubscribeAll {t : TopicTrie} (h : t.Covered) (id : SubscriberId) :
    (t.unsubscribeAll id).Covered := by
  rw [unsubscribeAll_eq]
  exact h.unsubscribeList id _

/-- Nothing of a subscriber is left in a covered trie. -/
theorem Covered.not_registered {t : TopicTrie} (h : t.Covered) (id : SubscriberId) (p : Bytes) :
    ¬(t.unsubscribeAll id).Registered p id := by
  have valid : ∀ q ∈ (t.patterns id).sort (· ≤ ·), isValidPattern q := by
    intro q listed
    exact h.valid q id ((Finset.mem_sort _).mp listed)
  rw [unsubscribeAll_eq, unsubscribeList_registered t id id _ valid]
  rintro ⟨held, kept⟩
  have listed := h.index p id held
  exact kept ⟨rfl, (Finset.mem_sort _).mpr listed⟩

/-- No node of the trie holds the subscriber. -/
def Absent (t : TopicTrie) (id : SubscriberId) : Prop := ∀ q, id ∉ t.root.subscribersAt q

theorem absent_unsubscribeAll {t : TopicTrie} (spelled : t.Spelled) (h : t.Covered)
    (id : SubscriberId) : (t.unsubscribeAll id).Absent id := by
  intro q found
  obtain ⟨p, held, -⟩ := (mem_subscribersAt_iff (unsubscribeAll_spelled spelled id) q id).mp found
  exact h.not_registered id p held

theorem Absent.unsubscribe {t : TopicTrie} {i : SubscriberId} (h : t.Absent i) (p : Bytes)
    (id : SubscriberId) : (t.unsubscribe p id).2.Absent i := by
  intro q found
  exact h q ((unsubscribe_subscribersAt t p q id i).mp found).1

theorem Absent.unsubscribeList {t : TopicTrie} {i : SubscriberId} (h : t.Absent i)
    (id : SubscriberId) (ps : List Bytes) : (t.unsubscribeList id ps).Absent i := by
  induction ps generalizing t with
  | nil => exact h
  | cons p ps ih => exact ih (h.unsubscribe p id)

theorem Absent.unsubscribeAll {t : TopicTrie} {i : SubscriberId} (h : t.Absent i)
    (id : SubscriberId) : (t.unsubscribeAll id).Absent i := by
  rw [unsubscribeAll_eq]
  exact h.unsubscribeList id _

theorem Absent.not_matched {t : TopicTrie} {id : SubscriberId} (h : t.Absent id)
    (topic : Bytes) : id ∉ t.matchTopic topic := by
  by_cases hc : isConcrete topic
  · simp only [matchTopic, hc, if_true, Finset.mem_sort,
      Node.mem_collect id t.root _ ∅ (concrete_segments hc), Finset.notMem_empty, false_or]
    rintro ⟨q, -, found⟩
    exact h q found
  · rw [matchTopic_of_not_concrete t hc]
    exact List.not_mem_nil

end TopicTrie

namespace Dispatcher

variable {ω : Type*}

/-- The invariant of every reachable dispatcher that the cleanup relies on. -/
structure Covered (d : Dispatcher) : Prop where
  spelled : d.tagSubs.Spelled
  index : d.tagSubs.Covered

/-- The dispatcher routes nothing to the session. -/
structure Absent (d : Dispatcher) (id : SubscriberId) : Prop where
  trie : d.tagSubs.Absent id
  filter : d.eventSubs.lookup id = none

theorem Absent.not_routed {d : Dispatcher} {id : SubscriberId} (h : d.Absent id) :
    (∀ topic, id ∉ d.tagSubscribers topic) ∧
      ∀ rank category, id ∉ d.eventSubscribers rank category := by
  refine ⟨h.trie.not_matched, fun rank category routed => ?_⟩
  obtain ⟨filter, held, -⟩ := (mem_eventSubscribers d rank category id).mp routed
  simp [h.filter] at held

theorem absent_onSessionClosed {d : Dispatcher} (h : d.Covered) (id : SubscriberId) :
    (d.onSessionClosed id).Absent id where
  trie := TopicTrie.absent_unsubscribeAll h.spelled h.index id
  filter := Finmap.lookup_erase id _

theorem Absent.onSessionClosed {d : Dispatcher} {i : SubscriberId} (h : d.Absent i)
    (id : SubscriberId) : (d.onSessionClosed id).Absent i where
  trie := h.trie.unsubscribeAll id
  filter := by
    by_cases own : i = id
    · subst own
      exact Finmap.lookup_erase i _
    · exact (Finmap.lookup_erase_ne own).trans h.filter

theorem Covered.onSessionClosed {d : Dispatcher} (h : d.Covered) (id : SubscriberId) :
    (d.onSessionClosed id).Covered where
  spelled := onSessionClosed_spelled h.spelled id
  index := h.index.unsubscribeAll id

theorem subscribeEach_covered {t : TopicTrie} (h : t.Covered) (topics : List Bytes)
    (id : SubscriberId) : (subscribeEach t topics id).Covered := by
  induction topics generalizing t with
  | nil => exact h
  | cons topic topics ih => exact ih (h.subscribe topic id)

theorem apply_covered {d : Dispatcher} (h : d.tagSubs.Covered) (effect : Effect)
    (id : SubscriberId) : (effect.apply d id).tagSubs.Covered := by
  cases effect with
  | subscribe topics => exact subscribeEach_covered h topics id
  | unsubscribe topics => exact h.unsubscribeList id topics
  | unsubscribeAll => exact h.unsubscribeAll id
  | answer _ | setFilter _ | clearFilter => exact h

/-- An effect that adds nothing does not bring an absent session back. -/
theorem Absent.apply {d : Dispatcher} {i : SubscriberId} (h : d.Absent i) {effect : Effect}
    (none_added : ¬effect.Adds) (id : SubscriberId) : (effect.apply d id).Absent i := by
  cases effect with
  | answer _ => exact h
  | subscribe _ | setFilter _ => exact absurd trivial none_added
  | unsubscribe topics => exact ⟨h.trie.unsubscribeList id topics, h.filter⟩
  | unsubscribeAll => exact ⟨h.trie.unsubscribeAll id, h.filter⟩
  | clearFilter =>
    have erased := (h.onSessionClosed id).filter
    exact ⟨h.trie, erased⟩

theorem Absent.same {d d' : Dispatcher} {id : SubscriberId} (h : d.Absent id)
    (same : d'.SameFor id d) : d'.Absent id where
  trie q found := h.trie q ((same.trie.nodes q).mp found)
  filter := same.filter.trans h.filter

theorem Covered.handle {d : Dispatcher} (h : d.Covered) (tags : TagSource ω)
    (writer : Option (TagWriter ω)) (session : Session) (store : ω) (request : IrspValue) :
    (handle tags writer d session store request).dispatcher.Covered := by
  refine ⟨handle_spelled h.spelled tags writer session store request, ?_⟩
  obtain ⟨effect, left, store', -, -, explained⟩ := handle_effect tags writer session store request
  rw [explained]
  exact apply_covered h.index effect session.id

/-- A request that is not an accepted subscription keeps the absent absent. -/
theorem Absent.handle {d : Dispatcher} {id : SubscriberId} (h : d.Absent id) (tags : TagSource ω)
    (writer : Option (TagWriter ω)) (session : Session) (store : ω) (request : IrspValue)
    (not_accepted : session.id = id → request.Subscribing →
      (handle tags writer d session store request).reply.IsError) :
    (handle tags writer d session store request).dispatcher.Absent id := by
  by_cases own : session.id = id
  · obtain ⟨effect, left, store', subscribing, -, explained⟩ :=
      handle_effect tags writer session store request
    rw [explained] at not_accepted ⊢
    apply h.apply
    intro adds
    have refused := not_accepted own (subscribing adds)
    cases effect with
    | subscribe _ | setFilter _ => exact refused
    | answer _ | unsubscribe _ | unsubscribeAll | clearFilter => exact adds
  · exact h.same (handle_other tags writer (Ne.symm own) d store request)

end Dispatcher

namespace Service

variable {ω : Type*} (tags : TagSource ω) (writer : Option (TagWriter ω))

theorem covered_run (s : Service ω) (h : s.dispatcher.Covered) (events : List (SessionEvent ω)) :
    (s.run tags writer events).dispatcher.Covered := by
  induction events generalizing s with
  | nil => exact h
  | cons e events ih =>
    apply ih (s.next tags writer e)
    cases e with
    | request id request => exact h.handle tags writer ⟨id, s.hello id⟩ s.store request
    | closed id => exact h.onSessionClosed id
    | tags store => exact h

/-- The event is a subscription of session `id` that is not refused. -/
def Resubscribes (s : Service ω) (id : SubscriberId) : SessionEvent ω → Prop
  | .request i request =>
    i = id ∧ request.Subscribing ∧ ¬(s.handled tags writer i request).reply.IsError
  | .closed _ | .tags _ => False

/-- Session `id` subscribes to nothing in the run. -/
def Silent (s : Service ω) (id : SubscriberId) (events : List (SessionEvent ω)) : Prop :=
  ∀ before e, before ++ [e] <+: events → ¬(s.run tags writer before).Resubscribes tags writer id e

variable {tags writer} {s : Service ω} {id : SubscriberId}

theorem absent_next (h : s.dispatcher.Absent id) {e : SessionEvent ω}
    (not_again : ¬s.Resubscribes tags writer id e) :
    (s.next tags writer e).dispatcher.Absent id := by
  cases e with
  | request i request =>
    apply h.handle tags writer ⟨i, s.hello i⟩ s.store request
    intro own subscribing
    by_contra accepted
    exact not_again ⟨own, subscribing, accepted⟩
  | closed i => exact h.onSessionClosed i
  | tags store => exact h

theorem absent_run (h : s.dispatcher.Absent id) (events : List (SessionEvent ω))
    (silent : s.Silent tags writer id events) :
    (s.run tags writer events).dispatcher.Absent id := by
  induction events using List.reverseRecOn with
  | nil => exact h
  | append_singleton events e ih =>
    have before := ih (fun pre x hx => silent pre x (hx.trans (List.prefix_append events [e])))
    rw [run_snoc]
    exact absent_next before (silent events e List.prefix_rfl)

/-- After its closing no topic and no event is routed to a session, until it
subscribes again; what is routed to the others is as before. -/
theorem closed_never_routed (tags : TagSource ω) (writer : Option (TagWriter ω))
    (hello : SubscriberId → Bool) (store : ω) (events : List (SessionEvent ω))
    (id : SubscriberId) :
    let s := (initial hello store).run tags writer events
    let closed := s.next tags writer (.closed id)
    (∀ later, closed.Silent tags writer id later →
      (∀ topic, id ∉ (closed.run tags writer later).dispatcher.tagSubscribers topic) ∧
        ∀ rank category,
          id ∉ (closed.run tags writer later).dispatcher.eventSubscribers rank category) ∧
    ∀ i, i ≠ id →
      (∀ topic,
        i ∈ closed.dispatcher.tagSubscribers topic ↔ i ∈ s.dispatcher.tagSubscribers topic) ∧
        ∀ rank category, i ∈ closed.dispatcher.eventSubscribers rank category ↔
          i ∈ s.dispatcher.eventSubscribers rank category := by
  intro s closed
  have start : (initial hello store).dispatcher.Covered :=
    ⟨TopicTrie.empty_spelled, TopicTrie.covered_empty⟩
  have covered : s.dispatcher.Covered := covered_run tags writer _ start events
  have absent : closed.dispatcher.Absent id := Dispatcher.absent_onSessionClosed covered id
  constructor
  · intro later silent
    exact (absent_run absent later silent).not_routed
  · intro i other
    have same : closed.dispatcher.SameFor i s.dispatcher :=
      .onSessionClosed_other other s.dispatcher
    exact ⟨same.mem_tagSubscribers, same.mem_eventSubscribers⟩

/-- Session 1 unsubscribes a malformed pattern before it closes, and session 2
subscribes afterwards. -/
theorem closed_never_routed_malformed :
    let s := (initial (fun _ => true) ()).run noTags none
      [.request 1 (command ["SUBSCRIBE", "a/#", "b"]),
        .request 1 (command ["UNSUBSCRIBE", "a/#/b"])]
    let closed := s.next noTags none (.closed 1)
    let t := closed.run noTags none [.request 2 (command ["SUBSCRIBE", "a/#"])]
    (∀ topic, 1 ∉ t.dispatcher.tagSubscribers topic) ∧
      ∀ rank category, 1 ∉ t.dispatcher.eventSubscribers rank category := by
  intro s closed t
  have cleaned := closed_never_routed noTags none (fun _ => true) ()
    [.request 1 (command ["SUBSCRIBE", "a/#", "b"]),
      .request 1 (command ["UNSUBSCRIBE", "a/#/b"])] 1
  apply cleaned.1
  intro before e point again
  have only : e ∈ [SessionEvent.request 2 (command ["SUBSCRIBE", "a/#"])] :=
    point.subset (by simp)
  rw [List.mem_singleton] at only
  subst only
  exact absurd again.1 (by decide)

end Service

end IndustrialRuntime.Irsp
