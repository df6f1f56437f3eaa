import IndustrialRuntime.Semantic.Branches
import IndustrialRuntime.Semantic.TrieRegistry

namespace IndustrialRuntime.Irsp.Dispatcher

open TopicMatcher

theorem subscribeEach_spelled {t : TopicTrie} (ht : t.Spelled) (topics : List Bytes)
    (id : SubscriberId) : (subscribeEach t topics id).Spelled := by
  induction topics generalizing t with
  | nil => exact ht
  | cons topic topics ih => exact ih (TopicTrie.subscribe_spelled ht topic id)

theorem unsubscribeEach_spelled {t : TopicTrie} (ht : t.Spelled) (topics : List Bytes)
    (id : SubscriberId) : (unsubscribeEach t topics id).Spelled := by
  induction topics generalizing t with
  | nil => exact ht
  | cons topic topics ih => exact ih (TopicTrie.unsubscribe_spelled ht topic id)

variable {ω : Type*} {d : Dispatcher}

theorem subscribeCommand_spelled (hd : d.tagSubs.Spelled) (id : SubscriberId)
    (accepts : Bytes → Bool) (arity invalid : String) (args : List Bytes) :
    (d.subscribeCommand id accepts arity invalid args).2.tagSubs.Spelled := by
  unfold subscribeCommand
  split
  · exact hd
  · split
    · exact hd
    · exact subscribeEach_spelled hd args id

theorem unsubscribe_spelled (hd : d.tagSubs.Spelled) (id : SubscriberId) (args : List Bytes) :
    (d.unsubscribe id args).2.tagSubs.Spelled := by
  simp only [unsubscribe]
  split
  · exact TopicTrie.unsubscribeAll_spelled hd id
  · exact unsubscribeEach_spelled hd args id

theorem subEvent_tagSubs (d : Dispatcher) (id : SubscriberId) (args : List Bytes) :
    (d.subEvent id args).2.tagSubs = d.tagSubs := by
  unfold subEvent
  cases args with
  | nil => rfl
  | cons severity rest =>
    simp only
    split <;> rfl

/-- A handled request leaves a trie whose occupied nodes are nodes of valid patterns. -/
def Handled.Spelled (r : Handled ω) : Prop := r.dispatcher.tagSubs.Spelled

theorem command_spelled (hd : d.tagSubs.Spelled) (tags : TagSource ω)
    (writer : Option (TagWriter ω)) (session : Session) (store : ω) (word : Bytes)
    (args : List Bytes) : (command tags writer d session store word args).Spelled := by
  obtain ⟨f, same, branch⟩ := command_branch tags writer session store word args
  rw [same]
  cases branch with
  | watch => exact subscribeCommand_spelled hd _ _ _ _ args
  | subscribe => exact subscribeCommand_spelled hd _ _ _ _ args
  | unsubscribe => exact unsubscribe_spelled hd _ args
  | subEvent =>
    change (d.subEvent session.id args).2.tagSubs.Spelled
    rw [subEvent_tagSubs]
    exact hd
  | _ => exact hd

/-- Whatever is requested, occupied nodes of the trie remain nodes of valid patterns. -/
theorem handle_spelled (hd : d.tagSubs.Spelled) (tags : TagSource ω)
    (writer : Option (TagWriter ω)) (session : Session) (store : ω) (request : IrspValue) :
    (handle tags writer d session store request).Spelled := by
  cases spelt : request.words with
  | nil =>
    obtain ⟨message, -, refused⟩ := handle_malformed ω session spelt
    rw [refused]
    exact hd
  | cons word args =>
    by_cases named : toUpper word = ascii "HELLO"
    · rw [handle_greeting tags writer d session store spelt named]
      exact hd
    · cases greeted : session.hello with
      | false =>
        rw [handle_notReady tags writer d session store spelt named greeted]
        exact hd
      | true =>
        rw [handle_command tags writer d session store spelt named greeted]
        exact command_spelled hd tags writer session store word args

theorem onSessionClosed_spelled (hd : d.tagSubs.Spelled) (id : SubscriberId) :
    (d.onSessionClosed id).tagSubs.Spelled :=
  TopicTrie.unsubscribeAll_spelled hd id

/-- The subscribers of a topic hold a pattern that matches it. -/
theorem mem_tagSubscribers (hd : d.tagSubs.Spelled) (topic : Bytes) (id : SubscriberId) :
    id ∈ d.tagSubscribers topic ↔ ∃ p, d.tagSubs.Registered p id ∧ «matches» p topic :=
  TopicTrie.mem_matchTopic hd topic id

/-- However many of its patterns match, a subscriber is listed once. -/
theorem nodup_tagSubscribers (d : Dispatcher) (topic : Bytes) : (d.tagSubscribers topic).Nodup :=
  (TopicTrie.matchTopic_ascending d.tagSubs topic).imp Nat.ne_of_lt

end IndustrialRuntime.Irsp.Dispatcher
