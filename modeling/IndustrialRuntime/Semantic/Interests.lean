import IndustrialRuntime.Semantic.SessionCleanup
import IndustrialRuntime.Semantic.Sessions

namespace IndustrialRuntime.Irsp

open TopicMatcher

/-- What a session has asked for, told from its own requests alone. -/
structure Interest where
  greeted : Bool := false
  patterns : Finset Bytes := ∅
  events : Option EventFilter := none
  deriving DecidableEq

namespace Interest

/-- All the topics are entered, or none when one of them is not accepted. -/
def join (i : Interest) (accepts : Bytes → Bool) (topics : List Bytes) : Interest :=
  if topics.all accepts then { i with patterns := i.patterns ∪ topics.toFinset } else i

/-- A string takes back the pattern that it spells up to its first `#`. -/
def leave (i : Interest) (topics : List Bytes) : Interest :=
  { i with patterns := i.patterns.filter fun p =>
      ∀ topic ∈ topics, splitTopic p ≠ upToHash (splitTopic topic) }

def subEvent (i : Interest) : List Bytes → Interest
  | [] => { i with events := some {} }
  | severity :: rest =>
    match severityRank severity with
    | none => i
    | some rank => { i with events := some ⟨rank, rest.head?.getD []⟩ }

def command (i : Interest) (name : Bytes) (args : List Bytes) : Interest :=
  if name = ascii "WATCH" then i.join isConcrete args
  else if name = ascii "SUBSCRIBE" then i.join isValidPattern args
  else if name = ascii "UNWATCH" ∨ name = ascii "UNSUBSCRIBE" then
    if args.isEmpty then { i with patterns := ∅ } else i.leave args
  else if name = ascii "SUBEVENT" then i.subEvent args
  else if name = ascii "UNSUBEVENT" then { i with events := none }
  else i

theorem command_greeted (i : Interest) (name : Bytes) (args : List Bytes) :
    (i.command name args).greeted = i.greeted := by
  unfold command join leave
  split_ifs <;> try rfl
  unfold subEvent
  split
  · rfl
  · split <;> rfl

def request (i : Interest) (request : IrspValue) : Interest :=
  match request.words with
  | [] => i
  | word :: args =>
    if toUpper word = ascii "HELLO" then
      { i with greeted := i.greeted || args.head? == some (ascii "1") }
    else if i.greeted then i.command (toUpper word) args
    else i

def closed (i : Interest) : Interest := { i with patterns := ∅, events := none }

/-- Session `id` takes note of its own requests and of its closing. -/
def heard {ω : Type*} (id : SubscriberId) (i : Interest) : SessionEvent ω → Interest
  | .request j request => if j = id then i.request request else i
  | .closed j => if j = id then i.closed else i
  | .tags _ => i

end Interest

namespace Dispatcher

variable {ω : Type*}

section

variable (tags : TagSource ω) (writer : Option (TagWriter ω)) (d : Dispatcher)
  (session : Session) (store : ω) (word : Bytes) (args : List Bytes)

/-- The five families of commands that touch the subscriptions. -/
theorem command_dispatcher :
    (command tags writer d session store word args).dispatcher =
      if toUpper word = ascii "WATCH" then (d.watch session.id args).2
      else if toUpper word = ascii "SUBSCRIBE" then (d.subscribe session.id args).2
      else if toUpper word = ascii "UNWATCH" ∨ toUpper word = ascii "UNSUBSCRIBE" then
        (d.unsubscribe session.id args).2
      else if toUpper word = ascii "SUBEVENT" then (d.subEvent session.id args).2
      else if toUpper word = ascii "UNSUBEVENT" then (d.unsubEvent session.id).2
      else d := by
  by_cases watch : toUpper word = ascii "WATCH"
  · simp [command, watch, ascii]
  by_cases subscribe : toUpper word = ascii "SUBSCRIBE"
  · simp [command, subscribe, ascii]
  by_cases unsubscribe : toUpper word = ascii "UNWATCH" ∨ toUpper word = ascii "UNSUBSCRIBE"
  · rcases unsubscribe with named | named <;> simp [command, named, ascii]
  by_cases subEvent : toUpper word = ascii "SUBEVENT"
  · simp [command, subEvent, ascii]
  by_cases unsubEvent : toUpper word = ascii "UNSUBEVENT"
  · simp [command, unsubEvent, ascii]
  rw [if_neg watch, if_neg subscribe, if_neg unsubscribe, if_neg subEvent, if_neg unsubEvent]
  unfold command
  dsimp only
  rw [if_neg watch, if_neg subscribe, if_neg unsubscribe, if_neg subEvent, if_neg unsubEvent]
  split_ifs <;> rfl

theorem command_hello : (command tags writer d session store word args).session = session := by
  obtain ⟨f, same, branch⟩ := command_branch tags writer session store word args
  rw [same]
  cases branch <;> rfl

end

/-! ### One session and its interest -/

/-- The dispatcher holds for the session what the interest says. -/
structure Represents (d : Dispatcher) (id : SubscriberId) (i : Interest) : Prop where
  patterns : ∀ p, d.tagSubs.Registered p id ↔ p ∈ i.patterns
  events : d.eventSubs.lookup id = i.events

namespace Represents

variable {d : Dispatcher} {id : SubscriberId} {i : Interest}

theorem empty (id : SubscriberId) (greeted : Bool) :
    Represents .empty id { greeted := greeted } where
  patterns p := by simp [Dispatcher.empty, TopicTrie.not_registered_empty]
  events := Finmap.lookup_empty id

theorem same {d' : Dispatcher} (h : d.Represents id i) (same : d'.SameFor id d) :
    d'.Represents id i where
  patterns p := by
    rw [← h.patterns p]
    simp only [TopicTrie.Registered, same.trie.nodes]
  events := same.filter.trans h.events

theorem greeted (h : d.Represents id i) (g : Bool) :
    d.Represents id { i with greeted := g } := ⟨h.patterns, h.events⟩

/-- The common part of `WATCH` and `SUBSCRIBE`. -/
theorem subscribeCommand (h : d.Represents id i) (accepts : Bytes → Bool) (arity invalid : String)
    (args : List Bytes) (valid : ∀ p, accepts p → isValidPattern p) :
    (d.subscribeCommand id accepts arity invalid args).2.Represents id (i.join accepts args) := by
  have each (topics : List Bytes) (t : TopicTrie) (p : Bytes)
      (all : ∀ topic ∈ topics, isValidPattern topic) :
      (subscribeEach t topics id).Registered p id ↔ t.Registered p id ∨ p ∈ topics := by
    induction topics generalizing t with
    | nil => simp [subscribeEach]
    | cons topic topics ih =>
      have rest := ih (t.subscribe topic id).2 fun q later =>
        all q (List.mem_cons_of_mem topic later)
      have own := all topic List.mem_cons_self
      rw [TopicTrie.subscribe_registered] at rest
      rw [subscribeEach, List.foldl_cons]
      refine rest.trans ?_
      simp only [own, true_and, and_true, List.mem_cons]
      tauto
  unfold Dispatcher.subscribeCommand Interest.join
  by_cases none : args = []
  · subst none
    simpa using h.greeted i.greeted
  · have given : args.isEmpty = false := by simpa using none
    cases all : args.all accepts with
    | false => simpa [given] using h
    | true =>
      simp only [given, Bool.false_eq_true, if_false, Bool.not_true, if_true]
      refine ⟨fun p => ?_, h.events⟩
      have ok : ∀ topic ∈ args, isValidPattern topic := by
        intro topic found
        exact valid topic (List.all_eq_true.mp all topic found)
      rw [each args d.tagSubs p ok, h.patterns p]
      simp

theorem unsubscribe (covered : d.tagSubs.Covered) (h : d.Represents id i) (args : List Bytes) :
    (d.unsubscribe id args).2.Represents id
      (if args.isEmpty then { i with patterns := ∅ } else i.leave args) := by
  have each (topics : List Bytes) (t : TopicTrie) (p : Bytes) :
      (unsubscribeEach t topics id).Registered p id ↔ t.Registered p id ∧
        ∀ topic ∈ topics, splitTopic p ≠ upToHash (splitTopic topic) := by
    induction topics generalizing t with
    | nil => simp [unsubscribeEach]
    | cons topic topics ih =>
      have rest := ih (t.unsubscribe topic id).2
      rw [TopicTrie.unsubscribe_registered] at rest
      rw [unsubscribeEach, List.foldl_cons]
      refine rest.trans ?_
      simp only [true_and, List.forall_mem_cons]
      tauto
  unfold Dispatcher.unsubscribe
  cases none : args.isEmpty with
  | true =>
    refine ⟨fun p => ?_, h.events⟩
    simpa using covered.not_registered id p
  | false =>
    refine ⟨fun p => ?_, h.events⟩
    simp only [Bool.false_eq_true, if_false, Interest.leave, Finset.mem_filter, each, h.patterns p]

theorem subEvent (h : d.Represents id i) (args : List Bytes) :
    (d.subEvent id args).2.Represents id (i.subEvent args) := by
  have stored (filter : EventFilter) :
      Represents { d with eventSubs := d.eventSubs.insert id filter } id
        { i with events := some filter } := ⟨h.patterns, Finmap.lookup_insert _⟩
  cases args with
  | nil => exact stored {}
  | cons severity rest =>
    cases rank : severityRank severity with
    | none => simpa only [Dispatcher.subEvent, Interest.subEvent, rank] using h
    | some r => simpa only [Dispatcher.subEvent, Interest.subEvent, rank] using stored _

theorem unsubEvent (h : d.Represents id i) :
    (d.unsubEvent id).2.Represents id { i with events := none } :=
  ⟨h.patterns, Finmap.lookup_erase id _⟩

theorem closed (covered : d.tagSubs.Covered) (id : SubscriberId) (i : Interest) :
    (d.onSessionClosed id).Represents id i.closed where
  patterns p := by
    have gone : ¬(d.onSessionClosed id).tagSubs.Registered p id := covered.not_registered id p
    simpa only [Interest.closed, Finset.notMem_empty, iff_false] using gone
  events := Finmap.lookup_erase id _

section

variable (tags : TagSource ω) (writer : Option (TagWriter ω)) (store : ω)

theorem command (covered : d.tagSubs.Covered) (h : d.Represents id i) (hello : Bool) (word : Bytes)
    (args : List Bytes) :
    (Dispatcher.command tags writer d ⟨id, hello⟩ store word args).dispatcher.Represents id
      (i.command (toUpper word) args) := by
  rw [command_dispatcher]
  unfold Interest.command
  split
  · exact h.subscribeCommand isConcrete _ _ args fun p => TopicMatcher.valid_of_concrete
  split
  · exact h.subscribeCommand isValidPattern _ _ args fun p valid => valid
  split
  · exact unsubscribe covered h args
  split
  · exact h.subEvent args
  split
  · exact h.unsubEvent
  · exact h

theorem handle (covered : d.tagSubs.Covered) (h : d.Represents id i) (request : IrspValue) :
    (Dispatcher.handle tags writer d ⟨id, i.greeted⟩ store request).dispatcher.Represents id
        (i.request request) ∧
      (Dispatcher.handle tags writer d ⟨id, i.greeted⟩ store request).session.hello =
        (i.request request).greeted := by
  unfold Interest.request
  cases spelt : request.words with
  | nil =>
    obtain ⟨message, -, refused⟩ := handle_malformed ω ⟨id, i.greeted⟩ spelt
    rw [refused]
    exact ⟨h, rfl⟩
  | cons word args =>
    dsimp only
    by_cases named : toUpper word = ascii "HELLO"
    · rw [if_pos named, handle_greeting tags writer d _ store spelt named]
      refine ⟨h.greeted _, ?_⟩
      unfold Dispatcher.hello
      cases args with
      | nil => simp
      | cons version rest =>
        by_cases one : version = ascii "1" <;> simp [one]
    · rw [if_neg named]
      cases greeted : i.greeted with
      | false =>
        rw [handle_notReady tags writer d _ store spelt named rfl]
        exact ⟨h, greeted.symm⟩
      | true =>
        rw [handle_command tags writer d _ store spelt named rfl]
        refine ⟨h.command tags writer store covered true word args, ?_⟩
        rw [command_hello, if_pos rfl, Interest.command_greeted, greeted]

end

end Represents

end Dispatcher

namespace Service

variable {ω : Type*} (tags : TagSource ω) (writer : Option (TagWriter ω))

/-- What is kept in step with the interest of one session. -/
structure Follows (s : Service ω) (id : SubscriberId) (i : Interest) : Prop where
  covered : s.dispatcher.Covered
  dispatcher : s.dispatcher.Represents id i
  greeted : s.hello id = i.greeted

theorem Follows.next {s : Service ω} {id : SubscriberId} {i : Interest} (h : s.Follows id i)
    (e : SessionEvent ω) : (s.next tags writer e).Follows id (i.heard id e) := by
  cases e with
  | request j request =>
    have covered := h.covered.handle tags writer ⟨j, s.hello j⟩ s.store request
    by_cases own : j = id
    · subst own
      have answered := h.dispatcher.handle tags writer s.store h.covered.index request
      rw [← h.greeted] at answered
      simp only [Interest.heard, if_true]
      refine ⟨covered, answered.1, ?_⟩
      simp only [Service.next, Function.update_self]
      exact answered.2
    · have other : id ≠ (⟨j, s.hello j⟩ : Session).id := Ne.symm own
      have unseen := Dispatcher.handle_other tags writer other s.dispatcher s.store request
      simp only [Interest.heard, if_neg own]
      refine ⟨covered, h.dispatcher.same unseen, ?_⟩
      simp only [Service.next, Function.update_of_ne (Ne.symm own)]
      exact h.greeted
  | closed j =>
    by_cases own : j = id
    · subst own
      simp only [Interest.heard, if_true]
      exact ⟨h.covered.onSessionClosed j, Dispatcher.Represents.closed h.covered.index j i,
        h.greeted⟩
    · simp only [Interest.heard, if_neg own]
      exact ⟨h.covered.onSessionClosed j,
        h.dispatcher.same (.onSessionClosed_other (Ne.symm own) s.dispatcher), h.greeted⟩
  | tags store => exact ⟨h.covered, h.dispatcher, h.greeted⟩

theorem Follows.run {s : Service ω} {id : SubscriberId} {i : Interest} (h : s.Follows id i)
    (events : List (SessionEvent ω)) :
    (s.run tags writer events).Follows id (events.foldl (Interest.heard id) i) := by
  induction events generalizing s i with
  | nil => exact h
  | cons e events ih => exact ih (h.next tags writer e)

/-- Each session is routed exactly what it asked for in its own requests, whatever the other
sessions request, the writer does and the tag source holds: the topics that its patterns match,
and the events that its last filter lets through. -/
theorem heard_routed_iff (hello : SubscriberId → Bool) (store : ω) (events : List (SessionEvent ω))
    (id : SubscriberId) :
    let s := (initial hello store).run tags writer events
    let i := events.foldl (Interest.heard id) { greeted := hello id }
    s.hello id = i.greeted ∧
      (∀ topic, id ∈ s.dispatcher.tagSubscribers topic ↔
        ∃ p ∈ i.patterns, «matches» p topic) ∧
      ∀ rank category, id ∈ s.dispatcher.eventSubscribers rank category ↔
        ∃ filter ∈ i.events, (filter.minSeverityRank : Int) ≤ rank ∧
          (filter.category = [] ∨ filter.category = category) := by
  intro s i
  have start : (initial hello store).Follows id { greeted := hello id } :=
    ⟨⟨TopicTrie.empty_spelled, TopicTrie.covered_empty⟩, .empty id (hello id), rfl⟩
  have follows : s.Follows id i := start.run tags writer events
  refine ⟨follows.greeted, fun topic => ?_, fun rank category => ?_⟩
  · rw [Dispatcher.mem_tagSubscribers follows.covered.spelled]
    simp only [follows.dispatcher.patterns]
  · rw [Dispatcher.mem_eventSubscribers, follows.dispatcher.events]
    rfl

/-- A string that is no pattern takes back the pattern that it begins with. -/
example : ([.request 1 (command ["HELLO", "1"]), .request 1 (command ["SUBSCRIBE", "a/#", "b"]),
    .request 2 (command ["SUBSCRIBE", "c"]), .request 1 (command ["SUBEVENT", "alarm", "plc"]),
    .request 1 (command ["UNSUBSCRIBE", "a/#/b"])] : List (SessionEvent Unit)).foldl
      (Interest.heard 1) {} = ⟨true, {ascii "b"}, some ⟨2, ascii "plc"⟩⟩ := by
  decide +kernel

end Service

end IndustrialRuntime.Irsp
