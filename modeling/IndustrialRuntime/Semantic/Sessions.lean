import IndustrialRuntime.Lib.Unwinding
import IndustrialRuntime.Semantic.SessionView

namespace IndustrialRuntime.Irsp

/-- A dispatcher with the hello flags of its sessions and the store of its tag
source. `replies` records what every session was answered; nothing reads it. -/
structure Service (ω : Type*) where
  dispatcher : Dispatcher
  hello : SubscriberId → Bool
  store : ω
  replies : SubscriberId → List IrspValue

inductive SessionEvent (ω : Type*) where
  | request (id : SubscriberId) (request : IrspValue)
  | closed (id : SubscriberId)
  /-- The tags behind the source change by themselves. -/
  | tags (store : ω)

/-- The event is a request or the closing of this session. -/
def SessionEvent.By {ω : Type*} (id : SubscriberId) : SessionEvent ω → Prop
  | request i _ => i = id
  | closed i => i = id
  | tags _ => False

instance SessionEvent.decidableBy {ω : Type*} (id : SubscriberId) :
    DecidablePred (SessionEvent.By id : SessionEvent ω → Prop)
  | request i _ => inferInstanceAs (Decidable (i = id))
  | closed i => inferInstanceAs (Decidable (i = id))
  | tags _ => inferInstanceAs (Decidable False)

namespace Service

variable {ω : Type*}

def initial (hello : SubscriberId → Bool) (store : ω) : Service ω :=
  ⟨.empty, hello, store, fun _ => []⟩

variable (tags : TagSource ω) (writer : Option (TagWriter ω))

/-- `Dispatcher::handle` for a request of session `id`. -/
def handled (s : Service ω) (id : SubscriberId) (request : IrspValue) : Dispatcher.Handled ω :=
  Dispatcher.handle tags writer s.dispatcher ⟨id, s.hello id⟩ s.store request

def next (s : Service ω) : SessionEvent ω → Service ω
  | .request id request =>
    let r := s.handled tags writer id request
    { dispatcher := r.dispatcher
      hello := Function.update s.hello id r.session.hello
      store := r.store
      replies := Function.update s.replies id (s.replies id ++ [r.reply]) }
  | .closed id => { s with dispatcher := s.dispatcher.onSessionClosed id }
  | .tags store => { s with store := store }

def run (s : Service ω) (events : List (SessionEvent ω)) : Service ω :=
  events.foldl (next tags writer) s

theorem run_snoc (s : Service ω) (events : List (SessionEvent ω)) (e : SessionEvent ω) :
    s.run tags writer (events ++ [e]) = (s.run tags writer events).next tags writer e := by
  simp [run]

/-! ### Isolation -/

/-- What one session can ever tell two services apart by. -/
structure Alike (a : SubscriberId) (s t : Service ω) : Prop where
  dispatcher : s.dispatcher.SameFor a t.dispatcher
  hello : s.hello a = t.hello a
  store : s.store = t.store
  replies : s.replies a = t.replies a

theorem Alike.refl (a : SubscriberId) (s : Service ω) : Alike a s s :=
  ⟨.refl a _, rfl, rfl, rfl⟩

variable {tags writer} {a b : SubscriberId} {s t : Service ω}

theorem handled_store (pure : Dispatcher.SideEffectFree writer) (s : Service ω)
    (id : SubscriberId) (request : IrspValue) :
    (s.handled tags writer id request).store = s.store :=
  Dispatcher.handle_store pure tags _ _ _ request

/-- An event of another session is not noticed. -/
theorem Alike.next_left (pure : Dispatcher.SideEffectFree writer) (distinct : a ≠ b)
    (h : Alike a s t) {e : SessionEvent ω} (by_b : e.By b) :
    Alike a (s.next tags writer e) t := by
  cases e with
  | request id request =>
    obtain rfl : id = b := by_b
    have unseen : (s.handled tags writer id request).dispatcher.SameFor a s.dispatcher :=
      Dispatcher.handle_other tags writer distinct _ _ request
    constructor
    · exact unseen.trans h.dispatcher
    · simp only [next, Function.update_of_ne distinct, h.hello]
    · exact (handled_store pure s id request).trans h.store
    · simp only [next, Function.update_of_ne distinct, h.replies]
  | closed id =>
    obtain rfl : id = b := by_b
    have unseen := Dispatcher.SameFor.onSessionClosed_other distinct s.dispatcher
    exact ⟨unseen.trans h.dispatcher, h.hello, h.store, h.replies⟩
  | tags store => exact by_b.elim

theorem Alike.symm (h : Alike a s t) : Alike a t s where
  dispatcher :=
    ⟨h.dispatcher.trie.symm, h.dispatcher.filter.symm⟩
  hello := h.hello.symm
  store := h.store.symm
  replies := h.replies.symm

/-- The same request finds and leaves the two services alike. -/
theorem Alike.next_own (pure : Dispatcher.SideEffectFree writer) (h : Alike a s t)
    (request : IrspValue) :
    Alike a (s.next tags writer (.request a request))
      (t.next tags writer (.request a request)) := by
  have view : s.dispatcher.SameFor (⟨a, s.hello a⟩ : Session).id t.dispatcher := h.dispatcher
  obtain ⟨reply, session, dispatcher⟩ :=
    Dispatcher.handle_same tags writer view s.store request
  have same : t.handled tags writer a request =
      Dispatcher.handle tags writer t.dispatcher ⟨a, s.hello a⟩ s.store request := by
    rw [handled, ← h.hello, ← h.store]
  constructor
  · show (s.handled tags writer a request).dispatcher.SameFor a
      (t.handled tags writer a request).dispatcher
    rw [same]
    exact dispatcher
  · simp only [next, Function.update_self]
    rw [same]
    exact congrArg Session.hello session
  · show (s.handled tags writer a request).store = (t.handled tags writer a request).store
    rw [handled_store pure, handled_store pure, h.store]
  · simp only [next, Function.update_self, h.replies]
    rw [same]
    exact congrArg (fun r => t.replies a ++ [r]) reply

theorem Alike.next_both (pure : Dispatcher.SideEffectFree writer) (h : Alike a s t)
    (e : SessionEvent ω) : Alike a (s.next tags writer e) (t.next tags writer e) := by
  by_cases other : ∃ b, b ≠ a ∧ e.By b
  · obtain ⟨b, distinct, by_b⟩ := other
    have left : Alike a (s.next tags writer e) t := h.next_left pure distinct.symm by_b
    exact (left.symm.next_left pure distinct.symm by_b).symm
  · cases e with
    | request id request =>
      obtain rfl : id = a := by
        by_contra distinct
        exact other ⟨id, distinct, rfl⟩
      exact h.next_own pure request
    | closed id =>
      have trie := h.dispatcher.trie.unsubscribeAll id
      obtain rfl : id = a := by
        by_contra distinct
        exact other ⟨id, distinct, rfl⟩
      refine ⟨⟨trie, ?_⟩, h.hello, h.store, h.replies⟩
      simp only [next, Dispatcher.onSessionClosed, Finmap.lookup_erase]
    | tags store => exact ⟨h.dispatcher, h.hello, rfl, h.replies⟩

theorem unwinding (pure : Dispatcher.SideEffectFree writer) (distinct : a ≠ b) :
    Unwinding (next tags writer) (SessionEvent.By b : SessionEvent ω → Prop) (Alike a) where
  respects _ _ _ by_b h := h.next_left pure distinct by_b
  consistent _ _ e h := h.next_both pure e

/-- What session `a` observes of two services is the same. -/
structure Indistinguishable (a : SubscriberId) (s t : Service ω) : Prop where
  replies : s.replies a = t.replies a
  hello : s.hello a = t.hello a
  count : s.dispatcher.tagSubs.countFor a = t.dispatcher.tagSubs.countFor a
  tags : ∀ topic, a ∈ s.dispatcher.tagSubscribers topic ↔ a ∈ t.dispatcher.tagSubscribers topic
  events : ∀ rank category,
    a ∈ s.dispatcher.eventSubscribers rank category ↔
      a ∈ t.dispatcher.eventSubscribers rank category

theorem Alike.indistinguishable (h : Alike a s t) : Indistinguishable a s t where
  replies := h.replies
  hello := h.hello
  count := h.dispatcher.trie.countFor
  tags := h.dispatcher.mem_tagSubscribers
  events := h.dispatcher.mem_eventSubscribers

/-- Sessions do not interfere: with a writer that has no side effects, deleting
the requests and closings of `b` from a run is not noticed by `a` at any point. -/
theorem run_without_other (tags : TagSource ω) (writer : Option (TagWriter ω))
    (pure : Dispatcher.SideEffectFree writer) (s : Service ω) {a b : SubscriberId}
    (distinct : a ≠ b) (events : List (SessionEvent ω)) :
    ∀ point, point <+: events →
      Indistinguishable a (s.run tags writer point)
        (s.run tags writer (point.filter (fun e => ¬e.By b))) := by
  intro point _
  have start := Alike.refl a s
  have steps : Unwinding (next tags writer) (SessionEvent.By b) (Alike a) :=
    unwinding pure distinct
  have alike := steps.run start point
  exact alike.indistinguishable

def noTags : TagSource Unit where
  read _ _ := none
  contains _ _ := false
  scan _ _ _ _ := ⟨ascii "0", []⟩

def command (line : List String) : IrspValue :=
  .array (line.map (fun word => .bulk (ascii word)))

/-- Session 2 subscribes to everything and unsubscribes a malformed pattern
between the requests of session 1. -/
def shared : List (SessionEvent Unit) :=
  [.request 1 (command ["HELLO", "1"]), .request 2 (command ["HELLO", "1"]),
    .request 2 (command ["SUBSCRIBE", "#", "a/#"]), .request 1 (command ["SUBSCRIBE", "a/#"]),
    .request 2 (command ["UNSUBSCRIBE", "a/#/b"]), .closed 2, .request 1 (command ["GET", "a/b"])]

theorem run_without_other_shared :
    Indistinguishable 1
      (run noTags (some fun _ _ _ _ => (.accepted, ())) (initial (fun _ => false) ()) shared)
      (run noTags (some fun _ _ _ _ => (.accepted, ())) (initial (fun _ => false) ())
        (shared.filter (fun e => ¬e.By 2))) :=
  run_without_other noTags (some fun _ _ _ _ => (.accepted, ())) (fun _ _ _ _ _ _ => rfl)
    (initial (fun _ => false) ()) (by decide) shared shared List.prefix_rfl

end Service

end IndustrialRuntime.Irsp
