import IndustrialRuntime.Semantic.DispatcherSubs

namespace IndustrialRuntime.Irsp

/-- What a request does to the subscriptions of its session. -/
inductive Effect where
  | answer (reply : IrspValue)
  | subscribe (topics : List Bytes)
  | unsubscribe (topics : List Bytes)
  | unsubscribeAll
  | setFilter (filter : EventFilter)
  | clearFilter

namespace Effect

def apply (d : Dispatcher) (id : SubscriberId) : Effect → Dispatcher
  | answer _ => d
  | subscribe topics => { d with tagSubs := Dispatcher.subscribeEach d.tagSubs topics id }
  | unsubscribe topics => { d with tagSubs := Dispatcher.unsubscribeEach d.tagSubs topics id }
  | unsubscribeAll => { d with tagSubs := d.tagSubs.unsubscribeAll id }
  | setFilter filter => { d with eventSubs := d.eventSubs.insert id filter }
  | clearFilter => { d with eventSubs := d.eventSubs.erase id }

/-- The reply, given the dispatcher the request leaves behind. -/
def reply (d : Dispatcher) (id : SubscriberId) : Effect → IrspValue
  | answer r => r
  | subscribe _ | unsubscribe _ | unsubscribeAll => Dispatcher.countReply d.tagSubs id
  | setFilter _ => .integer 1
  | clearFilter => .integer 0

/-- The effect may enter the session somewhere. -/
def Adds : Effect → Prop
  | subscribe _ | setFilter _ => True
  | _ => False

end Effect

def IrspValue.IsError : IrspValue → Prop
  | .error _ _ => True
  | _ => False

/-- A command that may subscribe its session to something. -/
def IrspValue.Subscribing (request : IrspValue) : Prop :=
  ∃ word args, request.words = word :: args ∧
    toUpper word ∈ [ascii "WATCH", ascii "SUBSCRIBE", ascii "SUBEVENT"]

/-- `HELLO 1`, whatever follows. -/
def IrspValue.Greets (request : IrspValue) : Prop :=
  request.words.head?.map toUpper = some (ascii "HELLO") ∧
    request.words[1]? = some (ascii "1")

instance IrspValue.decidableGreets (request : IrspValue) : Decidable request.Greets :=
  inferInstanceAs (Decidable (_ ∧ _))

theorem IrspValue.greets_iff (request : IrspValue) :
    request.Greets ↔
      ∃ word args, request.words = word :: ascii "1" :: args ∧ toUpper word = ascii "HELLO" := by
  unfold Greets
  cases request.words with
  | nil => simp
  | cons word args =>
    cases args with
    | nil => simp
    | cons version rest => simp [and_comm]

namespace Dispatcher

variable {ω : Type*}

/-- A request has one effect, whatever dispatcher it meets. -/
def Uniform (session : Session) (handler : Dispatcher → Handled ω) (may : Effect → Prop) : Prop :=
  ∃ effect store, may effect ∧ ∀ d, handler d =
    ⟨effect.reply (effect.apply d session.id) session.id, session,
      effect.apply d session.id, store⟩

theorem Uniform.answer {session : Session} {may : Effect → Prop} (reply : IrspValue) (store : ω)
    (ok : may (.answer reply)) :
    Uniform session (fun d => ⟨reply, session, d, store⟩) may :=
  ⟨.answer reply, store, ok, fun _ => rfl⟩

section

variable {session : Session} {may : Effect → Prop}

theorem subscribeCommand_uniform (store : ω) (accepts : Bytes → Bool) (arity invalid : String)
    (args : List Bytes) (answers : ∀ r, may (.answer r)) (ok : may (.subscribe args)) :
    Uniform session (fun d =>
      ⟨(d.subscribeCommand session.id accepts arity invalid args).1, session,
        (d.subscribeCommand session.id accepts arity invalid args).2, store⟩) may := by
  by_cases none : args.isEmpty
  · refine ⟨.answer (makeError "WRONG_ARITY" arity), store, answers _, fun d => ?_⟩
    simp [subscribeCommand, none, Effect.reply, Effect.apply]
  · by_cases all : args.all accepts
    · refine ⟨.subscribe args, store, ok, fun d => ?_⟩
      simp only [subscribeCommand, none, all, Effect.reply, Effect.apply, Bool.not_true,
        Bool.false_eq_true, if_false]
    · refine ⟨.answer (makeError "ERR" invalid), store, answers _, fun d => ?_⟩
      simp [subscribeCommand, none, all, Effect.reply, Effect.apply]

theorem unsubscribe_uniform (store : ω) (args : List Bytes) (all : may .unsubscribeAll)
    (each : may (.unsubscribe args)) :
    Uniform session (fun d =>
      ⟨(d.unsubscribe session.id args).1, session, (d.unsubscribe session.id args).2, store⟩)
      may := by
  by_cases none : args.isEmpty
  · refine ⟨.unsubscribeAll, store, all, fun d => ?_⟩
    simp only [unsubscribe, none, Effect.reply, Effect.apply, if_true]
  · refine ⟨.unsubscribe args, store, each, fun d => ?_⟩
    simp only [unsubscribe, none, Effect.reply, Effect.apply, Bool.false_eq_true, if_false]

theorem subEvent_uniform (store : ω) (args : List Bytes) (answers : ∀ r, may (.answer r))
    (ok : ∀ filter, may (.setFilter filter)) :
    Uniform session (fun d =>
      ⟨(d.subEvent session.id args).1, session, (d.subEvent session.id args).2, store⟩)
      may := by
  cases args with
  | nil => exact ⟨.setFilter {}, store, ok _, fun d => rfl⟩
  | cons severity rest =>
    cases rank : severityRank severity with
    | none =>
      refine ⟨.answer (makeError "ERR" "unknown severity"), store, answers _, fun d => ?_⟩
      simp only [subEvent, rank, Effect.reply, Effect.apply]
    | some r =>
      refine ⟨.setFilter ⟨r, rest.head?.getD []⟩, store, ok _, fun d => ?_⟩
      simp only [subEvent, rank, Effect.reply, Effect.apply]

end

/-- The commands that may add a subscription are the three that are named so. -/
def MayAdd (word : Bytes) (effect : Effect) : Prop :=
  effect.Adds → toUpper word ∈ [ascii "WATCH", ascii "SUBSCRIBE", ascii "SUBEVENT"]

theorem mayAdd_answer (word : Bytes) (reply : IrspValue) : MayAdd word (.answer reply) := by
  intro adds
  exact adds.elim

theorem command_uniform (tags : TagSource ω) (writer : Option (TagWriter ω)) (session : Session)
    (store : ω) (word : Bytes) (args : List Bytes) :
    Uniform session (fun d => command tags writer d session store word args) (MayAdd word) := by
  obtain ⟨f, same, branch⟩ := command_branch tags writer session store word args
  rw [funext same]
  cases branch with
  | answer => exact .answer _ store (mayAdd_answer word _)
  | watch named =>
    apply subscribeCommand_uniform store _ _ _ args (mayAdd_answer word)
    intro _
    simp [named]
  | subscribe named =>
    apply subscribeCommand_uniform store _ _ _ args (mayAdd_answer word)
    intro _
    simp [named]
  | unsubscribe => exact unsubscribe_uniform store args False.elim False.elim
  | subEvent named =>
    apply subEvent_uniform store args (mayAdd_answer word)
    intro _ _
    simp [named]
  | unsubEvent => exact ⟨.clearFilter, store, False.elim, fun d => rfl⟩
  | set => exact .answer _ _ (mayAdd_answer word _)

/-- What `handle` leaves of the session: itself, or itself greeted. -/
def Welcomes (request : IrspValue) (session : Session) (effect : Effect) (left : Session) : Prop :=
  left = session ∨
    (request.Greets ∧ effect = .answer helloReply ∧ left = { session with hello := true })

/-- Everything a request can do: one effect on its own session's subscriptions,
the same for every dispatcher, and a greeting. -/
def Explained (request : IrspValue) (session : Session) (handler : Dispatcher → Handled ω) :
    Prop :=
  ∃ effect left store', (effect.Adds → request.Subscribing) ∧
    Welcomes request session effect left ∧
    ∀ d, handler d = ⟨effect.reply (effect.apply d session.id) session.id, left,
      effect.apply d session.id, store'⟩

theorem Explained.refuse {request : IrspValue} {session : Session} {store : ω}
    {handler : Dispatcher → Handled ω} (reply : IrspValue)
    (h : ∀ d, handler d = ⟨reply, session, d, store⟩) : Explained request session handler :=
  ⟨.answer reply, session, store, False.elim, .inl rfl, h⟩

theorem hello_explained {request : IrspValue} {session : Session} {store : ω} {word : Bytes}
    {args : List Bytes} (spelt : request.words = word :: args)
    (named : toUpper word = ascii "HELLO") :
    Explained request session
      (fun d => ⟨(hello session args).1, (hello session args).2, d, store⟩) := by
  cases args with
  | nil => exact .refuse _ (fun d => rfl)
  | cons version rest =>
    by_cases one : version = ascii "1"
    · have greeted : hello session (version :: rest) =
          (helloReply, { session with hello := true }) := by
        simp [hello, one]
      have greets : request.Greets :=
        request.greets_iff.mpr ⟨word, rest, by rw [spelt, one], named⟩
      simp only [greeted]
      exact ⟨.answer helloReply, _, store, False.elim, .inr ⟨greets, rfl, rfl⟩, fun d => rfl⟩
    · have refused : hello session (version :: rest) =
          (makeError "UNSUPPORTED_VERSION" "only version 1 is supported", session) := by
        simp [hello, one]
      simp only [refused]
      exact .refuse _ (fun d => rfl)

theorem handle_explained (tags : TagSource ω) (writer : Option (TagWriter ω)) (session : Session)
    (store : ω) (request : IrspValue) :
    Explained request session (fun d => handle tags writer d session store request) := by
  cases spelt : request.words with
  | nil =>
    obtain ⟨message, -, refused⟩ := handle_malformed ω session spelt
    exact .refuse _ (fun d => refused tags writer d store)
  | cons word args =>
    by_cases named : toUpper word = ascii "HELLO"
    · have same (d : Dispatcher) := handle_greeting tags writer d session store spelt named
      rw [funext same]
      exact hello_explained spelt named
    · cases greeted : session.hello with
      | false =>
        exact .refuse _ (fun d => handle_notReady tags writer d session store spelt named greeted)
      | true =>
        have same (d : Dispatcher) := handle_command tags writer d session store spelt named greeted
        obtain ⟨effect, store', may, uniform⟩ :=
          command_uniform tags writer session store word args
        have adds (h : effect.Adds) : request.Subscribing := ⟨word, args, spelt, may h⟩
        exact ⟨effect, session, store', adds, .inl rfl, fun d => (same d).trans (uniform d)⟩

theorem handle_effect (tags : TagSource ω) (writer : Option (TagWriter ω)) (session : Session)
    (store : ω) (request : IrspValue) :
    ∃ effect left store', (effect.Adds → request.Subscribing) ∧
      Welcomes request session effect left ∧
      ∀ d, handle tags writer d session store request =
        ⟨effect.reply (effect.apply d session.id) session.id, left,
          effect.apply d session.id, store'⟩ :=
  handle_explained tags writer session store request

/-! ### Before the handshake -/

/-- Until a session says `HELLO 1` its requests are answered without the tag
source, the writer and the dispatcher. -/
theorem handle_ungreeted {session : Session} (closed : session.hello = false)
    {request : IrspValue} (silent : ¬request.Greets) :
    ∃ reply, ∀ (tags : TagSource ω) (writer : Option (TagWriter ω)) (d : Dispatcher) (store : ω),
      handle tags writer d session store request = ⟨reply, session, d, store⟩ := by
  cases spelt : request.words with
  | nil =>
    obtain ⟨message, -, refused⟩ := handle_malformed ω session spelt
    exact ⟨_, refused⟩
  | cons word args =>
    by_cases named : toUpper word = ascii "HELLO"
    · have greeting (tags : TagSource ω) (writer : Option (TagWriter ω)) (d : Dispatcher)
          (store : ω) := handle_greeting tags writer d session store spelt named
      cases args with
      | nil => exact ⟨_, greeting⟩
      | cons version rest =>
        have other : version ≠ ascii "1" := by
          rintro rfl
          exact silent ((IrspValue.greets_iff _).mpr ⟨word, rest, spelt, named⟩)
        simp only [hello, ne_eq, other, not_false_eq_true, if_true] at greeting
        exact ⟨_, greeting⟩
    · refine ⟨makeError "NOT_READY" "HELLO required first", fun tags writer d store => ?_⟩
      exact handle_notReady tags writer d session store spelt named closed

/-! ### Write-back -/

/-- A writer whose `write` leaves the tag store as it was. -/
def SideEffectFree (writer : Option (TagWriter ω)) : Prop :=
  ∀ write, writer = some write → ∀ store name type value, (write store name type value).2 = store

theorem set_store {writer : Option (TagWriter ω)} (pure : SideEffectFree writer) (store : ω)
    (args : List Bytes) : (set writer store args).2 = store := by
  unfold set
  split
  · cases writer with
    | none => rfl
    | some write =>
      have kept := pure write rfl store
      dsimp only
      split <;> exact kept _ _ _
  · rfl

theorem command_store {writer : Option (TagWriter ω)} (pure : SideEffectFree writer)
    (tags : TagSource ω) (d : Dispatcher) (session : Session) (store : ω) (word : Bytes)
    (args : List Bytes) : (command tags writer d session store word args).store = store := by
  obtain ⟨f, same, branch⟩ := command_branch tags writer session store word args
  rw [same]
  cases branch with
  | set => exact set_store pure store args
  | _ => rfl

theorem handle_store {writer : Option (TagWriter ω)} (pure : SideEffectFree writer)
    (tags : TagSource ω) (d : Dispatcher) (session : Session) (store : ω) (request : IrspValue) :
    (handle tags writer d session store request).store = store := by
  cases spelt : request.words with
  | nil =>
    obtain ⟨message, -, refused⟩ := handle_malformed ω session spelt
    rw [refused]
  | cons word args =>
    by_cases named : toUpper word = ascii "HELLO"
    · rw [handle_greeting tags writer d session store spelt named]
    · cases greeted : session.hello with
      | false => rw [handle_notReady tags writer d session store spelt named greeted]
      | true =>
        rw [handle_command tags writer d session store spelt named greeted]
        exact command_store pure tags d session store word args

end Dispatcher

end IndustrialRuntime.Irsp
