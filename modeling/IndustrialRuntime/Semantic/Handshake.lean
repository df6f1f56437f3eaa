import IndustrialRuntime.Semantic.Sessions

namespace IndustrialRuntime.Irsp

namespace Dispatcher

variable {ω : Type*}

/-- A refused request leaves its session and the subscriptions as they were. -/
theorem handle_error (tags : TagSource ω) (writer : Option (TagWriter ω)) (d : Dispatcher)
    (session : Session) (store : ω) (request : IrspValue)
    (refused : (handle tags writer d session store request).reply.IsError) :
    (handle tags writer d session store request).session = session ∧
      (handle tags writer d session store request).dispatcher = d := by
  obtain ⟨effect, left, store', -, welcome, explained⟩ :=
    handle_effect tags writer session store request
  rw [explained] at refused ⊢
  cases effect with
  | answer reply =>
    refine ⟨?_, rfl⟩
    obtain kept | ⟨-, greeting, -⟩ := welcome
    · exact kept
    · rw [greeting] at refused
      exact refused.elim
  | subscribe _ | unsubscribe _ | unsubscribeAll | setFilter _ | clearFilter =>
    exact refused.elim

theorem subscribeCommand_invalid (d : Dispatcher) (id : SubscriberId) {accepts : Bytes → Bool}
    (arity invalid : String) {args : List Bytes} {arg : Bytes} (given : arg ∈ args)
    (refused : ¬accepts arg) :
    d.subscribeCommand id accepts arity invalid args = (makeError "ERR" invalid, d) := by
  have some_arg : ¬args.isEmpty := by
    intro none
    rw [List.isEmpty_iff] at none
    exact absurd given (none ▸ List.not_mem_nil)
  have not_all : ¬args.all accepts := by
    intro all
    exact refused (List.all_eq_true.mp all arg given)
  simp [subscribeCommand, some_arg, not_all]

/-- A `WATCH` or `SUBSCRIBE` that has an argument its check refuses. -/
def InvalidSubscription (word : Bytes) (args : List Bytes) : Prop :=
  (toUpper word = ascii "WATCH" ∧ ∃ arg ∈ args, ¬TopicMatcher.isConcrete arg) ∨
    (toUpper word = ascii "SUBSCRIBE" ∧ ∃ arg ∈ args, ¬TopicMatcher.isValidPattern arg)

theorem command_invalid (tags : TagSource ω) (writer : Option (TagWriter ω)) (d : Dispatcher)
    (session : Session) (store : ω) {word : Bytes} {args : List Bytes}
    (invalid : InvalidSubscription word args) :
    (command tags writer d session store word args).reply.IsError := by
  obtain ⟨named, arg, given, refused⟩ | ⟨named, arg, given, refused⟩ := invalid
  · have answered : (command tags writer d session store word args).reply =
        (d.watch session.id args).1 := by
      simp [command, named, ascii]
    rw [answered, watch, subscribeCommand_invalid d session.id _ _ given refused]
    trivial
  · have answered : (command tags writer d session store word args).reply =
        (d.subscribe session.id args).1 := by
      simp [command, named, ascii]
    rw [answered, subscribe, subscribeCommand_invalid d session.id _ _ given refused]
    trivial

/-- The array of bulk strings that a command line is sent as. -/
def commandLine (word : Bytes) (args : List Bytes) : IrspValue :=
  .array ((word :: args).map .bulk)

theorem words_commandLine (word : Bytes) (args : List Bytes) :
    (commandLine word args).words = word :: args :=
  words_array (commandParts_bulk (word :: args))

theorem handle_invalid (tags : TagSource ω) (writer : Option (TagWriter ω)) (d : Dispatcher)
    (session : Session) (store : ω) {word : Bytes} {args : List Bytes}
    (invalid : InvalidSubscription word args) :
    (handle tags writer d session store (commandLine word args)).reply.IsError := by
  have not_hello : toUpper word ≠ ascii "HELLO" := by
    obtain ⟨named, -⟩ | ⟨named, -⟩ := invalid
    · rw [named]
      decide
    · rw [named]
      decide
  have spelt := words_commandLine word args
  cases greeted : session.hello with
  | false =>
    rw [handle_notReady tags writer d session store spelt not_hello greeted]
    trivial
  | true =>
    rw [handle_command tags writer d session store spelt not_hello greeted]
    exact command_invalid tags writer d session store invalid

theorem handle_greets (tags : TagSource ω) (writer : Option (TagWriter ω)) (d : Dispatcher)
    (session : Session) (store : ω) {request : IrspValue} (greets : request.Greets) :
    handle tags writer d session store request =
      ⟨helloReply, { session with hello := true }, d, store⟩ := by
  obtain ⟨word, args, spelt, named⟩ := request.greets_iff.mp greets
  rw [handle_greeting tags writer d session store spelt named]
  simp only [hello, ne_eq, not_true, if_false]

/-- `Greets` is the successful `HELLO`: nothing else makes a session greeted. -/
theorem handle_hello (tags : TagSource ω) (writer : Option (TagWriter ω)) (d : Dispatcher)
    (session : Session) (store : ω) (request : IrspValue) :
    (handle tags writer d session store request).session.hello ↔
      session.hello ∨ request.Greets := by
  obtain ⟨effect, left, store', -, welcome, explained⟩ :=
    handle_effect tags writer session store request
  constructor
  · intro greeted
    rw [explained] at greeted
    obtain rfl | ⟨greets, -⟩ := welcome
    · exact .inl greeted
    · exact .inr greets
  · rintro (greeted | greets)
    · rw [explained]
      obtain rfl | ⟨-, -, rfl⟩ := welcome
      · exact greeted
      · rfl
    · rw [handle_greets tags writer d session store greets]

end Dispatcher

namespace Service

variable {ω : Type*} {tags : TagSource ω} {writer : Option (TagWriter ω)} {s : Service ω}
  {id : SubscriberId}

/-- A request before the handshake is answered, and that is all. -/
theorem next_ungreeted (closed : s.hello id = false) {request : IrspValue}
    (silent : ¬request.Greets) :
    ∃ reply, ∀ tags' writer', s.next tags' writer' (.request id request) =
      { s with replies := Function.update s.replies id (s.replies id ++ [reply]) } := by
  have ungreeted : (⟨id, s.hello id⟩ : Session).hello = false := closed
  obtain ⟨reply, answered⟩ := @Dispatcher.handle_ungreeted ω _ ungreeted request silent
  refine ⟨reply, fun tags' writer' => ?_⟩
  simp only [next, handled, answered, Function.update_eq_self]

theorem run_ungreeted (requests : List IrspValue) (closed : s.hello id = false)
    (silent : ∀ request ∈ requests, ¬request.Greets) :
    ∃ replies, ∀ tags' writer', s.run tags' writer' (requests.map (.request id)) =
      { s with replies := replies } := by
  induction requests generalizing s with
  | nil => exact ⟨s.replies, fun _ _ => rfl⟩
  | cons request requests ih =>
    obtain ⟨reply, first⟩ := next_ungreeted closed (silent request List.mem_cons_self)
    let answered : Service ω :=
      { s with replies := Function.update s.replies id (s.replies id ++ [reply]) }
    have still : answered.hello id = false := closed
    obtain ⟨replies, rest⟩ := ih still (fun r hr => silent r (List.mem_cons_of_mem _ hr))
    refine ⟨replies, fun tags' writer' => ?_⟩
    have followed := rest tags' writer'
    simp only [run, List.map_cons, List.foldl_cons, first]
    exact followed

/-- Refusals are atomic, and before `HELLO 1` nothing is reached behind the
dispatcher: the run is the same whatever tag source and writer there are. -/
theorem errors_atomic_and_gated (tags : TagSource ω) (writer : Option (TagWriter ω)) :
    (∀ d session store request,
      let r := Dispatcher.handle tags writer d session store request
      r.reply.IsError → r.session.hello = session.hello ∧
        r.dispatcher.tagSubs = d.tagSubs ∧ r.dispatcher.eventSubs = d.eventSubs) ∧
    (∀ d session store word args, Dispatcher.InvalidSubscription word args →
      let r := Dispatcher.handle tags writer d session store (Dispatcher.commandLine word args)
      r.reply.IsError ∧ r.dispatcher = d) ∧
    ∀ (s : Service ω) (id : SubscriberId) (requests : List IrspValue), s.hello id = false →
      (∀ request ∈ requests, ¬request.Greets) →
      let t := s.run tags writer (requests.map (.request id))
      t.dispatcher = s.dispatcher ∧ t.store = s.store ∧
        ∀ tags' writer', s.run tags' writer' (requests.map (.request id)) = t := by
  refine ⟨?_, ?_, ?_⟩
  · intro d session store request r refused
    obtain ⟨kept, unchanged⟩ := Dispatcher.handle_error tags writer d session store request refused
    exact ⟨congrArg Session.hello kept, congrArg Dispatcher.tagSubs unchanged,
      congrArg Dispatcher.eventSubs unchanged⟩
  · intro d session store word args invalid r
    have refused : r.reply.IsError :=
      Dispatcher.handle_invalid tags writer d session store invalid
    exact ⟨refused, (Dispatcher.handle_error tags writer d session store _ refused).2⟩
  · intro s id requests closed silent t
    obtain ⟨replies, followed⟩ := run_ungreeted requests closed silent
    have final : t = { s with replies := replies } := followed tags writer
    refine ⟨by rw [final], by rw [final], fun tags' writer' => ?_⟩
    rw [final]
    exact followed tags' writer'

/-- A session that names the wrong version and tries to read, write and watch. -/
theorem errors_atomic_and_gated_refused :
    let s : Service Unit := initial (fun _ => false) ()
    let t := s.run noTags none ([command ["HELLO", "2"], command ["SET", "a", "i8", "x"],
      command ["WATCH", "a"]].map (.request 1))
    t.dispatcher = s.dispatcher ∧ t.store = s.store := by
  intro s t
  have gated := (errors_atomic_and_gated noTags none).2.2 s 1
    [command ["HELLO", "2"], command ["SET", "a", "i8", "x"], command ["WATCH", "a"]] rfl
    (by decide)
  exact ⟨gated.1, gated.2.1⟩

end Service

end IndustrialRuntime.Irsp
