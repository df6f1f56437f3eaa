import IndustrialRuntime.Semantic.Dispatcher

namespace IndustrialRuntime.Irsp

/-- The words of a command whose elements are all bulk strings. -/
def IrspValue.words : IrspValue → List Bytes
  | .array items => (Dispatcher.commandParts items).getD []
  | _ => []

namespace Dispatcher

variable {ω : Type*}

theorem commandParts_bulk (parts : List Bytes) :
    commandParts (parts.map .bulk) = some parts := by
  induction parts with
  | nil => rfl
  | cons part parts ih => simp only [List.map_cons, commandParts, ih, Option.map_some]

theorem words_array {items : List IrspValue} {words : List Bytes}
    (parts : commandParts items = some words) : IrspValue.words (.array items) = words := by
  simp only [IrspValue.words, parts, Option.getD_some]

theorem array_of_words {request : IrspValue} {word : Bytes} {args : List Bytes}
    (spelt : request.words = word :: args) :
    ∃ item items, request = .array (item :: items) ∧
      commandParts (item :: items) = some (word :: args) := by
  cases request with
  | array items =>
    cases parts : commandParts items with
    | none => simp [IrspValue.words, parts] at spelt
    | some found =>
      obtain rfl : found = word :: args := (words_array parts).symm.trans spelt
      cases items with
      | nil => simp [commandParts] at parts
      | cons item items => exact ⟨item, items, rfl, parts⟩
  | _ => simp [IrspValue.words] at spelt

/-! ### What becomes of a request -/

/-- The two refusals of a request that is no command. -/
def malformedTexts : List String :=
  ["expected non-empty command array", "command elements must be bulk strings"]

theorem handle_malformed (ω : Type*) (session : Session) {request : IrspValue}
    (empty : request.words = []) :
    ∃ message ∈ malformedTexts, ∀ (tags : TagSource ω) (writer : Option (TagWriter ω))
      (d : Dispatcher) (store : ω), handle tags writer d session store request =
        ⟨makeError "PROTOCOL_ERROR" message, session, d, store⟩ := by
  cases request with
  | array items =>
    cases items with
    | nil => exact ⟨_, List.mem_cons_self, fun _ _ _ _ => rfl⟩
    | cons item items =>
      refine ⟨"command elements must be bulk strings", by decide, ?_⟩
      intro tags writer d store
      cases parts : commandParts (item :: items) with
      | none => simp only [handle, parts]
      | some words =>
        obtain rfl := (words_array parts).symm.trans empty
        simp only [handle, parts]
  | _ => exact ⟨_, List.mem_cons_self, fun _ _ _ _ => rfl⟩

section

variable (tags : TagSource ω) (writer : Option (TagWriter ω)) (d : Dispatcher)
  (session : Session) (store : ω) {request : IrspValue} {word : Bytes} {args : List Bytes}
  (spelt : request.words = word :: args)

include spelt

theorem handle_notReady (other : toUpper word ≠ ascii "HELLO") (closed : session.hello = false) :
    handle tags writer d session store request =
      ⟨makeError "NOT_READY" "HELLO required first", session, d, store⟩ := by
  obtain ⟨item, items, rfl, parts⟩ := array_of_words spelt
  simp [handle, parts, other, closed]

theorem handle_greeting (named : toUpper word = ascii "HELLO") :
    handle tags writer d session store request =
      ⟨(hello session args).1, (hello session args).2, d, store⟩ := by
  obtain ⟨item, items, rfl, parts⟩ := array_of_words spelt
  simp [handle, parts, named]

theorem handle_command (other : toUpper word ≠ ascii "HELLO") (greeted : session.hello = true) :
    handle tags writer d session store request =
      command tags writer d session store word args := by
  obtain ⟨item, items, rfl, parts⟩ := array_of_words spelt
  simp [handle, parts, other, greeted]

end

/-! ### What becomes of a command -/

/-- The errors that stand in `command` itself. -/
def refusals : List (String × String) :=
  [("NOT_IMPLEMENTED", "auth is reserved"), ("WRONG_ARITY", "GET requires <topic>"),
    ("WRONG_ARITY", "MGET requires <topic>..."), ("WRONG_ARITY", "EXISTS requires <topic>"),
    ("NOT_IMPLEMENTED", "stream subscription is reserved for V2")]

/-- The replies of the commands that leave everything as it is. -/
inductive Answers (tags : TagSource ω) (store : ω) (word : Bytes) (args : List Bytes) :
    IrspValue → Prop
  | pong : Answers tags store word args (.simple (ascii "PONG"))
  | echo (payload : Bytes) : Answers tags store word args (.bulk payload)
  | bye : Answers tags store word args (.simple (ascii "OK"))
  | refusal {code message : String} (listed : (code, message) ∈ refusals) :
    Answers tags store word args (makeError code message)
  | get (topic : Bytes) : Answers tags store word args (getTag tags store topic)
  | mget : Answers tags store word args (.array (args.map (getTag tags store)))
  | contains (found : Int64) : Answers tags store word args (.integer found)
  | scan : Answers tags store word args (scan tags store args)
  | unknown : Answers tags store word args (.error (ascii "UNKNOWN_COMMAND") word)

/-- The branches of `command`; which one is taken does not depend on the dispatcher. -/
inductive Branch (tags : TagSource ω) (writer : Option (TagWriter ω)) (session : Session)
    (store : ω) (word : Bytes) (args : List Bytes) : (Dispatcher → Handled ω) → Prop
  | answer {reply : IrspValue} (answers : Answers tags store word args reply) :
    Branch tags writer session store word args (fun d => ⟨reply, session, d, store⟩)
  | watch (named : toUpper word = ascii "WATCH") :
    Branch tags writer session store word args
      (fun d => ⟨(d.watch session.id args).1, session, (d.watch session.id args).2, store⟩)
  | subscribe (named : toUpper word = ascii "SUBSCRIBE") :
    Branch tags writer session store word args
      (fun d => ⟨(d.subscribe session.id args).1, session, (d.subscribe session.id args).2, store⟩)
  | unsubscribe :
    Branch tags writer session store word args
      (fun d =>
        ⟨(d.unsubscribe session.id args).1, session, (d.unsubscribe session.id args).2, store⟩)
  | subEvent (named : toUpper word = ascii "SUBEVENT") :
    Branch tags writer session store word args
      (fun d => ⟨(d.subEvent session.id args).1, session, (d.subEvent session.id args).2, store⟩)
  | unsubEvent :
    Branch tags writer session store word args
      (fun d => ⟨(d.unsubEvent session.id).1, session, (d.unsubEvent session.id).2, store⟩)
  | set :
    Branch tags writer session store word args
      (fun d => ⟨(set writer store args).1, session, d, (set writer store args).2⟩)

theorem Branch.ite {tags : TagSource ω} {writer : Option (TagWriter ω)} {session : Session}
    {store : ω} {word : Bytes} {args : List Bytes} {f g : Dispatcher → Handled ω} {c : Prop}
    [Decidable c] (yes : c → Branch tags writer session store word args f)
    (no : ¬c → Branch tags writer session store word args g) :
    Branch tags writer session store word args (fun d => if c then f d else g d) := by
  by_cases hc : c
  · simpa only [if_pos hc] using yes hc
  · simpa only [if_neg hc] using no hc

/-- One command is one branch, for every dispatcher. -/
theorem command_branch (tags : TagSource ω) (writer : Option (TagWriter ω)) (session : Session)
    (store : ω) (word : Bytes) (args : List Bytes) :
    ∃ f, (∀ d, command tags writer d session store word args = f d) ∧
      Branch tags writer session store word args f := by
  refine ⟨fun d => command tags writer d session store word args, fun _ => rfl, ?_⟩
  unfold command
  dsimp only
  refine .ite (fun _ => .answer ?_) (fun _ => ?_)
  · cases args with
    | nil => exact .pong
    | cons payload rest => exact .echo payload
  refine .ite (fun _ => .answer .bye) (fun _ => ?_)
  refine .ite (fun _ => .answer (.refusal (by decide))) (fun _ => ?_)
  refine .ite (fun _ => .answer ?_) (fun _ => ?_)
  · split
    · exact .get _
    · exact .refusal (by decide)
  refine .ite (fun _ => .answer ?_) (fun _ => ?_)
  · split
    · exact .refusal (by decide)
    · exact .mget
  refine .ite (fun _ => .answer ?_) (fun _ => ?_)
  · split
    · exact .contains _
    · exact .refusal (by decide)
  refine .ite (fun _ => .answer .scan) (fun _ => ?_)
  refine .ite (fun named => .watch named) (fun _ => ?_)
  refine .ite (fun named => .subscribe named) (fun _ => ?_)
  refine .ite (fun _ => .unsubscribe) (fun _ => ?_)
  refine .ite (fun named => .subEvent named) (fun _ => ?_)
  refine .ite (fun _ => .unsubEvent) (fun _ => ?_)
  refine .ite (fun _ => .set) (fun _ => ?_)
  exact .ite (fun _ => .answer (.refusal (by decide))) (fun _ => .answer .unknown)

end Dispatcher

end IndustrialRuntime.Irsp
