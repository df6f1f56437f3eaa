import IndustrialRuntime.Codec.RoundTrip
import IndustrialRuntime.Semantic.Handshake

namespace IndustrialRuntime.Irsp

namespace IrspValue

/-- The texts that go on a line of their own fit on that line. -/
def OneLine : IrspValue → Prop
  | .simple text => ¬crlf <:+: text
  | .error code message => ¬crlf <:+: code ∧ ¬crlf <:+: message ∧ (32 : UInt8) ∉ code
  | _ => True

abbrev Lined : IrspValue → Prop := Everywhere OneLine

/-- Strings and vectors are no longer than memory holds. -/
def Sized (lim : Irsp1Codec.VectorLimits) : IrspValue → Prop
  | .bulk data => data.length < 2 ^ 63
  | .array items => items.length ≤ lim.items
  | .map entries => entries.length ≤ lim.entries
  | _ => True

instance decidableSized (lim : Irsp1Codec.VectorLimits) : DecidablePred (Sized lim)
  | .null | .integer _ | .simple _ | .error _ _ => inferInstanceAs (Decidable True)
  | .bulk data => inferInstanceAs (Decidable (data.length < 2 ^ 63))
  | .array items => inferInstanceAs (Decidable (items.length ≤ lim.items))
  | .map entries => inferInstanceAs (Decidable (entries.length ≤ lim.entries))

/-- A value that a program can hold. -/
abbrev InMemory (lim : Irsp1Codec.VectorLimits) : IrspValue → Prop := Everywhere (Sized lim)

variable {lim : Irsp1Codec.VectorLimits}

theorem Everywhere.inside {P : IrspValue → Prop} {v w : IrspValue} (h : Everywhere P v)
    (nested : w ∈ v.children) : Everywhere P w := by
  cases h with
  | intro _ inside => exact inside w nested

theorem Sized.fits {v : IrspValue} (sized : v.Sized lim) : v.Fits lim := by
  cases v with
  | array items => exact sized
  | map entries => exact sized
  | _ => trivial

theorem OneLine.printable {v : IrspValue} (line : v.OneLine) (sized : v.Sized lim) :
    v.Printable := by
  cases v with
  | simple text => exact line
  | error code message => exact line
  | bulk data => exact sized
  | array items => exact Nat.lt_of_le_of_lt sized lim.items_lt
  | map entries => exact Nat.lt_of_le_of_lt sized lim.entries_lt
  | null => trivial
  | integer value => trivial

theorem InMemory.storable {v : IrspValue} (stored : v.InMemory lim) : v.Storable lim := by
  induction stored with
  | intro here _ ih => exact ⟨here.fits, ih⟩

theorem Lined.encodable {v : IrspValue} (lined : v.Lined) (stored : v.InMemory lim) :
    v.Encodable := by
  induction lined with
  | intro here _ ih => exact ⟨here.printable stored.here, fun w hw => ih w hw (stored.inside hw)⟩

theorem lined_leaf {v : IrspValue} (line : v.OneLine) (flat : v.children = []) : v.Lined :=
  ⟨line, by simp [flat]⟩

theorem lined_array {items : List IrspValue} (h : ∀ v ∈ items, v.Lined) :
    (IrspValue.array items).Lined :=
  ⟨trivial, h⟩

theorem lined_map {entries : List (IrspValue × IrspValue)}
    (h : ∀ e ∈ entries, e.1.Lined ∧ e.2.Lined) : (IrspValue.map entries).Lined := by
  refine ⟨trivial, fun v nested => ?_⟩
  obtain ⟨e, given, which⟩ := List.mem_flatMap.mp nested
  simp only [List.mem_cons, List.not_mem_nil, or_false] at which
  obtain rfl | rfl := which
  · exact (h e given).1
  · exact (h e given).2

@[simp] theorem lined_null : IrspValue.null.Lined := lined_leaf trivial rfl

@[simp] theorem lined_integer (i : Int64) : (IrspValue.integer i).Lined := lined_leaf trivial rfl

@[simp] theorem lined_bulk (data : Bytes) : (IrspValue.bulk data).Lined := lined_leaf trivial rfl

theorem not_crlf_of_plain {text : Bytes} (plain : (13 : UInt8) ∉ text) : ¬crlf <:+: text := by
  rintro ⟨before, after, rfl⟩
  simp [crlf] at plain

theorem lined_simple {text : Bytes} (plain : (13 : UInt8) ∉ text) : (IrspValue.simple text).Lined :=
  lined_leaf (not_crlf_of_plain plain) rfl

/-- The texts of an error of the server stay on one line, the code up to the space. -/
def PlainTexts (code message : String) : Prop :=
  (13 : UInt8) ∉ ascii code ∧ (32 : UInt8) ∉ ascii code ∧ (13 : UInt8) ∉ ascii message

instance decidablePlainTexts (code message : String) : Decidable (PlainTexts code message) :=
  inferInstanceAs (Decidable (_ ∧ _ ∧ _))

theorem lined_makeError {code message : String} (plain : PlainTexts code message) :
    (makeError code message).Lined := by
  obtain ⟨plain_code, no_space, plain_message⟩ := plain
  exact lined_leaf ⟨not_crlf_of_plain plain_code, not_crlf_of_plain plain_message, no_space⟩ rfl

theorem lined_tagToMap (tag : TagRecord) : (tagToMap tag).Lined := by
  apply lined_map
  intro e given
  simp only [List.mem_cons, List.not_mem_nil, or_false] at given
  obtain rfl | rfl | rfl | rfl := given
  · exact ⟨lined_bulk _, lined_bulk _⟩
  · exact ⟨lined_bulk _, lined_bulk _⟩
  · exact ⟨lined_bulk _, lined_integer _⟩
  · exact ⟨lined_bulk _, lined_bulk _⟩

end IrspValue

namespace Dispatcher

open IrspValue

variable {ω : Type*} (tags : TagSource ω) (writer : Option (TagWriter ω)) (d : Dispatcher)
  (session : Session) (store : ω)

theorem lined_getTag (topic : Bytes) : (getTag tags store topic).Lined := by
  unfold getTag
  cases tags.read store topic with
  | none => exact lined_null
  | some tag => exact lined_tagToMap tag

theorem lined_hello (args : List Bytes) : (hello session args).1.Lined := by
  unfold hello
  cases args with
  | nil => exact lined_makeError (by decide)
  | cons version rest =>
    dsimp only
    split
    · exact lined_makeError (by decide)
    · apply lined_map
      intro e given
      simp only [List.mem_cons, List.not_mem_nil, or_false] at given
      obtain rfl | rfl | rfl | rfl | rfl := given <;> exact ⟨lined_bulk _, lined_bulk _⟩

theorem lined_scan (args : List Bytes) : (scan tags store args).Lined := by
  have run (cursor pattern : Bytes) (count : UInt64) :
      (if !TopicMatcher.isValidPattern pattern then makeError "ERR" "invalid scan pattern"
        else .array [.bulk (tags.scan store cursor pattern count).nextCursor,
          .array ((tags.scan store cursor pattern count).names.map .bulk)] : IrspValue).Lined := by
    split
    · exact lined_makeError (by decide)
    · apply lined_array
      intro v given
      simp only [List.mem_cons, List.not_mem_nil, or_false] at given
      obtain rfl | rfl := given
      · exact lined_bulk _
      · apply lined_array
        intro v given
        obtain ⟨name, -, rfl⟩ := List.mem_map.mp given
        exact lined_bulk name
  unfold scan
  split
  · exact run _ _ _
  · split
    · exact lined_makeError (by decide)
    · split
      · exact lined_makeError (by decide)
      · exact run _ _ _
  · exact lined_makeError (by decide)

theorem lined_subscribeCommand (id : SubscriberId) (accepts : Bytes → Bool)
    {arity invalid : String} (args : List Bytes) (plain_arity : (13 : UInt8) ∉ ascii arity)
    (plain_invalid : (13 : UInt8) ∉ ascii invalid) :
    (d.subscribeCommand id accepts arity invalid args).1.Lined := by
  unfold subscribeCommand
  split
  · exact lined_makeError ⟨by decide, by decide, plain_arity⟩
  · split
    · exact lined_makeError ⟨by decide, by decide, plain_invalid⟩
    · exact lined_integer _

theorem lined_subEvent (id : SubscriberId) (args : List Bytes) :
    (d.subEvent id args).1.Lined := by
  unfold subEvent
  cases args with
  | nil => exact lined_integer 1
  | cons severity rest =>
    dsimp only
    split
    · exact lined_makeError (by decide)
    · exact lined_integer 1

theorem lined_set (args : List Bytes) : (set writer store args).1.Lined := by
  unfold set
  split
  · split
    · exact lined_makeError (by decide)
    · dsimp only
      split
      · exact lined_simple (by decide)
      · exact lined_makeError (by decide)
      · exact lined_makeError (by decide)
  · exact lined_makeError (by decide)

/-- The one reply that carries client bytes outside a bulk string. -/
def unknownCommand (word : Bytes) : IrspValue := .error (ascii "UNKNOWN_COMMAND") word

/-- A reply is a value that fits its lines, or refuses the word. -/
def LinedUnless (word : Bytes) (r : Handled ω) : Prop :=
  r.reply.Lined ∨ r.reply = unknownCommand word

theorem Answers.linedUnless {word : Bytes} {args : List Bytes} {reply : IrspValue}
    (answers : Answers tags store word args reply) :
    reply.Lined ∨ reply = unknownCommand word := by
  have plain : ∀ r ∈ refusals, PlainTexts r.1 r.2 := by decide
  cases answers with
  | pong => exact .inl (lined_simple (by decide))
  | echo payload => exact .inl (lined_bulk payload)
  | bye => exact .inl (lined_simple (by decide))
  | refusal listed => exact .inl (lined_makeError (plain _ listed))
  | get topic => exact .inl (lined_getTag tags store topic)
  | mget =>
    refine .inl (lined_array ?_)
    intro v given
    obtain ⟨topic, -, rfl⟩ := List.mem_map.mp given
    exact lined_getTag tags store topic
  | contains found => exact .inl (lined_integer found)
  | scan => exact .inl (lined_scan tags store args)
  | unknown => exact .inr rfl

theorem command_linedUnless (word : Bytes) (args : List Bytes) :
    LinedUnless word (command tags writer d session store word args) := by
  obtain ⟨f, same, branch⟩ := command_branch tags writer session store word args
  rw [same]
  cases branch with
  | answer answers => exact answers.linedUnless
  | watch => exact .inl (lined_subscribeCommand d _ _ args (by decide) (by decide))
  | subscribe => exact .inl (lined_subscribeCommand d _ _ args (by decide) (by decide))
  | unsubscribe => exact .inl (lined_integer _)
  | subEvent => exact .inl (lined_subEvent d _ args)
  | unsubEvent => exact .inl (lined_integer _)
  | set => exact .inl (lined_set writer store args)

/-- The first word of the request, when the session is greeted and the request
is a command. -/
def Asks (session : Session) (request : IrspValue) (word : Bytes) : Prop :=
  session.hello ∧ ∃ args, request.words = word :: args

theorem handle_lined (request : IrspValue) :
    (handle tags writer d session store request).reply.Lined ∨
      ∃ word, Asks session request word ∧
        (handle tags writer d session store request).reply = unknownCommand word := by
  cases spelt : request.words with
  | nil =>
    have plain : ∀ text ∈ malformedTexts, PlainTexts "PROTOCOL_ERROR" text := by decide
    obtain ⟨message, listed, refused⟩ := handle_malformed ω session spelt
    rw [refused]
    exact .inl (lined_makeError (plain message listed))
  | cons word args =>
    by_cases named : toUpper word = ascii "HELLO"
    · rw [handle_greeting tags writer d session store spelt named]
      exact .inl (lined_hello session args)
    · cases greeted : session.hello with
      | false =>
        rw [handle_notReady tags writer d session store spelt named greeted]
        exact .inl (lined_makeError (by decide))
      | true =>
        rw [handle_command tags writer d session store spelt named greeted]
        have answered := command_linedUnless tags writer d session store word args
        exact answered.imp_right (fun h => ⟨word, ⟨greeted, args, spelt⟩, h⟩)

theorem cr_mem_toUpper {word : Bytes} (h : crlf <:+: word) : (13 : UInt8) ∈ toUpper word := by
  have cr : (13 : UInt8) ∈ word := h.subset (by decide)
  exact List.mem_map.mpr ⟨13, cr, by decide⟩

theorem command_unknown {word : Bytes}
    (other : ∀ name, (13 : UInt8) ∉ name → toUpper word ≠ name) (args : List Bytes) :
    (command tags writer d session store word args).reply = unknownCommand word := by
  have plain (name : String) (h : (13 : UInt8) ∉ ascii name) : ¬toUpper word = ascii name :=
    other (ascii name) h
  have neither (name name' : String) (h : (13 : UInt8) ∉ ascii name)
      (h' : (13 : UInt8) ∉ ascii name') :
      ¬(toUpper word = ascii name ∨ toUpper word = ascii name') :=
    not_or.mpr ⟨plain name h, plain name' h'⟩
  unfold command
  dsimp only
  rw [if_neg (plain "PING" (by decide)), if_neg (plain "BYE" (by decide)),
    if_neg (plain "AUTH" (by decide)), if_neg (plain "GET" (by decide)),
    if_neg (plain "MGET" (by decide)), if_neg (plain "EXISTS" (by decide)),
    if_neg (plain "SCAN" (by decide)), if_neg (plain "WATCH" (by decide)),
    if_neg (plain "SUBSCRIBE" (by decide)),
    if_neg (neither "UNWATCH" "UNSUBSCRIBE" (by decide) (by decide)),
    if_neg (plain "SUBEVENT" (by decide)), if_neg (plain "UNSUBEVENT" (by decide)),
    if_neg (plain "SET" (by decide)),
    if_neg (neither "SUBSTREAM" "UNSUBSTREAM" (by decide) (by decide))]
  rfl

/-- No command is spelt with a CRLF. -/
theorem handle_unknown {request : IrspValue} {word : Bytes} (asks : Asks session request word)
    (h : crlf <:+: word) :
    (handle tags writer d session store request).reply = unknownCommand word := by
  obtain ⟨greeted, args, spelt⟩ := asks
  have other (name : Bytes) (plain : (13 : UInt8) ∉ name) : toUpper word ≠ name := by
    rintro rfl
    exact plain (cr_mem_toUpper h)
  have not_hello : toUpper word ≠ ascii "HELLO" := other _ (by decide)
  rw [handle_command tags writer d session store spelt not_hello greeted]
  exact command_unknown tags writer d session store other args

end Dispatcher

namespace Irsp1Codec

open IrspValue Dispatcher

/-- The encoded value decodes to itself and to nothing less than the whole frame. -/
def Faithful (lim : VectorLimits) (v : IrspValue) : Prop :=
  decode lim (encode v) = .ok ⟨.ok, v, (encode v).length⟩

theorem faithful_of_lined {lim : VectorLimits} {v : IrspValue} (lined : v.Lined)
    (stored : v.InMemory lim) : Faithful lim v := by
  have round := decode_encode lim v (lined.encodable stored) stored.storable []
  rwa [List.append_nil] at round

theorem lined_unknownCommand {word : Bytes} (clean : ¬crlf <:+: word) :
    (unknownCommand word).Lined :=
  lined_leaf ⟨not_crlf_of_plain (by decide), clean, by decide⟩ rfl

/-- An error line whose message holds a CRLF ends at that CRLF. -/
theorem not_faithful_error (lim : VectorLimits) {code message : Bytes} (h : crlf <:+: message) :
    ¬Faithful lim (.error code message) := by
  have some_message : message.isEmpty = false := by
    cases message with
    | nil => exact absurd h (by decide)
    | cons _ _ => rfl
  let line := code ++ ascii " " ++ message
  have frame : encode (.error code message) = 45 :: (line ++ crlf) := by
    simp [encode, some_message, line, ascii]
  have split : ¬crlfOffset line = none := by
    rw [crlfOffset_eq_none_iff, not_not]
    exact h.trans (List.infix_append_right)
  obtain ⟨k, first⟩ := Option.ne_none_iff_exists'.mp split
  have short := crlfOffset_lt first
  have found : findCrlf (45 :: (line ++ crlf)) 1 = some (1 + k) := by
    simp only [findCrlf, List.drop_succ_cons, List.drop_zero, crlfOffset_append first crlf,
      Option.map_some]
  let read := substr (45 :: (line ++ crlf)) 1 (1 + k - 1)
  have parsed : decode lim (45 :: (line ++ crlf)) =
      .ok ⟨.ok, .error (errorCode read) (errorMessage read), 1 + k + 2⟩ := by
    rw [decode, parseValue]
    simp only [parseBody, found, List.getElem?_cons_zero, Nat.zero_add]
    rw [LineRead.error.parseLine_roomy (by decide)]
    rfl
  intro whole
  rw [Faithful, frame, parsed] at whole
  have consumed : 1 + k + 2 = (45 :: (line ++ crlf)).length := by
    injection whole with result
    exact congrArg DecodeResult.consumed result
  simp only [List.length_cons, List.length_append, crlf, List.length_nil] at consumed
  omega

/-- A greeted session sends a command whose first word holds a CRLF. -/
def BreaksLine (session : Session) (request : IrspValue) : Prop :=
  ∃ word, Asks session request word ∧ crlf <:+: word

/-- Every reply is transmitted faithfully, except that a word with a CRLF comes
back unescaped in the line of an error. -/
theorem reply_faithful_iff {ω : Type*} (lim : VectorLimits) (tags : TagSource ω)
    (writer : Option (TagWriter ω)) (d : Dispatcher) (session : Session) (store : ω)
    (request : IrspValue)
    (stored : (handle tags writer d session store request).reply.InMemory lim) :
    Faithful lim (handle tags writer d session store request).reply ↔
      ¬BreaksLine session request := by
  constructor
  · rintro faithful ⟨word, asks, h⟩
    rw [handle_unknown tags writer d session store asks h] at faithful
    exact not_faithful_error lim h faithful
  · intro keeps
    apply faithful_of_lined _ stored
    obtain lined | ⟨word, asks, unknown⟩ := handle_lined tags writer d session store request
    · exact lined
    · rw [unknown]
      apply lined_unknownCommand
      intro h
      exact keeps ⟨word, asks, h⟩

def injection : IrspValue := commandLine (ascii "X" ++ crlf ++ ascii "+OK") []

/-- The word `X\r\n+OK` makes a client read an error and then a success. -/
theorem not_reply_faithful :
    ¬Faithful x64Limits
      (handle Service.noTags none Dispatcher.empty ⟨1, true⟩ () injection).reply := by
  have asks : Asks ⟨1, true⟩ injection (ascii "X" ++ crlf ++ ascii "+OK") :=
    ⟨rfl, [], rfl⟩
  rw [handle_unknown Service.noTags none Dispatcher.empty ⟨1, true⟩ () asks (by decide)]
  exact not_faithful_error x64Limits (by decide)

/-- The same bytes as the payload of a `PING` are echoed as a bulk string. -/
theorem reply_faithful_ping :
    Faithful x64Limits
      (handle Service.noTags none Dispatcher.empty ⟨1, true⟩ ()
        (commandLine (ascii "PING") [crlf])).reply := by
  have echoed : (handle Service.noTags none Dispatcher.empty ⟨1, true⟩ ()
      (commandLine (ascii "PING") [crlf])).reply = .bulk crlf := rfl
  apply (reply_faithful_iff x64Limits Service.noTags none Dispatcher.empty ⟨1, true⟩ ()
    (commandLine (ascii "PING") [crlf]) _).mpr
  · rintro ⟨word, ⟨-, args, spelt⟩, h⟩
    have first : ascii "PING" = word := by
      injection spelt
    subst first
    exact absurd h (by decide)
  · rw [echoed]
    exact ⟨by decide, fun w nested => absurd nested List.not_mem_nil⟩

end Irsp1Codec

end IndustrialRuntime.Irsp
