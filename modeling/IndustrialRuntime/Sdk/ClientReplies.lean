import IndustrialRuntime.Sdk.ClientTold
import IndustrialRuntime.Semantic.Replies

namespace IndustrialRuntime.Sdk

open Core Irsp Irsp.IrspValue Irsp.Dispatcher

/-! ### The forms of the replies -/

section Forms

/-- The form of a reply: no map in it has the key of a push. -/
abbrev ReplyForm : Nat → IrspValue → Prop := Form fun keys => "push" ∉ keys

variable {ω : Type*} (tags : TagSource ω) (writer : Option (TagWriter ω)) (d : Dispatcher)
  (session : Session) (store : ω)

theorem form_tagToMap (record : TagRecord) : ReplyForm 1 (tagToMap record) := by
  let fields : List (String × IrspValue) := [("name", .bulk record.name),
    ("type", .bulk record.type), ("ts", .integer record.ts), ("value", .bulk record.value)]
  have keys : Literals (fields.map Prod.fst) := by
    show Literals ["name", "type", "ts", "value"]
    exact ⟨by simp, by decide, by decide, by decide, by decide⟩
  have each : ∀ f ∈ fields, ReplyForm 0 f.2 := by
    intro f found
    simp only [fields, List.mem_cons, List.not_mem_nil, or_false] at found
    rcases found with rfl | rfl | rfl | rfl
    · exact .bulk _
    · exact .bulk _
    · exact .integer _
    · exact .bulk _
  have fine : "push" ∉ fields.map Prod.fst := by
    show "push" ∉ ["name", "type", "ts", "value"]
    decide
  exact .map keys fine each

theorem form_getTag (topic : Bytes) : ReplyForm 1 (getTag tags store topic) := by
  unfold getTag
  cases tags.read store topic with
  | none => exact .null
  | some record => exact form_tagToMap record

theorem form_helloReply : ReplyForm 1 helloReply := by
  let fields : List (String × IrspValue) := [("server", .bulk (ascii "industrial-runtime/1.0.0")),
    ("version", .bulk (ascii "1")), ("encoding", .bulk (ascii "irsp1")),
    ("transports", .bulk (ascii "websocket")), ("capabilities", .bulk (ascii "tag,event"))]
  have keys : Literals (fields.map Prod.fst) := by
    show Literals ["server", "version", "encoding", "transports", "capabilities"]
    exact ⟨by simp, by decide, by decide, by decide, by decide⟩
  have each : ∀ f ∈ fields, ReplyForm 0 f.2 := by
    intro f found
    simp only [fields, List.mem_cons, List.not_mem_nil, or_false] at found
    rcases found with rfl | rfl | rfl | rfl | rfl <;> exact .bulk _
  have fine : "push" ∉ fields.map Prod.fst := by
    show "push" ∉ ["server", "version", "encoding", "transports", "capabilities"]
    decide
  exact .map keys fine each

theorem Form.mono {allowed : List String → Prop} {n : Nat} {v : IrspValue}
    (form : Form allowed n v) : Form allowed (n + 1) v := by
  induction form with
  | null => exact .null
  | integer value => exact .integer value
  | bulk data => exact .bulk data
  | simple low => exact .simple low
  | error low low' => exact .error low low'
  | array _ ih => exact .array ih
  | map keys fine _ ih => exact .map keys fine ih

theorem form_hello (args : List Bytes) : ReplyForm 2 (hello session args).1 := by
  unfold hello
  cases args with
  | nil => exact .error (by simp) (by simp)
  | cons version rest =>
    dsimp only
    split
    · exact .error (by simp) (by simp)
    · exact form_helloReply.mono

theorem form_scan (args : List Bytes) : ReplyForm 2 (scan tags store args) := by
  have run (cursor pattern : Bytes) (count : UInt64) : ReplyForm 2
      (if !TopicMatcher.isValidPattern pattern then makeError "ERR" "invalid scan pattern"
        else .array [.bulk (tags.scan store cursor pattern count).nextCursor,
          .array ((tags.scan store cursor pattern count).names.map .bulk)] : IrspValue) := by
    split
    · exact .error (by simp) (by simp)
    · refine .array fun item found => ?_
      simp only [List.mem_cons, List.not_mem_nil, or_false] at found
      rcases found with rfl | rfl
      · exact .bulk _
      · refine .array fun name listed => ?_
        obtain ⟨b, -, rfl⟩ := List.mem_map.mp listed
        exact .bulk b
  unfold scan
  dsimp only
  split
  · exact run _ _ _
  · split
    · exact .error (by simp) (by simp)
    · split
      · exact .error (by simp) (by simp)
      · exact run _ _ _
  · exact .error (by simp) (by simp)

theorem form_subscribeCommand (id : SubscriberId) (accepts : Bytes → Bool)
    {arity invalid : String} (args : List Bytes) (low : ∀ c ∈ arity.toList, c.toNat ≤ 127)
    (low' : ∀ c ∈ invalid.toList, c.toNat ≤ 127) :
    ReplyForm 2 (d.subscribeCommand id accepts arity invalid args).1 := by
  unfold subscribeCommand
  split
  · exact .error (by simp) low
  · split
    · exact .error (by simp) low'
    · exact .integer _

theorem form_subEvent (id : SubscriberId) (args : List Bytes) :
    ReplyForm 2 (d.subEvent id args).1 := by
  unfold subEvent
  cases args with
  | nil => exact .integer 1
  | cons severity rest =>
    dsimp only
    split
    · exact .error (by simp) (by simp)
    · exact .integer 1

theorem form_set (args : List Bytes) : ReplyForm 2 (Dispatcher.set writer store args).1 := by
  unfold Dispatcher.set
  split
  · split
    · exact .error (by simp) (by simp)
    · dsimp only
      split
      · exact .simple (by simp)
      · exact .error (by simp) (by simp)
      · exact .error (by simp) (by simp)
  · exact .error (by simp) (by simp)

theorem form_answers {word : Bytes} {args : List Bytes} {reply : IrspValue}
    (answers : Answers tags store word args reply) :
    ReplyForm 2 reply ∨ reply = unknownCommand word := by
  cases answers with
  | pong => exact .inl (.simple (by simp))
  | echo payload => exact .inl (.bulk payload)
  | bye => exact .inl (.simple (by simp))
  | refusal listed =>
    simp only [refusals, List.mem_cons, List.not_mem_nil, or_false, Prod.mk.injEq] at listed
    rcases listed with ⟨rfl, rfl⟩ | ⟨rfl, rfl⟩ | ⟨rfl, rfl⟩ | ⟨rfl, rfl⟩ | ⟨rfl, rfl⟩ <;>
      exact .inl (.error (by simp) (by simp))
  | get topic => exact .inl (form_getTag tags store topic).mono
  | mget =>
    refine .inl (.array fun item found => ?_)
    obtain ⟨topic, -, rfl⟩ := List.mem_map.mp found
    exact form_getTag tags store topic
  | contains found => exact .inl (.integer found)
  | scan => exact .inl (form_scan tags store args)
  | unknown => exact .inr rfl

theorem form_command (word : Bytes) (args : List Bytes) :
    ReplyForm 2 (command tags writer d session store word args).reply ∨
      (command tags writer d session store word args).reply = unknownCommand word := by
  obtain ⟨f, same, branch⟩ := command_branch tags writer session store word args
  rw [same]
  cases branch with
  | answer answers => exact form_answers tags store answers
  | watch => exact .inl (form_subscribeCommand d _ _ args (by simp) (by simp))
  | subscribe => exact .inl (form_subscribeCommand d _ _ args (by simp) (by simp))
  | unsubscribe => exact .inl (.integer _)
  | subEvent => exact .inl (form_subEvent d _ args)
  | unsubEvent => exact .inl (.integer _)
  | set => exact .inl (form_set writer store args)

/-- Every reply has the form of the server's own values, or it is an error that repeats the word
of the client. -/
theorem form_reply (request : IrspValue) :
    ReplyForm 2 (handle tags writer d session store request).reply ∨
      ∃ word, Asks session request word ∧
        (handle tags writer d session store request).reply = unknownCommand word := by
  cases spelt : request.words with
  | nil =>
    obtain ⟨message, listed, refused⟩ := handle_malformed ω session spelt
    rw [refused]
    simp only [malformedTexts, List.mem_cons, List.not_mem_nil, or_false] at listed
    rcases listed with rfl | rfl <;> exact .inl (.error (by simp) (by simp))
  | cons word args =>
    by_cases named : toUpper word = ascii "HELLO"
    · rw [handle_greeting tags writer d session store spelt named]
      exact .inl (form_hello session args)
    · cases greeted : session.hello with
      | false =>
        rw [handle_notReady tags writer d session store spelt named greeted]
        exact .inl (.error (by simp) (by simp))
      | true =>
        rw [handle_command tags writer d session store spelt named greeted]
        have answered := form_command tags writer d session store word args
        exact answered.imp_right fun same => ⟨word, ⟨greeted, args, spelt⟩, same⟩

end Forms

theorem notPush_of_form {n : Nat} {v : IrspValue} (form : ReplyForm n v) {K : Type} [DecidableEq K]
    {name : Text → K} (inj : Function.Injective name) :
    isPushFrame (name "push".toList) (image name v) = false := by
  cases form with
  | map keys fine each =>
    rw [image_recordValue keys, isPushFrame_properties inj, decide_eq_false_iff_not]
    intro found
    obtain ⟨key, listed, same⟩ := List.mem_map.mp found
    exact fine (String.toList_injective same ▸ listed)
  | _ => rfl

/-! ### The word that an error repeats -/

/-- The word up to a CRLF in it. -/
def firstLine (word : Bytes) : Bytes := word.take (lineLength (word ++ crlf))

/-- The first word of a command after the greeting, and no UTF-8. -/
def Garbled (session : Session) (request : IrspValue) : Prop :=
  ∃ word, Asks session request word ∧ ¬∃ t, Utf8.encode t = firstLine word

/-- The line of the error that repeats the word. -/
def unknownLine (word : Bytes) : Bytes :=
  ascii "UNKNOWN_COMMAND" ++ if word = [] then [] else ascii " " ++ firstLine word

theorem lineLength_append {a s : Bytes} (plain : (13 : UInt8) ∉ a) (more : s ≠ []) :
    lineLength (a ++ s) = a.length + lineLength s := by
  induction a with
  | nil => simp
  | cons c a ih =>
    rw [List.mem_cons, not_or] at plain
    have some_ : a ++ s ≠ [] := List.append_ne_nil_of_right_ne_nil a more
    obtain ⟨d, rest, same⟩ := List.exists_cons_of_ne_nil some_
    have other : ¬(c = 13 ∧ d = 10) := fun both => plain.1 both.1.symm
    rw [List.cons_append, same, lineLength, if_neg other, ← same, ih plain.2, List.length_cons]
    omega

theorem lineLength_crlf_le (word : Bytes) : lineLength (word ++ crlf) ≤ word.length := by
  induction word with
  | nil => decide
  | cons c word ih =>
    have some_ : word ++ crlf ≠ [] := List.append_ne_nil_of_right_ne_nil word (by decide)
    obtain ⟨d, rest, same⟩ := List.exists_cons_of_ne_nil some_
    rw [List.cons_append, same, lineLength]
    split_ifs
    · exact Nat.zero_le _
    · rw [← same, List.length_cons]
      omega

theorem readLine_unknown (word : Bytes) :
    (readLine (Irsp1Codec.encode (unknownCommand word)) 1).1 = unknownLine word := by
  cases word with
  | nil => decide
  | cons c word =>
    let code := ascii "UNKNOWN_COMMAND "
    have rest : (Irsp1Codec.encode (unknownCommand (c :: word))).drop 1 =
        code ++ (c :: word ++ crlf) := rfl
    have length : lineLength (code ++ (c :: word ++ crlf)) =
        code.length + lineLength (c :: word ++ crlf) := lineLength_append (by decide) (by simp)
    have fits := lineLength_crlf_le (c :: word)
    show Irsp1Codec.substr _ _ _ = _
    rw [Irsp1Codec.substr, rest, length, List.take_length_add_append,
      List.take_append_of_le_length fits]
    rfl

theorem encode_low_append_iff {s : String} (low : ∀ c ∈ s.toList, c.toNat ≤ 127) (b : Bytes) :
    (∃ t, Utf8.encode t = ascii s ++ b) ↔ ∃ t, Utf8.encode t = b := by
  constructor
  · rintro ⟨t, same⟩
    unfold ascii at same
    generalize s.toList = cs at low same
    induction cs generalizing t with
    | nil => exact ⟨t, same⟩
    | cons c cs ih =>
      have here : String.utf8EncodeChar c = [UInt8.ofNat c.toNat] :=
        Utf8.encodeChar_ascii (low c List.mem_cons_self)
      have starts : String.utf8EncodeChar c <+: Utf8.encode t := by
        rw [same, here]
        exact ⟨_, rfl⟩
      obtain ⟨u, rfl⟩ := List.head?_eq_some_iff.mp ((Utf8.encodeChar_prefix_iff c t).mp starts)
      rw [Utf8.encode_cons, here, List.map_cons] at same
      injection same with _ same
      exact ih u (fun d found => low d (List.mem_cons_of_mem c found)) same
  · rintro ⟨t, rfl⟩
    exact ⟨s.toList ++ t, by rw [Utf8.encode_append, encode_toList low]⟩

theorem unknownLine_iff (word : Bytes) :
    (∃ t, Utf8.encode t = unknownLine word) ↔ ∃ t, Utf8.encode t = firstLine word := by
  unfold unknownLine
  rw [encode_low_append_iff (by simp)]
  split_ifs with none
  · rw [none]
    rfl
  · exact encode_low_append_iff (by simp) _

/-- Bytes of ASCII are UTF-8. -/
theorem exists_encode_of_low {b : Bytes} (low : ∀ c ∈ b, c.toNat ≤ 127) :
    ∃ t, Utf8.encode t = b := by
  have back (c : UInt8) (found : c ∈ b) : (Char.ofNat c.toNat).toNat = c.toNat := by
    have small := low c found
    have valid : Nat.isValidChar c.toNat := .inl (by omega)
    rw [Char.ofNat, dif_pos valid]
    rfl
  refine ⟨b.map fun c => Char.ofNat c.toNat, ?_⟩
  rw [Utf8.encode_ascii, List.map_map]
  · conv_rhs => rw [← List.map_id b]
    apply List.map_congr_left
    intro c found
    rw [Function.comp_apply, back c found, UInt8.ofNat_toNat, id]
  · intro d found
    obtain ⟨c, listed, rfl⟩ := List.mem_map.mp found
    rw [back c listed]
    exact low c listed

/-- The name of a command is spelt in ASCII. -/
theorem not_garbled_of_name {word : Bytes} {name : String}
    (low : ∀ c ∈ name.toList, c.toNat ≤ 127) (same : toUpper word = ascii name) :
    ∃ t, Utf8.encode t = firstLine word := by
  apply exists_encode_of_low
  intro b found
  have upper : toUpperByte b ∈ ascii name := by
    rw [← same]
    exact List.mem_map_of_mem (List.mem_of_mem_take found)
  obtain ⟨c, listed, byte⟩ := List.mem_map.mp upper
  have small := low c listed
  have value := congrArg UInt8.toNat byte
  rw [UInt8.toNat_ofNat', Nat.mod_eq_of_lt (by omega)] at value
  unfold toUpperByte at value
  split_ifs at value with letter
  · have above : b.toNat ≤ 122 := UInt8.le_iff_toNat_le.mp letter.2
    omega
  · omega

section

variable {ω : Type*} (tags : TagSource ω) (writer : Option (TagWriter ω)) (d : Dispatcher)
  {session : Session} (store : ω)

theorem command_other {word : Bytes} (other : ∀ name : String,
    (∀ c ∈ name.toList, c.toNat ≤ 127) → toUpper word ≠ ascii name) (args : List Bytes) :
    (command tags writer d session store word args).reply = unknownCommand word := by
  have neither (name name' : String) (low : ∀ c ∈ name.toList, c.toNat ≤ 127)
      (low' : ∀ c ∈ name'.toList, c.toNat ≤ 127) :
      ¬(toUpper word = ascii name ∨ toUpper word = ascii name') :=
    not_or.mpr ⟨other name low, other name' low'⟩
  unfold command
  dsimp only
  rw [if_neg (other "PING" (by simp)), if_neg (other "BYE" (by simp)),
    if_neg (other "AUTH" (by simp)), if_neg (other "GET" (by simp)),
    if_neg (other "MGET" (by simp)), if_neg (other "EXISTS" (by simp)),
    if_neg (other "SCAN" (by simp)), if_neg (other "WATCH" (by simp)),
    if_neg (other "SUBSCRIBE" (by simp)),
    if_neg (neither "UNWATCH" "UNSUBSCRIBE" (by simp) (by simp)),
    if_neg (other "SUBEVENT" (by simp)), if_neg (other "UNSUBEVENT" (by simp)),
    if_neg (other "SET" (by simp)),
    if_neg (neither "SUBSTREAM" "UNSUBSTREAM" (by simp) (by simp))]
  rfl

theorem handle_garbled {request : IrspValue} (garbled : Garbled session request) :
    ∃ word, (¬∃ t, Utf8.encode t = firstLine word) ∧
      (handle tags writer d session store request).reply = unknownCommand word := by
  obtain ⟨word, ⟨greeted, args, spelt⟩, wrong⟩ := garbled
  have other (name : String) (low : ∀ c ∈ name.toList, c.toNat ≤ 127) :
      toUpper word ≠ ascii name := fun same => wrong (not_garbled_of_name low same)
  rw [handle_command tags writer d session store spelt (other "HELLO" (by simp)) greeted]
  exact ⟨word, wrong, command_other tags writer d store other args⟩

end

/-- A client splits the line of the error, if it can read the line. -/
theorem decodeWith_unknown {K : Type} (D : Dialect K) (word : Bytes) (room : Nat) :
    (∀ e, D.text (unknownLine word) = .error e →
      decodeWith D (room + 1) (Irsp1Codec.encode (unknownCommand word)) = .error e) ∧
    ∀ line, D.text (unknownLine word) = .ok line →
      decodeWith D (room + 1) (Irsp1Codec.encode (unknownCommand word)) =
        .ok (splitError line) := by
  have type : (Irsp1Codec.encode (unknownCommand word))[0]? = some 45 := rfl
  constructor
  · intro e wrong
    rw [decodeWith, parse, parseBody, type]
    simp only [Nat.zero_add, readLine_unknown, wrong]
    rfl
  · intro line read
    rw [decodeWith, parse, parseBody, type]
    simp only [Nat.zero_add, readLine_unknown, read]
    rfl

theorem splitError_error {K : Type} (line : Text) :
    ∃ code message, (splitError line : ClientValue K) = .error code message := by
  unfold splitError
  split
  · exact ⟨_, _, rfl⟩
  · exact ⟨_, _, rfl⟩

theorem not_push_splitError {K : Type} [DecidableEq K] (push : K) (line : Text) :
    isPushFrame push (splitError line) = false := by
  obtain ⟨code, message, split⟩ := splitError_error (K := K) line
  rw [split]
  rfl

theorem JavaScript.decode_unknown (word : Bytes) (room : Nat) :
    ∃ value, decode (room + 1) (Irsp1Codec.encode (unknownCommand word)) = .ok value ∧
      isPushFrame "push".toList value = false :=
  ⟨splitError (textDecode (unknownLine word)),
    (decodeWith_unknown dialect word room).2 _ rfl, not_push_splitError _ _⟩

theorem Python.decode_unknown (py : Interpreter) (word : Bytes) (room : Nat) :
    ((∃ t, Utf8.encode t = firstLine word) →
      ∃ value, decode py (room + 1) (Irsp1Codec.encode (unknownCommand word)) = .ok value ∧
        isPushFrame (some "push".toList) value = false) ∧
    ((¬∃ t, Utf8.encode t = firstLine word) →
      decode py (room + 1) (Irsp1Codec.encode (unknownCommand word)) = .error .badText) := by
  have decoded := decodeWith_unknown (dialect py) word room
  rw [← unknownLine_iff]
  constructor
  · rintro ⟨t, same⟩
    have text : (dialect py).text (unknownLine word) = .ok t := by
      rw [← same]
      exact (lawful py).text t
    exact ⟨splitError t, decoded.2 t text, not_push_splitError _ t⟩
  · intro wrong
    have unread : Utf8.decode? (unknownLine word) = none := by
      rw [Option.eq_none_iff_forall_ne_some]
      exact fun t same => wrong ⟨t, (Utf8.decode?_eq_some_iff _ t).mp same⟩
    have text : (dialect py).text (unknownLine word) = .error .badText := by
      simp only [dialect, unread]
    exact decoded.1 .badText text

theorem JavaScript.onFrame_of_decode {room : Nat} {frame : Bytes} {v : ClientValue Text}
    (read : decode room frame = .ok v) (plain : isPushFrame "push".toList v = false) :
    onFrame room frame = .reply v := by
  cases v with
  | map m =>
    rw [onFrame, read]
    simp only [plain, Bool.false_eq_true, if_false]
  | _ => rw [onFrame, read]

theorem Python.onFrame_of_decode {py : Interpreter} {room : Nat} {frame : Bytes}
    {v : ClientValue (Option Text)} (read : decode py room frame = .ok v)
    (plain : isPushFrame (some "push".toList) v = false) : onFrame py room frame = .reply v := by
  cases v with
  | map m =>
    rw [onFrame, read]
    simp only [plain, Bool.false_eq_true, if_false]
  | _ => rw [onFrame, read]

/-- What the clients read, when the reply fits in memory. -/
theorem reply_decoded {ω : Type*} (py : Python.Interpreter) (room : Nat) (tags : TagSource ω)
    (writer : Option (TagWriter ω)) (d : Dispatcher) (session : Session) (store : ω)
    (request : IrspValue) {frame : Bytes}
    (same : frame = Irsp1Codec.encode (handle tags writer d session store request).reply)
    (short : frame.length < 2 ^ 63) :
    (∃ value, JavaScript.decode (room + 3) frame = .ok value ∧
        isPushFrame "push".toList value = false) ∧
      (¬Garbled session request → ∃ value, Python.decode py (room + 3) frame = .ok value ∧
        isPushFrame (some "push".toList) value = false) ∧
      (Garbled session request → Python.decode py (room + 3) frame = .error .badText) := by
  by_cases garbled : Garbled session request
  · obtain ⟨word, wrong, unknown⟩ := handle_garbled tags writer d store garbled
    rw [unknown] at same
    rw [same]
    exact ⟨JavaScript.decode_unknown word (room + 2), fun clear => absurd garbled clear,
      fun _ => (Python.decode_unknown py word (room + 2)).2 wrong⟩
  · suffices both : (∃ value, JavaScript.decode (room + 3) frame = .ok value ∧
        isPushFrame "push".toList value = false) ∧
          ∃ value, Python.decode py (room + 3) frame = .ok value ∧
            isPushFrame (some "push".toList) value = false from
      ⟨both.1, fun _ => both.2, fun wrong => absurd wrong garbled⟩
    -- An error that repeats the word is on one line of UTF-8.
    have unknown (h : ∃ word, Asks session request word ∧
        (handle tags writer d session store request).reply = unknownCommand word) :
        (∃ value, JavaScript.decode (room + 3) frame = .ok value ∧
          isPushFrame "push".toList value = false) ∧
            ∃ value, Python.decode py (room + 3) frame = .ok value ∧
              isPushFrame (some "push".toList) value = false := by
      obtain ⟨word, asks, unknown⟩ := h
      have utf8 : ∃ t, Utf8.encode t = firstLine word := by
        by_contra wrong
        exact garbled ⟨word, asks, wrong⟩
      rw [same, unknown]
      exact ⟨JavaScript.decode_unknown word (room + 2),
        (Python.decode_unknown py word (room + 2)).1 utf8⟩
    rcases handle_lined tags writer d session store request with lined | h
    · rcases form_reply tags writer d session store request with form | h
      · have encodable := encodable_of_short lined (same ▸ short)
        rw [same]
        exact ⟨⟨_, form.javaScript encodable room, notPush_of_form form Function.injective_id⟩,
          ⟨_, form.python encodable py room, notPush_of_form form (Option.some_injective Text)⟩⟩
      · exact unknown h
    · exact unknown h

/-- Whatever a session requests, and whatever is stored, a JavaScript client takes the reply for a
reply. A Python client does so unless the command is an unknown word that is no UTF-8: it drops
that reply, which the call at the head of its queue still waits for. -/
theorem reply_received_iff {ω : Type*} (py : Python.Interpreter) (room : Nat)
    (tags : TagSource ω) (writer : Option (TagWriter ω)) (d : Dispatcher) (session : Session)
    (store : ω) (request : IrspValue) :
    let frame := Irsp1Codec.encode (handle tags writer d session store request).reply
    frame.length < 2 ^ 63 →
      (∃ value, JavaScript.onFrame (room + 3) frame = .reply value) ∧
      ((∃ value, Python.onFrame py (room + 3) frame = .reply value) ↔ ¬Garbled session request) ∧
      (Python.onFrame py (room + 3) frame = .undecodable ↔ Garbled session request) := by
  intro frame short
  obtain ⟨⟨value, javaScript, plain⟩, read, dropped⟩ :=
    reply_decoded py room tags writer d session store request rfl short
  refine ⟨⟨value, JavaScript.onFrame_of_decode javaScript plain⟩, ?_⟩
  by_cases garbled : Garbled session request
  · have undecodable : Python.onFrame py (room + 3) frame = .undecodable := by
      rw [Python.onFrame, dropped garbled]
    rw [undecodable]
    simp [garbled]
  · obtain ⟨value, python, plain⟩ := read garbled
    rw [Python.onFrame_of_decode python plain]
    simp [garbled]

/-- The word 0xFF is no command and no UTF-8. -/
theorem reply_received_iff_garbled :
    Python.onFrame Python.asciiInterpreter 3 (Irsp1Codec.encode (handle Service.noTags none
      Dispatcher.empty ⟨1, true⟩ () (.array [.bulk [0xFF]])).reply) = .undecodable := by
  have unread : Utf8.decode? (firstLine [0xFF]) = none := by decide
  have wrong : ¬∃ t, Utf8.encode t = firstLine [0xFF] := by
    rintro ⟨t, same⟩
    rw [(Utf8.decode?_eq_some_iff _ t).mpr same] at unread
    cases unread
  have received := reply_received_iff Python.asciiInterpreter 0 Service.noTags none
    Dispatcher.empty ⟨1, true⟩ () (.array [.bulk [0xFF]]) (by decide)
  exact received.2.2.mpr ⟨[0xFF], ⟨rfl, [], rfl⟩, wrong⟩

end IndustrialRuntime.Sdk
