import IndustrialRuntime.Codec.Grammar
import IndustrialRuntime.Semantic.Replies
import IndustrialRuntime.Server.IrspServer

namespace IndustrialRuntime.Irsp

/-! ### Blank runs and words of an inline line -/

namespace Irsp1Codec

/-- A run of whitespace, perhaps empty. -/
def Blank (run : Bytes) : Prop := ∀ c ∈ run, isSpace c

instance decidableBlank (run : Bytes) : Decidable (Blank run) := List.decidableBAll _ run

/-- An argument that an inline line can carry. -/
def Plain (arg : Bytes) : Prop := arg ≠ [] ∧ ∀ c ∈ arg, ¬isSpace c

instance decidablePlain (arg : Bytes) : Decidable (Plain arg) :=
  have : Decidable (∀ c ∈ arg, ¬isSpace c) := List.decidableBAll _ arg
  inferInstanceAs (Decidable (arg ≠ [] ∧ ∀ c ∈ arg, ¬isSpace c))

theorem inlineWords_blank {run : Bytes} (blank : Blank run) (rest : Bytes) :
    inlineWords [] (run ++ rest) = inlineWords [] rest := by
  induction run with
  | nil => rfl
  | cons c run ih =>
    have space : isSpace c := blank c List.mem_cons_self
    have tail : Blank run := fun d hd => blank d (List.mem_cons_of_mem c hd)
    simp only [List.cons_append, inlineWords, space, if_true, List.isEmpty_nil, ih tail]

theorem inlineWords_word {arg : Bytes} (solid : ∀ c ∈ arg, ¬isSpace c) (word rest : Bytes) :
    inlineWords word (arg ++ rest) = inlineWords (word ++ arg) rest := by
  induction arg generalizing word with
  | nil => rw [List.nil_append, List.append_nil]
  | cons c arg ih =>
    have letter : ¬isSpace c := solid c List.mem_cons_self
    have tail : ∀ d ∈ arg, ¬isSpace d := fun d hd => solid d (List.mem_cons_of_mem c hd)
    rw [List.cons_append, inlineWords, if_neg letter, ih tail, List.append_assoc,
      List.singleton_append]

theorem inlineWords_gap {word gap : Bytes} (given : word ≠ []) (blank : Blank gap)
    (apart : gap ≠ []) (rest : Bytes) :
    inlineWords word (gap ++ rest) = word :: inlineWords [] rest := by
  cases gap with
  | nil => exact absurd rfl apart
  | cons c gap =>
    have space : isSpace c := blank c List.mem_cons_self
    have tail : Blank gap := fun d hd => blank d (List.mem_cons_of_mem c hd)
    have filled : ¬word.isEmpty := by
      rw [List.isEmpty_iff]
      exact given
    rw [List.cons_append, inlineWords, if_pos space, if_neg filled, inlineWords_blank tail]

/-- No word is read just when nothing is left to read but whitespace. -/
theorem inlineWords_eq_nil_iff (word line : Bytes) :
    inlineWords word line = [] ↔ word = [] ∧ Blank line := by
  induction line generalizing word with
  | nil => simp [inlineWords, Blank]
  | cons c rest ih =>
    rw [inlineWords]
    by_cases space : isSpace c
    · rw [if_pos space]
      by_cases empty : word = []
      · simp [empty, ih, Blank, space]
      · simp [empty]
    · rw [if_neg space, ih]
      simp [Blank, space]

/-- A line that spells the arguments in order: whitespace in front, between two arguments
and at the end, and some of it between two arguments. -/
inductive Spells : Bytes → List Bytes → Prop where
  | last {lead arg trail : Bytes} : Blank lead → Plain arg → Blank trail →
      Spells (lead ++ (arg ++ trail)) [arg]
  | more {lead arg gap rest : Bytes} {args : List Bytes} : Blank lead → Plain arg → Blank gap →
      gap ≠ [] → Spells rest args → Spells (lead ++ (arg ++ (gap ++ rest))) (arg :: args)

theorem Spells.inlineWords_eq {line : Bytes} {args : List Bytes} (spelt : Spells line args) :
    inlineWords [] line = args := by
  induction spelt with
  | @last lead arg trail blank plain after =>
    rw [inlineWords_blank blank, inlineWords_word plain.2, List.nil_append]
    cases trail with
    | nil => simp [inlineWords, plain.1]
    | cons c trail =>
      have gap := inlineWords_gap plain.1 after (List.cons_ne_nil c trail) []
      rw [List.append_nil] at gap
      rw [gap]
      rfl
  | more blank plain between apart _ ih =>
    rw [inlineWords_blank blank, inlineWords_word plain.2, List.nil_append,
      inlineWords_gap plain.1 between apart, ih]

theorem Spells.ne_nil {line : Bytes} {args : List Bytes} (spelt : Spells line args) :
    args ≠ [] := by
  cases spelt <;> exact List.cons_ne_nil _ _

/-- A line starts with whitespace or with its first argument. -/
theorem Spells.head {line : Bytes} {args : List Bytes} (spelt : Spells line args) :
    ∃ c rest, line = c :: rest ∧
      (isSpace c ∨ ∃ arg ∈ args.head?, arg.head? = some c) := by
  have starts {lead arg : Bytes} (args : List Bytes) (rest : Bytes) (blank : Blank lead)
      (plain : Plain arg) : ∃ c behind, lead ++ (arg ++ rest) = c :: behind ∧
        (isSpace c ∨ ∃ a ∈ (arg :: args).head?, a.head? = some c) := by
    cases lead with
    | cons c lead => exact ⟨c, _, rfl, .inl (blank c List.mem_cons_self)⟩
    | nil =>
      obtain ⟨c, tail, rfl⟩ := List.exists_cons_of_ne_nil plain.1
      exact ⟨c, _, rfl, .inr ⟨c :: tail, rfl, rfl⟩⟩
  cases spelt with
  | last blank plain after => exact starts [] _ blank plain
  | more blank plain between apart rest => exact starts _ _ blank plain

end Irsp1Codec

open Irsp1Codec

/-! ### What the dispatcher answers with an error of the protocol -/

/-- An error of the protocol, as opposed to an error of one command. -/
def IrspValue.Fatal : IrspValue → Prop
  | .error code _ => code = ascii "PROTOCOL_ERROR" ∨ code = ascii "UNSUPPORTED_VERSION"
  | _ => False

instance IrspValue.decidableFatal : DecidablePred IrspValue.Fatal
  | .error code _ => inferInstanceAs
      (Decidable (code = ascii "PROTOCOL_ERROR" ∨ code = ascii "UNSUPPORTED_VERSION"))
  | .null | .simple _ | .integer _ | .bulk _ | .array _ | .map _ =>
    inferInstanceAs (Decidable False)

/-- `HELLO` with another version than 1. -/
def IrspValue.WrongVersion (request : IrspValue) : Prop :=
  request.words.head?.map toUpper = some (ascii "HELLO") ∧
    ∃ version ∈ request.words[1]?, version ≠ ascii "1"

/-- A request that is no command at all, or asks for a version that is not spoken. -/
def IrspValue.Rejected (request : IrspValue) : Prop :=
  request.words = [] ∨ request.WrongVersion

/-- The codes of the errors of the protocol. -/
def fatalCodes : List Bytes := [ascii "PROTOCOL_ERROR", ascii "UNSUPPORTED_VERSION"]

theorem IrspValue.not_fatal_makeError {code : String} (message : String)
    (other : ascii code ∉ fatalCodes) : ¬(makeError code message).Fatal := by
  rintro (same | same)
  · exact other (same ▸ List.mem_cons_self)
  · exact other (same ▸ List.mem_cons_of_mem _ List.mem_cons_self)

namespace Dispatcher

open IrspValue

variable {ω : Type*} (tags : TagSource ω) (writer : Option (TagWriter ω)) (d : Dispatcher)
  (session : Session) (store : ω)

theorem getTag_not_fatal (topic : Bytes) : ¬(getTag tags store topic).Fatal := by
  unfold getTag
  cases tags.read store topic with
  | none => exact not_false
  | some tag => exact not_false

theorem scan_not_fatal (args : List Bytes) : ¬(scan tags store args).Fatal := by
  have run (cursor pattern : Bytes) (count : UInt64) :
      ¬(if !TopicMatcher.isValidPattern pattern then makeError "ERR" "invalid scan pattern"
        else .array [.bulk (tags.scan store cursor pattern count).nextCursor,
          .array ((tags.scan store cursor pattern count).names.map .bulk)] : IrspValue).Fatal := by
    split
    · exact not_fatal_makeError _ (by decide)
    · exact not_false
  unfold scan
  split
  · exact run _ _ _
  · split
    · exact not_fatal_makeError _ (by decide)
    · split
      · exact not_fatal_makeError _ (by decide)
      · exact run _ _ _
  · exact not_fatal_makeError _ (by decide)

theorem subscribeCommand_not_fatal (id : SubscriberId) (accepts : Bytes → Bool)
    (arity invalid : String) (args : List Bytes) :
    ¬(d.subscribeCommand id accepts arity invalid args).1.Fatal := by
  unfold subscribeCommand
  split
  · exact not_fatal_makeError arity (by decide)
  · split
    · exact not_fatal_makeError invalid (by decide)
    · exact not_false

theorem subEvent_not_fatal (id : SubscriberId) (args : List Bytes) :
    ¬(d.subEvent id args).1.Fatal := by
  unfold subEvent
  cases args with
  | nil => exact not_false
  | cons severity rest =>
    dsimp only
    split
    · exact not_fatal_makeError _ (by decide)
    · exact not_false

theorem set_not_fatal (args : List Bytes) : ¬(set writer store args).1.Fatal := by
  unfold set
  split
  · split
    · exact not_fatal_makeError _ (by decide)
    · dsimp only
      split
      · exact not_false
      · exact not_fatal_makeError _ (by decide)
      · exact not_fatal_makeError _ (by decide)
  · exact not_fatal_makeError _ (by decide)

/-- The reply is no error of the protocol. -/
def Tolerant (r : Handled ω) : Prop := ¬r.reply.Fatal

theorem Answers.not_fatal {word : Bytes} {args : List Bytes} {reply : IrspValue}
    (answers : Answers tags store word args reply) : ¬reply.Fatal := by
  have other : ∀ r ∈ refusals, ascii r.1 ∉ fatalCodes := by decide
  cases answers with
  | refusal listed => exact not_fatal_makeError _ (other _ listed)
  | get topic => exact getTag_not_fatal tags store topic
  | scan => exact scan_not_fatal tags store args
  | unknown => exact not_or.mpr ⟨by decide, by decide⟩
  | _ => exact not_false

theorem command_tolerant (word : Bytes) (args : List Bytes) :
    Tolerant (command tags writer d session store word args) := by
  obtain ⟨f, same, branch⟩ := command_branch tags writer session store word args
  rw [same]
  cases branch with
  | answer answers => exact answers.not_fatal
  | watch => exact subscribeCommand_not_fatal d _ _ _ _ args
  | subscribe => exact subscribeCommand_not_fatal d _ _ _ _ args
  | unsubscribe => exact not_false
  | subEvent => exact subEvent_not_fatal d _ args
  | unsubEvent => exact not_false
  | set => exact set_not_fatal writer store args

theorem hello_fatal_iff (args : List Bytes) :
    (hello session args).1.Fatal ↔ ∃ version ∈ args.head?, version ≠ ascii "1" := by
  cases args with
  | nil =>
    have missing : ¬(hello session []).1.Fatal := by
      simp only [hello]
      decide
    simp [missing]
  | cons version rest =>
    by_cases spoken : version = ascii "1"
    · simp [hello, spoken, helloReply, Fatal]
    · have refused : (makeError "UNSUPPORTED_VERSION" "only version 1 is supported").Fatal :=
        .inr rfl
      simp [hello, spoken, refused]

/-- The dispatcher answers with an error of the protocol just to what it rejects. -/
theorem handle_fatal_iff (request : IrspValue) :
    (handle tags writer d session store request).reply.Fatal ↔ request.Rejected := by
  cases spelt : request.words with
  | nil =>
    obtain ⟨message, -, refused⟩ := handle_malformed ω session spelt
    rw [refused]
    exact iff_of_true (.inl rfl) (.inl spelt)
  | cons word args =>
    have rejected : request.Rejected ↔
        toUpper word = ascii "HELLO" ∧ ∃ version ∈ args.head?, version ≠ ascii "1" := by
      simp [Rejected, WrongVersion, spelt, List.head?_eq_getElem?]
    rw [rejected]
    by_cases named : toUpper word = ascii "HELLO"
    · rw [handle_greeting tags writer d session store spelt named, hello_fatal_iff]
      exact (and_iff_right named).symm
    · apply iff_of_false _ (fun rejected => named rejected.1)
      cases greeted : session.hello with
      | false =>
        rw [handle_notReady tags writer d session store spelt named greeted]
        exact not_fatal_makeError _ (by decide)
      | true =>
        rw [handle_command tags writer d session store spelt named greeted]
        exact command_tolerant tags writer d session store word args

end Dispatcher

namespace IrspServer

open IrspValue

variable {ω : Type*}

section

variable (mem : Heap) (tags : TagSource ω) (writer : Option (TagWriter ω)) (d : Dispatcher)
  (conn : Conn) (store : ω)

/-! ### One frame is one request -/

/-- The frame reaches `Dispatcher.handle`. -/
def Passes (frame : Bytes) : Prop :=
  ∃ request, parseFrame mem frame = .ok (.request request)

/-- The connection after a frame that is answered with `PROTOCOL_ERROR`. -/
def refused (conn : Conn) : Conn :=
  { conn with
    outbox := conn.outbox ++ [encode (makeError "PROTOCOL_ERROR" "bad frame")]
    closeAfterWrite := true }

/-- A frame is a request when it is one encoded value, and is refused otherwise. -/
structure OneRequest (frame : Bytes) : Prop where
  passes : Passes mem frame ↔ Whole mem frame
  refuses : ¬Whole mem frame →
    processFrame mem tags writer d conn store frame = .ok (refused conn, d, store)

theorem parseFrame_encoded {frame : Bytes} (encoded : frame.head? = some 42) :
    parseFrame mem frame = (decode mem frame).map fun dec =>
      if dec.status ≠ .ok then .malformed else .request dec.value := by
  obtain ⟨rest, rfl⟩ := List.head?_eq_some_iff.mp encoded
  rfl

/-- The decoder answers, and what it reads is not followed by other bytes. -/
theorem one_request_iff (frame : Bytes) (encoded : frame.head? = some 42) :
    OneRequest mem tags writer d conn store frame ↔
      (∃ dec, decode mem frame = .ok dec) ∧
        ¬∃ part, part <+: frame ∧ part ≠ frame ∧ Whole mem part := by
  have parsed := parseFrame_encoded mem encoded
  cases decoded : decode mem frame with
  | error e =>
    have not_whole : ¬Whole mem frame := by
      rintro ⟨v, whole⟩
      rw [decoded] at whole
      cases whole
    constructor
    · rintro ⟨-, refuses⟩
      have answered := refuses not_whole
      rw [processFrame, parsed, decoded] at answered
      cases answered
    · rintro ⟨⟨dec, answers⟩, -⟩
      cases answers
  | ok dec =>
    rw [decoded] at parsed
    obtain ⟨status, value, consumed⟩ := dec
    by_cases good : status = .ok
    · subst good
      have passes : Passes mem frame := ⟨value, parsed⟩
      rw [prefix_whole_iff decoded]
      have whole : Whole mem frame ↔ consumed = frame.length := by
        rw [Whole, decoded]
        simp
      constructor
      · intro one
        exact ⟨⟨_, rfl⟩, not_not.mpr (whole.mp (one.passes.mp passes))⟩
      · rintro ⟨-, all⟩
        have whole := whole.mpr (not_not.mp all)
        exact ⟨iff_of_true passes whole, fun cut => absurd whole cut⟩
    · have not_whole : ¬Whole mem frame := by
        rintro ⟨v, whole⟩
        rw [decoded] at whole
        simp only [Except.ok.injEq, DecodeResult.mk.injEq] at whole
        exact good whole.1
      have malformed : parseFrame mem frame = .ok .malformed := by
        rw [parsed]
        simp [Except.map, good]
      apply iff_of_true
      · constructor
        · apply iff_of_false _ not_whole
          rintro ⟨request, passed⟩
          rw [malformed] at passed
          cases passed
        · intro _
          rw [processFrame, malformed]
          rfl
      · refine ⟨⟨_, rfl⟩, ?_⟩
        rintro ⟨part, ⟨rest, rfl⟩, -, v, whole⟩
        have longer := decode_append mem part rest (by simp [whole])
        rw [whole, decoded] at longer
        simp only [Except.ok.injEq, DecodeResult.mk.injEq] at longer
        exact good longer.1

/-- A refused frame, on a fresh connection. -/
theorem one_request_iff_refused :
    OneRequest x64Limits Service.noTags none .empty ⟨⟨1, false⟩, [], [], false⟩ ()
      (ascii "*x" ++ crlf) := by
  apply (one_request_iff x64Limits Service.noTags none .empty ⟨⟨1, false⟩, [], [], false⟩ ()
    (ascii "*x" ++ crlf) rfl).mpr
  refine ⟨⟨_, rfl⟩, ?_⟩
  rintro ⟨part, cut, -, v, whole⟩
  obtain ⟨rest, same⟩ := cut
  have longer := decode_append x64Limits part rest (by simp [whole])
  rw [same, whole] at longer
  cases longer

/-- Two commands in one frame: the second one is dropped in silence. -/
def pipelined : Bytes := encode (Service.command ["PING"]) ++ encode (Service.command ["BYE"])

theorem not_one_request :
    ¬OneRequest x64Limits Service.noTags none .empty ⟨⟨1, true⟩, [], [], false⟩ () pipelined := by
  intro one
  obtain ⟨v, whole⟩ := one.passes.mp ⟨Service.command ["PING"], rfl⟩
  cases whole

/-! ### Which frames close the connection -/

/-- The reply to a frame, if it gets one. -/
def reply : Frame → Option IrspValue
  | .ignored => none
  | .malformed => some (makeError "PROTOCOL_ERROR" "bad frame")
  | .request value => some (d.handle tags writer conn.session store value).reply

/-- The frame is a `BYE`, in any letter case. -/
def Leaves : Frame → Prop
  | .request value => isByeCommand value
  | _ => False

/-- What the error model asks of a processed frame: the connection closes after an error of the
protocol and after a `BYE`, and every frame that is not blank has one reply. -/
structure Policy (frame : Bytes) (parsed : Frame) (after : Conn × Dispatcher × ω) : Prop where
  closes : after.1.closeAfterWrite ↔ conn.closeAfterWrite ∨
    (∃ answer ∈ reply tags writer d conn store parsed, answer.Fatal) ∨ Leaves parsed
  appends : after.1.outbox =
    conn.outbox ++ (reply tags writer d conn store parsed).toList.map encode
  answers : reply tags writer d conn store parsed = none ↔ Blank frame

def ClosingPolicy (frame : Bytes) : Prop :=
  ∃ parsed after, parseFrame mem frame = .ok parsed ∧
    processFrame mem tags writer d conn store frame = .ok after ∧
      Policy tags writer d conn store frame parsed after

theorem dispatch_outbox (parsed : Frame) :
    (dispatch tags writer d conn store parsed).1.outbox =
      conn.outbox ++ (reply tags writer d conn store parsed).toList.map encode := by
  cases parsed with
  | ignored => exact (List.append_nil _).symm
  | malformed => rfl
  | request value => rfl

/-- A frame is ignored when it holds nothing but whitespace. -/
theorem parseFrame_ignored_iff {frame : Bytes} {parsed : Frame}
    (h : parseFrame mem frame = .ok parsed) : parsed = .ignored ↔ Blank frame := by
  cases frame with
  | nil =>
    obtain rfl := Except.ok.inj h
    exact iff_of_true rfl (fun c hc => absurd hc List.not_mem_nil)
  | cons c rest =>
    rw [parseFrame] at h
    split_ifs at h with star
    · have letter : ¬Blank (c :: rest) := by
        intro blank
        have space := blank c List.mem_cons_self
        rw [star] at space
        exact absurd space (by decide)
      cases decoded : decode mem (c :: rest) with
      | error e => simp [decoded, Except.map] at h
      | ok dec =>
        rw [decoded] at h
        obtain rfl := Except.ok.inj h
        apply iff_of_false _ letter
        dsimp only
        split <;> simp
    · have words := inlineWords_eq_nil_iff [] (c :: rest)
      simp only [true_and] at words
      rw [← words]
      cases read : inlineWords [] (c :: rest) with
      | nil =>
        simp only [decodeInline, read, List.map_nil] at h
        obtain rfl := Except.ok.inj h
        exact iff_of_true rfl rfl
      | cons word args =>
        simp only [decodeInline, read, List.map_cons] at h
        obtain rfl := Except.ok.inj h
        simp

theorem reply_eq_none_iff (parsed : Frame) :
    reply tags writer d conn store parsed = none ↔ parsed = .ignored := by
  cases parsed with
  | ignored => exact iff_of_true rfl rfl
  | malformed => simp [reply]
  | request value => simp [reply]

/-- Each frame follows the error model, unless it makes the decoder raise or is a request that
the dispatcher refuses with an error of the protocol: only `processFrame` closes connections. -/
theorem closing_policy_iff (frame : Bytes) :
    ClosingPolicy mem tags writer d conn store frame ↔
      ∃ parsed, parseFrame mem frame = .ok parsed ∧
        ∀ request, parsed = .request request → request.Rejected →
          isByeCommand request ∨ conn.closeAfterWrite := by
  constructor
  · rintro ⟨parsed, after, h, processed, policy⟩
    refine ⟨parsed, h, ?_⟩
    rintro request rfl rejected
    rw [processFrame, h] at processed
    obtain rfl := Except.ok.inj processed
    have fatal := (d.handle_fatal_iff tags writer conn.session store request).mpr rejected
    have closing := policy.closes.mpr (.inr (.inl ⟨_, rfl, fatal⟩))
    simpa [dispatch] using closing
  · rintro ⟨parsed, h, accepted⟩
    refine ⟨parsed, dispatch tags writer d conn store parsed, h, ?_, ?_, ?_, ?_⟩
    · rw [processFrame, h]
      rfl
    · cases parsed with
      | ignored => simp [dispatch, reply, Leaves]
      | malformed =>
        apply iff_of_true rfl
        exact .inr (.inl ⟨_, rfl, .inl rfl⟩)
      | request request =>
        have fatal := d.handle_fatal_iff tags writer conn.session store request
        have known := accepted request rfl
        simp only [dispatch, reply, Leaves, Option.mem_some_iff, exists_eq_left', fatal,
          Bool.or_eq_true]
        tauto
    · exact dispatch_outbox tags writer d conn store parsed
    · exact (reply_eq_none_iff tags writer d conn store parsed).trans
        (parseFrame_ignored_iff mem h)

/-- The version is refused and the connection stays open. -/
theorem not_closing_policy :
    ¬ClosingPolicy x64Limits Service.noTags none .empty ⟨⟨1, false⟩, [], [], false⟩ ()
      (ascii "HELLO 2") := by
  rintro ⟨parsed, after, h, processed, policy⟩
  obtain rfl := Except.ok.inj h
  obtain rfl := Except.ok.inj processed
  have closing := policy.closes.mpr (.inr (.inl ⟨_, rfl, .inr rfl⟩))
  cases closing

/-! ### Frames that raise -/

/-- An encoded frame that the decoder does not read is answered with `PROTOCOL_ERROR`. -/
def RefusesBad (frame : Bytes) : Prop :=
  frame.head? = some 42 → (¬∃ v n, decode mem frame = .ok ⟨.ok, v, n⟩) →
    processFrame mem tags writer d conn store frame = .ok (refused conn, d, store)

theorem refusesBad_of_returns {frame : Bytes} (returns : ∃ dec, decode mem frame = .ok dec) :
    RefusesBad mem tags writer d conn store frame := by
  intro encoded bad
  obtain ⟨⟨status, value, consumed⟩, decoded⟩ := returns
  have fails : status ≠ .ok := by
    rintro rfl
    exact bad ⟨value, consumed, decoded⟩
  rw [processFrame, parseFrame_encoded mem encoded, decoded]
  simp only [Except.map, fails, ne_eq, not_false_eq_true, if_true]
  rfl

/-- The decoder returns, and what it cannot read is refused, unless the frame asks for memory
that the heap refuses. -/
theorem decode_returns_iff (b : Bytes) :
    ((∃ dec, decode mem b = .ok dec) ∧ RefusesBad mem tags writer d conn store b) ↔
      ¬Starves mem b := by
  rw [← decode_raises_iff]
  constructor
  · rintro ⟨⟨dec, decoded⟩, -⟩ ⟨e, raised⟩
    rw [raised] at decoded
    cases decoded
  · intro quiet
    have returns : ∃ dec, decode mem b = .ok dec := by
      cases decoded : decode mem b with
      | ok dec => exact ⟨dec, rfl⟩
      | error e => exact absurd ⟨e, decoded⟩ quiet
    exact ⟨returns, refusesBad_of_returns mem tags writer d conn store returns⟩

/-- Far below `max_size()` it is the allocator that refuses. -/
example : decode ⟨x64Limits, fun _ r => r.size < 2 ^ 32⟩ (ascii "*100000000000" ++ crlf) =
    .error .badAlloc := by rfl

/-- An array of as many elements as an `int64_t` can count. -/
def overlongFrame : Bytes := ascii "*9223372036854775807" ++ crlf

theorem not_decode_returns :
    ¬(∃ dec, decode x64Limits overlongFrame = .ok dec) ∧
      ¬∃ after, processFrame x64Limits Service.noTags none .empty ⟨⟨1, false⟩, [], [], false⟩ ()
        overlongFrame = .ok after := by
  constructor
  · rintro ⟨dec, returns⟩
    cases returns
  · rintro ⟨after, returns⟩
    cases returns

end

/-! ### Inline and encoded requests -/

variable (lim : VectorLimits) (tags : TagSource ω) (writer : Option (TagWriter ω))
  (d : Dispatcher) (conn : Conn) (store : ω)

theorem parseFrame_encode {args : List Bytes}
    (stored : (IrspValue.array (args.map .bulk)).InMemory lim) :
    parseFrame lim (encode (.array (args.map .bulk))) =
      .ok (.request (.array (args.map .bulk))) := by
  have lined : (IrspValue.array (args.map .bulk)).Lined := by
    apply lined_array
    intro v given
    obtain ⟨arg, -, rfl⟩ := List.mem_map.mp given
    exact lined_bulk arg
  have round := faithful_of_lined lined stored
  have starts : (encode (.array (args.map .bulk))).head? = some 42 := by
    simp [encode, ascii]
  rw [parseFrame_encoded lim starts, round]
  rfl

theorem parseFrame_spells {line : Bytes} {args : List Bytes} (spelt : Spells line args)
    (command : ∀ arg ∈ args.head?, arg.head? ≠ some 42) :
    parseFrame lim line = .ok (.request (.array (args.map .bulk))) := by
  obtain ⟨c, rest, rfl, first⟩ := spelt.head
  have inline : c ≠ 42 := by
    rintro rfl
    obtain space | ⟨arg, given, star⟩ := first
    · exact absurd space (by decide)
    · exact command arg given star
  have words := spelt.inlineWords_eq
  obtain ⟨word, args, rfl⟩ := List.exists_cons_of_ne_nil spelt.ne_nil
  rw [parseFrame, if_neg inline]
  simp only [decodeInline, words, List.map_cons]

/-- A line and the encoded array of its arguments are processed alike: the same reply, the
same mark for closing, the same session, subscriptions and store. -/
theorem inline_agrees {line : Bytes} {args : List Bytes} (spelt : Spells line args)
    (command : ∀ arg ∈ args.head?, arg.head? ≠ some 42)
    (stored : (IrspValue.array (args.map .bulk)).InMemory lim) :
    ∃ after, processFrame lim tags writer d conn store line = .ok after ∧
      processFrame lim tags writer d conn store (encode (.array (args.map .bulk))) =
        .ok after := by
  refine ⟨dispatch tags writer d conn store (.request (.array (args.map .bulk))), ?_, ?_⟩
  · rw [processFrame, parseFrame_spells lim spelt command]
    rfl
  · rw [processFrame, parseFrame_encode lim stored]
    rfl

/-- ` hello\t 1\r\n` and its encoding, on a fresh connection: both are answered with the
server's map, and the session is greeted. -/
theorem inline_agrees_hello :
    ∃ after, processFrame x64Limits Service.noTags none .empty ⟨⟨1, false⟩, [], [], false⟩ ()
        (ascii " " ++ (ascii "hello" ++ (ascii "\t " ++ ([] ++ (ascii "1" ++ crlf))))) =
          .ok after ∧
      processFrame x64Limits Service.noTags none .empty ⟨⟨1, false⟩, [], [], false⟩ ()
        (encode (.array ([ascii "hello", ascii "1"].map .bulk))) = .ok after ∧
      after.1.session = ⟨1, true⟩ ∧ after.1.outbox = [encode Dispatcher.helloReply] ∧
      after.1.closeAfterWrite = false := by
  have spelt : Spells (ascii " " ++ (ascii "hello" ++ (ascii "\t " ++ ([] ++ (ascii "1" ++ crlf)))))
      [ascii "hello", ascii "1"] := by
    apply Spells.more (by decide) (by decide) (by decide) (by decide)
    exact Spells.last (by decide) (by decide) (by decide)
  have stored : (IrspValue.array ([ascii "hello", ascii "1"].map .bulk)).InMemory x64Limits := by
    refine ⟨by decide, ?_⟩
    intro v given
    simp only [IrspValue.children, List.map_cons, List.map_nil, List.mem_cons, List.not_mem_nil,
      or_false] at given
    obtain rfl | rfl := given
    · exact ⟨by decide, fun w nested => absurd nested List.not_mem_nil⟩
    · exact ⟨by decide, fun w nested => absurd nested List.not_mem_nil⟩
  obtain ⟨after, typed, encoded⟩ := inline_agrees x64Limits Service.noTags none .empty
    ⟨⟨1, false⟩, [], [], false⟩ () spelt (by decide) stored
  refine ⟨after, typed, encoded, ?_⟩
  rw [processFrame, parseFrame_spells x64Limits spelt (by decide)] at typed
  obtain rfl := Except.ok.inj typed
  exact ⟨rfl, rfl, rfl⟩

end IrspServer

end IndustrialRuntime.Irsp
