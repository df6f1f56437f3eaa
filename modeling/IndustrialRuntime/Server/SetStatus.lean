import IndustrialRuntime.Server.WriteBack

namespace IndustrialRuntime.Irsp

open IndustrialRuntime.Core

def IrspValue.HasCode (reply : IrspValue) (code : String) : Prop :=
  ∃ message, reply = .error (ascii code) message

namespace Backend

variable {hash : Bytes → UInt64}

/-- The status of a `SET` says what became of the write: `run` is how the call
of a registered handler ends. -/
structure Truthful (host : PluginHost) (run : WriteReg → Outcome) (name : Bytes)
    (reply : IrspValue) : Prop where
  ok : reply = .simple (ascii "OK") ↔ ∃ reg, host.Responsible name reg ∧ (run reg).Positive
  notFound : reply.HasCode "NOT_FOUND" ↔ ∀ reg ∈ host.writers, ¬reg.topicPrefix <+: name
  failed : ∀ reg, host.Responsible name reg → (run reg).Failed → reply.HasCode "ERR"

theorem truthful_unrouted {host : PluginHost} {name : Bytes}
    (unrouted : ∀ reg ∈ host.writers, ¬reg.topicPrefix <+: name) (run : WriteReg → Outcome) :
    Truthful host run name (makeError "NOT_FOUND" "no writer for topic") where
  ok := by
    constructor
    · intro same
      contradiction
    · rintro ⟨reg, responsible, -⟩
      exact absurd responsible.matching (unrouted reg responsible.registered)
  notFound := ⟨fun _ => unrouted, fun _ => ⟨_, rfl⟩⟩
  failed reg responsible _ :=
    absurd responsible.matching (unrouted reg responsible.registered)

theorem truthful_accepted {host : PluginHost} {name : Bytes} {reg : WriteReg}
    {run : WriteReg → Outcome} (distinct : host.Distinct) (responsible : host.Responsible name reg)
    (positive : (run reg).Positive) : Truthful host run name (.simple (ascii "OK")) where
  ok := ⟨fun _ => ⟨reg, responsible, positive⟩, fun _ => rfl⟩
  notFound := by
    constructor
    · rintro ⟨message, same⟩
      contradiction
    · intro unrouted
      exact absurd responsible.matching (unrouted reg responsible.registered)
  failed other other_responsible failed := by
    obtain rfl := responsible.unique distinct other_responsible
    cases outcome : run reg with
    | returned value =>
      rw [outcome] at positive failed
      have up : 0 < value := positive
      have down : value < 0 := failed
      exact absurd down (Int32.lt_asymm up)
    | threw =>
      rw [outcome] at positive
      exact positive.elim

/-- A responsible handler that did not accept is reported as nobody's. -/
theorem not_truthful_refused {host : PluginHost} {name : Bytes} {reg : WriteReg}
    (responsible : host.Responsible name reg) (run : WriteReg → Outcome) :
    ¬Truthful host run name (makeError "NOT_FOUND" "no writer for topic") := by
  intro truthful
  have unrouted := truthful.notFound.mp ⟨_, rfl⟩
  exact unrouted reg responsible.registered responsible.matching

/-- The reply to `SET name type value` of a greeted session. -/
def setReply (code : Handler → IrPluginWriteFn hash) (clock : Timestamp) (d : Dispatcher)
    (session : Session) (b : Backend hash) (name type value : Bytes) : IrspValue :=
  (Dispatcher.handle (tagSource hash) (some (tagWriter code clock)) d session b
    (Dispatcher.commandLine (ascii "SET") [name, type, value])).reply

/-- `SET` tells the truth exactly when the responsible handler, if there is one,
returns a positive result. -/
theorem set_truthful_iff (code : Handler → IrPluginWriteFn hash) (clock : Timestamp)
    (d : Dispatcher) (session : Session) (greeted : session.hello) (b : Backend hash)
    (distinct : b.host.Distinct) (name type value : Bytes) (v : Variant)
    (converts : CoreTagWriter.toVariant type value = some v) :
    let run := fun reg => (b.call code reg (TagValue.of name v clock)).1
    Truthful b.host run name (setReply code clock d session b name type value) ↔
      ∀ reg, b.host.Responsible name reg → (run reg).Positive := by
  intro run
  unfold setReply
  rw [Dispatcher.handle_set _ _ _ _ greeted]
  cases selected : b.host.select name with
  | none =>
    have unrouted := PluginHost.not_matching_of_select selected
    have written : tagWriter code clock b name type value = (.notHandled, b) :=
      tagWriter_unrouted converts selected
    simp only [Dispatcher.set, written]
    refine ⟨fun _ reg responsible => ?_, fun _ => truthful_unrouted unrouted run⟩
    exact absurd responsible.matching (unrouted reg responsible.registered)
  | some reg =>
    have responsible := PluginHost.responsible_of_select selected
    have written : tagWriter code clock b name type value = _ :=
      tagWriter_routed converts selected
    by_cases positive : (run reg).Positive
    · have accepted : (b.call code reg (TagValue.of name v clock)).1.Positive := positive
      simp only [Dispatcher.set, written, accepted, if_true]
      refine ⟨fun _ other other_responsible => ?_,
        fun _ => truthful_accepted distinct responsible positive⟩
      rwa [← responsible.unique distinct other_responsible]
    · have refused : ¬(b.call code reg (TagValue.of name v clock)).1.Positive := positive
      simp only [Dispatcher.set, written, refused, if_false]
      refine ⟨fun truthful => ?_, fun all => absurd (all reg responsible) positive⟩
      exact absurd truthful (not_truthful_refused responsible run)

/-- A device that refuses with the error result -1. -/
def refusing : Handler → IrPluginWriteFn (fun _ => 0) := fun _ _ _ b => (.returned (-1), b)

/-- The responsible handler reports an error, and the client reads that no
writer is registered. -/
theorem not_set_truthful :
    ¬Truthful oneWriter.host
      (fun reg => (oneWriter.call refusing reg (TagValue.of (ascii "a/x") (.int8 5) 0)).1)
      (ascii "a/x")
      (setReply refusing 0 .empty ⟨1, true⟩ oneWriter (ascii "a/x") (ascii "i8") [5]) := by
  have selected : oneWriter.host.select (ascii "a/x") = some ⟨ascii "a/", 0, ⟨1, 0⟩, 1⟩ := by
    decide
  have responsible := PluginHost.responsible_of_select selected
  have reply : setReply refusing 0 .empty ⟨1, true⟩ oneWriter (ascii "a/x") (ascii "i8") [5] =
      makeError "NOT_FOUND" "no writer for topic" := rfl
  rw [reply]
  exact not_truthful_refused responsible _

/-- A handler that accepts. -/
def accepting : Handler → IrPluginWriteFn (fun _ => 0) := fun _ _ _ b => (.returned 1, b)

theorem set_truthful_accepting :
    Truthful oneWriter.host
      (fun reg => (oneWriter.call accepting reg (TagValue.of (ascii "a/x") (.int8 5) 0)).1)
      (ascii "a/x")
      (setReply accepting 0 .empty ⟨1, true⟩ oneWriter (ascii "a/x") (ascii "i8") [5]) := by
  have distinct : oneWriter.host.Distinct := List.nodup_singleton _
  apply (set_truthful_iff accepting 0 .empty ⟨1, true⟩ rfl oneWriter distinct (ascii "a/x")
    (ascii "i8") [5] (.int8 5) rfl).mpr
  intro reg _
  show (0 : Int32) < 1
  decide

end Backend

end IndustrialRuntime.Irsp
