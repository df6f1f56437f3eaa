import IndustrialRuntime.Sdk.ClientLink

namespace IndustrialRuntime.Sdk

open Irsp Irsp.Traced Irsp.IrspValue

/-! ### What the client understands -/

/-- The exchanges whose reply a Python client drops. -/
def Exchange.Garbled (x : Exchange) : Prop :=
  ∃ request, x.frame = .request request ∧ Sdk.Garbled x.session request

namespace Link

variable {ω : Type*} {K : Type} [DecidableEq K] {binding : Binding K} {lost : Exchange → Prop}
  {s : Link ω K}

/-- Requests are on their way as they were asked, each frame back decodes or belongs to an exchange
of its call, and no call is answered twice. -/
structure Linked (binding : Binding K) (lost : Exchange → Prop) (s : Link ω K) : Prop where
  coherent : IrspClient.Coherent binding s.client
  peers : ∀ i, ∀ c ∈ s.peer i, i < s.client.connections ∧ c < s.server.server.nextConnId
  empty : ∀ i, ∀ c ∈ s.peer i, ∀ conn ∈ s.server.server.conns c, conn.rx = []
  spelt : ∀ i, ∀ e ∈ (s.client.sockets i).requests,
    e.2 = Irsp1Codec.encode (requestOf (s.asked e.1))
  pushes : ∀ i, ∀ e ∈ (s.client.sockets i).frames, e.1 = none → (binding.decode e.2).isOk = true
  replies : ∀ i, ∀ e ∈ (s.client.sockets i).frames, ∀ id ∈ e.1,
    ∃ x ∈ s.exchanges, x.call = id ∧ e.2 = Irsp1Codec.encode x.reply
  settled : ∀ st ∈ s.client.settled, ∀ id ∈ st.request, ∃ x ∈ s.exchanges, x.call = id ∧
    binding.decode (Irsp1Codec.encode x.reply) = .ok st.value
  made : ∀ x ∈ s.exchanges, x.call < s.client.next ∧
    x.frame = .request (requestOf (s.asked x.call)) ∧
    ((binding.decode (Irsp1Codec.encode x.reply)).isOk = true ↔ ¬lost x)
  once : (s.exchanges.map Exchange.call).Nodup
  taken : ∀ x ∈ s.exchanges, ∀ i, x.call ∉ (s.client.sockets i).requests.map Prod.fst

/-- Each call has its own reply, and in the order in which the calls were made. -/
structure Answered (binding : Binding K) (s : Link ω K) : Prop where
  correlated : s.client.Correlated
  own : ∀ st ∈ s.client.settled, ∃ x ∈ s.exchanges, x.call = st.entry ∧
    x.frame = .request (requestOf (s.asked st.entry)) ∧
    binding.decode (Irsp1Codec.encode x.reply) = .ok st.value
  once : (s.exchanges.map Exchange.call).Nodup

theorem Linked.answered_iff (inv : Linked binding lost s) :
    s.Answered binding ↔ s.client.Correlated := by
  constructor
  · exact Answered.correlated
  · intro right
    refine ⟨right, fun st found => ?_, inv.once⟩
    obtain ⟨x, made, call, value⟩ := inv.settled st found st.entry (right.own st found)
    have frame := (inv.made x made).2.1
    rw [call] at frame
    exact ⟨x, made, call, frame, value⟩

/-! ### The steps of the client -/

/-- A reply is not lost, and every call that waits on another connection is younger; no push
handler raises whose exception would clear a queue that is not empty. -/
def InOrderFrame (binding : Binding K) (lost : Exchange → Prop) (s : Link ω K) (i : Nat)
    (raised : Bool) : Option Nat × Bytes → Prop
  | (some id, _) => (∀ x ∈ s.exchanges, x.call = id → ¬lost x) ∧
    ∀ other ∈ s.client.pending, other ∉ (s.client.sockets i).ids → id < other
  | (none, _) => binding.fragile = true → raised = true → s.client.pending = []

/-- The steps that keep the replies with their calls: those of the client that do. -/
def InOrder (binding : Binding K) (lost : Exchange → Prop) (s : Link ω K) :
    LinkAction ω → Prop
  | .client (.receive i raised) =>
    ∀ e ∈ (s.client.sockets i).frames.head?, s.InOrderFrame binding lost i raised e
  | .client a => s.client.Orderly binding a
  | _ => True

instance decidableInOrderFrame [DecidablePred lost] (i : Nat) (raised : Bool) :
    DecidablePred (s.InOrderFrame binding lost i raised)
  | (some id, _) => inferInstanceAs (Decidable ((∀ x ∈ s.exchanges, x.call = id → ¬lost x) ∧
      ∀ other ∈ s.client.pending, other ∉ (s.client.sockets i).ids → id < other))
  | (none, _) => inferInstanceAs (Decidable
      (binding.fragile = true → raised = true → s.client.pending = []))

instance decidableInOrder [DecidablePred lost] : DecidablePred (s.InOrder binding lost)
  | .client (.receive i raised) => inferInstanceAs (Decidable
      (∀ e ∈ (s.client.sockets i).frames.head?, s.InOrderFrame binding lost i raised e))
  | .client (.call parts accepted) =>
    inferInstanceAs (Decidable (s.client.Orderly binding (.call parts accepted)))
  | .client (.ended i) => inferInstanceAs (Decidable (s.client.Orderly binding (.ended i)))
  | .client (.withdraw ..) => inferInstanceAs (Decidable False)
  | .client .connect | .client (.opened _) | .client (.cancel _) | .client (.answer ..)
  | .client (.push ..) | .client .close | .accept _ | .request .. | .server _ =>
    inferInstanceAs (Decidable True)

section

variable {tags : TagSource ω} {lim : Irsp1Codec.VectorLimits}

end

/-- A JavaScript client says `HELLO` and asks for events, of which one comes before the reply to its
next call. -/
def greeting : List (LinkAction Unit) :=
  [.client .connect, .accept 0, .client (.opened 0),
    .client (.call [some (.text "HELLO".toList), some (.text "1".toList)] true),
    .request 0 [] .error, .client (.receive 0 false),
    .client (.call [some (.text "SUBEVENT".toList)] true),
    .client (.call [some (.text "PING".toList)] true),
    .request 0 [] .error, .server (.onEvent ⟨ascii "plc", ascii "motor", [], .alarm, 7⟩),
    .request 0 [] .error, .client (.receive 0 false), .client (.receive 0 false),
    .client (.receive 0 false)]

end Link

end IndustrialRuntime.Sdk
