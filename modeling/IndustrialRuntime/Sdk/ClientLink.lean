import IndustrialRuntime.Sdk.ClientReplies
import IndustrialRuntime.Sdk.Correlation
import IndustrialRuntime.Server.Pushing

namespace IndustrialRuntime.Sdk

open Irsp Irsp.Traced

/-- A request that the server has answered: the call that it came from, and the session and the
frame that the reply was made for. -/
structure Exchange where
  call : Nat
  session : Session
  frame : Frame
  reply : IrspValue

/-- A client and the server, which may have other clients. `peer` is the connection of the server
at the other end of each connection of the client, `asked` are the arguments of each call. -/
structure Link (ω : Type*) (K : Type) where
  client : IrspClient K
  server : Traced ω
  peer : Nat → Option Nat
  asked : Nat → List Part
  exchanges : List Exchange

/-- The steps of the client, the opening of a connection of its own at the server, the arrival of
its oldest request there, and the other steps of the server. -/
inductive LinkAction (ω : Type*) where
  | client (a : ClientAction)
  | accept (i : Nat)
  | request (i : Nat) (pushes : List (ω × Bytes)) (result : WriteResult)
  | server (a : Traced.Action ω)

/-- Frames of the server are on their way, unless the connection has ended. -/
def Socket.arrive (k : Socket) (frames : List Bytes) : Socket :=
  if k.phase = .closed then k else { k with frames := k.frames ++ frames.map fun b => (none, b) }

def IrspClient.arrive {K : Type} (s : IrspClient K) (news : Nat → List Bytes) : IrspClient K :=
  { s with sockets := fun i => (s.sockets i).arrive (news i) }

/-- The steps of the client that are none of the server's. -/
def ClientAction.own : ClientAction → Bool
  | .answer .. | .push .. => false
  | _ => true

/-- The arguments of the call. -/
def ClientAction.parts : ClientAction → List Part
  | .call parts _ => parts.filterMap id
  | _ => []

/-- The request as the server reads it. -/
def requestOf (parts : List Part) : IrspValue := .array (parts.map fun p => .bulk p.sent)

namespace Link

variable {ω : Type*} {K : Type}

def initial (store : ω) : Link ω K := ⟨.initial, .initial store, fun _ => none, fun _ => [], []⟩

/-- What a step of the server appends to the outbox at the other end of each connection. -/
def news (s : Link ω K) (t : Traced ω) (i : Nat) : List Bytes :=
  match s.peer i with
  | none => []
  | some c =>
    (History.appended (t.history c)).drop (History.appended (s.server.history c)).length

/-- The bytes come from the client. -/
def brings (s : Link ω K) : Traced.Action ω → Bool
  | .receive c _ _ _ _ => (List.range s.client.connections).any fun i => s.peer i = some c
  | _ => false

def accept (s : Link ω K) (i : Nat) : Option (Link ω K) :=
  if i < s.client.connections ∧ s.peer i = none then
    some { s with
      server := { s.server with server := s.server.server.established }
      peer := Function.update s.peer i (some s.server.server.nextConnId) }
  else none

variable (tags : TagSource ω) (lim : Irsp1Codec.VectorLimits)

/-- The server has got so far, and what it pushed is on its way. -/
def pushed (s : Link ω K) (t : Traced ω) : Link ω K :=
  { s with client := s.client.arrive (s.news t), server := t }

/-- The reply is on its way, and the request no more. -/
def answered (s : Link ω K) (i : Nat) (x : Exchange) (t : Traced ω) : Link ω K :=
  let k := s.client.sockets i
  { s with
    client := s.client.setSocket i { k with
      requests := k.requests.tail
      frames := k.frames ++ [(some x.call, Irsp1Codec.encode x.reply)] }
    server := t
    exchanges := s.exchanges ++ [x] }

/-- The oldest request arrives, whole, and is answered. -/
def request (s : Link ω K) (i : Nat) (pushes : List (ω × Bytes)) (result : WriteResult) :
    Option (Link ω K) :=
  match s.peer i, (s.client.sockets i).requests with
  | some c, (id, bytes) :: _ =>
    let r := s.server.server.receive c bytes true
    match r.2 with
    | none => none
    | some (conn, frame) =>
      match IrspServer.parseFrame lim frame with
      | .error _ => none
      | .ok frame =>
        let entered := { s.server with server := r.1 }.entered tags c conn frame pushes result
        let result := (handlerCall conn frame pushes result).2
        match entered.server.conns c with
        | none => none
        | some conn =>
          (IrspServer.reply tags (returned result) entered.server.dispatcher conn entered.store
            frame).map fun reply =>
              (s.pushed entered).answered i ⟨id, conn.session, frame, reply⟩
                (entered.answer tags c frame result)
  | _, _ => none

/-- What it takes to answer a request. -/
theorem request_cases {s t : Link ω K} {i : Nat} {pushes : List (ω × Bytes)} {result : WriteResult}
    (next : s.request tags lim i pushes result = some t) :
    ∃ c id bytes rest conn frame parsed, s.peer i = some c ∧
      (s.client.sockets i).requests = (id, bytes) :: rest ∧
      (s.server.server.receive c bytes true).2 = some (conn, frame) ∧
      IrspServer.parseFrame lim frame = .ok parsed ∧
      let entered := { s.server with server := (s.server.server.receive c bytes true).1 }.entered
        tags c conn parsed pushes result
      let result := (handlerCall conn parsed pushes result).2
      ∃ conn' reply, entered.server.conns c = some conn' ∧
        IrspServer.reply tags (returned result) entered.server.dispatcher conn' entered.store
          parsed = some reply ∧
        t = (s.pushed entered).answered i ⟨id, conn'.session, parsed, reply⟩
          (entered.answer tags c parsed result) := by
  unfold request at next
  split at next
  · rename_i c id bytes rest peer requests
    dsimp only at next
    split at next
    · cases next
    · rename_i conn frame whole
      split at next
      · cases next
      · rename_i parsed read
        split at next
        · cases next
        · rename_i conn' found
          obtain ⟨reply, replied, same⟩ := Option.map_eq_some_iff.mp next
          exact ⟨c, id, bytes, rest, conn, frame, parsed, peer, requests, whole, read, conn',
            reply, found, replied, same.symm⟩
  · cases next

variable (binding : Binding K) [DecidableEq K]

def step (s : Link ω K) : LinkAction ω → Option (Link ω K)
  | .client a =>
    if a.own then
      (s.client.step binding a).map fun client =>
        { s with client := client, asked := Function.update s.asked s.client.next a.parts }
    else none
  | .accept i => s.accept i
  | .request i pushes result => s.request tags lim i pushes result
  | .server a =>
    if s.brings a then none
    else (s.server.step tags lim a).map s.pushed

def machine (store : ω) : Machine (Link ω K) (LinkAction ω) :=
  ⟨initial store, step tags lim binding⟩

/-- A step is one of the server alone, or leaves it as it is. -/
theorem step_server {s t : Link ω K} {a : LinkAction ω}
    (next : s.step tags lim binding a = some t) :
    t.server = s.server ∨ ∃ b, s.server.step tags lim b = some t.server := by
  cases a with
  | client a =>
    simp only [step] at next
    split_ifs at next
    obtain ⟨client, -, rfl⟩ := Option.map_eq_some_iff.mp next
    exact .inl rfl
  | accept i =>
    simp only [step, accept] at next
    split_ifs at next
    obtain rfl := Option.some.inj next
    exact .inr ⟨.established, rfl⟩
  | request i pushes result =>
    obtain ⟨c, id, bytes, rest, conn, frame, parsed, -, -, whole, read, conn', reply, -, -, rfl⟩ :=
      request_cases tags lim next
    refine .inr ⟨.receive c bytes true pushes result, ?_⟩
    simp only [Traced.step, whole, read, process_eq]
    rfl
  | server a =>
    simp only [step] at next
    split_ifs at next
    obtain ⟨u, moved, rfl⟩ := Option.map_eq_some_iff.mp next
    exact .inr ⟨a, moved⟩

/-- The server of a run is one that runs by itself. -/
theorem run_server {store : ω} {as : List (LinkAction ω)} {s : Link ω K}
    (run : (machine tags lim binding store).run as = some s) :
    ∃ bs, (Traced.machine tags lim store).run bs = some s.server := by
  apply (machine tags lim binding store).invariant
    (fun s => ∃ bs, (Traced.machine tags lim store).run bs = some s.server) ⟨[], rfl⟩ _ as s run
  rintro s a t ⟨bs, before⟩ next
  rcases step_server tags lim binding next with same | ⟨b, moved⟩
  · exact ⟨bs, same ▸ before⟩
  · refine ⟨bs ++ [b], ?_⟩
    rw [Machine.run, Machine.runFrom_snoc]
    exact Option.bind_eq_some_iff.mpr ⟨s.server, before, moved⟩

/-- What is in memory fits there: the frames of the server and the arguments of the calls. -/
def Fits (s : Link ω K) : Prop :=
  (∀ c < s.server.server.nextConnId, ∀ frame ∈ History.appended (s.server.history c),
    frame.length < 2 ^ 63) ∧
  ∀ n < s.client.next, (s.asked n).length ≤ lim.items ∧ ∀ p ∈ s.asked n, p.sent.length < 2 ^ 63

instance decidableFits : DecidablePred (Fits lim : Link ω K → Prop) := fun _ =>
  inferInstanceAs (Decidable (_ ∧ _))

end Link

/-! ### Frames that arrive -/

namespace IrspClient

variable {K : Type} {s : IrspClient K} {news : Nat → List Bytes} {i : Nat}

@[simp] theorem arrive_ids : ((s.arrive news).sockets i).ids = (s.sockets i).ids := by
  simp only [arrive, Socket.arrive]
  split_ifs with closed
  · rfl
  · simp [Socket.ids, List.filterMap_map]

theorem arrive_frames {e : Option Nat × Bytes} (there : e ∈ ((s.arrive news).sockets i).frames) :
    e ∈ (s.sockets i).frames ∨ ∃ frame ∈ news i, e = (none, frame) := by
  simp only [arrive, Socket.arrive] at there
  split_ifs at there with closed
  · exact .inl there
  · rcases List.mem_append.mp there with old | new
    · exact .inl old
    · obtain ⟨frame, found, rfl⟩ := List.mem_map.mp new
      exact .inr ⟨frame, found, rfl⟩

theorem Coherent.arrive [DecidableEq K] {binding : Binding K} (inv : Coherent binding s)
    (typed : ∀ i, ∀ frame ∈ news i, binding.Typed (none, frame)) :
    Coherent binding (s.arrive news) where
  fresh := inv.fresh
  ordered := inv.ordered
  sent i := by
    rw [arrive_ids]
    exact inv.sent i
  apart i j ne := by
    rw [arrive_ids, arrive_ids]
    exact inv.apart i j ne
  typed i e there := by
    rcases arrive_frames there with old | ⟨frame, found, rfl⟩
    · exact inv.typed i e old
    · exact typed i frame found

end IrspClient

namespace IrspClient

variable {K : Type} {binding : Binding K} {parts : List Part} {s t : IrspClient K}

/-- The client receives frames, and sends no request but that of the call with these arguments. -/
structure Moves (binding : Binding K) (parts : List Part) (s t : IrspClient K) : Prop where
  requests : ∀ i, ∀ e ∈ (t.sockets i).requests, e ∈ (s.sockets i).requests ∨
    e = (s.next, binding.encodeRequest parts) ∧ s.next < t.next
  frames : ∀ i, ∀ e ∈ (t.sockets i).frames, e ∈ (s.sockets i).frames
  settled : ∀ st ∈ t.settled, st ∈ s.settled ∨
    ∃ i, ∃ e ∈ (s.sockets i).frames, e.1 = st.request ∧ binding.decode e.2 = .ok st.value
  next : s.next ≤ t.next
  connections : s.connections ≤ t.connections

/-- One connection changes, and has no more on its way than before. -/
theorem Moves.socket {i : Nat} {k : Socket} (sockets : t.sockets = Function.update s.sockets i k)
    (requests : k.requests ⊆ (s.sockets i).requests) (frames : k.frames ⊆ (s.sockets i).frames)
    (settled : t.settled = s.settled) (next : s.next ≤ t.next)
    (connections : s.connections ≤ t.connections) : Moves binding parts s t where
  requests j e there := by
    rw [sockets] at there
    by_cases same : j = i
    · subst same
      rw [Function.update_self] at there
      exact .inl (requests there)
    · rw [Function.update_of_ne same] at there
      exact .inl there
  frames j e there := by
    rw [sockets] at there
    by_cases same : j = i
    · subst same
      rw [Function.update_self] at there
      exact frames there
    · rwa [Function.update_of_ne same] at there
  settled st found := .inl (settled ▸ found)
  next := next
  connections := connections

theorem Moves.still (sockets : t.sockets = s.sockets) (settled : t.settled = s.settled)
    (next : s.next ≤ t.next) (connections : s.connections ≤ t.connections) :
    Moves binding parts s t :=
  .socket (i := 0) (k := s.sockets 0) (by rw [sockets, Function.update_eq_self])
    (List.Subset.refl _) (List.Subset.refl _) settled next connections

variable [DecidableEq K]

end IrspClient

end IndustrialRuntime.Sdk
