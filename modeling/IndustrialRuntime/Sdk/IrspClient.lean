import Mathlib.Logic.Function.Basic
import IndustrialRuntime.Lib.Machine
import IndustrialRuntime.Sdk.ClientCodec

namespace IndustrialRuntime.Sdk

/-- The state of a connection. -/
inductive Phase where
  | connecting
  | opened
  | closing
  | closed
  deriving DecidableEq

/-- A connection: whether its read loop runs, the requests handed to it that the server has not
received, and the frames of the server that the client has not received, each with the request
that it answers, if it is a reply. -/
structure Socket where
  phase : Phase
  reading : Bool
  requests : List (Nat × Bytes)
  frames : List (Option Nat × Bytes)

/-- The requests that a connection has still to bring a reply for. -/
def Socket.ids (k : Socket) : List Nat := k.frames.filterMap Prod.fst ++ k.requests.map Prod.fst

/-- An entry of `_pending` settled by a frame: an `IrspError` rejects it, any other value resolves
it. -/
structure Settlement (K : Type) where
  entry : Nat
  request : Option Nat
  value : ClientValue K

/-- Where the two clients differ: the codec, the key of push frames, the state of a connection
when `connect` has made it `ws`, the check of `_send` before it enqueues, which frames reach
`_onFrame`, whether the end of the connection rejects what is pending, whether an exception out of
the handling of a push ends the read loop, and whether a call can be cancelled. -/
structure Binding (K : Type) where
  encodeRequest : List Part → Bytes
  decode : Bytes → Except Failure (ClientValue K)
  push : K
  connected : Phase
  ready : Option Phase → Bool
  delivers : Socket → Bool
  rejects : Socket → Bool
  fragile : Bool
  cancellable : Bool

/-- A client with its connections, of which the last is `ws`. A call is known by its number;
`unanswered` are the calls whose request was handed to a connection that has neither brought
the reply nor ended, in send order. -/
structure IrspClient (K : Type) where
  sockets : Nat → Socket
  connections : Nat
  pending : List Nat
  next : Nat
  cancelled : List Nat
  settled : List (Settlement K)
  unanswered : List Nat

/-- `none` among the arguments of a call is a value that `encodeRequest` raises on. `accepted` is
the answer of the transport's `send`, `raised` whether the handling of a push raised. -/
inductive ClientAction where
  | connect
  | opened (i : Nat)
  | call (parts : List (Option Part)) (accepted : Bool)
  | withdraw (i id : Nat)
  | cancel (id : Nat)
  | answer (i : Nat) (frame : Bytes)
  | push (i : Nat) (frame : Bytes)
  | receive (i : Nat) (raised : Bool)
  | close
  | ended (i : Nat)

def isPushFrame {K : Type} [DecidableEq K] (push : K) : ClientValue K → Bool
  | .map properties => properties.any fun e => e.1 = push
  | _ => false

namespace Binding

variable {K : Type} (binding : Binding K)

/-- `encodeRequest` on the arguments of a call. -/
def encoded (parts : List (Option Part)) : Option Bytes :=
  if parts.all Option.isSome then some (binding.encodeRequest (parts.filterMap id)) else none

/-- Whether a frame is taken for a push; `otherwise` if it does not decode. -/
def pushes [DecidableEq K] (frame : Bytes) (otherwise : Bool) : Bool :=
  match binding.decode frame with
  | .error _ => otherwise
  | .ok v => isPushFrame binding.push v

end Binding

namespace IrspClient

variable {K : Type}

def initial : IrspClient K where
  sockets _ := ⟨.closed, false, [], []⟩
  connections := 0
  pending := []
  next := 0
  cancelled := []
  settled := []
  unanswered := []

def ws (s : IrspClient K) : Option Nat :=
  if s.connections = 0 then none else some (s.connections - 1)

def setSocket (s : IrspClient K) (i : Nat) (k : Socket) : IrspClient K :=
  { s with sockets := Function.update s.sockets i k }

/-- `_pending.push`, and nothing sent after it. -/
def enqueue (s : IrspClient K) : IrspClient K :=
  { s with pending := s.pending ++ [s.next], next := s.next + 1 }

/-- The transport takes the request of the next call. -/
def hand (s : IrspClient K) (i : Nat) (frame : Bytes) : IrspClient K :=
  let k := s.sockets i
  { s.setSocket i { k with requests := k.requests ++ [(s.next, frame)] } with
    unanswered := s.unanswered ++ [s.next] }

/-- The frame that answers a request, or pushes, reaches the client. -/
def deliver (s : IrspClient K) (i : Nat) (request : Option Nat)
    (rest : List (Option Nat × Bytes)) : IrspClient K :=
  { s.setSocket i { s.sockets i with frames := rest } with
    unanswered := match request with
      | none => s.unanswered
      | some id => s.unanswered.erase id }

variable (binding : Binding K)

/-- `_send`: the entry is enqueued before the request is encoded and sent. -/
def send (s : IrspClient K) (parts : List (Option Part)) (accepted : Bool) :
    Option (IrspClient K) :=
  if binding.ready (s.ws.map fun i => (s.sockets i).phase) then
    match binding.encoded parts with
    | none => some s.enqueue
    | some frame =>
      if accepted then
        match s.ws with
        | none => none
        | some i => if (s.sockets i).phase = .opened then some (s.hand i frame).enqueue else none
      else some s.enqueue
  else some s

def connect (s : IrspClient K) : IrspClient K :=
  { s.setSocket s.connections ⟨binding.connected, true, [], []⟩ with
    connections := s.connections + 1 }

/-- The connection can send. -/
def opened (s : IrspClient K) (i : Nat) : Option (IrspClient K) :=
  if (s.sockets i).phase = .connecting then
    some (s.setSocket i { s.sockets i with phase := .opened })
  else none

/-- A call is cancelled, or its send fails, after the request was handed to the transport and
before it is written. -/
def withdraw (s : IrspClient K) (i id : Nat) : Option (IrspClient K) :=
  let k := s.sockets i
  if binding.cancellable ∧ id ∈ k.requests.map Prod.fst then
    some { s.setSocket i { k with requests := k.requests.filter (fun e => e.1 ≠ id) } with
      unanswered := s.unanswered.erase id }
  else none

/-- A call that waits for its reply is cancelled. -/
def cancel (s : IrspClient K) (id : Nat) : Option (IrspClient K) :=
  if binding.cancellable ∧ id ∈ s.pending then some { s with cancelled := id :: s.cancelled }
  else none

/-- `close()` -/
def close (s : IrspClient K) : IrspClient K :=
  match s.ws with
  | none => s
  | some i =>
    if (s.sockets i).phase = .closed then s
    else s.setSocket i { s.sockets i with phase := .closing }

/-- The connection has ended: `onclose`, or the end of the read loop. -/
def ended (s : IrspClient K) (i : Nat) : Option (IrspClient K) :=
  let k := s.sockets i
  if k.phase = .closed then none
  else some { s.setSocket i ⟨.closed, false, [], []⟩ with
    pending := if binding.rejects k then [] else s.pending
    unanswered := s.unanswered.filter (fun id => id ∉ k.ids) }

variable [DecidableEq K]

/-- The server answers the oldest request it has received, by a frame that is no push. -/
def answer (s : IrspClient K) (i : Nat) (frame : Bytes) : Option (IrspClient K) :=
  let k := s.sockets i
  match k.requests with
  | [] => none
  | (id, _) :: rest =>
    if binding.pushes frame false then none
    else some (s.setSocket i { k with
      requests := rest
      frames := k.frames ++ [(some id, frame)] })

/-- The server pushes. -/
def push (s : IrspClient K) (i : Nat) (frame : Bytes) : Option (IrspClient K) :=
  let k := s.sockets i
  if k.phase ≠ .closed ∧ binding.pushes frame true then
    some (s.setSocket i { k with frames := k.frames ++ [(none, frame)] })
  else none

/-- `_onFrame`, on the connection `i`. -/
def onFrame (s : IrspClient K) (i : Nat) (request : Option Nat) (bytes : Bytes) (raised : Bool) :
    IrspClient K :=
  match binding.decode bytes with
  | .error _ => s
  | .ok value =>
    if isPushFrame binding.push value then
      if binding.fragile && raised then
        { s.setSocket i { s.sockets i with reading := false } with pending := [] }
      else s
    else
      match s.pending with
      | [] => s
      | entry :: rest =>
        { s with
          pending := rest
          settled := if entry ∈ s.cancelled then s.settled
            else s.settled ++ [⟨entry, request, value⟩] }

def receive (s : IrspClient K) (i : Nat) (raised : Bool) : Option (IrspClient K) :=
  if binding.delivers (s.sockets i) then
    match (s.sockets i).frames with
    | [] => none
    | (request, bytes) :: rest =>
      some ((s.deliver i request rest).onFrame binding i request bytes raised)
  else none

def step (s : IrspClient K) : ClientAction → Option (IrspClient K)
  | .connect => some (s.connect binding)
  | .opened i => s.opened i
  | .call parts accepted => s.send binding parts accepted
  | .withdraw i id => s.withdraw binding i id
  | .cancel id => s.cancel binding id
  | .answer i frame => s.answer binding i frame
  | .push i frame => s.push binding i frame
  | .receive i raised => s.receive binding i raised
  | .close => some s.close
  | .ended i => s.ended binding i

def machine : Machine (IrspClient K) ClientAction := ⟨initial, step binding⟩

end IrspClient

/-- A `WebSocket` object is `ws` while it is connecting; `_send` asks for an open one; a message is
dropped unless the socket is open; `onclose` rejects what is pending. -/
def JavaScript.binding (room : Nat) : Binding Text where
  encodeRequest := JavaScript.encodeRequest
  decode := JavaScript.decode room
  push := "push".toList
  connected := .connecting
  ready phase := phase = some .opened
  delivers k := k.phase = .opened
  rejects _ := true
  fragile := false
  cancellable := false

/-- `_ws` is set once the connection is open, and never unset; the read loop goes on until the
connection ends or a push handler raises, and then rejects what is pending. -/
def Python.binding (py : Python.Interpreter) (room : Nat) : Binding (Option Text) where
  encodeRequest := Python.encodeRequest
  decode := Python.decode py room
  push := some "push".toList
  connected := .opened
  ready phase := phase.isSome
  delivers k := k.reading
  rejects k := k.reading
  fragile := true
  cancellable := true

end IndustrialRuntime.Sdk
