import IndustrialRuntime.Codec.Irsp1Codec
import IndustrialRuntime.Semantic.Dispatcher

namespace IndustrialRuntime.Irsp

structure Conn where
  session : Session
  outbox : List Bytes := []
  rx : Bytes := []
  closeAfterWrite : Bool := false

/-- The state that `mutex_` protects. Connections are looked up by id, and ids are given out
once. -/
structure IrspServer where
  dispatcher : Dispatcher
  conns : Nat → Option Conn
  nextConnId : Nat

/-- What `processFrame` makes of a frame before it dispatches. -/
inductive Frame where
  | ignored
  | malformed
  | request (value : IrspValue)

def encodePushTag (rec : TagRecord) : Bytes :=
  Irsp1Codec.encode (.map [(.bulk (ascii "push"), .bulk (ascii "tag")),
    (.bulk (ascii "name"), .bulk rec.name), (.bulk (ascii "type"), .bulk rec.type),
    (.bulk (ascii "ts"), .integer rec.ts), (.bulk (ascii "value"), .bulk rec.value)])

def isByeCommand : IrspValue → Bool
  | .array (.bulk data :: _) => toUpper data = ascii "BYE"
  | _ => false

namespace IrspServer

def initial : IrspServer := ⟨.empty, fun _ => none, 1⟩

def parseFrame (mem : Irsp1Codec.Heap) (frame : Bytes) :
    Except Irsp1Codec.Raised Frame :=
  match frame with
  | [] => .ok .ignored
  | c :: _ =>
    if c = 42 then
      (Irsp1Codec.decode mem frame).map fun dec =>
        if dec.status ≠ .ok then .malformed else .request dec.value
    else
      match Irsp1Codec.decodeInline frame with
      | [] => .ok .ignored
      | items => .ok (.request (.array items))

variable {ω : Type*}

/-- The rest of `processFrame`, from the parsed frame on. -/
def dispatch (tags : TagSource ω) (writer : Option (TagWriter ω)) (d : Dispatcher) (conn : Conn)
    (store : ω) : Frame → Conn × Dispatcher × ω
  | .ignored => (conn, d, store)
  | .malformed =>
    ({ conn with
        outbox := conn.outbox ++ [Irsp1Codec.encode (makeError "PROTOCOL_ERROR" "bad frame")]
        closeAfterWrite := true }, d, store)
  | .request value =>
    let r := d.handle tags writer conn.session store value
    ({ conn with
        session := r.session
        outbox := conn.outbox ++ [Irsp1Codec.encode r.reply]
        closeAfterWrite := isByeCommand value || conn.closeAfterWrite }, r.dispatcher, r.store)

def processFrame (mem : Irsp1Codec.Heap) (tags : TagSource ω)
    (writer : Option (TagWriter ω)) (d : Dispatcher) (conn : Conn) (store : ω) (frame : Bytes) :
    Except Irsp1Codec.Raised (Conn × Dispatcher × ω) :=
  (parseFrame mem frame).map (dispatch tags writer d conn store)

def setConn (s : IrspServer) (id : Nat) (conn : Conn) : IrspServer :=
  { s with conns := Function.update s.conns id (some conn) }

/-- `LWS_CALLBACK_ESTABLISHED` -/
def established (s : IrspServer) : IrspServer :=
  { s.setConn s.nextConnId { session := { id := s.nextConnId } } with
    nextConnId := s.nextConnId + 1 }

/-- The head of `LWS_CALLBACK_RECEIVE`: the frame that is complete with this fragment. -/
def receive (s : IrspServer) (id : Nat) (data : Bytes) (final : Bool) :
    IrspServer × Option (Conn × Bytes) :=
  match s.conns id with
  | none => (s, none)
  | some conn =>
    let frame := conn.rx ++ data
    if final then
      let cleared := { conn with rx := [] }
      (s.setConn id cleared, some (cleared, frame))
    else (s.setConn id { conn with rx := frame }, none)

/-- `LWS_CALLBACK_SERVER_WRITEABLE`: the frame that is written, if there is one. -/
def writeable (s : IrspServer) (id : Nat) : IrspServer × Option Bytes :=
  match s.conns id with
  | none => (s, none)
  | some conn =>
    match conn.outbox with
    | [] => (s, none)
    | msg :: rest => (s.setConn id { conn with outbox := rest }, some msg)

/-- `LWS_CALLBACK_CLOSED` -/
def closed (s : IrspServer) (id : Nat) : IrspServer :=
  { s with
    dispatcher := s.dispatcher.onSessionClosed id
    conns := Function.update s.conns id none }

/-- One iteration of the loop in `routeTag`. -/
def pushTo (s : IrspServer) (frame : Bytes) (id : Nat) : IrspServer :=
  match s.conns id with
  | none => s
  | some conn => s.setConn id { conn with outbox := conn.outbox ++ [frame] }

/-- The loop in `routeTag`. -/
def pushAll (s : IrspServer) (ids : List Nat) (frame : Bytes) : IrspServer :=
  ids.foldl (fun s id => s.pushTo frame id) s

end IrspServer

end IndustrialRuntime.Irsp
