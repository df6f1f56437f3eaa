import IndustrialRuntime.Core.PluginHost
import IndustrialRuntime.Lib.Locks
import IndustrialRuntime.Lib.Machine
import IndustrialRuntime.Server.CoreTagSource
import IndustrialRuntime.Server.CoreTagWriter
import IndustrialRuntime.Server.IrspServer

namespace IndustrialRuntime.Irsp

open IndustrialRuntime.Core

/-- The arguments with which `Dispatcher::handle` calls the writer. -/
def setArguments (session : Session) : IrspValue → Option (Bytes × Bytes × Bytes)
  | .array items =>
    match Dispatcher.commandParts items with
    | some [word, topic, type, value] =>
      if toUpper word = ascii "SET" ∧ session.hello then some (topic, type, value) else none
    | _ => none
  | _ => none

namespace Runtime

inductive Lock where
  | server
  | writeHandler
  | writers
  | callback
  | shard (index : Fin 16)
  | plugin (owner : OwnerId)
  deriving DecidableEq, Repr

/-- Where a call of `push_tag` is: `TagEngine::write` up to the change callback, then
`IrspServer::routeTag`. The stages named after a lock wait for it; `ticket` is the place of the
write among all writes. -/
inductive Push where
  | shardLock (tag : TagValue)
  | store (tag : TagValue)
  | callbackLock (ticket : Nat) (name : Bytes)
  | routeLock (ticket : Nat) (name : Bytes)
  | collect (ticket : Nat) (name : Bytes)
  | readLock (ticket : Nat) (name : Bytes) (ids : List SubscriberId)
  | read (ticket : Nat) (name : Bytes) (ids : List SubscriberId)
  | enqueue (ticket : Nat) (name : Bytes) (ids : List SubscriberId) (record : TagRecord)
  | routeUnlock
  | callbackUnlock
  deriving DecidableEq

/-- What plugin code is doing between two of its own steps. -/
inductive Activity where
  | running
  | locking
  | pushing (push : Push)
  deriving DecidableEq

/-- The activity after a step of `push_tag`; `none` is the return to the plugin. -/
def Activity.after : Option Push → Activity
  | none => .running
  | some push => .pushing push

/-- A thread in the code of a plugin, and whether it holds the plugin's own mutex. -/
structure Code where
  plugin : OwnerId
  holds : Bool
  activity : Activity
  deriving DecidableEq

/-- The callbacks of libwebsockets that take `mutex_`. -/
inductive Callback where
  | established
  | receive (id : Nat) (data : Bytes) (final : Bool)
  | writeable (id : Nat)
  | waitCancelled
  | closed (id : Nat)
  deriving DecidableEq

/-- A `SET` on its way from `CoreTagWriter::write` to the handler. -/
structure SetCall where
  conn : Nat
  request : IrspValue
  tag : TagValue

/-- Where a thread is. The service thread holds `mutex_` from `inside` to `leave`; an
acquisition thread is always in plugin code. -/
inductive Pc where
  | idle
  | enter (cb : Callback)
  | inside (cb : Callback)
  | copyLock (call : SetCall)
  | copy (call : SetCall)
  | selectLock (call : SetCall)
  | select (call : SetCall)
  | handler (call : SetCall) (code : Code)
  | reply (conn : Nat) (request : IrspValue) (result : WriteResult)
  | leave
  | plugin (code : Code)

/-- What no step changes: the registered writers and the plugin of each acquisition thread. -/
structure Setup (τ : Type*) where
  limits : Irsp1Codec.VectorLimits
  host : PluginHost
  plugin : τ → OwnerId

structure Written where
  tag : TagValue
  changed : Bool
  deriving DecidableEq

/-- The end of a `routeTag` call, with the server it saw. -/
structure Routed where
  ticket : Nat
  server : IrspServer

/-- A frame that a `routeTag` call appended to an outbox. -/
structure Pushed where
  ticket : Nat
  conn : Nat
  record : TagRecord
  deriving DecidableEq

section Locks

variable (hash : Bytes → UInt64)

def tagLock (name : Bytes) : Lock := .shard (shardFor hash name)

/-- The locks that a call of `push_tag` holds. -/
def Push.held : Push → List (Lock × LockMode)
  | .shardLock _ | .callbackLock .. => []
  | .store tag => [(tagLock hash tag.name, .exclusive)]
  | .routeLock .. | .callbackUnlock => [(.callback, .shared)]
  | .collect .. | .readLock .. | .enqueue .. | .routeUnlock =>
    [(.server, .exclusive), (.callback, .shared)]
  | .read _ name _ =>
    [(tagLock hash name, .shared), (.server, .exclusive), (.callback, .shared)]

/-- The lock that a call of `push_tag` waits for. -/
def Push.wants : Push → Option (Lock × LockMode)
  | .shardLock tag => some (tagLock hash tag.name, .exclusive)
  | .callbackLock .. => some (.callback, .shared)
  | .routeLock .. => some (.server, .exclusive)
  | .readLock _ name _ => some (tagLock hash name, .shared)
  | _ => none

/-- The stage that a granted lock leads to. -/
def Push.granted : Push → Push
  | .shardLock tag => .store tag
  | .callbackLock ticket name => .routeLock ticket name
  | .routeLock ticket name => .collect ticket name
  | .readLock ticket name ids => .read ticket name ids
  | p => p

def Activity.held : Activity → List (Lock × LockMode)
  | .pushing push => push.held hash
  | _ => []

def Code.held (code : Code) : List (Lock × LockMode) :=
  code.activity.held hash ++ if code.holds then [(.plugin code.plugin, .exclusive)] else []

def Code.wants (code : Code) : Option (Lock × LockMode) :=
  match code.activity with
  | .running => none
  | .locking => some (.plugin code.plugin, .exclusive)
  | .pushing push => push.wants hash

def Code.granted (code : Code) : Code :=
  match code.activity with
  | .running => code
  | .locking => { code with holds := true, activity := .running }
  | .pushing push => { code with activity := .pushing push.granted }

def Pc.held : Pc → List (Lock × LockMode)
  | .idle | .enter _ => []
  | .inside _ | .copyLock _ | .selectLock _ | .reply .. | .leave => [(.server, .exclusive)]
  | .copy _ => [(.writeHandler, .exclusive), (.server, .exclusive)]
  | .select _ => [(.writers, .shared), (.server, .exclusive)]
  | .handler _ code => code.held hash ++ [(.server, .exclusive)]
  | .plugin code => code.held hash

def Pc.wants : Pc → Option (Lock × LockMode)
  | .enter _ => some (.server, .exclusive)
  | .copyLock _ => some (.writeHandler, .exclusive)
  | .selectLock _ => some (.writers, .shared)
  | .handler _ code | .plugin code => code.wants hash
  | _ => none

def Pc.granted : Pc → Pc
  | .enter cb => .inside cb
  | .copyLock call => .copy call
  | .selectLock call => .select call
  | .handler call code => .handler call code.granted
  | .plugin code => .plugin code.granted
  | pc => pc

end Locks

/-- The plugin code that a thread is in. -/
def Pc.code : Pc → Option Code
  | .handler _ code | .plugin code => some code
  | _ => none

def Pc.withCode : Pc → Code → Pc
  | .handler call _, code => .handler call code
  | .plugin _, code => .plugin code
  | pc, _ => pc

end Runtime

/-- The engine and the server with their threads: `none` is the service thread. `writes`,
`routes` and `pushes` record the run. -/
structure Runtime (τ : Type*) (hash : Bytes → UInt64) where
  engine : TagEngine hash
  server : IrspServer
  locks : LockTable (Option τ) Runtime.Lock
  pc : Option τ → Runtime.Pc
  writes : List Runtime.Written
  routes : List Runtime.Routed
  pushes : List Runtime.Pushed

namespace Runtime

/-- A step of plugin code. -/
inductive PluginOp where
  | lock
  | unlock
  | push (tag : TagValue)
  | finish (accepted : Bool)
  deriving DecidableEq

inductive Action (τ : Type*) where
  | callback (cb : Callback)
  | advance (thread : Option τ) (timestamp : Timestamp)
  | plugin (thread : Option τ) (op : PluginOp)
  | remove (name : Bytes)
  deriving DecidableEq

variable {τ : Type*} {hash : Bytes → UInt64}

/-- The runtime after `IrspServer::start`; the change callback is `routeTag`. -/
def initial (setup : Setup τ) : Runtime τ hash where
  engine := .empty
  server := .initial
  locks := []
  pc
    | none => .idle
    | some t => .plugin ⟨setup.plugin t, false, .running⟩
  writes := []
  routes := []
  pushes := []

/-- The rest of `processFrame`, with the answer of the writer if the frame is a `SET`. -/
def answer (s : Runtime τ hash) (server : IrspServer) (id : Nat) (frame : Frame)
    (result : WriteResult) : IrspServer :=
  match server.conns id with
  | none => server
  | some conn =>
    let r := IrspServer.dispatch (CoreTagSource.tagSource hash)
      (some fun store _ _ _ => (result, store)) server.dispatcher conn s.engine frame
    { server.setConn id r.1 with dispatcher := r.2.1 }

variable [DecidableEq τ]

def setPc (s : Runtime τ hash) (t : Option τ) (pc : Pc) : Runtime τ hash :=
  { s with pc := Function.update s.pc t pc }

def release (s : Runtime τ hash) (t : Option τ) (l : Lock) (m : LockMode) : Runtime τ hash :=
  { s with locks := s.locks.release t l m }

/-- A step inside `push_tag` that waits for no lock, and the stage after it. -/
def pushStep (s : Runtime τ hash) (t : Option τ) : Push → Runtime τ hash × Option Push
  | .store tag =>
    let written := s.engine.writeImpl tag
    ({ s.release t (tagLock hash tag.name) .exclusive with
        engine := written.2
        writes := s.writes ++ [⟨tag, written.1⟩] },
      if written.1 then some (.callbackLock s.writes.length tag.name) else none)
  | .collect ticket name =>
    let ids := s.server.dispatcher.tagSubscribers name
    if ids.isEmpty then
      ({ s with routes := s.routes ++ [⟨ticket, s.server⟩] }, some .routeUnlock)
    else (s, some (.readLock ticket name ids))
  | .read ticket name ids =>
    let s' := s.release t (tagLock hash name) .shared
    match CoreTagSource.read s.engine name with
    | none => ({ s' with routes := s.routes ++ [⟨ticket, s.server⟩] }, some .routeUnlock)
    | some rec => (s', some (.enqueue ticket name ids rec))
  | .enqueue ticket _ ids rec =>
    ({ s with
        server := s.server.pushAll ids (encodePushTag rec)
        routes := s.routes ++ [⟨ticket, s.server⟩]
        pushes := s.pushes ++
          (ids.filter fun id => (s.server.conns id).isSome).map fun id => ⟨ticket, id, rec⟩ },
      some .routeUnlock)
  | .routeUnlock => (s.release t .server .exclusive, some .callbackUnlock)
  | .callbackUnlock => (s.release t .callback .shared, none)
  | push => (s, some push)

/-- A step of `push_tag` called from plugin code. -/
def codeStep (s : Runtime τ hash) (t : Option τ) (code : Code) : Option (Runtime τ hash) :=
  match code.activity with
  | .pushing push =>
    let r := s.pushStep t push
    some (r.1.setPc t ((s.pc t).withCode { code with activity := .after r.2 }))
  | _ => none

/-- The body of a callback, under `mutex_`. -/
def callbackStep (setup : Setup τ) (s : Runtime τ hash) (t : Option τ) (timestamp : Timestamp) :
    Callback → Option (Runtime τ hash)
  | .established => some { s.setPc t .leave with server := s.server.established }
  | .receive id data final =>
    let r := s.server.receive id data final
    match r.2 with
    | none => some { s.setPc t .leave with server := r.1 }
    | some (conn, bytes) =>
      match IrspServer.parseFrame setup.limits bytes with
      | .error _ => none
      | .ok frame =>
        let plain := some { s.setPc t .leave with server := s.answer r.1 id frame .error }
        match frame with
        | .request value =>
          match setArguments conn.session value with
          | none => plain
          | some (topic, type, bytes) =>
            match CoreTagWriter.toVariant type bytes with
            | none => some { s.setPc t (.reply id value .error) with server := r.1 }
            | some variant =>
              let call := ⟨id, value, .of topic variant timestamp⟩
              some { s.setPc t (.copyLock call) with server := r.1 }
        | _ => plain
  | .writeable id => some { s.setPc t .leave with server := (s.server.writeable id).1 }
  | .waitCancelled => some (s.setPc t .leave)
  | .closed id => some { s.setPc t .leave with server := s.server.closed id }

/-- A step that waits for no lock. -/
def work (setup : Setup τ) (s : Runtime τ hash) (t : Option τ) (timestamp : Timestamp) :
    Option (Runtime τ hash) :=
  match s.pc t with
  | .inside cb => s.callbackStep setup t timestamp cb
  | .copy call => some ((s.setPc t (.selectLock call)).release t .writeHandler .exclusive)
  | .select call =>
    let pc : Pc :=
      match setup.host.select call.tag.name with
      | none => .reply call.conn call.request .notHandled
      | some reg => .handler call ⟨reg.handler.plugin, false, .running⟩
    some ((s.setPc t pc).release t .writers .shared)
  | .reply conn request result =>
    some { s.setPc t .leave with server := s.answer s.server conn (.request request) result }
  | .leave => some ((s.setPc t .idle).release t .server .exclusive)
  | .handler _ code | .plugin code => s.codeStep t code
  | _ => none

/-- The next step of a thread: it takes the lock it waits for, if that is free, or works on. -/
def advance (setup : Setup τ) (s : Runtime τ hash) (t : Option τ) (timestamp : Timestamp) :
    Option (Runtime τ hash) :=
  match (s.pc t).wants hash with
  | some (l, m) =>
    if s.locks.free t l m then
      some { s.setPc t (s.pc t).granted with locks := s.locks.acquire t l m }
    else none
  | none => s.work setup t timestamp

/-- A step of plugin code of its own. A handler returns without the plugin's mutex. -/
def pluginStep (s : Runtime τ hash) (t : Option τ) (code : Code) :
    PluginOp → Option (Runtime τ hash)
  | .lock =>
    if code.holds then none
    else some (s.setPc t ((s.pc t).withCode { code with activity := .locking }))
  | .unlock =>
    if code.holds then
      some ((s.setPc t ((s.pc t).withCode { code with holds := false })).release t
        (.plugin code.plugin) .exclusive)
    else none
  | .push tag =>
    some (s.setPc t ((s.pc t).withCode { code with activity := .pushing (.shardLock tag) }))
  | .finish accepted =>
    match s.pc t with
    | .handler call _ =>
      if code.holds then none
      else some (s.setPc t
        (.reply call.conn call.request (if accepted then .accepted else .notHandled)))
    | _ => none

def step (setup : Setup τ) (s : Runtime τ hash) : Action τ → Option (Runtime τ hash)
  | .callback cb =>
    match s.pc none with
    | .idle => some (s.setPc none (.enter cb))
    | _ => none
  | .advance t timestamp => s.advance setup t timestamp
  | .plugin t op =>
    match (s.pc t).code with
    | some code => if code.activity = .running then s.pluginStep t code op else none
    | none => none
  | .remove name =>
    if s.locks.all fun g => g.lock ≠ tagLock hash name then
      some { s with engine := (s.engine.remove name).2 }
    else none

def machine (hash : Bytes → UInt64) (setup : Setup τ) : Machine (Runtime τ hash) (Action τ) :=
  ⟨initial setup, step setup⟩

end Runtime

end IndustrialRuntime.Irsp
