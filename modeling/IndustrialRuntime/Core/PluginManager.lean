import IndustrialRuntime.Core.PluginHost
import IndustrialRuntime.Lib.Machine

namespace IndustrialRuntime.Core

/-- The part of `IrPluginInfo` that loading and unloading read. -/
structure PluginInfo where
  abiVersion : UInt32
  id : Option Bytes
  deriving DecidableEq, Repr

namespace PluginManager

def abiVersion : UInt32 := 3

def abiMinVersion : UInt32 := 3

/-- An entry of `plugins_`. Its instance is the plugin code of its owner. -/
structure Loaded where
  handle : Nat
  id : Option Bytes
  started : Bool
  path : Bytes
  configPath : Bytes
  owner : OwnerId
  deriving DecidableEq, Repr

/-- How a library leaves: `createPlugin` failed, `init` failed, or the plugin at an index of
the table is unloaded. -/
inductive Exit where
  | abandon
  | rollback
  | unload (index : Nat)
  deriving DecidableEq, Repr

/-- Where the managing thread is inside `loadLocked`, `startLocked`, the body of `stopAll` or
`unloadLocked`; a plugin function is executing in the stage that bears its name. -/
inductive Stage where
  | ready
  | openLibrary (path configPath : Bytes) (thenStart : Bool)
  | inspect (handle : Nat) (path configPath : Bytes) (thenStart : Bool)
  | skip (handle : Nat)
  | createOwner (handle : Nat) (id : Option Bytes) (path configPath : Bytes) (thenStart : Bool)
  | activateLoad (p : Loaded) (thenStart : Bool)
  | createPlugin (p : Loaded) (thenStart : Bool)
  | init (p : Loaded) (thenStart : Bool)
  | deactivateLoad (p : Loaded) (thenStart : Bool)
  | pushBack (p : Loaded) (thenStart : Bool)
  | activateStart (index : Nat) (p : Loaded)
  | start (index : Nat) (p : Loaded)
  | deactivateStart (index : Nat) (p : Loaded) (ok : Bool)
  | stop (index : Nat) (p : Loaded)
  | deactivate (exit : Exit) (p : Loaded)
  | retire (exit : Exit) (p : Loaded)
  | wait (exit : Exit) (p : Loaded)
  | poll (exit : Exit) (p : Loaded)
  | stopUnload (index : Nat) (p : Loaded)
  | destroy (exit : Exit) (p : Loaded)
  | removeOwner (exit : Exit) (p : Loaded)
  | closeLibrary (exit : Exit) (p : Loaded)
  deriving DecidableEq

/-- What the operation in progress still has to do. -/
inductive Job where
  | load (path configPath : Bytes) (thenStart : Bool)
  | discover (path configPath : Bytes) (thenStart : Bool)
  | start (index : Nat)
  | stop (index : Nat)
  | unload (index : Nat)
  | unloadAll
  deriving DecidableEq

/-- A management operation. `entries` are the plugin files that the directory iterator finds,
each with its configuration path. -/
inductive Operation where
  | load (path configPath : Bytes)
  | loadDirectory (pluginDir configDir : Bytes) (entries : List (Bytes × Bytes))
  | scan (entries : List (Bytes × Bytes))
  | startAll
  | stopAll
  | unload (id : Bytes)
  | reload (id : Bytes)
  | destructor
  deriving DecidableEq

/-- What the outside answers to a step of the managing thread: whether `dlopen`, the symbol
lookup or the plugin function succeeded (an exception or an incomplete vtable is a failure),
and what `getPluginInfo` returned, if it did not throw. -/
structure Reply where
  ok : Bool := true
  info : Option PluginInfo := none
  deriving DecidableEq

/-- A call into a plugin or of the library loader, with its outcome. -/
inductive Call where
  | opened (handle : Nat)
  | created (owner : OwnerId) (handle : Nat) (ok : Bool)
  | init (owner : OwnerId) (ok : Bool)
  | start (owner : OwnerId) (ok : Bool)
  | stop (owner : OwnerId) (ok : Bool)
  | destroy (owner : OwnerId) (ok : Bool)
  | closed (handle : Nat)
  deriving DecidableEq

/-- A thread inside `PluginHost::write`; it holds the shared lock from `select` to `unlock`. -/
inductive WritePc where
  | idle
  | lock (tag : TagValue)
  | select (tag : TagValue)
  | increment (tag : TagValue) (reg : WriteReg)
  | unlock (tag : TagValue) (found : Option WriteReg)
  | call (tag : TagValue) (reg : WriteReg)
  | handling (tag : TagValue) (reg : WriteReg)
  | decrement (reg : WriteReg) (accepted : Bool)
  deriving DecidableEq

/-- The host, its writing threads and the manager. `live` are the plugins whose code can call
the host, `calls` records the run, and `quiesced` the owners whose `waitQuiescent` has returned
inside `unloadLocked`. -/
structure System (τ : Type*) where
  host : PluginHost
  readers : Finset τ
  writer : τ → WritePc
  plugins : List Loaded
  pluginDir : Bytes
  configDir : Bytes
  jobs : List Job
  stage : Stage
  nextHandle : Nat
  destroyed : Bool
  live : List OwnerId
  calls : List Call
  quiesced : List OwnerId

inductive Action (τ : Type*) where
  | write (thread : τ) (tag : TagValue)
  | advance (thread : τ) (accepted : Bool)
  | operation (op : Operation)
  | manage (reply : Reply)
  | register (plugin : OwnerId) (topicPrefix : Bytes) (pluginCtx entry : Nat)

namespace System

variable {τ : Type*}

def initial : System τ where
  host := .initial
  readers := ∅
  writer _ := .idle
  plugins := []
  pluginDir := []
  configDir := []
  jobs := []
  stage := .ready
  nextHandle := 0
  destroyed := false
  live := []
  calls := []
  quiesced := []

def findIndexLocked (s : System τ) (id : Bytes) : Option Nat :=
  s.plugins.findIdx? (fun p => p.id == some id)

def isLoadedPathLocked (s : System τ) (path : Bytes) : Bool :=
  s.plugins.any (fun p => p.path == path)

def setStarted (s : System τ) (index : Nat) (started : Bool) : System τ :=
  { s with plugins := s.plugins.modify index (fun p => { p with started := started }) }

/-- The work of an operation, begun when the manager's mutex is free. -/
def begin (s : System τ) : Operation → System τ
  | .load path configPath => { s with jobs := [.load path configPath false] }
  | .loadDirectory pluginDir configDir entries =>
    { s with
      pluginDir := pluginDir
      configDir := configDir
      jobs := entries.map fun e => .discover e.1 e.2 false }
  | .scan entries =>
    if s.pluginDir.isEmpty then s
    else { s with jobs := entries.map fun e => .discover e.1 e.2 true }
  | .startAll => { s with jobs := (List.range s.plugins.length).map .start }
  | .stopAll => { s with jobs := (List.range s.plugins.length).map .stop }
  | .unload id =>
    match s.findIndexLocked id with
    | none => s
    | some index => { s with jobs := [.unload index] }
  | .reload id =>
    match s.findIndexLocked id with
    | none => s
    | some index =>
      match s.plugins[index]? with
      | none => s
      | some p => { s with jobs := [.unload index, .load p.path p.configPath p.started] }
  | .destructor => { s with destroyed := true, jobs := [.unloadAll] }

def operation (s : System τ) (op : Operation) : Option (System τ) :=
  if s.stage = .ready ∧ s.jobs = [] ∧ s.destroyed = false then some (s.begin op) else none

/-- Takes up the next job of the operation in progress. -/
def takeJob (s : System τ) : Option (System τ) :=
  match s.jobs with
  | [] => none
  | .load path configPath thenStart :: rest =>
    some { s with jobs := rest, stage := .openLibrary path configPath thenStart }
  | .discover path configPath thenStart :: rest =>
    if s.isLoadedPathLocked path then some { s with jobs := rest }
    else some { s with jobs := rest, stage := .openLibrary path configPath thenStart }
  | .start index :: rest =>
    (s.plugins[index]?).map fun p =>
      if p.started then { s with jobs := rest }
      else { s with jobs := rest, stage := .activateStart index p }
  | .stop index :: rest =>
    (s.plugins[index]?).map fun p =>
      if p.started then { s with jobs := rest, stage := .stop index p }
      else { s with jobs := rest }
  | .unload index :: rest =>
    (s.plugins[index]?).map fun p => { s with jobs := rest, stage := .retire (.unload index) p }
  | .unloadAll :: rest =>
    if s.plugins.isEmpty then some { s with jobs := rest }
    else some { s with jobs := .unload (s.plugins.length - 1) :: .unloadAll :: rest }

/-- `waitQuiescent` returns. -/
def quiescent (s : System τ) (exit : Exit) (p : Loaded) : System τ :=
  match exit with
  | .unload index =>
    { s with
      stage := if p.started then .stopUnload index p else .destroy exit p
      quiesced := p.owner :: s.quiesced }
  | _ => { s with stage := .removeOwner exit p }

/-- A step of the managing thread that takes no lock of the host. -/
def localStep (s : System τ) (reply : Reply) : Stage → Option (System τ)
  | .ready => s.takeJob
  | .openLibrary path configPath thenStart =>
    if reply.ok then
      some { s with
        stage := .inspect s.nextHandle path configPath thenStart
        nextHandle := s.nextHandle + 1
        calls := s.calls ++ [.opened s.nextHandle] }
    else some { s with stage := .ready }
  | .inspect handle path configPath thenStart =>
    if reply.ok then
      match reply.info with
      | none => some { s with stage := .skip handle }
      | some info =>
        if abiVersion < info.abiVersion ∨ info.abiVersion < abiMinVersion then
          some { s with stage := .skip handle }
        else some { s with stage := .createOwner handle info.id path configPath thenStart }
    else some { s with stage := .skip handle }
  | .skip handle => some { s with stage := .ready, calls := s.calls ++ [.closed handle] }
  | .createPlugin p thenStart =>
    let calls := s.calls ++ [.created p.owner p.handle reply.ok]
    if reply.ok then some { s with stage := .init p thenStart, calls := calls }
    else some { s with
      stage := .deactivate .abandon p
      live := s.live.filter (· ≠ p.owner)
      calls := calls }
  | .init p thenStart =>
    let calls := s.calls ++ [.init p.owner reply.ok]
    if reply.ok then some { s with stage := .deactivateLoad p thenStart, calls := calls }
    else some { s with stage := .destroy .rollback p, calls := calls }
  | .pushBack p thenStart =>
    some { s with
      plugins := s.plugins ++ [p]
      stage := .ready
      jobs := if thenStart then .start s.plugins.length :: s.jobs else s.jobs }
  | .start index p =>
    some { s with
      stage := .deactivateStart index p reply.ok
      calls := s.calls ++ [.start p.owner reply.ok] }
  | .stop index p =>
    some { s.setStarted index false with
      stage := .ready
      calls := s.calls ++ [.stop p.owner reply.ok] }
  | .wait exit p =>
    if p.owner ∈ s.host.owners then some { s with stage := .poll exit p }
    else some (s.quiescent exit p)
  | .poll exit p =>
    if 0 < s.host.inflight p.owner then some s else some (s.quiescent exit p)
  | .stopUnload index p =>
    some { s.setStarted index false with
      stage := .destroy (.unload index) p
      calls := s.calls ++ [.stop p.owner reply.ok] }
  | .destroy exit p =>
    some { s with
      stage := match exit with
        | .unload _ => .removeOwner exit p
        | _ => .deactivate exit p
      live := s.live.filter (· ≠ p.owner)
      calls := s.calls ++ [.destroy p.owner reply.ok] }
  | .closeLibrary exit p =>
    some { s with
      plugins := match exit with
        | .unload index => s.plugins.eraseIdx index
        | _ => s.plugins
      stage := .ready
      calls := s.calls ++ [.closed p.handle] }
  | _ => none

/-- A step of the managing thread that holds the exclusive lock of the host. -/
def exclusiveStep (s : System τ) : Stage → Option (System τ)
  | .createOwner handle id path configPath thenStart =>
    some { s with
      host := s.host.createOwner.2
      stage := .activateLoad ⟨handle, id, false, path, configPath, s.host.createOwner.1⟩
        thenStart }
  | .activateLoad p thenStart =>
    some { s with
      host := s.host.setActiveOwner p.owner
      stage := .createPlugin p thenStart
      live := p.owner :: s.live }
  | .deactivateLoad p thenStart =>
    some { s with host := s.host.setActiveOwner 0, stage := .pushBack p thenStart }
  | .activateStart index p =>
    some { s with host := s.host.setActiveOwner p.owner, stage := .start index p }
  | .deactivateStart index _ ok =>
    let host := s.host.setActiveOwner 0
    if ok then some { s.setStarted index true with host := host, stage := .ready }
    else some { s with host := host, stage := .ready }
  | .deactivate exit p =>
    some { s with
      host := s.host.setActiveOwner 0
      stage := match exit with
        | .rollback => .retire exit p
        | _ => .removeOwner exit p }
  | .retire exit p =>
    some { s with host := s.host.retireOwner p.owner, stage := .wait exit p }
  | .removeOwner exit p =>
    some { s with host := s.host.removeOwner p.owner, stage := .closeLibrary exit p }
  | _ => none

def locksHost : Stage → Bool
  | .createOwner .. | .activateLoad .. | .deactivateLoad .. | .activateStart ..
  | .deactivateStart .. | .deactivate .. | .retire .. | .removeOwner .. => true
  | _ => false

variable [DecidableEq τ]

/-- The exclusive lock is granted when no thread holds the shared one. -/
def manage (s : System τ) (reply : Reply) : Option (System τ) :=
  if locksHost s.stage then
    if s.readers = ∅ then s.exclusiveStep s.stage else none
  else s.localStep reply s.stage

/-- A `register_writer` call by the code of a plugin. -/
def register (s : System τ) (plugin : OwnerId) (topicPrefix : Bytes) (pluginCtx entry : Nat) :
    Option (System τ) :=
  if plugin ∈ s.live ∧ s.readers = ∅ then
    some { s with host := s.host.registerWriter topicPrefix pluginCtx ⟨plugin, entry⟩ }
  else none

def setWriter (s : System τ) (t : τ) (pc : WritePc) : System τ :=
  { s with writer := Function.update s.writer t pc }

def write (s : System τ) (t : τ) (tag : TagValue) : Option (System τ) :=
  match s.writer t with
  | .idle => some (s.setWriter t (.lock tag))
  | _ => none

/-- The next atomic step of a `write` call; `accepted` is the answer of the handler. -/
def advance (s : System τ) (t : τ) (accepted : Bool) : Option (System τ) :=
  match s.writer t with
  | .idle => none
  | .lock tag => some { s.setWriter t (.select tag) with readers := insert t s.readers }
  | .select tag =>
    match s.host.select tag.name with
    | none => some (s.setWriter t (.unlock tag none))
    | some reg => some (s.setWriter t (.increment tag reg))
  | .increment tag reg =>
    some { s.setWriter t (.unlock tag (some reg)) with host := s.host.addInflight reg.owner 1 }
  | .unlock _ none => some { s.setWriter t .idle with readers := s.readers.erase t }
  | .unlock tag (some reg) =>
    some { s.setWriter t (.call tag reg) with readers := s.readers.erase t }
  | .call tag reg => some (s.setWriter t (.handling tag reg))
  | .handling _ reg => some (s.setWriter t (.decrement reg accepted))
  | .decrement reg _ =>
    some { s.setWriter t .idle with host := s.host.addInflight reg.owner (-1) }

def step (s : System τ) : Action τ → Option (System τ)
  | .write t tag => s.write t tag
  | .advance t accepted => s.advance t accepted
  | .operation op => s.operation op
  | .manage reply => s.manage reply
  | .register plugin topicPrefix pluginCtx entry => s.register plugin topicPrefix pluginCtx entry

def machine (τ : Type*) [DecidableEq τ] : Machine (System τ) (Action τ) := ⟨initial, step⟩

end System

end PluginManager

end IndustrialRuntime.Core
