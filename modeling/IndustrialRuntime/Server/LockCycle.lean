import IndustrialRuntime.Server.LockOrder

namespace IndustrialRuntime.Irsp.Runtime

open IndustrialRuntime.Core

variable {τ : Type*} {hash : Bytes → UInt64} [DecidableEq τ]

/-- A runtime in which only the service thread and one acquisition thread have moved. -/
def scene (setup : Setup τ) (t : τ) (engine : TagEngine hash) (server : IrspServer)
    (writes : List Written) (locks : LockTable (Option τ) Lock) (a b : Pc) : Runtime τ hash where
  engine := engine
  server := server
  locks := locks
  pc
    | none => a
    | some u => if u = t then b else .plugin ⟨setup.plugin u, false, .running⟩
  writes := writes
  routes := []
  pushes := []

section Scene

variable (setup : Setup τ) (t : τ) (engine : TagEngine hash) (server : IrspServer)
  (writes : List Written) (locks : LockTable (Option τ) Lock) (a b : Pc)

@[simp] theorem scene_pc_none : (scene setup t engine server writes locks a b).pc none = a := rfl

@[simp] theorem scene_pc_some : (scene setup t engine server writes locks a b).pc (some t) = b := by
  simp [scene]

@[simp] theorem scene_setPc_none (pc : Pc) :
    (scene setup t engine server writes locks a b).setPc none pc =
      scene setup t engine server writes locks pc b := by
  simp only [setPc, scene, Runtime.mk.injEq, true_and, and_true]
  funext u
  cases u <;> rfl

@[simp] theorem scene_setPc_some (pc : Pc) :
    (scene setup t engine server writes locks a b).setPc (some t) pc =
      scene setup t engine server writes locks a pc := by
  simp only [setPc, scene, Runtime.mk.injEq, true_and, and_true]
  funext u
  cases u with
  | none => rfl
  | some u =>
    by_cases same : u = t
    · subst same
      simp
    · simp [same]

theorem initial_eq_scene : (initial setup : Runtime τ hash) =
    scene setup t .empty .initial [] [] .idle (.plugin ⟨setup.plugin t, false, .running⟩) := by
  simp only [initial, scene, Runtime.mk.injEq, true_and, and_true]
  funext u
  cases u with
  | none => rfl
  | some u =>
    by_cases same : u = t
    · subst same
      simp
    · simp [same]

theorem step_call (cb : Callback) :
    (machine hash setup).step (scene setup t engine server writes locks .idle b) (.callback cb) =
      some (scene setup t engine server writes locks (.enter cb) b) := by
  simp [machine, step]

theorem step_take_none (l : Lock) (m : LockMode) (waits : a.wants hash = some (l, m))
    (free : locks.free none l m = true) :
    (machine hash setup).step (scene setup t engine server writes locks a b) (.advance none 0) =
      some (scene setup t engine server writes (locks.acquire none l m) a.granted b) := by
  have held : (scene setup t engine server writes locks a b).locks.free none l m = true := free
  simp only [machine, step, advance, scene_pc_none, waits, held, if_true, scene_setPc_none]
  rfl

theorem step_take_some (l : Lock) (m : LockMode) (waits : b.wants hash = some (l, m))
    (free : locks.free (some t) l m = true) :
    (machine hash setup).step (scene setup t engine server writes locks a b) (.advance (some t) 0) =
      some (scene setup t engine server writes (locks.acquire (some t) l m) a b.granted) := by
  have held : (scene setup t engine server writes locks a b).locks.free (some t) l m = true := free
  simp only [machine, step, advance, scene_pc_some, waits, held, if_true, scene_setPc_some]
  rfl

theorem step_established :
    (machine hash setup).step (scene setup t engine server writes locks (.inside .established) b)
        (.advance none 0) =
      some (scene setup t engine server.established writes locks .leave b) := by
  simp only [machine, step, advance, scene_pc_none, Pc.wants, work, callbackStep, scene_setPc_none]
  rfl

theorem step_leave :
    (machine hash setup).step (scene setup t engine server writes locks .leave b)
        (.advance none 0) =
      some (scene setup t engine server writes (locks.release none .server .exclusive) .idle
        b) := by
  simp only [machine, step, advance, scene_pc_none, Pc.wants, work, scene_setPc_none]
  rfl

theorem step_copy (call : SetCall) :
    (machine hash setup).step (scene setup t engine server writes locks (.copy call) b)
        (.advance none 0) =
      some (scene setup t engine server writes (locks.release none .writeHandler .exclusive)
        (.selectLock call) b) := by
  simp only [machine, step, advance, scene_pc_none, Pc.wants, work, scene_setPc_none]
  rfl

theorem step_select (call : SetCall) (reg : WriteReg)
    (found : setup.host.select call.tag.name = some reg) :
    (machine hash setup).step (scene setup t engine server writes locks (.select call) b)
        (.advance none 0) =
      some (scene setup t engine server writes (locks.release none .writers .shared)
        (.handler call ⟨reg.handler.plugin, false, .running⟩) b) := by
  simp only [machine, step, advance, scene_pc_none, Pc.wants, work, found, scene_setPc_none]
  rfl

theorem step_store (code : Code) (tag : TagValue) (activity : code.activity = .pushing (.store tag))
    (changed : (engine.writeImpl tag).1 = true) :
    (machine hash setup).step (scene setup t engine server writes locks a (.plugin code))
        (.advance (some t) 0) =
      some (scene setup t (engine.writeImpl tag).2 server (writes ++ [⟨tag, true⟩])
        (locks.release (some t) (tagLock hash tag.name) .exclusive) a
        (.plugin { code with activity := .pushing (.callbackLock writes.length tag.name) })) := by
  have waits : (Pc.plugin code).wants hash = none := by
    simp [Pc.wants, Code.wants, activity, Push.wants]
  have pushes : (scene setup t engine server writes locks a (.plugin code)).pushStep (some t)
      (.store tag) =
      (scene setup t (engine.writeImpl tag).2 server (writes ++ [⟨tag, true⟩])
        (locks.release (some t) (tagLock hash tag.name) .exclusive) a (.plugin code),
        some (.callbackLock writes.length tag.name)) := by
    have wrote : ((scene setup t engine server writes locks a (.plugin code)).engine.writeImpl
      tag).1 = true := changed
    simp only [pushStep, wrote, if_true]
    rfl
  simp only [machine, step, advance, scene_pc_some, waits, work, codeStep, activity, pushes,
    Activity.after, Pc.withCode, scene_setPc_some]

/-- The service thread greets the first connection. -/
theorem step_greet :
    ∃ server', (machine hash setup).step
        (scene setup t engine IrspServer.initial.established writes locks
          (.inside (.receive 1 (ascii "HELLO 1") true)) b) (.advance none 0) =
          some (scene setup t engine server' writes locks .leave b) ∧
      ∃ conn, server'.conns 1 = some conn ∧ conn.session.hello = true ∧ conn.rx = [] := by
  let before := scene setup t engine IrspServer.initial.established writes locks
    (.inside (.receive 1 (ascii "HELLO 1") true)) b
  let server' := before.answer
    (IrspServer.initial.established.receive 1 (ascii "HELLO 1") true).1 1
    (.request (.array [.bulk (ascii "HELLO"), .bulk (ascii "1")])) .error
  have served : before.callbackStep setup none 0 (.receive 1 (ascii "HELLO 1") true) =
      some { before.setPc none .leave with server := server' } := rfl
  refine ⟨server', ?_, _, rfl, rfl, rfl⟩
  simp only [machine, step, advance, scene_pc_none, Pc.wants, work]
  rw [served, scene_setPc_none]
  rfl

/-- A `SET` frame on a greeted connection begins its way to the handler. -/
theorem step_route (bytes : Bytes) (value : IrspValue) (topic type written : Bytes)
    (variant : Variant) (conn : Conn) (found : server.conns 1 = some conn)
    (greeted : conn.session.hello = true) (fresh : conn.rx = [])
    (parsed : IrspServer.parseFrame setup.limits bytes = .ok (.request value))
    (set : setArguments ⟨0, true⟩ value = some (topic, type, written))
    (converted : CoreTagWriter.toVariant type written = some variant) :
    (machine hash setup).step
        (scene setup t engine server writes locks (.inside (.receive 1 bytes true)) b)
        (.advance none 0) =
      some (scene setup t engine (server.receive 1 bytes true).1 writes locks
        (.copyLock ⟨1, value, .of topic variant 0⟩) b) := by
  have complete : (server.receive 1 bytes true).2 = some ({ conn with rx := [] }, bytes) := by
    simp [IrspServer.receive, found, fresh]
  have arguments : setArguments conn.session value = some (topic, type, written) :=
    setArguments_hello set conn.session greeted
  have whole : (scene setup t engine server writes locks (.inside (.receive 1 bytes true))
    b).server = server := rfl
  simp only [machine, step, advance, scene_pc_none, Pc.wants, work, callbackStep, whole, complete,
    parsed, arguments, converted, scene_setPc_none]
  rfl

theorem step_lock_some (code : Code) (running : code.activity = .running)
    (outside : code.holds = false) :
    (machine hash setup).step (scene setup t engine server writes locks a (.plugin code))
        (.plugin (some t) .lock) =
      some (scene setup t engine server writes locks a
        (.plugin { code with activity := .locking })) := by
  simp [machine, step, Pc.code, running, pluginStep, outside, Pc.withCode]

theorem step_push_some (code : Code) (tag : TagValue) (running : code.activity = .running) :
    (machine hash setup).step (scene setup t engine server writes locks a (.plugin code))
        (.plugin (some t) (.push tag)) =
      some (scene setup t engine server writes locks a
        (.plugin { code with activity := .pushing (.shardLock tag) })) := by
  simp [machine, step, Pc.code, running, pluginStep, Pc.withCode]

theorem step_lock_none (call : SetCall) (code : Code) (running : code.activity = .running)
    (outside : code.holds = false) :
    (machine hash setup).step (scene setup t engine server writes locks (.handler call code) b)
        (.plugin none .lock) =
      some (scene setup t engine server writes locks
        (.handler call { code with activity := .locking }) b) := by
  simp [machine, step, Pc.code, running, pluginStep, outside, Pc.withCode]

end Scene

/-- The locks of the acquisition thread when it waits for the server. -/
def pushLocks (plugin : OwnerId) (t : τ) : LockTable (Option τ) Lock :=
  [⟨some t, .callback, .shared⟩, ⟨some t, .plugin plugin, .exclusive⟩]

variable (hash) in
/-- A first client connects and greets. -/
theorem reaches_greeted (setup : Setup τ) (c : Conduct) (t : τ) : ∃ server conn,
    (machine hash setup).Reaches (Obeys c) (initial setup)
      (scene setup t .empty server [] [] .idle (.plugin ⟨setup.plugin t, false, .running⟩)) ∧
    server.conns 1 = some conn ∧ conn.session.hello = true ∧ conn.rx = [] := by
  obtain ⟨server, greets, conn, session, hello, fresh⟩ := step_greet setup t
    (.empty : TagEngine hash) [] [⟨none, .server, .exclusive⟩]
    (.plugin ⟨setup.plugin t, false, .running⟩)
  refine ⟨server, conn, ?_, session, hello, fresh⟩
  rw [initial_eq_scene setup t]
  refine .head _ (.callback .established) trivial (step_call ..) ?_
  refine .head _ (.advance none 0) trivial
    (step_take_none _ _ _ _ _ _ _ _ .server .exclusive (by rfl) (by rfl)) ?_
  refine .head _ (.advance none 0) trivial (step_established ..) ?_
  refine .head _ (.advance none 0) trivial (step_leave ..) ?_
  rw [LockTable.release_acquire]
  refine .head _ (.callback (.receive 1 (ascii "HELLO 1") true)) trivial (step_call ..) ?_
  refine .head _ (.advance none 0) trivial
    (step_take_none _ _ _ _ _ _ _ _ .server .exclusive (by rfl) (by rfl)) ?_
  refine .head _ (.advance none 0) trivial greets ?_
  refine .head _ (.advance none 0) trivial (step_leave ..) ?_
  exact .refl _ _ _

/-- An acquisition thread pushes a value under its plugin's mutex, as far as the server's. -/
theorem reaches_pushing (setup : Setup τ) (c : Conduct) (t : τ) (tag : TagValue)
    (server : IrspServer) (pushes : c.pushesHeld (setup.plugin t)) :
    (machine hash setup).Reaches (Obeys c)
      (scene setup t .empty server [] [] .idle (.plugin ⟨setup.plugin t, false, .running⟩))
      (scene setup t (TagEngine.empty.writeImpl tag).2 server [⟨tag, true⟩]
        (pushLocks (setup.plugin t) t) .idle
        (.plugin ⟨setup.plugin t, true, .pushing (.routeLock 0 tag.name)⟩)) := by
  refine .head _ (.plugin (some t) .lock) trivial (step_lock_some _ _ _ _ _ _ _ _ rfl rfl) ?_
  refine .head _ (.advance (some t) 0) trivial
    (step_take_some _ _ _ _ _ _ _ _ (.plugin (setup.plugin t)) .exclusive rfl rfl) ?_
  refine .head _ (.plugin (some t) (.push tag)) (fun code found _ => ?_)
    (step_push_some _ _ _ _ _ _ _ _ _ rfl) ?_
  · obtain rfl := by simpa [Pc.code, Pc.granted] using found
    exact pushes
  refine .head _ (.advance (some t) 0) trivial
    (step_take_some _ _ _ _ _ _ _ _ (tagLock hash tag.name) .exclusive rfl ?_) ?_
  · simp [LockTable.acquire, LockTable.free]
  refine .head _ (.advance (some t) 0) trivial (step_store _ _ _ _ _ _ _ _ tag rfl rfl) ?_
  rw [LockTable.release_acquire]
  refine .head _ (.advance (some t) 0) trivial
    (step_take_some _ _ _ _ _ _ _ _ .callback .shared rfl ?_) ?_
  · simp [LockTable.acquire, LockTable.free]
  exact .refl _ _ _

/-- Meanwhile the service thread takes a `SET` to the handler, which waits for the mutex. -/
theorem reaches_handler (setup : Setup τ) (c : Conduct) (t : τ) (engine : TagEngine hash)
    (server : IrspServer) (writes : List Written) (b : Pc) (conn : Conn)
    (session : server.conns 1 = some conn) (hello : conn.session.hello = true)
    (fresh : conn.rx = []) (locks : c.handlerLocks (setup.plugin t))
    (routable : Routable setup (setup.plugin t)) : ∃ server' call,
    (machine hash setup).Reaches (Obeys c)
      (scene setup t engine server writes (pushLocks (setup.plugin t) t) .idle b)
      (scene setup t engine server' writes
        (⟨none, .server, .exclusive⟩ :: pushLocks (setup.plugin t) t)
        (.handler call ⟨setup.plugin t, false, .locking⟩) b) := by
  obtain ⟨topic, reg, ⟨bytes, value, type, written, variant, parsed, set, converted⟩, found, own⟩ :=
    routable
  refine ⟨(server.receive 1 bytes true).1, ⟨1, value, .of topic variant 0⟩, ?_⟩
  refine .head _ (.callback (.receive 1 bytes true)) trivial (step_call ..) ?_
  refine .head _ (.advance none 0) trivial
    (step_take_none _ _ _ _ _ _ _ _ .server .exclusive (by rfl) (by rfl)) ?_
  refine .head _ (.advance none 0) trivial (step_route _ _ _ _ _ _ _ bytes value topic type written
    variant conn session hello fresh parsed set converted) ?_
  refine .head _ (.advance none 0) trivial
    (step_take_none _ _ _ _ _ _ _ _ .writeHandler .exclusive (by rfl) (by rfl)) ?_
  refine .head _ (.advance none 0) trivial (step_copy ..) ?_
  rw [LockTable.release_acquire]
  refine .head _ (.advance none 0) trivial
    (step_take_none _ _ _ _ _ _ _ _ .writers .shared (by rfl) (by rfl)) ?_
  refine .head _ (.advance none 0) trivial (step_select _ _ _ _ _ _ _ _ reg found) ?_
  rw [LockTable.release_acquire, own]
  refine .head _ (.plugin none .lock) (fun code same => ?_)
    (step_lock_none _ _ _ _ _ _ _ _ _ rfl rfl) (.refl _ _ _)
  obtain rfl := by simpa [Pc.code] using same
  exact locks

/-- Each of the two threads now waits for a lock that the other one holds. -/
theorem scene_stuck (setup : Setup τ) (t : τ) (engine : TagEngine hash) (server : IrspServer)
    (writes : List Written) (call : SetCall) (plugin : OwnerId) (name : Bytes) :
    (scene setup t engine server writes (⟨none, .server, .exclusive⟩ :: pushLocks plugin t)
      (.handler call ⟨plugin, false, .locking⟩)
      (.plugin ⟨plugin, true, .pushing (.routeLock 0 name)⟩)).Stuck := by
  refine deadlocked_of_pair none (some t) ?_ ?_
  · refine ⟨.plugin plugin, .exclusive, rfl, Option.some_ne_none t,
      ⟨some t, .plugin plugin, .exclusive⟩, ?_, rfl, rfl, rfl⟩
    simp [scene, pushLocks]
  · refine ⟨.server, .exclusive, ?_, (Option.some_ne_none t).symm, ⟨none, .server, .exclusive⟩, ?_,
      rfl, rfl, rfl⟩
    · simp only [scene_pc_some]
      rfl
    · simp [scene]

variable (hash) in
theorem reaches_stuck (setup : Setup τ) (c : Conduct) (t : τ)
    (pushes : c.pushesHeld (setup.plugin t)) (locks : c.handlerLocks (setup.plugin t))
    (routable : Routable setup (setup.plugin t)) :
    ∃ s : Runtime τ hash, (machine hash setup).Reaches (Obeys c) (initial setup) s ∧ s.Stuck := by
  obtain ⟨server, conn, greeted, session, hello, fresh⟩ := reaches_greeted hash setup c t
  obtain ⟨server', call, handled⟩ := reaches_handler setup c t (_ : TagEngine hash) server _ _ conn
    session hello fresh locks routable
  exact ⟨_, .trans _ greeted (.trans _ (reaches_pushing setup c t (.of [] .null 0) server pushes)
    handled), scene_stuck ..⟩

/-- While plugin code runs, its thread holds a lock that a `push_tag` can block on just when the
code is a write handler, on the service thread, and the lock is `mutex_`. -/
theorem blocking_held_iff (setup : Setup τ) (schedule : List (Action τ)) (s : Runtime τ hash)
    (run : (machine hash setup).run schedule = some s) (t : Option τ) (code : Code)
    (place : (s.pc t).code = some code) (running : code.activity = .running) (l : Lock)
    (m : LockMode) :
    (⟨t, l, m⟩ ∈ s.locks ∧
        ∃ push : Push, ∃ n, push.wants hash = some (l, n) ∧ n.conflicts m = true) ↔
      t = none ∧ l = .server ∧ m = .exclusive := by
  -- any conduct will do: the claim is about each place by itself
  let c : Conduct := ⟨fun _ => True, fun _ => True⟩
  have free : (machine hash setup).Steps (Obeys c) (initial setup) schedule := by
    refine (machine hash setup).steps_of_forall _ (fun u a => ?_) _ _
    unfold Obeys
    split <;> simp [c]
  obtain ⟨locked, conducted⟩ := ordered_of_run setup c schedule s free run
  constructor
  · rintro ⟨held, push, n, wants, -⟩
    refine (locked.held_iff conducted place running l m ?_).mp held
    rintro rfl
    cases push <;> simp [Push.wants, tagLock] at wants
  · intro service
    obtain ⟨rfl, rfl, rfl⟩ := service
    have held : ⟨none, .server, .exclusive⟩ ∈ s.locks :=
      (locked.held_iff conducted place running _ _ Lock.noConfusion).mpr ⟨rfl, rfl, rfl⟩
    exact ⟨held, .routeLock 0 [], .exclusive, rfl, rfl⟩

/-- No interleaving of the service thread with the acquisition threads deadlocks, exactly when
no plugin pushes under a mutex that a `SET` waits for: `mutex_` is held while the handler runs. -/
theorem never_stuck_iff (setup : Setup τ) (c : Conduct) :
    (∀ schedule (s : Runtime τ hash),
      (machine hash setup).Steps (Obeys c) (initial setup) schedule →
        (machine hash setup).run schedule = some s → ¬s.Stuck) ↔ Apart setup c := by
  constructor
  · intro never t pushes locks routable
    obtain ⟨s, ⟨schedule, obeys, run⟩, stuck⟩ :=
      reaches_stuck hash setup c t pushes locks routable
    exact never schedule s obeys run stuck
  · intro apart schedule s obeys run
    obtain ⟨locked, conducted⟩ := ordered_of_run setup c schedule s obeys run
    exact not_stuck apart locked conducted

/-- A plugin with one acquisition thread that writes the topics under `a/`. -/
def deviceSetup : Setup Unit where
  limits := Irsp1Codec.x64Limits
  host := PluginHost.initial.registerWriter (ascii "a/") 0 ⟨1, 0⟩
  plugin _ := 1

/-- The acquisition thread pushes under the plugin's mutex; before it enters `routeTag`, a `SET`
arrives, and its handler waits for the mutex. -/
def pushMeetsSet : List (Action Unit) :=
  [.callback .established, .advance none 0, .advance none 0, .advance none 0,
    .callback (.receive 1 (ascii "HELLO 1") true), .advance none 0, .advance none 0,
    .advance none 0, .plugin (some ()) .lock, .advance (some ()) 0,
    .plugin (some ()) (.push (.of (ascii "a/x") (.int32 1) 0)), .advance (some ()) 0,
    .advance (some ()) 0, .advance (some ()) 0,
    .callback (.receive 1 (ascii "SET a/x str 7") true), .advance none 0, .advance none 0,
    .advance none 0, .advance none 0, .advance none 0, .advance none 0, .plugin none .lock]

/-- The plugin deadlocks with the server. -/
theorem stuck_pushMeetsSet : ¬∀ s : Runtime Unit (fun _ => 0),
    (machine (fun _ => 0) deviceSetup).run pushMeetsSet = some s → ¬s.Stuck := by
  intro never
  have ends : ((machine (fun _ => 0) deviceSetup).run pushMeetsSet).map (fun s =>
      (s.locks, (s.pc none).wants fun _ => 0, (s.pc (some ())).wants fun _ => 0)) =
      some ([⟨none, .server, .exclusive⟩, ⟨some (), .callback, .shared⟩,
        ⟨some (), .plugin 1, .exclusive⟩], some (.plugin 1, .exclusive),
        some (.server, .exclusive)) := by rfl
  obtain ⟨s, run, last⟩ := Option.map_eq_some_iff.mp ends
  injection last with locks last
  injection last with service acquisition
  refine never s run (deadlocked_of_pair none (some ()) ?_ ?_)
  · refine ⟨.plugin 1, .exclusive, service, Option.some_ne_none (),
      ⟨some (), .plugin 1, .exclusive⟩, ?_, rfl, rfl, rfl⟩
    simp [locks]
  · refine ⟨.server, .exclusive, acquisition, (Option.some_ne_none ()).symm,
      ⟨none, .server, .exclusive⟩, ?_, rfl, rfl, rfl⟩
    simp [locks]

end IndustrialRuntime.Irsp.Runtime
