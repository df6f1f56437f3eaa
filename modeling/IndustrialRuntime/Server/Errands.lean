import IndustrialRuntime.Semantic.DispatcherSubs
import IndustrialRuntime.Server.RuntimeLocks

namespace IndustrialRuntime.Irsp

namespace IrspServer

/-- Occupied nodes of the subscription trie are nodes of valid patterns. -/
def Spelled (s : IrspServer) : Prop := s.dispatcher.tagSubs.Spelled

theorem receive_dispatcher (s : IrspServer) (id : Nat) (data : Bytes) (final : Bool) :
    (s.receive id data final).1.dispatcher = s.dispatcher := by
  unfold receive
  split
  · rfl
  · simp only
    split <;> rfl

theorem writeable_dispatcher (s : IrspServer) (id : Nat) :
    (s.writeable id).1.dispatcher = s.dispatcher := by
  unfold writeable
  split
  · rfl
  · split <;> rfl

theorem pushTo_dispatcher (s : IrspServer) (frame : Bytes) (id : Nat) :
    (s.pushTo frame id).dispatcher = s.dispatcher := by
  unfold pushTo
  split <;> rfl

theorem pushAll_dispatcher (s : IrspServer) (ids : List Nat) (frame : Bytes) :
    (s.pushAll ids frame).dispatcher = s.dispatcher := by
  induction ids generalizing s with
  | nil => rfl
  | cons id ids ih => exact (ih (s.pushTo frame id)).trans (pushTo_dispatcher s frame id)

theorem dispatch_spelled {ω : Type*} (tags : TagSource ω) (writer : Option (TagWriter ω))
    {d : Dispatcher} (hd : d.tagSubs.Spelled) (conn : Conn) (store : ω) (frame : Frame) :
    (dispatch tags writer d conn store frame).2.1.tagSubs.Spelled := by
  cases frame with
  | request value => exact Dispatcher.handle_spelled hd tags writer conn.session store value
  | _ => exact hd

end IrspServer

namespace Runtime

open IndustrialRuntime.Core

/-- How far a value-changing write has come on its way to the subscribers: from its store until
its `routeTag` has enqueued. -/
structure Errand where
  ticket : Nat
  name : Bytes
  ids : Option (List SubscriberId)
  record : Option TagRecord
  deriving DecidableEq

def Push.errand : Push → Option Errand
  | .callbackLock ticket name | .routeLock ticket name | .collect ticket name =>
    some ⟨ticket, name, none, none⟩
  | .readLock ticket name ids | .read ticket name ids => some ⟨ticket, name, some ids, none⟩
  | .enqueue ticket name ids record => some ⟨ticket, name, some ids, some record⟩
  | _ => none

def Activity.errand : Activity → Option Errand
  | .pushing push => push.errand
  | _ => none

def Pc.errand (pc : Pc) : Option Errand := pc.code.bind fun code => code.activity.errand

variable {τ : Type*} {hash : Bytes → UInt64}

def errand (s : Runtime τ hash) (t : Option τ) : Option Errand := (s.pc t).errand

theorem Pc.errand_code {pc : Pc} {code : Code} (h : pc.code = some code) :
    pc.errand = code.activity.errand := by
  rw [Pc.errand, h]
  rfl

theorem Pc.errand_withCode {pc : Pc} {code : Code} (h : pc.code = some code) (code' : Code) :
    (pc.withCode code').errand = code'.activity.errand :=
  Pc.errand_code (Pc.code_withCode h code')

/-- Waiting for a lock and getting it does not move an errand. -/
theorem Pc.errand_granted (pc : Pc) : pc.granted.errand = pc.errand := by
  cases pc with
  | handler call code | plugin code =>
    obtain ⟨plugin, holds, activity⟩ := code
    cases activity with
    | pushing push => cases push <;> rfl
    | _ => rfl
  | _ => rfl

/-- An errand that knows its subscribers is inside `mutex_`. -/
theorem Pc.held_of_ids {pc : Pc} {e : Errand} (errand : pc.errand = some e)
    (ids : e.ids ≠ none) : (Lock.server, LockMode.exclusive) ∈ pc.held hash := by
  cases code : pc.code with
  | none => simp [Pc.errand, code] at errand
  | some code' =>
    rw [Pc.errand_code code] at errand
    rw [Pc.held_code code]
    apply List.mem_append_left
    apply List.mem_append_left
    cases activity : code'.activity with
    | pushing push =>
      rw [activity] at errand
      cases push with
      | readLock ticket name ids | read ticket name ids | enqueue ticket name ids record =>
        simp [Activity.held, Push.held]
      | callbackLock ticket name | routeLock ticket name | collect ticket name =>
        obtain rfl := by simpa [Activity.errand, Push.errand] using errand
        exact absurd rfl ids
      | _ => simp [Activity.errand, Push.errand] at errand
    | _ => simp [activity, Activity.errand] at errand

/-- At most one errand knows its subscribers at a time. -/
theorem Locked.one_inside [DecidableEq τ] {s : Runtime τ hash} (locked : Locked s)
    {t u : Option τ} {e f : Errand} (ht : s.errand t = some e) (hu : s.errand u = some f)
    (he : e.ids ≠ none) (hf : f.ids ≠ none) : t = u :=
  locked.consistent.same_thread (Pc.held_of_ids ht he) (Pc.held_of_ids hu hf) rfl

/-- While the service thread runs a callback, no errand knows its subscribers. -/
theorem Locked.none_inside [DecidableEq τ] {s : Runtime τ hash} (locked : Locked s)
    {t : Option τ} (inside : (Lock.server, LockMode.exclusive) ∈ (s.pc t).held hash)
    (idle : s.errand t = none) {u : Option τ} {e : Errand} (hu : s.errand u = some e) :
    e.ids = none := by
  by_contra known
  obtain rfl : t = u :=
    locked.consistent.same_thread inside (Pc.held_of_ids hu known) rfl
  rw [idle] at hu
  contradiction

theorem answer_spelled {s : Runtime τ hash} {server : IrspServer} (spelled : server.Spelled)
    (id : Nat) (frame : Frame) (result : WriteResult) :
    (s.answer server id frame result).Spelled := by
  unfold answer
  split
  · exact spelled
  · exact IrspServer.dispatch_spelled _ _ spelled _ _ frame

theorem Served.spelled {setup : Setup τ} {s : Runtime τ hash} {cb : Callback}
    {server : IrspServer} {pc : Pc} (h : Served setup s cb server pc)
    (spelled : s.server.Spelled) : server.Spelled := by
  have received : ∀ id data final, (s.server.receive id data final).1.Spelled := by
    intro id data final
    rw [IrspServer.Spelled, IrspServer.receive_dispatcher]
    exact spelled
  cases h with
  | established | cancelled => exact spelled
  | fragment id data final => exact received id data final
  | answered id data final frame => exact answer_spelled (received id data final) id frame .error
  | rejected id data final value => exact received id data final
  | routed id data final conn bytes value topic type written variant timestamp =>
    exact received id data final
  | written id =>
    rw [IrspServer.Spelled, IrspServer.writeable_dispatcher]
    exact spelled
  | closed id => exact Dispatcher.onSessionClosed_spelled spelled id

section Steps

variable [DecidableEq τ]

theorem errand_setPc_self (s : Runtime τ hash) (t : Option τ) (pc : Pc) :
    (s.setPc t pc).errand t = pc.errand := by
  simp [errand, setPc]

theorem errand_setPc_of_ne (s : Runtime τ hash) {t u : Option τ} (pc : Pc) (other : u ≠ t) :
    (s.setPc t pc).errand u = s.errand u := by
  simp [errand, setPc, Function.update_of_ne other]

/-- What one step does to the errands, and to the state they carry to the subscribers. -/
inductive Progress (s : Runtime τ hash) (a : Action τ) (s' : Runtime τ hash) : Prop where
  | idle (errands : ∀ t, s'.errand t = s.errand t) (writes : s'.writes = s.writes)
      (routes : s'.routes = s.routes) (pushes : s'.pushes = s.pushes)
      (engine : ∀ name, a ≠ .remove name → s'.engine.lookup name = s.engine.lookup name)
      (server : s'.server = s.server ∨ ((s.server.Spelled → s'.server.Spelled) ∧
        ∀ t e, s.errand t = some e → e.ids = none))
  | stored (t : Option τ) (tag : TagValue) (before : s.errand t = none)
      (own : s'.errand t =
        if (s.engine.writeImpl tag).1 then some ⟨s.writes.length, tag.name, none, none⟩ else none)
      (others : ∀ u, u ≠ t → s'.errand u = s.errand u)
      (engine : s'.engine = (s.engine.writeImpl tag).2)
      (writes : s'.writes = s.writes ++ [⟨tag, (s.engine.writeImpl tag).1⟩])
      (routes : s'.routes = s.routes) (pushes : s'.pushes = s.pushes)
      (server : s'.server = s.server)
  | collected (t : Option τ) (ticket : Nat) (name : Bytes)
      (before : s.errand t = some ⟨ticket, name, none, none⟩)
      (own : s'.errand t =
        some ⟨ticket, name, some (s.server.dispatcher.tagSubscribers name), none⟩)
      (others : ∀ u, u ≠ t → s'.errand u = s.errand u) (engine : s'.engine = s.engine)
      (writes : s'.writes = s.writes) (routes : s'.routes = s.routes)
      (pushes : s'.pushes = s.pushes) (server : s'.server = s.server)
  | skipped (t : Option τ) (ticket : Nat) (name : Bytes)
      (before : s.errand t = some ⟨ticket, name, none, none⟩)
      (nobody : s.server.dispatcher.tagSubscribers name = []) (own : s'.errand t = none)
      (others : ∀ u, u ≠ t → s'.errand u = s.errand u) (engine : s'.engine = s.engine)
      (writes : s'.writes = s.writes) (routes : s'.routes = s.routes ++ [⟨ticket, s.server⟩])
      (pushes : s'.pushes = s.pushes) (server : s'.server = s.server)
  | missed (t : Option τ) (ticket : Nat) (name : Bytes) (ids : List SubscriberId)
      (before : s.errand t = some ⟨ticket, name, some ids, none⟩)
      (missing : CoreTagSource.read s.engine name = none) (own : s'.errand t = none)
      (others : ∀ u, u ≠ t → s'.errand u = s.errand u) (engine : s'.engine = s.engine)
      (writes : s'.writes = s.writes) (routes : s'.routes = s.routes ++ [⟨ticket, s.server⟩])
      (pushes : s'.pushes = s.pushes) (server : s'.server = s.server)
  | read (t : Option τ) (ticket : Nat) (name : Bytes) (ids : List SubscriberId)
      (record : TagRecord) (before : s.errand t = some ⟨ticket, name, some ids, none⟩)
      (found : CoreTagSource.read s.engine name = some record)
      (own : s'.errand t = some ⟨ticket, name, some ids, some record⟩)
      (others : ∀ u, u ≠ t → s'.errand u = s.errand u) (engine : s'.engine = s.engine)
      (writes : s'.writes = s.writes) (routes : s'.routes = s.routes)
      (pushes : s'.pushes = s.pushes) (server : s'.server = s.server)
  | enqueued (t : Option τ) (ticket : Nat) (name : Bytes) (ids : List SubscriberId)
      (record : TagRecord) (before : s.errand t = some ⟨ticket, name, some ids, some record⟩)
      (own : s'.errand t = none) (others : ∀ u, u ≠ t → s'.errand u = s.errand u)
      (engine : s'.engine = s.engine) (writes : s'.writes = s.writes)
      (routes : s'.routes = s.routes ++ [⟨ticket, s.server⟩])
      (pushes : s'.pushes = s.pushes ++
        (ids.filter fun id => (s.server.conns id).isSome).map fun id => ⟨ticket, id, record⟩)
      (server : s'.server = s.server.pushAll ids (encodePushTag record))

/-- A step of the thread `t` that leaves its errand, the records and the engine alone. -/
theorem Progress.of_update {s s' : Runtime τ hash} {a : Action τ} (t : Option τ) (pc : Pc)
    (moved : s'.pc = Function.update s.pc t pc) (errand : pc.errand = (s.pc t).errand)
    (writes : s'.writes = s.writes) (routes : s'.routes = s.routes)
    (pushes : s'.pushes = s.pushes) (engine : s'.engine = s.engine)
    (server : s'.server = s.server ∨ ((s.server.Spelled → s'.server.Spelled) ∧
      ∀ u e, s.errand u = some e → e.ids = none)) : Progress s a s' := by
  refine .idle (fun u => ?_) writes routes pushes (fun name _ => by rw [engine]) server
  rw [Runtime.errand, Runtime.errand, moved]
  by_cases same : u = t
  · rw [same, Function.update_self, errand]
  · rw [Function.update_of_ne same]

theorem Progress.of_pushed {s : Runtime τ hash} {a : Action τ} {t : Option τ} {code : Code}
    {push : Push} (before : (s.pc t).code = some code) (pushing : code.activity = .pushing push)
    (waits : push.wants hash = none) :
    Progress s a ((s.pushStep t push).1.setPc t
      ((s.pc t).withCode { code with activity := .after (s.pushStep t push).2 })) := by
  have was : s.errand t = push.errand := by
    rw [Runtime.errand, Pc.errand_code before, pushing]
    rfl
  have becomes : ∀ (s' : Runtime τ hash) (next : Option Push),
      (s'.setPc t ((s.pc t).withCode { code with activity := .after next })).errand t =
        (Activity.after next).errand := by
    intro s' next
    rw [errand_setPc_self, Pc.errand_withCode before]
  have others : ∀ (s' : Runtime τ hash) (pc : Pc), s'.pc = s.pc →
      ∀ u, u ≠ t → (s'.setPc t pc).errand u = s.errand u := by
    intro s' pc same u other
    rw [errand_setPc_of_ne s' pc other, Runtime.errand, same]
    rfl
  cases push with
  | store tag =>
    refine .stored t tag was ?_ (others _ _ rfl) rfl rfl rfl rfl rfl
    rw [becomes]
    simp only [pushStep]
    split <;> rfl
  | collect ticket name =>
    simp only [pushStep]
    split
    · exact .skipped t ticket name was (List.isEmpty_iff.mp ‹_›) (becomes _ _) (others _ _ rfl)
        rfl rfl rfl rfl rfl
    · exact .collected t ticket name was (becomes _ _) (others _ _ rfl) rfl rfl rfl rfl rfl
  | read ticket name ids =>
    simp only [pushStep]
    cases found : CoreTagSource.read s.engine name with
    | none =>
      exact .missed t ticket name ids was found (becomes _ _) (others _ _ rfl) rfl rfl rfl rfl rfl
    | some record =>
      exact .read t ticket name ids record was found (becomes _ _) (others _ _ rfl)
        rfl rfl rfl rfl rfl
  | enqueue ticket name ids record =>
    exact .enqueued t ticket name ids record was (becomes _ _) (others _ _ rfl) rfl rfl rfl rfl rfl
  | routeUnlock | callbackUnlock =>
    refine .of_update t _ rfl ?_ rfl rfl rfl rfl (.inl rfl)
    exact (Pc.errand_withCode before _).trans was.symm
  | _ => simp [Push.wants] at waits

/-- A step of plugin code of its own carries no errand. -/
theorem Progress.of_running {s s' : Runtime τ hash} {a : Action τ} (t : Option τ) (pc : Pc)
    {code : Code} (before : (s.pc t).code = some code) (running : code.activity = .running)
    (moved : s'.pc = Function.update s.pc t pc) (errand : pc.errand = none)
    (writes : s'.writes = s.writes) (routes : s'.routes = s.routes)
    (pushes : s'.pushes = s.pushes) (engine : s'.engine = s.engine)
    (server : s'.server = s.server) : Progress s a s' := by
  refine .of_update t pc moved ?_ writes routes pushes engine (.inl server)
  rw [errand, Pc.errand_code before, running]
  rfl

theorem progress_of_moved {setup : Setup τ} {s s' : Runtime τ hash} {a : Action τ}
    (locked : Locked s) (h : Moved setup s a s') : Progress s a s' := by
  cases h with
  | called cb before =>
    exact .of_update none _ rfl (by rw [before]; rfl) rfl rfl rfl rfl (.inl rfl)
  | granted t timestamp l m waits free =>
    exact .of_update t _ rfl (Pc.errand_granted _) rfl rfl rfl rfl (.inl rfl)
  | pushed t timestamp code push before pushing waits => exact .of_pushed before pushing waits
  | served t timestamp cb server pc before served =>
    have nowhere : (s.pc t).errand = none := by
      rw [before]
      rfl
    have inside : (Lock.server, LockMode.exclusive) ∈ (s.pc t).held hash := by
      rw [before]
      exact List.mem_singleton.mpr rfl
    have idle : pc.errand = none := by cases served <;> rfl
    exact .of_update t pc rfl (idle.trans nowhere.symm) rfl rfl rfl rfl
      (.inr ⟨served.spelled, fun u e => locked.none_inside inside nowhere⟩)
  | copied t timestamp call before =>
    exact .of_update t _ rfl (by rw [before]; rfl) rfl rfl rfl rfl (.inl rfl)
  | unmatched t timestamp call before =>
    exact .of_update t _ rfl (by rw [before]; rfl) rfl rfl rfl rfl (.inl rfl)
  | selected t timestamp call reg before found =>
    exact .of_update t _ rfl (by rw [before]; rfl) rfl rfl rfl rfl (.inl rfl)
  | replied t timestamp conn request result before =>
    have nowhere : (s.pc t).errand = none := by
      rw [before]
      rfl
    have inside : (Lock.server, LockMode.exclusive) ∈ (s.pc t).held hash := by
      rw [before]
      exact List.mem_singleton.mpr rfl
    exact .of_update t _ rfl nowhere.symm rfl rfl rfl rfl
      (.inr ⟨fun spelled => answer_spelled spelled conn _ result,
        fun u e => locked.none_inside inside nowhere⟩)
  | left t timestamp before =>
    exact .of_update t _ rfl (by rw [before]; rfl) rfl rfl rfl rfl (.inl rfl)
  | locking t code before running outside =>
    exact .of_running t _ before running rfl (Pc.errand_withCode before _) rfl rfl rfl rfl rfl
  | unlocked t code before running inside =>
    refine .of_running t _ before running rfl ?_ rfl rfl rfl rfl rfl
    exact (Pc.errand_withCode before _).trans (by rw [running]; rfl)
  | pushes t code tag before running =>
    exact .of_running t _ before running rfl (Pc.errand_withCode before _) rfl rfl rfl rfl rfl
  | finished t call code accepted before running outside =>
    exact .of_running t _ (by rw [before]; rfl) running rfl rfl rfl rfl rfl rfl rfl
  | removed name =>
    refine .idle (fun _ => rfl) rfl rfl rfl (fun key other => ?_) (.inl rfl)
    rw [TagEngine.lookup_remove, if_neg]
    intro same
    rw [same] at other
    exact other rfl

end Steps

variable {s s' : Runtime τ hash} {a : Action τ}

theorem Progress.writes_grow (h : Progress s a s') : ∃ new, s'.writes = s.writes ++ new := by
  cases h with
  | stored t tag before own others engine writes => exact ⟨_, writes⟩
  | _ => exact ⟨[], by simpa⟩

theorem Progress.spelled (h : Progress s a s') (spelled : s.server.Spelled) :
    s'.server.Spelled := by
  cases h with
  | idle errands writes routes pushes engine server =>
    rcases server with same | ⟨keeps, -⟩
    · rwa [same]
    · exact keeps spelled
  | enqueued t ticket name ids record before own others engine writes routes pushes server =>
    rw [server, IrspServer.Spelled, IrspServer.pushAll_dispatcher]
    exact spelled
  | _ => rwa [‹s'.server = s.server›]

/-- Subscriptions do not change while an errand knows its subscribers. -/
theorem Progress.dispatcher (h : Progress s a s') {t : Option τ} {e : Errand}
    (errand : s.errand t = some e) :
    s'.server.dispatcher = s.server.dispatcher ∨ e.ids = none := by
  cases h with
  | idle errands writes routes pushes engine server =>
    rcases server with same | ⟨-, outside⟩
    · exact .inl (by rw [same])
    · exact .inr (outside t e errand)
  | enqueued u ticket name ids record before own others engine writes routes pushes server =>
    exact .inl (by rw [server, IrspServer.pushAll_dispatcher])
  | _ => exact .inl (by rw [‹s'.server = s.server›])

end Runtime

end IndustrialRuntime.Irsp
