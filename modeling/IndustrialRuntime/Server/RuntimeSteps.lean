import IndustrialRuntime.Server.Runtime

namespace IndustrialRuntime.Irsp.Runtime

open IndustrialRuntime.Core

variable {τ : Type*} {hash : Bytes → UInt64} [DecidableEq τ]

/-- What the body of a callback can do to the server, and where it leads the service thread. -/
inductive Served (setup : Setup τ) (s : Runtime τ hash) : Callback → IrspServer → Pc → Prop where
  | established : Served setup s .established s.server.established .leave
  | fragment (id : Nat) (data : Bytes) (final : Bool) :
      Served setup s (.receive id data final) (s.server.receive id data final).1 .leave
  | answered (id : Nat) (data : Bytes) (final : Bool) (frame : Frame) :
      Served setup s (.receive id data final)
        (s.answer (s.server.receive id data final).1 id frame .error) .leave
  | rejected (id : Nat) (data : Bytes) (final : Bool) (value : IrspValue) :
      Served setup s (.receive id data final) (s.server.receive id data final).1
        (.reply id value .error)
  | routed (id : Nat) (data : Bytes) (final : Bool) (conn : Conn) (bytes : Bytes)
      (value : IrspValue) (topic type written : Bytes) (variant : Variant) (timestamp : Timestamp)
      (complete : (s.server.receive id data final).2 = some (conn, bytes))
      (parsed : IrspServer.parseFrame setup.limits bytes = .ok (.request value))
      (set : setArguments conn.session value = some (topic, type, written))
      (converted : CoreTagWriter.toVariant type written = some variant) :
      Served setup s (.receive id data final) (s.server.receive id data final).1
        (.copyLock ⟨id, value, .of topic variant timestamp⟩)
  | written (id : Nat) : Served setup s (.writeable id) (s.server.writeable id).1 .leave
  | cancelled : Served setup s .waitCancelled s.server .leave
  | closed (id : Nat) : Served setup s (.closed id) (s.server.closed id) .leave

theorem served_of_callbackStep {setup : Setup τ} {s s' : Runtime τ hash} {t : Option τ}
    {timestamp : Timestamp} {cb : Callback}
    (h : s.callbackStep setup t timestamp cb = some s') :
    ∃ server pc, Served setup s cb server pc ∧ s' = { s.setPc t pc with server := server } := by
  cases cb with
  | established =>
    obtain rfl := Option.some.inj h
    exact ⟨_, _, .established, rfl⟩
  | receive id data final =>
    simp only [callbackStep] at h
    split at h
    · obtain rfl := Option.some.inj h
      exact ⟨_, _, .fragment id data final, rfl⟩
    · rename_i conn bytes complete
      split at h
      · contradiction
      · rename_i frame parsed
        split at h
        · rename_i value
          split at h
          · obtain rfl := Option.some.inj h
            exact ⟨_, _, .answered id data final _, rfl⟩
          · rename_i topic type written set
            split at h
            · obtain rfl := Option.some.inj h
              exact ⟨_, _, .rejected id data final value, rfl⟩
            · rename_i variant converted
              obtain rfl := Option.some.inj h
              exact ⟨_, _, .routed id data final conn bytes value topic type written variant
                timestamp complete parsed set converted, rfl⟩
        · obtain rfl := Option.some.inj h
          exact ⟨_, _, .answered id data final frame, rfl⟩
  | writeable id =>
    obtain rfl := Option.some.inj h
    exact ⟨_, _, .written id, rfl⟩
  | waitCancelled =>
    obtain rfl := Option.some.inj h
    exact ⟨_, _, .cancelled, rfl⟩
  | closed id =>
    obtain rfl := Option.some.inj h
    exact ⟨_, _, .closed id, rfl⟩

/-- What one step of the runtime can do. -/
inductive Moved (setup : Setup τ) (s : Runtime τ hash) : Action τ → Runtime τ hash → Prop where
  | called (cb : Callback) (before : s.pc none = .idle) :
      Moved setup s (.callback cb) (s.setPc none (.enter cb))
  | granted (t : Option τ) (timestamp : Timestamp) (l : Lock) (m : LockMode)
      (waits : (s.pc t).wants hash = some (l, m)) (free : s.locks.free t l m = true) :
      Moved setup s (.advance t timestamp)
        { s.setPc t (s.pc t).granted with locks := s.locks.acquire t l m }
  | pushed (t : Option τ) (timestamp : Timestamp) (code : Code) (push : Push)
      (before : (s.pc t).code = some code) (pushing : code.activity = .pushing push)
      (waits : push.wants hash = none) :
      Moved setup s (.advance t timestamp)
        ((s.pushStep t push).1.setPc t
          ((s.pc t).withCode { code with activity := .after (s.pushStep t push).2 }))
  | served (t : Option τ) (timestamp : Timestamp) (cb : Callback) (server : IrspServer) (pc : Pc)
      (before : s.pc t = .inside cb) (served : Served setup s cb server pc) :
      Moved setup s (.advance t timestamp) { s.setPc t pc with server := server }
  | copied (t : Option τ) (timestamp : Timestamp) (call : SetCall) (before : s.pc t = .copy call) :
      Moved setup s (.advance t timestamp)
        ((s.setPc t (.selectLock call)).release t .writeHandler .exclusive)
  | unmatched (t : Option τ) (timestamp : Timestamp) (call : SetCall)
      (before : s.pc t = .select call) :
      Moved setup s (.advance t timestamp)
        ((s.setPc t (.reply call.conn call.request .notHandled)).release t .writers .shared)
  | selected (t : Option τ) (timestamp : Timestamp) (call : SetCall) (reg : WriteReg)
      (before : s.pc t = .select call) (found : setup.host.select call.tag.name = some reg) :
      Moved setup s (.advance t timestamp)
        ((s.setPc t (.handler call ⟨reg.handler.plugin, false, .running⟩)).release t .writers
          .shared)
  | replied (t : Option τ) (timestamp : Timestamp) (conn : Nat) (request : IrspValue)
      (result : WriteResult) (before : s.pc t = .reply conn request result) :
      Moved setup s (.advance t timestamp)
        { s.setPc t .leave with server := s.answer s.server conn (.request request) result }
  | left (t : Option τ) (timestamp : Timestamp) (before : s.pc t = .leave) :
      Moved setup s (.advance t timestamp) ((s.setPc t .idle).release t .server .exclusive)
  | locking (t : Option τ) (code : Code) (before : (s.pc t).code = some code)
      (running : code.activity = .running) (outside : code.holds = false) :
      Moved setup s (.plugin t .lock)
        (s.setPc t ((s.pc t).withCode { code with activity := .locking }))
  | unlocked (t : Option τ) (code : Code) (before : (s.pc t).code = some code)
      (running : code.activity = .running) (inside : code.holds = true) :
      Moved setup s (.plugin t .unlock)
        ((s.setPc t ((s.pc t).withCode { code with holds := false })).release t
          (.plugin code.plugin) .exclusive)
  | pushes (t : Option τ) (code : Code) (tag : TagValue) (before : (s.pc t).code = some code)
      (running : code.activity = .running) :
      Moved setup s (.plugin t (.push tag))
        (s.setPc t ((s.pc t).withCode { code with activity := .pushing (.shardLock tag) }))
  | finished (t : Option τ) (call : SetCall) (code : Code) (accepted : Bool)
      (before : s.pc t = .handler call code) (running : code.activity = .running)
      (outside : code.holds = false) :
      Moved setup s (.plugin t (.finish accepted))
        (s.setPc t (.reply call.conn call.request (if accepted then .accepted else .notHandled)))
  | removed (name : Bytes) :
      Moved setup s (.remove name) { s with engine := (s.engine.remove name).2 }

theorem moved_of_codeStep {setup : Setup τ} {s s' : Runtime τ hash} {t : Option τ}
    {timestamp : Timestamp} {code : Code} (before : (s.pc t).code = some code)
    (waits : code.wants hash = none) (h : s.codeStep t code = some s') :
    Moved setup s (.advance t timestamp) s' := by
  unfold codeStep at h
  cases activity : code.activity with
  | pushing push =>
    simp only [activity, Option.some.injEq] at h
    obtain rfl := h
    exact .pushed t timestamp code push before activity
      (by simpa [Code.wants, activity] using waits)
  | _ => simp [activity] at h

theorem moved_of_work {setup : Setup τ} {s s' : Runtime τ hash} {t : Option τ}
    {timestamp : Timestamp} (waits : (s.pc t).wants hash = none)
    (h : s.work setup t timestamp = some s') : Moved setup s (.advance t timestamp) s' := by
  unfold work at h
  cases pc : s.pc t with
  | inside cb =>
    simp only [pc] at h
    obtain ⟨server, next, served, rfl⟩ := served_of_callbackStep h
    exact .served t timestamp cb server next pc served
  | copy call =>
    simp only [pc, Option.some.injEq] at h
    obtain rfl := h
    exact .copied t timestamp call pc
  | select call =>
    simp only [pc, Option.some.injEq] at h
    cases found : setup.host.select call.tag.name with
    | none =>
      simp only [found] at h
      obtain rfl := h
      exact .unmatched t timestamp call pc
    | some reg =>
      simp only [found] at h
      obtain rfl := h
      exact .selected t timestamp call reg pc found
  | reply conn request result =>
    simp only [pc, Option.some.injEq] at h
    obtain rfl := h
    exact .replied t timestamp conn request result pc
  | leave =>
    simp only [pc, Option.some.injEq] at h
    obtain rfl := h
    exact .left t timestamp pc
  | handler call code =>
    simp only [pc] at h
    rw [pc] at waits
    exact moved_of_codeStep (by rw [pc]; rfl) waits h
  | plugin code =>
    simp only [pc] at h
    rw [pc] at waits
    exact moved_of_codeStep (by rw [pc]; rfl) waits h
  | _ => simp [pc] at h

theorem moved_of_pluginStep {setup : Setup τ} {s s' : Runtime τ hash} {t : Option τ} {code : Code}
    {op : PluginOp} (before : (s.pc t).code = some code) (running : code.activity = .running)
    (h : s.pluginStep t code op = some s') : Moved setup s (.plugin t op) s' := by
  cases op with
  | lock =>
    simp only [pluginStep] at h
    split at h
    · contradiction
    · obtain rfl := Option.some.inj h
      exact .locking t code before running (Bool.eq_false_of_not_eq_true ‹_›)
  | unlock =>
    simp only [pluginStep] at h
    split at h
    · obtain rfl := Option.some.inj h
      exact .unlocked t code before running ‹_›
    · contradiction
  | push tag =>
    simp only [pluginStep, Option.some.injEq] at h
    obtain rfl := h
    exact .pushes t code tag before running
  | finish accepted =>
    simp only [pluginStep] at h
    cases pc : s.pc t with
    | handler call code' =>
      obtain rfl : code' = code := by simpa [pc, Pc.code] using before
      simp only [pc] at h
      split at h
      · contradiction
      · obtain rfl := Option.some.inj h
        exact .finished t call code' accepted pc running (Bool.eq_false_of_not_eq_true ‹_›)
    | _ => simp [pc] at h

theorem moved_of_step {setup : Setup τ} {s s' : Runtime τ hash} {a : Action τ}
    (h : s.step setup a = some s') : Moved setup s a s' := by
  cases a with
  | callback cb =>
    simp only [step] at h
    cases pc : s.pc none with
    | idle =>
      simp only [pc, Option.some.injEq] at h
      obtain rfl := h
      exact .called cb pc
    | _ => simp [pc] at h
  | advance t timestamp =>
    simp only [step, advance] at h
    cases waits : (s.pc t).wants hash with
    | none =>
      simp only [waits] at h
      exact moved_of_work waits h
    | some wanted =>
      obtain ⟨l, m⟩ := wanted
      simp only [waits] at h
      split at h
      · obtain rfl := Option.some.inj h
        exact .granted t timestamp l m waits ‹_›
      · contradiction
  | plugin t op =>
    simp only [step] at h
    cases before : (s.pc t).code with
    | none => simp [before] at h
    | some code =>
      simp only [before] at h
      split at h
      · exact moved_of_pluginStep before ‹_› h
      · contradiction
  | remove name =>
    simp only [step] at h
    split at h
    · obtain rfl := Option.some.inj h
      exact .removed name
    · contradiction

end IndustrialRuntime.Irsp.Runtime
