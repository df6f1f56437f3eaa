import IndustrialRuntime.Server.Closing

namespace IndustrialRuntime.Irsp.Traced

open IndustrialRuntime.Core

variable {ω : Type*}

/-- Other bytes wait in the receive buffers. -/
def rebuffer (buffers : Nat → Bytes) (s : Traced ω) : Traced ω :=
  { s with server := { s.server with
      conns := fun id => (s.server.conns id).map fun conn => { conn with rx := buffers id } } }

/-- No fragment of a message is waiting. -/
def cleared (s : Traced ω) : Traced ω := s.rebuffer fun _ => []

/-- The run in which every message arrives at once: the fragments before the last one are left
out, and the last one brings the whole message. `next` is the id of the next connection, and
`pending` holds what has arrived of the messages. -/
def reassemble (next : Nat) (pending : Nat → Bytes) : List (Action ω) → List (Action ω)
  | [] => []
  | .established :: as =>
    .established :: reassemble (next + 1) (Function.update pending next []) as
  | .receive id data final pushes result :: as =>
    if final then
      .receive id (pending id ++ data) true pushes result ::
        reassemble next (Function.update pending id []) as
    else reassemble next (Function.update pending id (pending id ++ data)) as
  | .writeable id complete :: as => .writeable id complete :: reassemble next pending as
  | .routeTag name :: as => .routeTag name :: reassemble next pending as
  | .onEvent event :: as => .onEvent event :: reassemble next pending as
  | .closed id :: as => .closed id :: reassemble next pending as
  | .change store :: as => .change store :: reassemble next pending as

/-! ### The steps do not look at the buffers of the others -/

@[simp] theorem rebuffer_conns (f : Nat → Bytes) (s : Traced ω) (id : Nat) :
    (s.rebuffer f).server.conns id =
      (s.server.conns id).map fun conn => { conn with rx := f id } := rfl

@[simp] theorem rebuffer_dispatcher (f : Nat → Bytes) (s : Traced ω) :
    (s.rebuffer f).server.dispatcher = s.server.dispatcher := rfl

@[simp] theorem rebuffer_store (f : Nat → Bytes) (s : Traced ω) :
    (s.rebuffer f).store = s.store := rfl

@[simp] theorem rebuffer_rebuffer (f g : Nat → Bytes) (s : Traced ω) :
    (s.rebuffer f).rebuffer g = s.rebuffer g := by
  simp [rebuffer, Function.comp_def]

theorem rebuffer_note (f : Nat → Bytes) (s : Traced ω) (id : Nat) (events : History) :
    (s.rebuffer f).note id events = (s.note id events).rebuffer f := rfl

/-- One connection is replaced. -/
theorem rebuffer_update (f : Nat → Bytes) (conns : Nat → Option Conn) (id : Nat)
    (conn : Option Conn) :
    (fun i => (Function.update conns id conn i).map fun c => { c with rx := f i }) =
      Function.update (fun i => (conns i).map fun c => { c with rx := f i }) id
        (conn.map fun c => { c with rx := f id }) := by
  funext i
  by_cases same : i = id
  · subst same
    simp
  · simp [same]

variable (f : Nat → Bytes)

theorem rebuffer_pushTo (frame : Bytes) (s : Traced ω) (id : Nat) :
    (s.rebuffer f).pushTo frame id = (s.pushTo frame id).rebuffer f := by
  unfold pushTo
  cases found : s.server.conns id with
  | none => simp [found]
  | some conn =>
    simp only [rebuffer_conns, found, Option.map_some]
    simp only [IrspServer.pushTo, rebuffer_conns, found, Option.map_some, IrspServer.setConn]
    simp only [rebuffer, note, rebuffer_update, Option.map_some]

theorem rebuffer_pushAll (ids : List Nat) (frame : Bytes) (s : Traced ω) :
    (s.rebuffer f).pushAll ids frame = (s.pushAll ids frame).rebuffer f := by
  induction ids generalizing s with
  | nil => rfl
  | cons id ids ih =>
    have first := rebuffer_pushTo f frame s id
    simp only [pushAll, List.foldl_cons, first]
    exact ih (s.pushTo frame id)

theorem rebuffer_onEvent (event : Event) (s : Traced ω) :
    (s.rebuffer f).onEvent event = (s.onEvent event).rebuffer f := by
  let ids := s.server.dispatcher.eventSubscribers event.severity.rank event.category
  by_cases early : ids.isEmpty
  · have left : (s.rebuffer f).onEvent event = s.rebuffer f := if_pos early
    have right : s.onEvent event = s := if_pos early
    rw [left, right]
  · have left : (s.rebuffer f).onEvent event = (s.rebuffer f).pushAll ids (encodePushEvent event) :=
      if_neg early
    have right : s.onEvent event = s.pushAll ids (encodePushEvent event) := if_neg early
    rw [left, right, rebuffer_pushAll]

theorem rebuffer_writeable (id : Nat) (complete : Bool) (s : Traced ω) :
    (s.rebuffer f).writeable id complete = (s.writeable id complete).rebuffer f := by
  unfold writeable
  cases found : s.server.conns id with
  | none => simp [found]
  | some conn =>
    simp only [rebuffer_conns, found, Option.map_some]
    cases queue : conn.outbox with
    | nil =>
      dsimp only
      split <;> rfl
    | cons msg rest =>
      simp only [IrspServer.writeable, rebuffer_conns, found, Option.map_some, queue,
        IrspServer.setConn]
      simp only [rebuffer, note, rebuffer_update, Option.map_some]

theorem rebuffer_closed (id : Nat) (s : Traced ω) :
    ({ s.rebuffer f with server := (s.rebuffer f).server.closed id } : Traced ω) =
      ({ s with server := s.server.closed id } : Traced ω).rebuffer f := by
  simp only [rebuffer, IrspServer.closed, rebuffer_update, Option.map_none]

section

variable (tags : TagSource ω)

theorem rebuffer_routeTag (name : Bytes) (s : Traced ω) :
    (s.rebuffer f).routeTag tags name = (s.routeTag tags name).rebuffer f := by
  unfold routeTag
  by_cases early : (s.server.dispatcher.tagSubscribers name).isEmpty
  · simp only [rebuffer_dispatcher, early, if_true]
  · simp only [rebuffer_dispatcher, rebuffer_store, early]
    cases tags.read s.store name with
    | none => rfl
    | some rec => exact rebuffer_pushAll f _ _ s

theorem rebuffer_pushTags (pushes : List (ω × Bytes)) (s : Traced ω) :
    (s.rebuffer f).pushTags tags pushes = (s.pushTags tags pushes).rebuffer f := by
  induction pushes generalizing s with
  | nil => rfl
  | cons push pushes ih =>
    have first : ({ s.rebuffer f with store := push.1 } : Traced ω).routeTag tags push.2 =
        (({ s with store := push.1 } : Traced ω).routeTag tags push.2).rebuffer f :=
      rebuffer_routeTag f tags push.2 { s with store := push.1 }
    simp only [pushTags, List.foldl_cons, first]
    exact ih _

theorem rebuffer_answer (id : Nat) (frame : Frame) (result : WriteResult) (s : Traced ω) :
    (s.rebuffer f).answer tags id frame result = (s.answer tags id frame result).rebuffer f := by
  unfold answer
  cases found : s.server.conns id with
  | none => simp [found]
  | some conn =>
    simp only [rebuffer_conns, found, Option.map_some, rebuffer_dispatcher, rebuffer_store]
    cases frame <;>
      simp only [IrspServer.dispatch, IrspServer.reply, IrspServer.setConn, rebuffer, note,
        rebuffer_update, Option.map_some]

theorem rebuffer_process (id : Nat) (conn : Conn) (rx : Bytes) (frame : Frame)
    (pushes : List (ω × Bytes)) (result : WriteResult) (s : Traced ω) :
    (s.rebuffer f).process tags id { conn with rx := rx } frame pushes result =
      (s.process tags id conn frame pushes result).rebuffer f := by
  have call : handlerCall { conn with rx := rx } frame pushes result =
      handlerCall conn frame pushes result := rfl
  unfold process
  simp only [call]
  cases frame with
  | ignored | malformed => simp only [rebuffer_pushTags, rebuffer_answer]
  | request value => simp only [rebuffer_note, rebuffer_pushTags, rebuffer_answer]

/-! ### Fragmentation is not seen -/

theorem cleared_rebuffer (s : Traced ω) : (s.rebuffer f).cleared = s.cleared :=
  rebuffer_rebuffer f _ s

variable (lim : Irsp1Codec.VectorLimits)

/-- A step other than the arrival of a fragment. -/
theorem rebuffer_step (a : Action ω) (established : a ≠ .established)
    (receive : ∀ id data final pushes result, a ≠ .receive id data final pushes result)
    (s : Traced ω) :
    (s.rebuffer f).step tags lim a = (s.step tags lim a).map (rebuffer f) := by
  cases a with
  | established => exact absurd rfl established
  | receive id data final pushes result => exact absurd rfl (receive id data final pushes result)
  | writeable id complete =>
    simp only [step, Option.map_some, rebuffer_writeable]
  | routeTag name => simp only [step, Option.map_some, rebuffer_routeTag]
  | onEvent event => simp only [step, Option.map_some, rebuffer_onEvent]
  | closed id => simp only [step, Option.map_some, rebuffer_closed]
  | change store => rfl

theorem rebuffer_established (s : Traced ω) :
    (s.rebuffer f).step tags lim .established =
      (s.step tags lim .established).map
        (rebuffer (Function.update f s.server.nextConnId [])) := by
  simp only [step, Option.map_some, Option.some.injEq]
  simp only [rebuffer, IrspServer.established, IrspServer.setConn]
  congr 2
  funext i
  by_cases same : i = s.server.nextConnId
  · subst same
    simp
  · simp [same]

/-- A fragment that is not the last of its message. -/
theorem rebuffer_receive (id : Nat) (data : Bytes) (pushes : List (ω × Bytes))
    (result : WriteResult) (s : Traced ω) :
    (s.rebuffer f).step tags lim (.receive id data false pushes result) =
      some (s.rebuffer (Function.update f id (f id ++ data))) := by
  simp only [step, IrspServer.receive, rebuffer_conns]
  cases found : s.server.conns id with
  | none =>
    simp only [Option.map_none, Option.some.injEq]
    simp only [rebuffer]
    congr 2
    funext i
    by_cases same : i = id
    · subst same
      simp [found]
    · simp [same]
  | some conn =>
    simp only [Option.map_some, Bool.false_eq_true, if_false, Option.some.injEq]
    simp only [rebuffer, IrspServer.setConn]
    congr 2
    funext i
    by_cases same : i = id
    · subst same
      simp [found]
    · simp [same]

/-- The last fragment brings what is left of the message. -/
theorem rebuffer_final (id : Nat) (data : Bytes) (pushes : List (ω × Bytes))
    (result : WriteResult) (s : Traced ω) :
    (s.rebuffer f).step tags lim (.receive id data true pushes result) =
      (s.cleared.step tags lim (.receive id (f id ++ data) true pushes result)).map
        (rebuffer (Function.update f id [])) := by
  let g := Function.update f id []
  simp only [step, IrspServer.receive, rebuffer_conns, cleared]
  cases found : s.server.conns id with
  | none =>
    have same : s.rebuffer f = s.rebuffer g := by
      simp only [rebuffer]
      congr 2
      funext i
      by_cases same : i = id
      · subst same
        simp [found]
      · simp [g, same]
    simp only [Option.map_none, Option.map_some, Option.some.injEq]
    exact same.trans (rebuffer_rebuffer (fun _ => []) g s).symm
  | some conn =>
    simp only [Option.map_some, if_true, List.nil_append]
    cases parsed : IrspServer.parseFrame lim (f id ++ data) with
    | error e => rfl
    | ok frame =>
      let head : Traced ω := { s.cleared with
        server := s.cleared.server.setConn id { conn with rx := [] } }
      have emptied : ({ s.rebuffer f with
          server := (s.rebuffer f).server.setConn id { conn with rx := [] } } : Traced ω) =
          head.rebuffer g := by
        simp only [head, cleared, rebuffer, IrspServer.setConn]
        congr 2
        funext i
        by_cases same : i = id
        · subst same
          simp [g]
        · simp [g, same, Function.comp_def]
      have processed :=
        rebuffer_process g tags id { conn with rx := [] } [] frame pushes result head
      simp only [Option.map_some, Option.some.injEq]
      exact (congrArg (fun t => t.process tags id { conn with rx := [] } frame pushes result)
        emptied).trans processed

/-! ### Ids are given out by `LWS_CALLBACK_ESTABLISHED` alone -/

theorem pushAll_nextConnId (frame : Bytes) (ids : List Nat) (s : Traced ω) :
    (s.pushAll ids frame).server.nextConnId = s.server.nextConnId := by
  induction ids generalizing s with
  | nil => rfl
  | cons id ids ih =>
    have first : (s.pushTo frame id).server.nextConnId = s.server.nextConnId := by
      unfold pushTo IrspServer.pushTo
      cases s.server.conns id <;> rfl
    exact (ih (s.pushTo frame id)).trans first

theorem onEvent_nextConnId (event : Event) (s : Traced ω) :
    (s.onEvent event).server.nextConnId = s.server.nextConnId := by
  unfold onEvent
  dsimp only
  split
  · rfl
  · exact pushAll_nextConnId _ _ s

theorem routeTag_nextConnId (name : Bytes) (s : Traced ω) :
    (s.routeTag tags name).server.nextConnId = s.server.nextConnId := by
  unfold routeTag
  dsimp only
  split
  · rfl
  · split
    · rfl
    · exact pushAll_nextConnId _ _ s

theorem pushTags_nextConnId (pushes : List (ω × Bytes)) (s : Traced ω) :
    (s.pushTags tags pushes).server.nextConnId = s.server.nextConnId := by
  induction pushes generalizing s with
  | nil => rfl
  | cons push pushes ih =>
    have first := routeTag_nextConnId tags push.2 ({ s with store := push.1 } : Traced ω)
    exact (ih _).trans first

theorem answer_nextConnId (id : Nat) (frame : Frame) (result : WriteResult) (s : Traced ω) :
    (s.answer tags id frame result).server.nextConnId = s.server.nextConnId := by
  unfold answer
  split <;> rfl

theorem process_nextConnId (id : Nat) (conn : Conn) (frame : Frame) (pushes : List (ω × Bytes))
    (result : WriteResult) (s : Traced ω) :
    (s.process tags id conn frame pushes result).server.nextConnId = s.server.nextConnId := by
  unfold process
  dsimp only
  rw [answer_nextConnId, pushTags_nextConnId]
  cases frame <;> rfl

theorem writeable_nextConnId (id : Nat) (complete : Bool) (s : Traced ω) :
    (s.writeable id complete).server.nextConnId = s.server.nextConnId := by
  unfold writeable
  split
  · rfl
  · split
    · split <;> rfl
    · unfold IrspServer.writeable
      split
      · rfl
      · split <;> rfl

theorem receive_nextConnId (id : Nat) (data : Bytes) (final : Bool) (s : IrspServer) :
    (s.receive id data final).1.nextConnId = s.nextConnId := by
  unfold IrspServer.receive
  split
  · rfl
  · split <;> rfl

theorem step_nextConnId {s t : Traced ω} {a : Action ω} (established : a ≠ .established)
    (next : s.step tags lim a = some t) : t.server.nextConnId = s.server.nextConnId := by
  cases a with
  | established => exact absurd rfl established
  | receive id data final pushes result =>
    have head := receive_nextConnId id data final s.server
    simp only [step] at next
    split at next
    · obtain rfl := Option.some.inj next
      exact head
    · split at next
      · cases next
      · obtain rfl := Option.some.inj next
        rw [process_nextConnId]
        exact head
  | writeable id complete =>
    obtain rfl := Option.some.inj next
    exact writeable_nextConnId id complete s
  | routeTag name =>
    obtain rfl := Option.some.inj next
    exact routeTag_nextConnId tags name s
  | onEvent event =>
    obtain rfl := Option.some.inj next
    exact onEvent_nextConnId event s
  | closed id | change store =>
    obtain rfl := Option.some.inj next
    rfl

/-- A run that begins with some fragments waiting. -/
theorem runFrom_reassemble (store : ω) (as : List (Action ω)) (s : Traced ω)
    (pending : Nat → Bytes) :
    (machine tags lim store).runFrom s.cleared (reassemble s.server.nextConnId pending as) =
      ((machine tags lim store).runFrom (s.rebuffer pending) as).map cleared := by
  induction as generalizing s pending with
  | nil => simp [reassemble, cleared_rebuffer]
  | cons a as ih =>
    -- A step that is not a fragment is taken in both runs.
    have other (established : a ≠ .established)
        (receive : ∀ id data final pushes result, a ≠ .receive id data final pushes result) :
        (machine tags lim store).runFrom s.cleared
            (a :: reassemble s.server.nextConnId pending as) =
          ((machine tags lim store).runFrom (s.rebuffer pending) (a :: as)).map cleared := by
      have left := rebuffer_step (fun _ => []) tags lim a established receive s
      have right := rebuffer_step pending tags lim a established receive s
      simp only [Machine.runFrom_cons, machine]
      rw [cleared, left, right]
      cases next : s.step tags lim a with
      | none => rfl
      | some t =>
        have same := step_nextConnId tags lim established next
        have rest := ih t pending
        rw [same] at rest
        exact rest
    cases a with
    | established =>
      have left := rebuffer_established (fun _ => []) tags lim s
      have right := rebuffer_established pending tags lim s
      have unbuffered : Function.update (fun _ => []) s.server.nextConnId [] =
          (fun _ => [] : Nat → Bytes) := Function.update_eq_self _ _
      rw [unbuffered] at left
      simp only [reassemble, Machine.runFrom_cons, machine]
      rw [cleared, left, right]
      exact ih { s with server := s.server.established } _
    | receive id data final pushes result =>
      cases final with
      | true =>
        have left := rebuffer_final (fun _ => []) tags lim id (pending id ++ data) pushes result s
        have right := rebuffer_final pending tags lim id data pushes result s
        have unbuffered : Function.update (fun _ => []) id [] = (fun _ => [] : Nat → Bytes) :=
          Function.update_eq_self _ _
        rw [unbuffered, List.nil_append] at left
        simp only [reassemble, if_true, Machine.runFrom_cons, machine]
        rw [right]
        cases next : s.cleared.step tags lim
            (.receive id (pending id ++ data) true pushes result) with
        | none => rfl
        | some t =>
          have empty : t = t.cleared :=
            Option.some.inj (next.symm.trans (left.trans (by rw [next]; rfl)))
          have same := step_nextConnId tags lim (by simp) next
          have rest := ih t (Function.update pending id [])
          rw [same, ← empty] at rest
          exact rest
      | false =>
        have right := rebuffer_receive pending tags lim id data pushes result s
        simp only [reassemble, Bool.false_eq_true, if_false, Machine.runFrom_cons, machine]
        rw [right]
        exact ih s _
    | writeable _ _ | routeTag _ | onEvent _ | closed _ | change _ =>
      exact other (by simp) (by simp)

/-- However the clients and the network cut the messages into fragments, and whatever happens
between two fragments of a message, the server goes through the same run as if each message had
come whole with its last fragment: the same replies and pushes in the same order, the same
subscriptions and the same writes. -/
theorem run_reassemble (store : ω) (schedule : List (Action ω)) :
    (machine tags lim store).run (reassemble 1 (fun _ => []) schedule) =
      ((machine tags lim store).run schedule).map cleared :=
  runFrom_reassemble tags lim store schedule (initial store) fun _ => []

/-- A greeting in two fragments, with the fragments of another client in between. -/
example : reassemble 1 (fun _ => []) [.established, .established,
    .receive 1 (ascii "HEL") false [] .error, .receive 2 (ascii "PI") false [] .error,
    .receive 2 (ascii "NG") true [] .error, .receive 1 (ascii "LO 1") true [((), [])] .error] =
    [.established, .established, .receive 2 (ascii "PING") true [] .error,
      .receive 1 (ascii "HELLO 1") true [((), [])] .error] := by
  rfl

end

end IndustrialRuntime.Irsp.Traced
