import IndustrialRuntime.Lib.Draining
import IndustrialRuntime.Server.Fragments
import Mathlib.Algebra.BigOperators.Group.Finset.Basic
import Mathlib.Algebra.Order.BigOperators.Group.Finset
import Mathlib.Tactic.IntervalCases

namespace IndustrialRuntime.Irsp

open IndustrialRuntime.Core History

/-- The server with what libwebsockets owes it: the connections whose writable callback was
asked for, and the `EVENT_WAIT_CANCELLED` callback that follows `lws_cancel_service`. The threads
that left the block of `routeTag` or `onEvent` have yet to call `lws_cancel_service`. -/
structure Serving (ω : Type*) where
  base : Traced ω
  requested : Nat → Bool := fun _ => false
  leaving : Nat := 0
  cancelled : Bool := false

namespace Serving

variable {ω : Type*}

inductive Action (ω : Type*) where
  | server (a : Traced.Action ω)
  | cancelService
  | waitCancelled

/-- The connection has frames to write. -/
def backlogged (s : Traced ω) (id : Nat) : Bool :=
  (s.server.conns id).any fun conn => !conn.outbox.isEmpty

section

variable (tags : TagSource ω)

/-- `routeTag` does not return early. -/
def routes (d : Dispatcher) (store : ω) (name : Bytes) : Bool :=
  !(d.tagSubscribers name).isEmpty && (tags.read store name).isSome

/-- The calls of `lws_callback_on_writable` in a callback, and the request that a writable
callback answers. -/
def asked (s : Serving ω) (base : Traced ω) : Traced.Action ω → Nat → Bool
  | .receive id data final _ _ =>
    if (s.base.server.receive id data final).2.isSome then Function.update s.requested id true
    else s.requested
  | .writeable id complete =>
    Function.update s.requested id (complete && backlogged base id)
  | .closed id => Function.update s.requested id false
  | _ => s.requested

variable (lim : Irsp1Codec.VectorLimits)

/-- The tags pushed by the handler of a `SET`, whose change callbacks call `lws_cancel_service`
on the service thread. -/
def pushedInside (s : Serving ω) : Traced.Action ω → List (ω × Bytes)
  | .receive id data final pushes result =>
    match (s.base.server.receive id data final).2 with
    | none => []
    | some (conn, bytes) =>
      match IrspServer.parseFrame lim bytes with
      | .error _ => []
      | .ok frame => (Traced.handlerCall conn frame pushes result).1
  | _ => []

/-- The threads that leave the block under `mutex_` and go on to `lws_cancel_service`. -/
def departs (s : Serving ω) : Traced.Action ω → Bool
  | .routeTag name => routes tags s.base.server.dispatcher s.base.store name
  | .onEvent event =>
    !(s.base.server.dispatcher.eventSubscribers event.severity.rank event.category).isEmpty
  | _ => false

def step (s : Serving ω) : Action ω → Option (Serving ω)
  | .server a =>
    (s.base.step tags lim a).map fun base =>
      { base := base
        requested := s.asked base a
        leaving := s.leaving + (s.departs tags a).toNat
        cancelled := s.cancelled || (s.pushedInside lim a).any fun push =>
          routes tags s.base.server.dispatcher push.1 push.2 }
  | .cancelService =>
    if s.leaving = 0 then none
    else some { s with leaving := s.leaving - 1, cancelled := true }
  | .waitCancelled =>
    if s.cancelled then
      some { s with
        cancelled := false
        requested := fun id => s.requested id || backlogged s.base id }
    else none

def machine (store : ω) : Machine (Serving ω) (Action ω) :=
  ⟨{ base := .initial store }, step tags lim⟩

end

/-! ### Steps that write nothing -/

/-- Nothing is written in between, and no connection is given up. -/
structure Silent (s s' : Traced ω) : Prop where
  written : ∀ id, written (s'.history id) = written (s.history id)
  hungUp : ∀ id, ConnEvent.hungUp ∈ s'.history id ↔ ConnEvent.hungUp ∈ s.history id

namespace Silent

variable {s s' s'' : Traced ω}

theorem refl (s : Traced ω) : Silent s s := ⟨fun _ => rfl, fun _ => Iff.rfl⟩

theorem trans (first : Silent s s') (second : Silent s' s'') : Silent s s'' :=
  ⟨fun id => (second.written id).trans (first.written id),
    fun id => (second.hungUp id).trans (first.hungUp id)⟩

/-- Events that are no writes are noted. -/
theorem note (s : Traced ω) (id : Nat) (events : History)
    (quiet : ∀ e ∈ events, e ≠ .hungUp ∧ ∀ frame complete, e ≠ .wrote frame complete) :
    Silent s (s.note id events) := by
  have unwritten : ∀ h, History.written (events ++ h) = History.written h := by
    intro h
    induction events with
    | nil => rfl
    | cons e events ih =>
      have rest := ih fun e' later => quiet e' (List.mem_cons_of_mem e later)
      have own := quiet e List.mem_cons_self
      cases e with
      | wrote frame complete => exact absurd rfl (own.2 frame complete)
      | dispatched | appended _ | marked _ | hungUp => exact rest
  have kept : ConnEvent.hungUp ∉ events := fun found => (quiet _ found).1 rfl
  constructor
  · intro i
    by_cases same : i = id
    · subst same
      simp [Traced.note, unwritten]
    · simp [Traced.note, same]
  · intro i
    by_cases same : i = id
    · subst same
      simp [Traced.note, kept]
    · simp [Traced.note, same]

theorem server (silent : Silent s s') (server : IrspServer) (store : ω) :
    Silent s { s' with server := server, store := store } := ⟨silent.written, silent.hungUp⟩

theorem pushTo (frame : Bytes) (s : Traced ω) (id : Nat) : Silent s (s.pushTo frame id) := by
  unfold Traced.pushTo
  split
  · exact refl s
  · exact (note s id [.appended frame] (by simp)).server _ _

theorem pushAll (s : Traced ω) (ids : List Nat) (frame : Bytes) :
    Silent s (s.pushAll ids frame) := by
  induction ids generalizing s with
  | nil => exact refl s
  | cons id ids ih => exact (pushTo frame s id).trans (ih (s.pushTo frame id))

theorem onEvent (s : Traced ω) (event : Event) : Silent s (s.onEvent event) := by
  unfold Traced.onEvent
  dsimp only
  split
  · exact refl s
  · exact pushAll s _ _

section

variable (tags : TagSource ω)

theorem routeTag (s : Traced ω) (name : Bytes) : Silent s (s.routeTag tags name) := by
  unfold Traced.routeTag
  dsimp only
  split
  · exact refl s
  · split
    · exact refl s
    · exact pushAll s _ _

theorem pushTags (s : Traced ω) (pushes : List (ω × Bytes)) :
    Silent s (s.pushTags tags pushes) := by
  induction pushes generalizing s with
  | nil => exact refl s
  | cons push pushes ih =>
    have first : Silent s ({ s with store := push.1 }.routeTag tags push.2) :=
      ((refl s).server s.server push.1).trans (routeTag tags _ push.2)
    exact first.trans (ih _)

theorem answer (s : Traced ω) (id : Nat) (frame : Frame) (result : WriteResult) :
    Silent s (s.answer tags id frame result) := by
  unfold Traced.answer
  split
  · exact refl s
  · refine (note s id _ ?_).server _ _
    split
    · simp
    · cases frame.closes <;> simp

theorem process (s : Traced ω) (id : Nat) (conn : Conn) (frame : Frame)
    (pushes : List (ω × Bytes)) (result : WriteResult) :
    Silent s (s.process tags id conn frame pushes result) := by
  have rest (entered : Traced ω) : Silent entered
      ((entered.pushTags tags (Traced.handlerCall conn frame pushes result).1).answer tags id frame
        (Traced.handlerCall conn frame pushes result).2) :=
    (pushTags tags entered _).trans (answer tags _ id frame _)
  cases frame with
  | ignored | malformed => exact rest s
  | request value => exact (note s id [.dispatched] (by simp)).trans (rest _)

end

end Silent

section

variable (tags : TagSource ω)

theorem routeTag_eq_self {s : Traced ω} {name : Bytes}
    (early : routes tags s.server.dispatcher s.store name = false) :
    s.routeTag tags name = s := by
  unfold routes at early
  unfold Traced.routeTag
  dsimp only
  split
  · rfl
  · rename_i subscribed
    have absent : tags.read s.store name = none := by simpa [subscribed] using early
    rw [absent]

theorem pushTags_server {pushes : List (ω × Bytes)} {s : Traced ω}
    (early : ∀ push ∈ pushes, routes tags s.server.dispatcher push.1 push.2 = false) :
    (s.pushTags tags pushes).server = s.server := by
  induction pushes generalizing s with
  | nil => rfl
  | cons push pushes ih =>
    have same : { s with store := push.1 }.routeTag tags push.2 = { s with store := push.1 } :=
      routeTag_eq_self tags (early push List.mem_cons_self)
    have unfolded : s.pushTags tags (push :: pushes) =
        ({ s with store := push.1 }.routeTag tags push.2).pushTags tags pushes := rfl
    rw [unfolded, same]
    exact ih fun p later => early p (List.mem_cons_of_mem push later)

theorem answer_conns (s : Traced ω) (id : Nat) (frame : Frame) (result : WriteResult) (i : Nat)
    (other : i ≠ id) : (s.answer tags id frame result).server.conns i = s.server.conns i := by
  unfold Traced.answer
  split
  · rfl
  · simp [IrspServer.setConn, other]

end

/-! ### No wake-up is lost -/

/-- Nothing is owed to a live connection. -/
structure Idle (s : Serving ω) : Prop where
  leaving : s.leaving = 0
  cancelled : s.cancelled = false
  requested : ∀ id conn, s.base.server.conns id = some conn → s.requested id = false

/-- A connection with frames to write will be written to, unless it was given up. -/
def Covered (gone : Nat → Prop) (s : Serving ω) : Prop :=
  ∀ id conn, s.base.server.conns id = some conn → conn.outbox ≠ [] →
    s.requested id ∨ s.cancelled ∨ 0 < s.leaving ∨ gone id

/-- Only a connection that is given up has a frame that `lws_write` did not take whole. -/
def Whole (s : Traced ω) : Prop :=
  ∀ id, .hungUp ∉ s.history id → ∀ w ∈ written (s.history id), w.2 = true

theorem Covered.of_wake {gone : Nat → Prop} {s : Serving ω}
    (wake : s.cancelled ∨ 0 < s.leaving) : Covered gone s := by
  intro id conn _ _
  rcases wake with cancelled | leaving
  · exact .inr (.inl cancelled)
  · exact .inr (.inr (.inl leaving))

/-- What the callback leaves in the outboxes. -/
theorem writeable_conns (s : Traced ω) (id : Nat) (complete : Bool) (i : Nat) :
    (s.writeable id complete).server.conns i =
      if i = id then (s.server.conns i).map fun conn => { conn with outbox := conn.outbox.tail }
      else s.server.conns i := by
  unfold Traced.writeable
  cases found : s.server.conns id with
  | none =>
    by_cases same : i = id
    · simp [same, found]
    · simp [same]
  | some conn =>
    cases queue : conn.outbox with
    | nil =>
      have kept : some { conn with outbox := conn.outbox.tail } = some conn := by
        rw [queue, List.tail_nil, ← queue]
      by_cases same : i = id
      · subst same
        simp only [queue, found, if_true, Option.map_some]
        rw [← queue, kept]
        split <;> simp [Traced.note, found]
      · simp only [queue, same, if_false]
        split <;> rfl
    | cons msg rest =>
      by_cases same : i = id
      · subst same
        simp [IrspServer.writeable, IrspServer.setConn, found, queue]
      · simp [IrspServer.writeable, IrspServer.setConn, found, queue, same]

theorem writeable_hungUp (s : Traced ω) (id : Nat) (complete : Bool) (i : Nat)
    (old : ConnEvent.hungUp ∈ s.history i) :
    ConnEvent.hungUp ∈ (s.writeable id complete).history i := by
  have noted (events : History) : ConnEvent.hungUp ∈ (s.note id events).history i := by
    by_cases same : i = id
    · subst same
      simp [Traced.note, old]
    · simpa [Traced.note, same] using old
  unfold Traced.writeable
  split
  · exact old
  · split
    · split
      · exact noted _
      · exact old
    · exact noted _

/-- A write that fails gives the connection up. -/
theorem writeable_failed {s : Traced ω} {id : Nat} {conn : Conn}
    (found : s.server.conns id = some conn) (queue : conn.outbox ≠ []) :
    ConnEvent.hungUp ∈ (s.writeable id false).history id := by
  unfold Traced.writeable
  cases rest : conn.outbox with
  | nil => exact absurd rest queue
  | cons msg left => simp [found, rest, Traced.note]

theorem Whole.writeable {s : Traced ω} (whole : Whole s) (id : Nat) (complete : Bool) :
    Whole (s.writeable id complete) := by
  intro i open_ w found
  by_cases same : i = id
  · subst same
    unfold Traced.writeable at open_ found
    cases conn : s.server.conns i with
    | none =>
      simp only [conn] at open_ found
      exact whole i open_ w found
    | some c =>
      cases queue : c.outbox with
      | nil =>
        simp only [conn, queue] at open_ found
        split at open_ <;> rename_i closes
        · simp [Traced.note] at open_
        · simp only [closes, Bool.false_eq_true, if_false] at found
          exact whole i open_ w found
      | cons msg rest =>
        simp only [conn, queue, Traced.note, Function.update_self] at open_ found
        cases complete with
        | false => simp at open_
        | true =>
          have before : ConnEvent.hungUp ∉ s.history i := by
            intro old
            apply open_
            simp [old]
          have last : written ((if (!true || rest.isEmpty && c.closeAfterWrite) = true then
              [ConnEvent.hungUp] else []) ++ [ConnEvent.wrote msg true] ++ s.history i) =
              written (s.history i) ++ [(msg, true)] := by
            split <;> rfl
          rw [last] at found
          rcases List.mem_append.mp found with old | new
          · exact whole i before w old
          · rw [List.mem_singleton.mp new]
  · have kept : (s.writeable id complete).history i = s.history i := by
      unfold Traced.writeable
      split
      · rfl
      · split
        · split <;> simp [Traced.note, same]
        · simp [Traced.note, same]
    rw [kept] at open_ found
    exact whole i open_ w found

theorem Whole.silent {s s' : Traced ω} (whole : Whole s) (silent : Silent s s') : Whole s' := by
  intro id open_ w found
  rw [silent.hungUp] at open_
  rw [silent.written] at found
  exact whole id open_ w found

/-- After a writable callback the connection is asked for again while it has frames. -/
theorem Covered.writeable {gone gone' : Nat → Prop} {s s' : Serving ω} (covered : Covered gone s)
    (id : Nat) (complete : Bool) (base : s'.base = s.base.writeable id complete)
    (requested : s'.requested =
      Function.update s.requested id (complete && backlogged s'.base id))
    (leaving : s'.leaving = s.leaving) (cancelled : s'.cancelled = s.cancelled)
    (kept : ∀ i, gone i → gone' i)
    (failed : ∀ conn, s.base.server.conns id = some conn → conn.outbox ≠ [] →
      complete = false → gone' id) : Covered gone' s' := by
  intro i conn there queue
  have before := there
  rw [base, writeable_conns] at before
  rw [requested, leaving, cancelled]
  by_cases same : i = id
  · subst same
    rw [if_pos rfl] at before
    obtain ⟨old, found, left⟩ := Option.map_eq_some_iff.mp before
    have waiting : old.outbox ≠ [] := by
      intro empty
      apply queue
      rw [← left, empty]
      rfl
    cases complete with
    | false => exact .inr (.inr (.inr (failed old found waiting rfl)))
    | true =>
      left
      have backlog : conn.outbox.isEmpty = false := by simpa using queue
      simp [backlogged, there, backlog]
  · rw [if_neg same] at before
    rw [Function.update_of_ne same]
    rcases covered i conn before queue with asked | wake | pending | given
    · exact .inl asked
    · exact .inr (.inl wake)
    · exact .inr (.inr (.inl pending))
    · exact .inr (.inr (.inr (kept i given)))

/-- The connections that are given up in a history. -/
def Gone (s : Traced ω) (id : Nat) : Prop := .hungUp ∈ s.history id

section

variable (tags : TagSource ω) (lim : Irsp1Codec.VectorLimits)

/-- Each live connection has the outbox that it had, and each request stands. -/
theorem Covered.keep {s s' : Serving ω} (covered : Covered (Gone s.base) s)
    (conns : ∀ i conn, s'.base.server.conns i = some conn → conn.outbox ≠ [] →
      s'.requested i ∨
        (s'.requested i = s.requested i ∧
          ∃ old, s.base.server.conns i = some old ∧ old.outbox = conn.outbox))
    (leaving : s.leaving ≤ s'.leaving) (cancelled : s.cancelled → s'.cancelled)
    (silent : Silent s.base s'.base) : Covered (Gone s'.base) s' := by
  intro i conn there queue
  rcases conns i conn there queue with asked | ⟨asked, old, found, same⟩
  · exact .inl asked
  · rw [asked]
    rcases covered i old found (by rw [same]; exact queue) with request | wake | pending | given
    · exact .inl request
    · exact .inr (.inl (cancelled wake))
    · exact .inr (.inr (.inl (by omega)))
    · exact .inr (.inr (.inr ((silent.hungUp i).mpr given)))

/-- What the head of the receiving callback leaves in the outboxes. -/
theorem receive_outbox (s : IrspServer) (id : Nat) (data : Bytes) (final : Bool) (i : Nat)
    (conn : Conn) (there : (s.receive id data final).1.conns i = some conn) :
    ∃ old, s.conns i = some old ∧ old.outbox = conn.outbox := by
  unfold IrspServer.receive at there
  cases found : s.conns id with
  | none =>
    simp only [found] at there
    exact ⟨conn, there, rfl⟩
  | some c =>
    by_cases same : i = id
    · subst same
      refine ⟨c, found, ?_⟩
      cases final <;> simp only [found, IrspServer.setConn] at there <;>
        simp at there <;> rw [← there]
    · refine ⟨conn, ?_, rfl⟩
      cases final <;> simpa [found, IrspServer.setConn, same] using there

theorem process_conns (s : Traced ω) (id : Nat) (conn : Conn) (frame : Frame)
    (pushes : List (ω × Bytes)) (result : WriteResult)
    (early : ∀ push ∈ (Traced.handlerCall conn frame pushes result).1,
      routes tags s.server.dispatcher push.1 push.2 = false) (i : Nat) (other : i ≠ id) :
    (s.process tags id conn frame pushes result).server.conns i = s.server.conns i := by
  unfold Traced.process
  dsimp only
  rw [answer_conns tags _ id frame _ i other]
  cases frame with
  | ignored | malformed => rw [pushTags_server tags early]
  | request value =>
    have entered : (s.note id [.dispatched]).server = s.server := rfl
    rw [pushTags_server tags (by rw [entered]; exact early), entered]

theorem receive_dispatcher (s : IrspServer) (id : Nat) (data : Bytes) (final : Bool) :
    (s.receive id data final).1.dispatcher = s.dispatcher := by
  unfold IrspServer.receive
  split
  · rfl
  · split <;> rfl

/-- A complete frame asks for the writable callback of its connection, and the pushes that its
handler makes to the others wake the service thread. -/
theorem Covered.receive {s : Serving ω} (covered : Covered (Gone s.base) s) (id : Nat)
    (data : Bytes) (final : Bool) (pushes : List (ω × Bytes)) (result : WriteResult)
    (base : Traced ω)
    (stepped : s.base.step tags lim (.receive id data final pushes result) = some base) :
    Covered (Gone base)
      { base := base
        requested := s.asked base (.receive id data final pushes result)
        leaving := s.leaving + (s.departs tags (.receive id data final pushes result)).toNat
        cancelled := s.cancelled ||
          (s.pushedInside lim (.receive id data final pushes result)).any fun push =>
            routes tags s.base.server.dispatcher push.1 push.2 } ∧
      (Whole s.base → Whole base) := by
  let head : Traced ω := { s.base with server := (s.base.server.receive id data final).1 }
  have headed : Silent s.base head := (Silent.refl s.base).server _ _
  have outbox := receive_outbox s.base.server id data final
  simp only [Traced.step] at stepped
  cases complete : (s.base.server.receive id data final).2 with
  | none =>
    simp only [complete] at stepped
    obtain rfl := Option.some.inj stepped
    refine ⟨covered.keep ?_ (Nat.le_add_right _ _) (by simp +contextual) headed,
      fun whole => whole.silent headed⟩
    intro i conn there _
    exact .inr ⟨by simp [asked, complete], outbox i conn there⟩
  | some done =>
    obtain ⟨conn, bytes⟩ := done
    simp only [complete] at stepped
    cases parsed : IrspServer.parseFrame lim bytes with
    | error e =>
      rw [parsed] at stepped
      cases stepped
    | ok frame =>
      simp only [parsed] at stepped
      obtain rfl := Option.some.inj stepped
      have silent := headed.trans (Silent.process tags head id conn frame pushes result)
      refine ⟨?_, fun whole => whole.silent silent⟩
      cases wakes : (s.pushedInside lim (.receive id data final pushes result)).any fun push =>
          routes tags s.base.server.dispatcher push.1 push.2 with
      | true =>
        apply Covered.of_wake
        left
        simp
      | false =>
        have early : ∀ push ∈ (Traced.handlerCall conn frame pushes result).1,
            routes tags head.server.dispatcher push.1 push.2 = false := by
          have same : head.server.dispatcher = s.base.server.dispatcher :=
            receive_dispatcher _ _ _ _
          rw [same]
          simpa [pushedInside, complete, parsed] using wakes
        refine covered.keep ?_ (Nat.le_add_right _ _) (by simp +contextual) silent
        intro i c there _
        by_cases same : i = id
        · left
          simp [asked, complete, same]
        · right
          refine ⟨by simp [asked, complete, same], outbox i c ?_⟩
          rw [← process_conns tags head id conn frame pushes result early i same]
          exact there

/-- The kinds of step, and what is owed after each. -/
theorem Covered.server {s s' : Serving ω} (covered : Covered (Gone s.base) s)
    (a : Traced.Action ω) (next : s.step tags lim (.server a) = some s') :
    Covered (Gone s'.base) s' ∧ (Whole s.base → Whole s'.base) := by
  obtain ⟨base, stepped, rfl⟩ := Option.map_eq_some_iff.mp next
  cases a with
  | established =>
    obtain rfl := Option.some.inj stepped
    have silent : Silent s.base { s.base with server := s.base.server.established } :=
      (Silent.refl s.base).server _ _
    refine ⟨covered.keep ?_ (Nat.le_add_right _ _) (by simp +contextual) silent,
      fun whole => whole.silent silent⟩
    intro i conn there queue
    refine .inr ⟨rfl, conn, ?_, rfl⟩
    by_cases new : i = s.base.server.nextConnId
    · subst new
      obtain rfl : _ = conn := by
        simpa [IrspServer.established, IrspServer.setConn] using there
      exact absurd rfl queue
    · simpa [IrspServer.established, IrspServer.setConn, new] using there
  | receive id data final pushes result =>
    exact covered.receive tags lim id data final pushes result base stepped
  | writeable id complete =>
    obtain rfl := Option.some.inj stepped
    refine ⟨covered.writeable id complete rfl rfl rfl (by simp [pushedInside]) ?_ ?_,
      fun whole => whole.writeable id complete⟩
    · exact fun i given => writeable_hungUp s.base id complete i given
    · intro conn found queue failed
      subst failed
      exact writeable_failed found queue
  | routeTag name =>
    obtain rfl := Option.some.inj stepped
    have silent := Silent.routeTag tags s.base name
    refine ⟨?_, fun whole => whole.silent silent⟩
    cases early : routes tags s.base.server.dispatcher s.base.store name with
    | true =>
      apply Covered.of_wake
      right
      simp [departs, early]
    | false =>
      have same := routeTag_eq_self tags early
      refine covered.keep ?_ (Nat.le_add_right _ _) (by simp +contextual) silent
      intro i conn there queue
      exact .inr ⟨rfl, conn, by rwa [← same], rfl⟩
  | onEvent event =>
    obtain rfl := Option.some.inj stepped
    have silent := Silent.onEvent s.base event
    refine ⟨?_, fun whole => whole.silent silent⟩
    cases early : (s.base.server.dispatcher.eventSubscribers event.severity.rank
        event.category).isEmpty with
    | false =>
      apply Covered.of_wake
      right
      simp [departs, early]
    | true =>
      have same : s.base.onEvent event = s.base := by
        simp [Traced.onEvent, early]
      refine covered.keep ?_ (Nat.le_add_right _ _) (by simp +contextual) silent
      intro i conn there queue
      exact .inr ⟨rfl, conn, by rwa [← same], rfl⟩
  | closed id =>
    obtain rfl := Option.some.inj stepped
    have silent : Silent s.base { s.base with server := s.base.server.closed id } :=
      (Silent.refl s.base).server _ _
    refine ⟨covered.keep ?_ (Nat.le_add_right _ _) (by simp +contextual) silent,
      fun whole => whole.silent silent⟩
    intro i conn there queue
    by_cases same : i = id
    · simp [IrspServer.closed, same] at there
    · refine .inr ⟨by simp [asked, same], conn, ?_, rfl⟩
      simpa [IrspServer.closed, same] using there
  | change store =>
    obtain rfl := Option.some.inj stepped
    have silent : Silent s.base { s.base with store := store } :=
      (Silent.refl s.base).server _ _
    refine ⟨covered.keep ?_ (Nat.le_add_right _ _) (by simp +contextual) silent,
      fun whole => whole.silent silent⟩
    exact fun i conn there _ => .inr ⟨rfl, conn, there, rfl⟩

/-- What holds in every state that is reached. -/
structure Awake (s : Serving ω) : Prop where
  consistent : s.base.Consistent
  covered : Covered (Gone s.base) s
  whole : Whole s.base

/-- The callback that `lws_cancel_service` leads to asks for every connection with frames. -/
theorem Covered.waitCancelled {gone : Nat → Prop} {s : Serving ω} (cancelled : Bool) :
    Covered gone { s with
      cancelled := cancelled
      requested := fun id => s.requested id || backlogged s.base id } := by
  intro id conn there queue
  left
  have backlog : conn.outbox.isEmpty = false := by simpa using queue
  have there : s.base.server.conns id = some conn := there
  simp [backlogged, there, backlog]

theorem Awake.step {s s' : Serving ω} (awake : s.Awake) (a : Action ω)
    (next : s.step tags lim a = some s') : s'.Awake := by
  cases a with
  | server a =>
    have served := awake.covered.server tags lim a next
    obtain ⟨base, stepped, rfl⟩ := Option.map_eq_some_iff.mp next
    have keeps := Traced.step_keeps tags lim awake.consistent a stepped
    exact ⟨keeps.consistent, served.1, served.2 awake.whole⟩
  | cancelService =>
    simp only [Serving.step] at next
    split at next
    · cases next
    · obtain rfl := Option.some.inj next
      exact ⟨awake.consistent, .of_wake (.inl rfl), awake.whole⟩
  | waitCancelled =>
    simp only [Serving.step] at next
    split at next
    · obtain rfl := Option.some.inj next
      exact ⟨awake.consistent, .waitCancelled false, awake.whole⟩
    · cases next

theorem awake_of_run (store : ω) (schedule : List (Action ω)) (s : Serving ω)
    (run : (machine tags lim store).run schedule = some s) : s.Awake := by
  apply (machine tags lim store).invariant Awake ?_ ?_ schedule s run
  · refine ⟨Traced.initial_consistent store, ?_, ?_⟩
    · intro id conn there
      cases there
    · intro id _ w found
      cases found
  · exact fun s a t awake next => awake.step tags lim a next

/-- All that was appended is written, each frame whole. -/
def Complete (s : Traced ω) (t : Traced ω) (id : Nat) : Prop :=
  written (t.history id) = (appended (s.history id)).map fun frame => (frame, true)

theorem complete_of_recorded {s : Traced ω} {i : Nat} {conn : Conn}
    (rec : Recorded conn (s.history i)) (empty : conn.outbox = [])
    (whole : ∀ w ∈ written (s.history i), w.2 = true) : Complete s s i := by
  have all := rec.queued
  rw [empty, List.append_nil] at all
  rw [Complete, all, List.map_map]
  symm
  calc (written (s.history i)).map ((fun frame => (frame, true)) ∘ Prod.fst)
      = (written (s.history i)).map id := List.map_congr_left fun w found => by
        rw [Function.comp_apply, ← whole w found, id]
    _ = written (s.history i) := List.map_id _

/-- In every reachable state in which libwebsockets owes nothing, whatever was appended to a
connection that was not given up has been written, whole and in order: no interleaving of the
pushing threads with the service thread loses a wake-up. -/
theorem delivered_of_idle (store : ω) (schedule : List (Action ω)) (s : Serving ω)
    (run : (machine tags lim store).run schedule = some s) (idle : s.Idle) (id : Nat)
    (live : (s.base.server.conns id).isSome) (kept : ¬Gone s.base id) :
    Complete s.base s.base id := by
  have awake := awake_of_run tags lim store schedule s run
  obtain ⟨conn, there⟩ := Option.isSome_iff_exists.mp live
  have empty : conn.outbox = [] := by
    by_contra queue
    have owed := awake.covered id conn there queue
    rw [idle.requested id conn there, idle.cancelled, idle.leaving] at owed
    simp [kept] at owed
  exact complete_of_recorded (awake.consistent.recorded id conn there) empty (awake.whole id kept)

/-- A client subscribes to the alarms, and one is published. -/
def alarmed : List (Action Unit) :=
  [.server .established, .server (.receive 1 (ascii "HELLO 1") true [] .error),
    .server (.writeable 1 true), .server (.receive 1 (ascii "SUBEVENT alarm") true [] .error),
    .server (.writeable 1 true),
    .server (.onEvent ⟨ascii "s7", ascii "plc", ascii "off", .alarm, 5⟩)]

/-- The service thread is woken and writes the alarm. -/
def delivered : List (Action Unit) :=
  alarmed ++ [.cancelService, .waitCancelled, .server (.writeable 1 true)]

theorem delivered_of_idle_alarmed :
    ∃ s, (machine Service.noTags Irsp1Codec.x64Limits ()).run delivered = some s ∧
      Complete s.base s.base 1 ∧ (written (s.base.history 1)).length = 3 := by
  have reached : ((machine Service.noTags Irsp1Codec.x64Limits ()).run delivered).any (fun s =>
      s.leaving = 0 ∧ s.cancelled = false ∧ s.base.server.nextConnId = 2 ∧
        (s.base.server.conns 0).isNone ∧ s.requested 1 = false ∧
        (s.base.server.conns 1).isSome ∧ .hungUp ∉ s.base.history 1 ∧
        (written (s.base.history 1)).length = 3) := by
    decide +kernel
  obtain ⟨s, run, facts⟩ := (Option.any_eq_true _ _).mp reached
  simp only [decide_eq_true_eq] at facts
  obtain ⟨leaving, cancelled, next, absent, requested, live, open_, three⟩ := facts
  refine ⟨s, run, ?_, three⟩
  apply delivered_of_idle Service.noTags Irsp1Codec.x64Limits () delivered s run ?_ 1 live open_
  refine ⟨leaving, cancelled, fun id conn there => ?_⟩
  have awake := awake_of_run Service.noTags Irsp1Codec.x64Limits () delivered s run
  have known : id < 2 := by
    by_contra late
    have fresh := (awake.consistent.fresh id (by omega)).1
    rw [there] at fresh
    cases fresh
  interval_cases id
  · rw [there] at absent
    cases absent
  · exact requested

/-! ### The service thread writes everything out -/

/-- The steps that are owed: the calls of `lws_cancel_service`, the callback that follows, and
the writable callbacks that were asked for, each of which takes the whole frame. -/
def Owed (s : Serving ω) : Action ω → Prop
  | .server (.writeable id complete) =>
    complete ∧ s.requested id ∧ (s.base.server.conns id).isSome
  | .server _ => False
  | .cancelService | .waitCancelled => True

instance (s : Serving ω) : DecidablePred s.Owed
  | .server (.writeable id complete) => inferInstanceAs (Decidable
    (complete = true ∧ s.requested id = true ∧ (s.base.server.conns id).isSome = true))
  | .server .established | .server (.receive ..) | .server (.closed _) | .server (.routeTag _)
  | .server (.onEvent _) | .server (.change _) => isFalse id
  | .cancelService | .waitCancelled => isTrue trivial

/-- The writable callbacks that a connection still takes. -/
def due (s : Serving ω) (id : Nat) : Nat :=
  match s.base.server.conns id with
  | none => 0
  | some conn => if conn.outbox = [] then (s.requested id).toNat else conn.outbox.length

def work (s : Serving ω) : Nat :=
  ∑ id ∈ Finset.range s.base.server.nextConnId, s.due id + 2 * s.leaving + s.cancelled.toNat

/-- What the owed steps keep, seen from the state in which they begin. -/
structure Serves (s t : Serving ω) : Prop where
  consistent : t.base.Consistent
  covered : Covered (Gone s.base) t
  appended : ∀ id, appended (t.base.history id) = appended (s.base.history id)
  live : ∀ id, (t.base.server.conns id).isSome = (s.base.server.conns id).isSome
  whole : ∀ id, ¬Gone s.base id → ∀ w ∈ written (t.base.history id), w.2 = true

/-- A whole write notes that and no more. -/
theorem writeable_history (s : Traced ω) (id i : Nat) :
    appended ((s.writeable id true).history i) = appended (s.history i) ∧
      ∀ w ∈ written ((s.writeable id true).history i), w ∈ written (s.history i) ∨ w.2 = true := by
  have noted (events : History)
      (added : ∀ e ∈ events, e = .hungUp ∨ ∃ frame, e = .wrote frame true) :
      appended ((s.note id events).history i) = appended (s.history i) ∧
        ∀ w ∈ written ((s.note id events).history i), w ∈ written (s.history i) ∨ w.2 = true := by
    by_cases same : i = id
    · subst same
      simp only [Traced.note, Function.update_self]
      induction events with
      | nil => exact ⟨rfl, fun w => .inl⟩
      | cons e events ih =>
        have rest := ih fun e' later => added e' (List.mem_cons_of_mem e later)
        rcases added e List.mem_cons_self with rfl | ⟨frame, rfl⟩
        · exact rest
        · refine ⟨rest.1, fun w found => ?_⟩
          rcases List.mem_append.mp found with old | new
          · exact rest.2 w old
          · rw [List.mem_singleton.mp new]
            exact .inr rfl
    · simp [Traced.note, same]
  unfold Traced.writeable
  split
  · exact ⟨rfl, fun w => .inl⟩
  · split
    · split
      · exact noted _ (by simp)
      · exact ⟨rfl, fun w => .inl⟩
    · apply noted
      intro e found
      rcases List.mem_append.mp found with closes | wrote
      · split at closes
        · exact .inl (List.mem_singleton.mp closes)
        · cases closes
      · exact .inr ⟨_, List.mem_singleton.mp wrote⟩

theorem due_writeable {s : Serving ω} {id : Nat} {conn : Conn}
    (there : s.base.server.conns id = some conn) (asked : s.requested id = true)
    {t : Serving ω} (base : t.base = s.base.writeable id true)
    (requested : t.requested = Function.update s.requested id (backlogged t.base id)) :
    t.due id < s.due id ∧ ∀ i ≠ id, t.due i = s.due i := by
  have now : t.base.server.conns id = some { conn with outbox := conn.outbox.tail } := by
    rw [base, writeable_conns]
    simp [there]
  constructor
  · cases queue : conn.outbox with
    | nil => simp [due, now, there, requested, backlogged, queue, asked]
    | cons msg rest =>
      cases rest with
      | nil => simp [due, now, there, requested, backlogged, queue]
      | cons next rest => simp [due, now, there, queue]
  · intro i other
    have same : t.base.server.conns i = s.base.server.conns i := by
      rw [base, writeable_conns, if_neg other]
    simp [due, same, requested, other]

section

variable {s t u : Serving ω} {id : Nat} (base : u.base = t.base.writeable id true)
  (requested : u.requested = Function.update t.requested id (backlogged u.base id))
  (leaving : u.leaving = t.leaving) (cancelled : u.cancelled = t.cancelled)

include base requested leaving cancelled

theorem Serves.writeable (serves : Serves s t) : Serves s u where
  consistent := by
    rw [base]
    exact (Traced.writeable_keeps serves.consistent id true).consistent
  covered := serves.covered.writeable id true base (by rw [requested, Bool.true_and]) leaving
    cancelled (fun _ given => given) (fun _ _ _ failed => by cases failed)
  appended i := by
    rw [base, (writeable_history t.base id i).1]
    exact serves.appended i
  live i := by
    rw [base, writeable_conns, ← serves.live i]
    split <;> simp
  whole i open_ w found := by
    rw [base] at found
    rcases (writeable_history t.base id i).2 w found with old | new
    · exact serves.whole i open_ w old
    · exact new

/-- A write that was asked for takes one callback off what its connection is due. -/
theorem work_writeable {conn : Conn} (consistent : t.base.Consistent)
    (there : t.base.server.conns id = some conn) (asked : t.requested id = true) :
    u.work < t.work := by
  have dues := due_writeable there asked base requested
  have known : id < t.base.server.nextConnId := by
    by_contra late
    have fresh := consistent.fresh id (by omega)
    rw [there] at fresh
    cases fresh.1
  have less : ∑ i ∈ Finset.range t.base.server.nextConnId, u.due i <
      ∑ i ∈ Finset.range t.base.server.nextConnId, t.due i := by
    apply Finset.sum_lt_sum
    · intro i _
      by_cases same : i = id
      · rw [same]
        exact dues.1.le
      · exact (dues.2 i same).le
    · exact ⟨id, Finset.mem_range.mpr known, dues.1⟩
  have bound : u.base.server.nextConnId = t.base.server.nextConnId := by
    rw [base, Traced.writeable_nextConnId]
  rw [work, work, bound, leaving, cancelled]
  omega

end

/-- What `lws_cancel_service` leads to asks for every connection with frames, and for no more than
they are due. -/
theorem due_waitCancelled (t : Serving ω) (i : Nat) :
    Serving.due { t with
      cancelled := false
      requested := fun id => t.requested id || backlogged t.base id } i = t.due i := by
  unfold due backlogged
  cases there : t.base.server.conns i with
  | none => rfl
  | some conn => cases queue : conn.outbox <;> simp [there, queue]

/-- Every owed step takes something off the work that is left. -/
theorem drains (s : Serving ω) (store : ω) :
    (machine tags lim store).Drains Owed (Serves s) work := by
  intro t a u serves owed next
  cases a with
  | server a =>
    cases a with
    | writeable id complete =>
      obtain ⟨rfl, asked, live⟩ := owed
      obtain ⟨conn, there⟩ := Option.isSome_iff_exists.mp live
      have next : some _ = some u := next
      have same := Option.some.inj next
      have base : u.base = t.base.writeable id true := by rw [← same]
      have requested : u.requested = Function.update t.requested id (backlogged u.base id) := by
        rw [← same]
        rfl
      have leaving : u.leaving = t.leaving := by
        rw [← same]
        rfl
      have cancelled : u.cancelled = t.cancelled := by
        rw [← same]
        simp [pushedInside]
      exact ⟨serves.writeable base requested leaving cancelled,
        work_writeable base requested leaving cancelled serves.consistent there asked⟩
    | established | receive _ _ _ _ _ | routeTag _ | onEvent _ | closed _ | change _ =>
      exact absurd owed not_false
  | cancelService =>
    have next : t.step tags lim .cancelService = some u := next
    simp only [step] at next
    split at next
    · cases next
    · rename_i some_
      obtain rfl := Option.some.inj next
      refine ⟨⟨serves.consistent, .of_wake (.inl rfl), serves.appended, serves.live,
        serves.whole⟩, ?_⟩
      have same (i : Nat) : Serving.due { t with leaving := t.leaving - 1, cancelled := true } i =
        t.due i := rfl
      simp only [work, same, Bool.toNat_true]
      omega
  | waitCancelled =>
    have next : t.step tags lim .waitCancelled = some u := next
    simp only [step] at next
    split at next
    · rename_i woken
      obtain rfl := Option.some.inj next
      refine ⟨⟨serves.consistent, .waitCancelled false, serves.appended, serves.live,
        serves.whole⟩, ?_⟩
      simp only [work, due_waitCancelled, woken, Bool.toNat_true, Bool.toNat_false]
      omega
    · cases next

/-- Where no owed step is left, nothing is owed, and all that was appended has been written. -/
theorem Serves.delivered {s t : Serving ω} (serves : Serves s t)
    (drained : ∀ a, t.Owed a → t.step tags lim a = none) :
    t.Idle ∧ ∀ id, (s.base.server.conns id).isSome → ¬Gone s.base id →
      Complete s.base t.base id := by
  have idle : t.Idle := by
    constructor
    · by_contra some_
      have next := drained .cancelService trivial
      simp [step, some_] at next
    · by_contra woken
      have next := drained .waitCancelled trivial
      simp [step, woken] at next
    · intro id conn there
      by_contra asked
      have next := drained (.server (.writeable id true))
        ⟨rfl, by simpa using asked, by simp [there]⟩
      simp [step, Traced.step] at next
  refine ⟨idle, fun id live kept => ?_⟩
  rw [← serves.live id] at live
  obtain ⟨conn, there⟩ := Option.isSome_iff_exists.mp live
  have empty : conn.outbox = [] := by
    by_contra queue
    have owed := serves.covered id conn there queue
    rw [idle.requested id conn there, idle.cancelled, idle.leaving] at owed
    simp [kept] at owed
  have complete := complete_of_recorded (serves.consistent.recorded id conn there) empty
    (serves.whole id kept)
  rw [Complete, ← serves.appended id]
  exact complete

/-- From every reachable state the owed steps come to an end, within `work` steps. Wherever they
end, nothing is owed, and every connection that was not given up has been written all that was
appended to it, whole and in order. -/
theorem owed_steps_deliver (store : ω) (schedule : List (Action ω)) (s : Serving ω)
    (run : (machine tags lim store).run schedule = some s) :
    (∀ as t, (machine tags lim store).Steps Owed s as →
      (machine tags lim store).runFrom s as = some t →
        as.length ≤ s.work ∧
        ((machine tags lim store).Drained Owed t → t.Idle ∧
          ∀ id, (s.base.server.conns id).isSome → ¬Gone s.base id →
            Complete s.base t.base id)) ∧
    ∃ t, (machine tags lim store).Reaches Owed s t ∧ t.Idle ∧
      ∀ id, (s.base.server.conns id).isSome → ¬Gone s.base id → Complete s.base t.base id := by
  have awake := awake_of_run tags lim store schedule s run
  have start : Serves s s :=
    ⟨awake.consistent, awake.covered, fun _ => rfl, fun _ => rfl, awake.whole⟩
  have drains := drains tags lim s store
  refine ⟨fun as t steps run' => ?_, ?_⟩
  · obtain ⟨serves, bound⟩ := drains.length_le start steps run'
    exact ⟨by omega, serves.delivered tags lim⟩
  · obtain ⟨t, reaches, serves, drained⟩ := drains.exists_drained start
    exact ⟨t, reaches, serves.delivered tags lim drained⟩

/-- What is owed for the alarm. -/
def woken : List (Action Unit) := [.cancelService, .waitCancelled, .server (.writeable 1 true)]

/-- Three steps are owed for the alarm, and after them it is written. -/
theorem owed_steps_deliver_alarmed :
    ∃ s t, (machine Service.noTags Irsp1Codec.x64Limits ()).run alarmed = some s ∧ s.work = 3 ∧
      (machine Service.noTags Irsp1Codec.x64Limits ()).runFrom s woken = some t ∧ t.Idle ∧
        Complete s.base t.base 1 := by
  have reached : ((machine Service.noTags Irsp1Codec.x64Limits ()).run alarmed).any (fun s =>
      decide (s.leaving = 1 ∧ s.cancelled = false ∧ s.base.server.nextConnId = 2 ∧
        s.due 0 = 0 ∧ s.due 1 = 1 ∧ (s.base.server.conns 1).isSome ∧
        .hungUp ∉ s.base.history 1) &&
      decide ((machine Service.noTags Irsp1Codec.x64Limits ()).Steps Owed s woken) &&
      ((machine Service.noTags Irsp1Codec.x64Limits ()).runFrom s woken).isSome) := by
    decide +kernel
  obtain ⟨s, run, facts⟩ := (Option.any_eq_true _ _).mp reached
  simp only [Bool.and_eq_true, decide_eq_true_eq] at facts
  obtain ⟨⟨⟨leaving, cancelled, next, none, one, live, open_⟩, steps⟩, ended⟩ := facts
  obtain ⟨t, later⟩ := Option.isSome_iff_exists.mp ended
  have three : s.work = 3 := by
    simp [work, next, leaving, cancelled, Finset.sum_range_succ, none, one]
  have owed := (owed_steps_deliver Service.noTags Irsp1Codec.x64Limits () alarmed s run).1
  -- a fourth step would be more than the bound allows
  have drained : (machine Service.noTags Irsp1Codec.x64Limits ()).Drained Owed t := by
    intro a due
    by_contra enabled
    obtain ⟨u, last⟩ := Option.ne_none_iff_exists'.mp enabled
    have fourth : ((machine Service.noTags Irsp1Codec.x64Limits ()).runFrom s (woken ++ [a])) =
        some u := by
      rw [Machine.runFrom_snoc, later]
      exact last
    have bound := (owed (woken ++ [a]) u (steps.snoc later due) fourth).1
    simp [three, woken] at bound
  obtain ⟨idle, complete⟩ := (owed woken t steps later).2 drained
  exact ⟨s, t, run, three, later, idle, complete 1 live open_⟩

end

end Serving

end IndustrialRuntime.Irsp
