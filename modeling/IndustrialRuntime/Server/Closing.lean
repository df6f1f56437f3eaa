import IndustrialRuntime.Core.EventBus
import IndustrialRuntime.Server.Frames
import IndustrialRuntime.Server.Runtime

namespace IndustrialRuntime.Irsp

open IndustrialRuntime.Core

def severityLower : EventSeverity → Bytes
  | .warning => ascii "warning"
  | .alarm => ascii "alarm"
  | .critical => ascii "critical"
  | .info => ascii "info"

def encodePushEvent (e : Event) : Bytes :=
  Irsp1Codec.encode (.map [(.bulk (ascii "push"), .bulk (ascii "event")),
    (.bulk (ascii "source"), .bulk e.source), (.bulk (ascii "category"), .bulk e.category),
    (.bulk (ascii "severity"), .bulk (severityLower e.severity)),
    (.bulk (ascii "ts"), .integer e.timestamp), (.bulk (ascii "message"), .bulk e.message)])

/-! ### What happens to one connection -/

/-- `marked` is the moment at which `closeAfterWrite` is set, right after the reply was appended;
`hungUp` is the return of -1 from the writable callback. A write is complete when `lws_write` took
the whole frame. -/
inductive ConnEvent where
  | dispatched
  | appended (frame : Bytes)
  | marked (reply : Bytes)
  | wrote (frame : Bytes) (complete : Bool)
  | hungUp
  deriving DecidableEq

/-- What has happened to a connection, the latest event first. -/
abbrev History := List ConnEvent

namespace History

/-- The frames that were appended to the outbox, in order. -/
def appended : History → List Bytes
  | [] => []
  | .appended frame :: h => appended h ++ [frame]
  | _ :: h => appended h

/-- The frames that were given to `lws_write`, in order. -/
def written : History → List (Bytes × Bool)
  | [] => []
  | .wrote frame complete :: h => written h ++ [(frame, complete)]
  | _ :: h => written h

/-- The reply with which the connection was first marked for closing. -/
def closing : History → Option Bytes
  | [] => none
  | .marked reply :: h => (closing h).or (some reply)
  | _ :: h => closing h

/-- What may still happen once the connection is marked: no frame is dispatched, nothing is
appended, and the callback returns -1 when all that was appended is written, the reply last. -/
def Respects (reply : Bytes) (h : History) : ConnEvent → Prop
  | .dispatched | .appended _ => False
  | .marked _ | .wrote _ _ => True
  | .hungUp => (written h).map Prod.fst = appended h ∧ (written h).getLast? = some (reply, true)

instance decidableRespects (reply : Bytes) (h : History) : DecidablePred (Respects reply h)
  | .dispatched | .appended _ => isFalse not_false
  | .marked _ | .wrote _ _ => isTrue trivial
  | .hungUp => inferInstanceAs (Decidable (_ ∧ _))

/-- A connection that was marked for closing is finished. -/
def Finished : History → Prop
  | [] => True
  | e :: h => Finished h ∧ ∀ reply ∈ closing h, Respects reply h e

instance decidableFinished : ∀ h, Decidable (Finished h)
  | [] => isTrue trivial
  | _ :: h =>
    have := decidableFinished h
    inferInstanceAs (Decidable (_ ∧ _))

end History

open History

/-- A live connection and its history agree: what was appended is written or queued, the flag is
set when the history says so, and in a history that is still in order the reply that marked the
connection is the last frame, and written when nothing is queued. -/
structure Recorded (conn : Conn) (h : History) : Prop where
  queued : appended h = (written h).map Prod.fst ++ conn.outbox
  flagged : conn.closeAfterWrite ↔ (closing h).isSome
  last : Finished h → ∀ reply ∈ closing h, (appended h).getLast? = some reply
  sent : Finished h → ∀ reply ∈ closing h, conn.outbox = [] →
    (written h).getLast? = some (reply, true)

namespace Recorded

variable {conn conn' : Conn} {h : History}

theorem fresh (id : SubscriberId) : Recorded { session := { id := id } } [] := by
  constructor <;> simp [appended, written, closing]

/-- Only the outbox and the flag are recorded. -/
theorem congr (rec : Recorded conn h) (outbox : conn'.outbox = conn.outbox)
    (flag : conn'.closeAfterWrite = conn.closeAfterWrite) : Recorded conn' h := by
  constructor
  · rw [outbox]
    exact rec.queued
  · rw [flag]
    exact rec.flagged
  · exact rec.last
  · rw [outbox]
    exact rec.sent

theorem closing_eq_none (rec : Recorded conn h) (open_ : ¬conn.closeAfterWrite) :
    closing h = none := by
  rw [rec.flagged] at open_
  simpa using open_

theorem exists_closing (rec : Recorded conn h) (marked : conn.closeAfterWrite) :
    ∃ reply, closing h = some reply :=
  Option.isSome_iff_exists.mp (rec.flagged.mp marked)

theorem finished_cons (rec : Recorded conn h) (e : ConnEvent)
    (never : ∀ reply, ¬Respects reply h e) :
    Finished (e :: h) ↔ Finished h ∧ ¬conn.closeAfterWrite := by
  rw [Finished]
  apply and_congr_right
  intro _
  by_cases marked : conn.closeAfterWrite
  · obtain ⟨reply, closes⟩ := rec.exists_closing marked
    simp [closes, never, marked]
  · simp [rec.closing_eq_none marked, marked]

theorem dispatched (rec : Recorded conn h) :
    Recorded conn (.dispatched :: h) ∧
      (Finished (.dispatched :: h) ↔ Finished h ∧ ¬conn.closeAfterWrite) := by
  refine ⟨⟨rec.queued, rec.flagged, ?_, ?_⟩, rec.finished_cons _ (fun _ => not_false)⟩
  · exact fun fin => rec.last fin.1
  · exact fun fin => rec.sent fin.1

theorem appended (rec : Recorded conn h) (conn' : Conn) (frame : Bytes)
    (outbox : conn'.outbox = conn.outbox ++ [frame])
    (flag : conn'.closeAfterWrite = conn.closeAfterWrite) :
    Recorded conn' (.appended frame :: h) ∧
      (Finished (.appended frame :: h) ↔ Finished h ∧ ¬conn.closeAfterWrite) := by
  refine ⟨⟨?_, ?_, ?_, ?_⟩, rec.finished_cons _ (fun _ => not_false)⟩
  · simp [History.appended, written, rec.queued, outbox]
  · rw [flag]
    exact rec.flagged
  · intro fin reply closes
    exact (fin.2 reply closes).elim
  · intro fin reply closes
    exact (fin.2 reply closes).elim

/-- A reply is appended and marks the connection. -/
theorem marked (rec : Recorded conn h) (conn' : Conn) (reply : Bytes)
    (outbox : conn'.outbox = conn.outbox ++ [reply]) (flag : conn'.closeAfterWrite) :
    Recorded conn' (.marked reply :: .appended reply :: h) ∧
      (Finished (.marked reply :: .appended reply :: h) ↔
        Finished h ∧ ¬conn.closeAfterWrite) := by
  have kept := rec.finished_cons (.appended reply) (fun _ => not_false)
  have final : Finished (.marked reply :: .appended reply :: h) ↔
      Finished (.appended reply :: h) := by
    rw [Finished]
    exact and_iff_left (fun _ _ => trivial)
  refine ⟨⟨?_, ?_, ?_, ?_⟩, final.trans kept⟩
  · simp [History.appended, written, rec.queued, outbox]
  · simp [flag, closing]
  · intro fin other closes
    have unmarked := rec.closing_eq_none (kept.mp fin.1).2
    obtain rfl : reply = other := by simpa [closing, unmarked] using closes
    simp [History.appended]
  · intro fin other closes empty
    simp [outbox] at empty

/-- The next frame is written, whole. -/
theorem wrote (rec : Recorded conn h) (conn' : Conn) {frame : Bytes} {rest : List Bytes}
    (outbox : conn.outbox = frame :: rest) (left : conn'.outbox = rest)
    (flag : conn'.closeAfterWrite = conn.closeAfterWrite) :
    Recorded conn' (.wrote frame true :: h) ∧
      (Finished (.wrote frame true :: h) ↔ Finished h) := by
  have final : Finished (.wrote frame true :: h) ↔ Finished h := by
    rw [Finished]
    exact and_iff_left (fun _ _ => trivial)
  refine ⟨⟨?_, ?_, ?_, ?_⟩, final⟩
  · simp [History.appended, written, rec.queued, outbox, left]
  · rw [flag]
    exact rec.flagged
  · exact fun fin => rec.last (final.mp fin)
  · intro fin reply closes empty
    have last := rec.last (final.mp fin) reply closes
    rw [rec.queued, outbox, ← left, empty, List.getLast?_concat] at last
    obtain rfl := Option.some.inj last
    simp [written]

/-- The callback returns -1 because the outbox is drained. -/
theorem drained (rec : Recorded conn h) (empty : conn.outbox = []) :
    Recorded conn (.hungUp :: h) ∧ (Finished (.hungUp :: h) ↔ Finished h) := by
  have all : (written h).map Prod.fst = History.appended h := by
    rw [rec.queued, empty, List.append_nil]
  have final : Finished (.hungUp :: h) ↔ Finished h := by
    rw [Finished]
    apply and_iff_left_of_imp
    intro fin reply closes
    exact ⟨all, rec.sent fin reply closes empty⟩
  refine ⟨⟨rec.queued, rec.flagged, ?_, ?_⟩, final⟩
  · exact fun fin => rec.last fin.1
  · exact fun fin => rec.sent fin.1

/-- The callback returns -1 because a write failed. -/
theorem failed (rec : Recorded conn h) (conn' : Conn) {frame : Bytes} {rest : List Bytes}
    (outbox : conn.outbox = frame :: rest) (left : conn'.outbox = rest)
    (flag : conn'.closeAfterWrite = conn.closeAfterWrite) :
    Recorded conn' (.hungUp :: .wrote frame false :: h) ∧
      (Finished (.hungUp :: .wrote frame false :: h) ↔ Finished h ∧ ¬conn.closeAfterWrite) := by
  have final : Finished (.wrote frame false :: h) ↔ Finished h := by
    rw [Finished]
    exact and_iff_left (fun _ _ => trivial)
  have broken (reply : Bytes) : ¬Respects reply (.wrote frame false :: h) .hungUp := by
    rintro ⟨-, last⟩
    simp [written] at last
  refine ⟨⟨?_, ?_, ?_, ?_⟩, ?_⟩
  · simp [History.appended, written, rec.queued, outbox, left]
  · rw [flag]
    exact rec.flagged
  · exact fun fin reply closes => absurd (fin.2 reply closes) (broken reply)
  · exact fun fin reply closes => absurd (fin.2 reply closes) (broken reply)
  · rw [Finished, final]
    apply and_congr_right
    intro _
    by_cases marked : conn.closeAfterWrite
    · obtain ⟨reply, closes⟩ := rec.exists_closing marked
      have same : closing (.wrote frame false :: h) = some reply := closes
      simp [same, broken, marked]
    · have none : closing (.wrote frame false :: h) = none := rec.closing_eq_none marked
      simp [none, marked]

end Recorded

/-! ### The server and the history of each connection -/

/-- The reply to the frame comes with the mark for closing. -/
def Frame.closes : Frame → Bool
  | .ignored => false
  | .malformed => true
  | .request value => isByeCommand value

/-- The server and the tags that it reads, with what has happened to each connection. -/
structure Traced (ω : Type*) where
  server : IrspServer
  store : ω
  history : Nat → History

namespace Traced

variable {ω : Type*}

/-- The steps under `mutex_`. `pushes` are the calls of `push_tag` that a `SET` makes before its
handler returns `result`: what they leave in the store, and the tag that changed. -/
inductive Action (ω : Type*) where
  | established
  | receive (id : Nat) (data : Bytes) (final : Bool) (pushes : List (ω × Bytes))
      (result : WriteResult)
  | writeable (id : Nat) (complete : Bool)
  | routeTag (name : Bytes)
  | onEvent (event : Event)
  | closed (id : Nat)
  | change (store : ω)

def initial (store : ω) : Traced ω := ⟨.initial, store, fun _ => []⟩

def note (s : Traced ω) (id : Nat) (events : History) : Traced ω :=
  { s with history := Function.update s.history id (events ++ s.history id) }

/-- One iteration of the loops in `routeTag` and `onEvent`. -/
def pushTo (frame : Bytes) (s : Traced ω) (id : Nat) : Traced ω :=
  match s.server.conns id with
  | none => s
  | some _ => { s.note id [.appended frame] with server := s.server.pushTo frame id }

def pushAll (s : Traced ω) (ids : List Nat) (frame : Bytes) : Traced ω :=
  ids.foldl (pushTo frame) s

def onEvent (s : Traced ω) (event : Event) : Traced ω :=
  let ids := s.server.dispatcher.eventSubscribers event.severity.rank event.category
  if ids.isEmpty then s else s.pushAll ids (encodePushEvent event)

/-- The writable callback; `complete` says whether `lws_write` took the whole frame. -/
def writeable (s : Traced ω) (id : Nat) (complete : Bool) : Traced ω :=
  match s.server.conns id with
  | none => s
  | some conn =>
    match conn.outbox with
    | [] => if conn.closeAfterWrite then s.note id [.hungUp] else s
    | msg :: rest =>
      let hangsUp := !complete || (rest.isEmpty && conn.closeAfterWrite)
      { s.note id ((if hangsUp then [.hungUp] else []) ++ [.wrote msg complete]) with
        server := (s.server.writeable id).1 }

section

variable (tags : TagSource ω)

def routeTag (s : Traced ω) (name : Bytes) : Traced ω :=
  let ids := s.server.dispatcher.tagSubscribers name
  if ids.isEmpty then s
  else
    match tags.read s.store name with
    | none => s
    | some rec => s.pushAll ids (encodePushTag rec)

/-- The change callbacks inside a `SET`. -/
def pushTags (s : Traced ω) (pushes : List (ω × Bytes)) : Traced ω :=
  pushes.foldl (fun s push => { s with store := push.1 }.routeTag tags push.2) s

/-- The handler is called for a `SET` whose value has a known type, and makes these pushes. -/
def handlerCall (conn : Conn) (frame : Frame) (pushes : List (ω × Bytes)) (result : WriteResult) :
    List (ω × Bytes) × WriteResult :=
  match frame with
  | .request value =>
    match setArguments conn.session value with
    | none => ([], .error)
    | some (_, type, bytes) =>
      if (CoreTagWriter.toVariant type bytes).isSome then (pushes, result) else ([], .error)
  | _ => ([], .error)

/-- The writer once its handler has returned. -/
def returned (result : WriteResult) : Option (TagWriter ω) :=
  some fun store _ _ _ => (result, store)

/-- The rest of `processFrame`, when the writer has given its result. -/
def answer (s : Traced ω) (id : Nat) (frame : Frame) (result : WriteResult) : Traced ω :=
  match s.server.conns id with
  | none => s
  | some conn =>
    let r := IrspServer.dispatch tags (returned result) s.server.dispatcher conn s.store frame
    let events : History :=
      match IrspServer.reply tags (returned result) s.server.dispatcher conn s.store frame with
      | none => []
      | some value =>
        let reply := Irsp1Codec.encode value
        (if frame.closes then [.marked reply] else []) ++ [.appended reply]
    { s.note id events with server := { s.server.setConn id r.1 with dispatcher := r.2.1 } }

/-- `processFrame` with the pushes of a `SET`. -/
def process (s : Traced ω) (id : Nat) (conn : Conn) (frame : Frame) (pushes : List (ω × Bytes))
    (result : WriteResult) : Traced ω :=
  let call := handlerCall conn frame pushes result
  let entered := match frame with
    | .request _ => s.note id [.dispatched]
    | _ => s
  (entered.pushTags tags call.1).answer tags id frame call.2

variable (lim : Irsp1Codec.VectorLimits)

/-- A frame that makes the decoder raise has no step. -/
def step (s : Traced ω) : Action ω → Option (Traced ω)
  | .established => some { s with server := s.server.established }
  | .receive id data final pushes result =>
    let r := s.server.receive id data final
    let s' := { s with server := r.1 }
    match r.2 with
    | none => some s'
    | some (conn, bytes) =>
      match IrspServer.parseFrame lim bytes with
      | .error _ => none
      | .ok frame => some (s'.process tags id conn frame pushes result)
  | .writeable id complete => some (s.writeable id complete)
  | .routeTag name => some (s.routeTag tags name)
  | .onEvent event => some (s.onEvent event)
  | .closed id => some { s with server := s.server.closed id }
  | .change store => some { s with store := store }

def machine (store : ω) : Machine (Traced ω) (Action ω) := ⟨initial store, step tags lim⟩

end

/-! ### The condition -/

/-- The connection is there and marked for closing. -/
def Marked (s : Traced ω) (id : Nat) : Prop :=
  ∃ conn ∈ s.server.conns id, conn.closeAfterWrite

instance decidableMarked (s : Traced ω) (id : Nat) : Decidable (s.Marked id) :=
  match h : s.server.conns id with
  | none => isFalse (by simp [Marked, h])
  | some conn => decidable_of_iff (conn.closeAfterWrite) (by simp [Marked, h])

section

variable (tags : TagSource ω)

/-- The connections that `routeTag` pushes to. -/
def routed (s : Traced ω) (store : ω) (name : Bytes) : List Nat :=
  if (tags.read store name).isSome then s.server.dispatcher.tagSubscribers name else []

/-- No tag that changes is routed to a marked connection. -/
def SparesRoute (s : Traced ω) (store : ω) (name : Bytes) : Prop :=
  ∀ id ∈ s.routed tags store name, ¬s.Marked id

variable (lim : Irsp1Codec.VectorLimits)

/-- The step leaves marked connections alone: it brings none of them a complete frame that is
more than whitespace, routes nothing to them, and does not fail to write to them. -/
def Spares (s : Traced ω) : Action ω → Prop
  | .receive id data final pushes result =>
    match (s.server.receive id data final).2 with
    | none => True
    | some (conn, bytes) =>
      match IrspServer.parseFrame lim bytes with
      | .error _ => True
      | .ok frame => (Irsp1Codec.Blank bytes ∨ ¬s.Marked id) ∧
          ∀ push ∈ (handlerCall conn frame pushes result).1, s.SparesRoute tags push.1 push.2
  | .writeable id complete =>
    complete ∨ ¬∃ conn ∈ s.server.conns id, conn.closeAfterWrite ∧ conn.outbox ≠ []
  | .routeTag name => s.SparesRoute tags s.store name
  | .onEvent event =>
    ∀ id ∈ s.server.dispatcher.eventSubscribers event.severity.rank event.category, ¬s.Marked id
  | .established | .closed _ | .change _ => True

end

/-! ### What the steps do to the histories -/

/-- Each connection agrees with its history, and ids are given out once. -/
structure Consistent (s : Traced ω) : Prop where
  recorded : ∀ id conn, s.server.conns id = some conn → Recorded conn (s.history id)
  fresh : ∀ id, s.server.nextConnId ≤ id → s.server.conns id = none ∧ s.history id = []

def AllFinished (s : Traced ω) : Prop := ∀ id, Finished (s.history id)

theorem marked_iff {s : Traced ω} {id : Nat} {conn : Conn} (found : s.server.conns id = some conn) :
    s.Marked id ↔ conn.closeAfterWrite := by
  simp [Marked, found]

/-- A step that keeps the connections consistent, and their histories in order just when a
condition is met. -/
structure Keeps (s s' : Traced ω) (cond : Prop) : Prop where
  consistent : s'.Consistent
  finished : s'.AllFinished ↔ s.AllFinished ∧ cond

namespace Keeps

variable {s s' s'' : Traced ω} {P Q : Prop}

theorem refl (consistent : s.Consistent) : Keeps s s True := ⟨consistent, by simp⟩

theorem trans (first : Keeps s s' P) (second : Keeps s' s'' Q) : Keeps s s'' (P ∧ Q) := by
  refine ⟨second.consistent, ?_⟩
  rw [second.finished, first.finished, and_assoc]

theorem congr (keeps : Keeps s s' P) (same : P ↔ Q) : Keeps s s' Q :=
  ⟨keeps.consistent, by rw [keeps.finished, same]⟩

/-- A step that changes one connection. -/
theorem one (id : Nat) {conn : Conn} (conn' : Conn) (consistent : s.Consistent)
    (others : ∀ i ≠ id, s'.server.conns i = s.server.conns i ∧ s'.history i = s.history i)
    (next : s'.server.nextConnId = s.server.nextConnId)
    (found : s.server.conns id = some conn) (now : s'.server.conns id = some conn')
    (step : Recorded conn' (s'.history id) ∧
      (Finished (s'.history id) ↔ Finished (s.history id) ∧ P)) : Keeps s s' P := by
  constructor
  · constructor
    · intro i c there
      by_cases same : i = id
      · subst same
        obtain rfl := Option.some.inj (now.symm.trans there)
        exact step.1
      · rw [(others i same).2]
        exact consistent.recorded i c ((others i same).1 ▸ there)
    · intro i late
      rw [next] at late
      have old := consistent.fresh i late
      have other : i ≠ id := by
        rintro rfl
        rw [found] at old
        cases old.1
      rw [(others i other).1, (others i other).2]
      exact old
  · constructor
    · intro all
      have own := step.2.mp (all id)
      refine ⟨fun i => ?_, own.2⟩
      by_cases same : i = id
      · rw [same]
        exact own.1
      · rw [← (others i same).2]
        exact all i
    · rintro ⟨all, cond⟩ i
      by_cases same : i = id
      · rw [same]
        exact step.2.mpr ⟨all id, cond⟩
      · rw [(others i same).2]
        exact all i

end Keeps

/-- The subscriptions and the marks are the same. -/
structure Alike (s s' : Traced ω) : Prop where
  dispatcher : s'.server.dispatcher = s.server.dispatcher
  marked : ∀ id, s'.Marked id ↔ s.Marked id

namespace Alike

variable {s s' s'' : Traced ω}

theorem refl (s : Traced ω) : Alike s s := ⟨rfl, fun _ => Iff.rfl⟩

theorem trans (first : Alike s s') (second : Alike s' s'') : Alike s s'' :=
  ⟨second.dispatcher.trans first.dispatcher,
    fun id => (second.marked id).trans (first.marked id)⟩

theorem sparesRoute (alike : Alike s s') (tags : TagSource ω) (store : ω) (name : Bytes) :
    s'.SparesRoute tags store name ↔ s.SparesRoute tags store name := by
  simp only [SparesRoute, routed, alike.dispatcher, alike.marked]

end Alike

theorem pushTo_keeps (frame : Bytes) {s : Traced ω} (consistent : s.Consistent) (id : Nat) :
    Keeps s (s.pushTo frame id) (¬s.Marked id) ∧ Alike s (s.pushTo frame id) := by
  cases found : s.server.conns id with
  | none =>
    have absent : ¬s.Marked id := by simp [Marked, found]
    simp only [pushTo, found]
    exact ⟨(Keeps.refl consistent).congr (by simp [absent]), .refl s⟩
  | some conn =>
    have step := (consistent.recorded id conn found).appended
      { conn with outbox := conn.outbox ++ [frame] } frame rfl rfl
    have conns (i : Nat) : (s.server.pushTo frame id).conns i =
        if i = id then some { conn with outbox := conn.outbox ++ [frame] }
        else s.server.conns i := by
      by_cases same : i = id
      · subst same
        simp [IrspServer.pushTo, found, IrspServer.setConn]
      · simp [IrspServer.pushTo, found, IrspServer.setConn, same]
    simp only [pushTo, found, marked_iff found]
    constructor
    · apply Keeps.one id { conn with outbox := conn.outbox ++ [frame] } consistent
      · intro i other
        simp [conns, note, other]
      · simp [IrspServer.pushTo, found, IrspServer.setConn]
      · exact found
      · simp [conns]
      · simpa [note] using step
    · refine ⟨by simp [IrspServer.pushTo, found, IrspServer.setConn], fun i => ?_⟩
      by_cases same : i = id
      · subst same
        simp [Marked, conns, found]
      · simp [Marked, conns, same]

theorem pushAll_keeps (frame : Bytes) (ids : List Nat) {s : Traced ω}
    (consistent : s.Consistent) :
    Keeps s (s.pushAll ids frame) (∀ id ∈ ids, ¬s.Marked id) ∧ Alike s (s.pushAll ids frame) := by
  induction ids generalizing s with
  | nil => exact ⟨(Keeps.refl consistent).congr (by simp), .refl s⟩
  | cons id ids ih =>
    obtain ⟨keeps, alike⟩ := pushTo_keeps frame consistent id
    obtain ⟨later, alike'⟩ := ih keeps.consistent
    refine ⟨(keeps.trans later).congr ?_, alike.trans alike'⟩
    simp only [alike.marked, List.forall_mem_cons]

section

variable (tags : TagSource ω)

theorem routeTag_keeps (name : Bytes) {s : Traced ω} (consistent : s.Consistent) :
    Keeps s (s.routeTag tags name) (s.SparesRoute tags s.store name) ∧
      Alike s (s.routeTag tags name) := by
  have idle (none : s.routed tags s.store name = []) :
      Keeps s s (s.SparesRoute tags s.store name) ∧ Alike s s :=
    ⟨(Keeps.refl consistent).congr (by simp [SparesRoute, none]), .refl s⟩
  unfold routeTag
  dsimp only
  split
  · rename_i empty
    have none := List.isEmpty_iff.mp empty
    exact idle (by simp [routed, none])
  · cases read : tags.read s.store name with
    | none => exact idle (by simp [routed, read])
    | some rec =>
      have routes := pushAll_keeps (encodePushTag rec)
        (s.server.dispatcher.tagSubscribers name) consistent
      refine ⟨routes.1.congr ?_, routes.2⟩
      simp [SparesRoute, routed, read]

theorem consistent_store {s : Traced ω} (consistent : s.Consistent) (store : ω) :
    Consistent { s with store := store } := ⟨consistent.recorded, consistent.fresh⟩

theorem pushTags_keeps (pushes : List (ω × Bytes)) {s : Traced ω} (consistent : s.Consistent) :
    Keeps s (s.pushTags tags pushes) (∀ push ∈ pushes, s.SparesRoute tags push.1 push.2) ∧
      Alike s (s.pushTags tags pushes) := by
  induction pushes generalizing s with
  | nil => exact ⟨(Keeps.refl consistent).congr (by simp), .refl s⟩
  | cons push pushes ih =>
    obtain ⟨keeps, alike⟩ :=
      routeTag_keeps tags push.2 (consistent_store consistent push.1)
    obtain ⟨later, alike'⟩ := ih keeps.consistent
    have same (t : Traced ω) (routed : Alike s t) :
        (s.SparesRoute tags push.1 push.2 ∧ ∀ p ∈ pushes, t.SparesRoute tags p.1 p.2) ↔
          ∀ p ∈ push :: pushes, s.SparesRoute tags p.1 p.2 := by
      simp only [routed.sparesRoute, List.forall_mem_cons]
    have alike : Alike s ({ s with store := push.1 }.routeTag tags push.2) :=
      ⟨alike.dispatcher, alike.marked⟩
    have keeps : Keeps s ({ s with store := push.1 }.routeTag tags push.2)
        (s.SparesRoute tags push.1 push.2) := ⟨keeps.consistent, keeps.finished⟩
    exact ⟨(keeps.trans later).congr (same _ alike), alike.trans alike'⟩

theorem dispatched_keeps {s : Traced ω} (consistent : s.Consistent) {id : Nat} {conn : Conn}
    (found : s.server.conns id = some conn) :
    Keeps s (s.note id [.dispatched]) (¬s.Marked id) ∧ Alike s (s.note id [.dispatched]) := by
  have step := (consistent.recorded id conn found).dispatched
  rw [marked_iff found]
  refine ⟨Keeps.one id conn consistent ?_ rfl found found ?_, rfl, fun _ => Iff.rfl⟩
  · intro i other
    simp [note, other]
  · simpa [note] using step

theorem answer_keeps {s : Traced ω} (consistent : s.Consistent) (id : Nat) (frame : Frame)
    (result : WriteResult) :
    Keeps s (s.answer tags id frame result) (frame = .ignored ∨ ¬s.Marked id) := by
  cases found : s.server.conns id with
  | none =>
    have absent : ¬s.Marked id := by simp [Marked, found]
    simp only [answer, found]
    exact (Keeps.refl consistent).congr (by simp [absent])
  | some conn =>
    have agrees := consistent.recorded id conn found
    simp only [answer, found, marked_iff found]
    let after := IrspServer.dispatch tags (returned result) s.server.dispatcher conn s.store frame
    refine Keeps.one id after.1 consistent ?_ rfl found (by simp [IrspServer.setConn, after]) ?_
    · intro i other
      simp [IrspServer.setConn, note, other]
    · cases frame with
      | ignored => simpa [note, after, IrspServer.dispatch, IrspServer.reply] using agrees
      | malformed =>
        have step := agrees.marked after.1 _ rfl rfl
        simpa [note, IrspServer.reply, Frame.closes] using step
      | request value =>
        have closes : after.1.closeAfterWrite =
            (isByeCommand value || conn.closeAfterWrite) := rfl
        cases bye : isByeCommand value with
        | true =>
          have step := agrees.marked after.1 _ rfl (by simp [closes, bye])
          simpa [note, IrspServer.reply, Frame.closes, bye] using step
        | false =>
          have step := agrees.appended after.1 _ rfl (by simp [closes, bye])
          simpa [note, IrspServer.reply, Frame.closes, bye] using step

theorem process_keeps {s : Traced ω} (consistent : s.Consistent) {id : Nat} {conn : Conn}
    (found : s.server.conns id = some conn) (frame : Frame) (pushes : List (ω × Bytes))
    (result : WriteResult) :
    Keeps s (s.process tags id conn frame pushes result)
      ((frame = .ignored ∨ ¬s.Marked id) ∧
        ∀ push ∈ (handlerCall conn frame pushes result).1, s.SparesRoute tags push.1 push.2) := by
  cases frame with
  | ignored | malformed =>
    apply (answer_keeps tags consistent id _ _).congr
    simp [handlerCall]
  | request value =>
    obtain ⟨entered, alike⟩ := dispatched_keeps consistent found
    obtain ⟨pushed, alike'⟩ := pushTags_keeps tags
      (handlerCall conn (.request value) pushes result).1 entered.consistent
    have answered := answer_keeps tags pushed.consistent id (.request value)
      (handlerCall conn (.request value) pushes result).2
    apply ((entered.trans pushed).trans answered).congr
    simp only [alike'.marked, alike.marked, alike.sparesRoute, reduceCtorEq, false_or]
    tauto

theorem writeable_keeps {s : Traced ω} (consistent : s.Consistent) (id : Nat) (complete : Bool) :
    Keeps s (s.writeable id complete)
      (complete ∨ ¬∃ conn ∈ s.server.conns id, conn.closeAfterWrite ∧ conn.outbox ≠ []) := by
  cases found : s.server.conns id with
  | none =>
    simp only [writeable, found]
    exact (Keeps.refl consistent).congr (by simp)
  | some conn =>
    have agrees := consistent.recorded id conn found
    simp only [Option.mem_some_iff, exists_eq_left']
    cases queue : conn.outbox with
    | nil =>
      simp only [writeable, found, queue]
      split
      · have step := agrees.drained queue
        refine Keeps.one id conn consistent ?_ rfl found found ?_
        · intro i other
          simp [note, other]
        · simpa [note] using step
      · exact (Keeps.refl consistent).congr (by simp)
    | cons msg rest =>
      simp only [writeable, found, queue]
      refine Keeps.one id { conn with outbox := rest } consistent ?_ ?_ found ?_ ?_
      · intro i other
        simp [IrspServer.writeable, IrspServer.setConn, note, found, queue, other]
      · simp [IrspServer.writeable, IrspServer.setConn, found, queue]
      · simp [IrspServer.writeable, IrspServer.setConn, found, queue]
      · cases complete with
        | false =>
          simpa [note] using agrees.failed { conn with outbox := rest } queue rfl rfl
        | true =>
          have step := agrees.wrote { conn with outbox := rest } queue rfl rfl
          by_cases last : rest = [] ∧ conn.closeAfterWrite
          · have ended := step.1.drained last.1
            simpa [note, last, step.2] using ended
          · simpa [note, last] using step

/-- The head of the receiving callback changes the receive buffer alone. -/
theorem receive_keeps {s : Traced ω} (consistent : s.Consistent) (id : Nat) (data : Bytes)
    (final : Bool) :
    let s' : Traced ω := { s with server := (s.server.receive id data final).1 }
    Keeps s s' True ∧ Alike s s' ∧
      ∀ done ∈ (s.server.receive id data final).2, s'.server.conns id = some done.1 := by
  cases found : s.server.conns id with
  | none =>
    simp only [IrspServer.receive, found]
    exact ⟨.refl consistent, .refl s, by simp⟩
  | some conn =>
    have buffered (rx : Bytes) :
        let s' : Traced ω := { s with server := s.server.setConn id { conn with rx := rx } }
        Keeps s s' True ∧ Alike s s' := by
      have agrees := consistent.recorded id conn found
      refine ⟨Keeps.one id { conn with rx := rx } consistent ?_ rfl found ?_ ?_, rfl, ?_⟩
      · intro i other
        simp [IrspServer.setConn, other]
      · simp [IrspServer.setConn]
      · exact ⟨agrees.congr rfl rfl, by simp⟩
      · intro i
        by_cases same : i = id
        · subst same
          simp [Marked, IrspServer.setConn, found]
        · simp [Marked, IrspServer.setConn, same]
    cases final with
    | true =>
      obtain ⟨keeps, alike⟩ := buffered []
      simp only [IrspServer.receive, found, if_true]
      exact ⟨keeps, alike, by simp [IrspServer.setConn]⟩
    | false =>
      obtain ⟨keeps, alike⟩ := buffered (conn.rx ++ data)
      simp only [IrspServer.receive, found, Bool.false_eq_true, if_false]
      exact ⟨keeps, alike, by simp⟩

theorem established_keeps {s : Traced ω} (consistent : s.Consistent) :
    Keeps s { s with server := s.server.established } True := by
  refine ⟨⟨?_, ?_⟩, by simp [AllFinished]⟩
  · intro id conn there
    by_cases new : id = s.server.nextConnId
    · subst new
      have empty := (consistent.fresh _ le_rfl).2
      obtain rfl : _ = conn := by
        simpa [IrspServer.established, IrspServer.setConn] using there
      simp only [empty]
      exact .fresh _
    · apply consistent.recorded id conn
      simpa [IrspServer.established, IrspServer.setConn, new] using there
  · intro id late
    have above : s.server.nextConnId + 1 ≤ id := late
    have other : id ≠ s.server.nextConnId := by omega
    have old := consistent.fresh id (by omega)
    simpa [IrspServer.established, IrspServer.setConn, other] using old

theorem closed_keeps {s : Traced ω} (consistent : s.Consistent) (id : Nat) :
    Keeps s { s with server := s.server.closed id } True := by
  refine ⟨⟨?_, ?_⟩, by simp [AllFinished]⟩
  · intro i conn there
    by_cases same : i = id
    · simp [IrspServer.closed, same] at there
    · apply consistent.recorded i conn
      simpa [IrspServer.closed, same] using there
  · intro i late
    have old := consistent.fresh i late
    by_cases same : i = id
    · exact ⟨by simp [IrspServer.closed, same], old.2⟩
    · simpa [IrspServer.closed, same] using old

variable (lim : Irsp1Codec.VectorLimits)

theorem step_keeps {s t : Traced ω} (consistent : s.Consistent) (a : Action ω)
    (next : s.step tags lim a = some t) : Keeps s t (s.Spares tags lim a) := by
  cases a with
  | established =>
    obtain rfl := Option.some.inj next
    exact established_keeps consistent
  | receive id data final pushes result =>
    obtain ⟨keeps, alike, there⟩ := receive_keeps consistent id data final
    simp only [step] at next
    simp only [Spares]
    cases complete : (s.server.receive id data final).2 with
    | none =>
      simp only [complete] at next ⊢
      obtain rfl := Option.some.inj next
      exact keeps
    | some done =>
      obtain ⟨conn, bytes⟩ := done
      simp only [complete] at next ⊢
      cases parsed : IrspServer.parseFrame lim bytes with
      | error e =>
        rw [parsed] at next
        cases next
      | ok frame =>
        simp only [parsed] at next ⊢
        obtain rfl := Option.some.inj next
        have processed := process_keeps tags keeps.consistent (there _ complete) frame pushes result
        apply (keeps.trans processed).congr
        simp only [true_and, alike.marked, alike.sparesRoute,
          IrspServer.parseFrame_ignored_iff lim parsed]
  | writeable id complete =>
    obtain rfl := Option.some.inj next
    exact writeable_keeps consistent id complete
  | routeTag name =>
    obtain rfl := Option.some.inj next
    exact (routeTag_keeps tags name consistent).1
  | onEvent event =>
    obtain rfl := Option.some.inj next
    have pushed := (pushAll_keeps (encodePushEvent event)
      (s.server.dispatcher.eventSubscribers event.severity.rank event.category) consistent).1
    simp only [onEvent, Spares]
    split
    · rename_i empty
      rw [List.isEmpty_iff.mp empty]
      exact (Keeps.refl consistent).congr (by simp)
    · exact pushed
  | closed id =>
    obtain rfl := Option.some.inj next
    exact closed_keeps consistent id
  | change store =>
    obtain rfl := Option.some.inj next
    exact ⟨⟨consistent.recorded, consistent.fresh⟩, by simp [AllFinished, Spares]⟩

theorem initial_consistent (store : ω) : (initial store).Consistent := by
  refine ⟨fun id conn there => ?_, fun id _ => ⟨rfl, rfl⟩⟩
  cases there

/-- In every run, the connections that were marked for closing are finished exactly when every
step spared the marked ones: `processFrame` and the two pushing callbacks do not look at the
flag, and the writable callback looks at it when the outbox is empty. -/
theorem marked_finished_iff (store : ω) (schedule : List (Action ω)) (s : Traced ω)
    (run : (machine tags lim store).run schedule = some s) :
    s.AllFinished ↔ (machine tags lim store).Steps (Spares tags lim) (initial store) schedule := by
  have start : (initial store).AllFinished := fun _ => trivial
  have steps := (machine tags lim store).iff_of_steps (Spares tags lim) (fun _ _ => True)
    Consistent AllFinished (fun t a u consistent _ next =>
      ⟨(step_keeps tags lim consistent a next).consistent,
        (step_keeps tags lim consistent a next).finished⟩)
    (initial store) schedule s (initial_consistent store)
    (Machine.steps_of_forall _ _ (fun _ _ => trivial) _ _) run
  exact steps.2.trans (and_iff_right start)

/-- A client says `HELLO`, reads the reply, says `BYE` and reads the last reply. -/
def polite : List (Action Unit) :=
  [.established, .receive 1 (ascii "HELLO 1") true [] .error, .writeable 1 true,
    .receive 1 (ascii "BYE") true [] .error, .writeable 1 true, .closed 1]

theorem marked_finished_iff_polite :
    ∃ s, (machine Service.noTags Irsp1Codec.x64Limits ()).run polite = some s ∧
      (s.AllFinished ↔ (machine Service.noTags Irsp1Codec.x64Limits ()).Steps
        (Spares Service.noTags Irsp1Codec.x64Limits) (initial ()) polite) ∧
      closing (s.history 1) = some (Irsp1Codec.encode (.simple (ascii "OK"))) := by
  refine ⟨_, rfl, ?_, by decide⟩
  exact marked_finished_iff Service.noTags Irsp1Codec.x64Limits () polite _ rfl

/-- After its `BYE` the client sends another command, which is executed. -/
def impolite : List (Action Unit) :=
  [.established, .receive 1 (ascii "HELLO 1") true [] .error,
    .receive 1 (ascii "BYE") true [] .error, .receive 1 (ascii "WATCH a") true [] .error]

theorem not_marked_finished :
    ¬∀ s, (machine Service.noTags Irsp1Codec.x64Limits ()).run impolite = some s →
      s.AllFinished := by
  intro all
  have finished := all _ rfl 1
  revert finished
  decide

end

end Traced

end IndustrialRuntime.Irsp
