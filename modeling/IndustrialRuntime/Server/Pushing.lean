import IndustrialRuntime.Server.PushRouting
import IndustrialRuntime.Server.Wakeups

namespace IndustrialRuntime.Irsp

namespace Traced

open History

variable {ω : Type*}

/-! ### What a connection hears -/

/-- A frame that `routeTag` or `onEvent` appends. -/
def Pushed (frame : Bytes) : Prop :=
  (∃ record, frame = encodePushTag record) ∨ ∃ event, frame = encodePushEvent event

/-- The connection gets nothing but pushes, and its buffer stays as it is while it lives. -/
structure Pushing (c : Nat) (s t : Traced ω) : Prop where
  appended : ∃ news, appended (t.history c) = appended (s.history c) ++ news ∧
    ∀ frame ∈ news, Pushed frame
  buffer : c < s.server.nextConnId → ∀ conn ∈ t.server.conns c,
    ∃ old ∈ s.server.conns c, conn.rx = old.rx
  next : s.server.nextConnId ≤ t.server.nextConnId

namespace Pushing

variable {c : Nat} {s t u : Traced ω}

theorem trans (first : Pushing c s t) (second : Pushing c t u) : Pushing c s u := by
  obtain ⟨news, same, pushed⟩ := first.appended
  obtain ⟨later, same', pushed'⟩ := second.appended
  refine ⟨⟨news ++ later, ?_, fun frame found => ?_⟩, fun early conn there => ?_,
    first.next.trans second.next⟩
  · rw [same', same, List.append_assoc]
  · exact (List.mem_append.mp found).elim (pushed frame) (pushed' frame)
  · have early' : c < t.server.nextConnId := Nat.lt_of_lt_of_le early first.next
    obtain ⟨middle, found, kept⟩ := second.buffer early' conn there
    obtain ⟨old, found', kept'⟩ := first.buffer early middle found
    exact ⟨old, found', kept.trans kept'⟩

/-- Nothing is appended. -/
theorem silent (same : History.appended (t.history c) = History.appended (s.history c))
    (buffer : c < s.server.nextConnId → ∀ conn ∈ t.server.conns c,
      ∃ old ∈ s.server.conns c, conn.rx = old.rx)
    (next : s.server.nextConnId ≤ t.server.nextConnId) : Pushing c s t :=
  ⟨⟨[], by rw [same, List.append_nil], by simp⟩, buffer, next⟩

theorem refl (c : Nat) (s : Traced ω) : Pushing c s s :=
  silent rfl (fun _ conn there => ⟨conn, there, rfl⟩) le_rfl

theorem pushTo {frame : Bytes} (pushed : Pushed frame) (s : Traced ω) (id : Nat) :
    Pushing c s (s.pushTo frame id) := by
  unfold Traced.pushTo
  cases found : s.server.conns id with
  | none => exact refl c s
  | some conn =>
    dsimp only
    have conns := s.server.pushTo_conns frame id c
    have next : (s.server.pushTo frame id).nextConnId = s.server.nextConnId := by
      simp [IrspServer.pushTo, found, IrspServer.setConn]
    by_cases same : c = id
    · subst same
      refine ⟨⟨[frame], by simp [note, History.appended], ?_⟩, fun _ conn' there => ?_, next.ge⟩
      · simpa using pushed
      · rw [conns, if_pos rfl, found] at there
        obtain rfl := Option.some.inj there
        exact ⟨conn, found, rfl⟩
    · refine silent (by simp [note, same]) (fun _ conn' there => ?_) next.ge
      rw [conns, if_neg same] at there
      exact ⟨conn', there, rfl⟩

theorem pushAll {frame : Bytes} (pushed : Pushed frame) (s : Traced ω) (ids : List Nat) :
    Pushing c s (s.pushAll ids frame) := by
  induction ids generalizing s with
  | nil => exact refl c s
  | cons id ids ih => exact (pushTo pushed s id).trans (ih (s.pushTo frame id))

theorem onEvent (s : Traced ω) (event : Core.Event) : Pushing c s (s.onEvent event) := by
  unfold Traced.onEvent
  dsimp only
  split
  · exact refl c s
  · exact pushAll (.inr ⟨event, rfl⟩) s _

/-- The store is not heard. -/
theorem change (s : Traced ω) (store : ω) : Pushing c s { s with store := store } :=
  silent rfl (fun _ conn there => ⟨conn, there, rfl⟩) le_rfl

theorem writeable (s : Traced ω) (id : Nat) (complete : Bool) :
    Pushing c s (s.writeable id complete) := by
  refine silent ?_ (fun _ conn there => ?_) (writeable_nextConnId id complete s).ge
  · unfold Traced.writeable
    have noted (events : History) (none : ∀ h, History.appended (events ++ h) =
        History.appended h) :
        History.appended ((s.note id events).history c) = History.appended (s.history c) := by
      by_cases same : c = id
      · subst same
        simp [note, none]
      · simp [note, same]
    split
    · rfl
    · split
      · split
        · exact noted [.hungUp] fun _ => rfl
        · rfl
      · refine noted _ fun h => ?_
        split <;> rfl
  · rw [Serving.writeable_conns] at there
    split_ifs at there with same
    · subst same
      obtain ⟨old, found, rfl⟩ := Option.map_eq_some_iff.mp there
      exact ⟨old, found, rfl⟩
    · exact ⟨conn, there, rfl⟩

theorem established (s : Traced ω) : Pushing c s { s with server := s.server.established } := by
  refine silent rfl (fun early conn there => ⟨conn, ?_, rfl⟩) (Nat.le_succ _)
  have other : c ≠ s.server.nextConnId := Nat.ne_of_lt early
  simpa [IrspServer.established, IrspServer.setConn, other] using there

theorem closed (s : Traced ω) (id : Nat) :
    Pushing c s { s with server := s.server.closed id } := by
  refine silent rfl (fun _ conn there => ⟨conn, ?_, rfl⟩) le_rfl
  by_cases same : c = id
  · simp [IrspServer.closed, same] at there
  · simpa [IrspServer.closed, same] using there

/-- The head of the receiving callback, on another connection. -/
theorem receive {id : Nat} (other : c ≠ id) (s : Traced ω) (data : Bytes) (final : Bool) :
    Pushing c s { s with server := (s.server.receive id data final).1 } := by
  refine silent rfl (fun _ conn there => ⟨conn, ?_, rfl⟩)
    (receive_nextConnId id data final s.server).ge
  unfold IrspServer.receive at there
  split at there
  · exact there
  · split at there <;> simpa [IrspServer.setConn, other] using there

section

variable (tags : TagSource ω)

theorem routeTag (s : Traced ω) (name : Bytes) : Pushing c s (s.routeTag tags name) := by
  unfold Traced.routeTag
  dsimp only
  split
  · exact refl c s
  · split
    · exact refl c s
    · exact pushAll (.inl ⟨_, rfl⟩) s _

theorem pushTags (s : Traced ω) (pushes : List (ω × Bytes)) :
    Pushing c s (s.pushTags tags pushes) := by
  induction pushes generalizing s with
  | nil => exact refl c s
  | cons push pushes ih =>
    have first : Pushing c s ({ s with store := push.1 }.routeTag tags push.2) :=
      (change s push.1).trans (routeTag tags _ push.2)
    exact first.trans (ih _)

theorem answer {id : Nat} (other : c ≠ id) (s : Traced ω) (frame : Frame)
    (result : WriteResult) : Pushing c s (s.answer tags id frame result) := by
  refine silent ?_ (fun _ conn there => ?_) (answer_nextConnId tags id frame result s).ge
  · unfold Traced.answer
    split
    · rfl
    · simp [note, other]
  · rw [Serving.answer_conns tags s id frame result c other] at there
    exact ⟨conn, there, rfl⟩

end

end Pushing

section

variable (tags : TagSource ω) (lim : Irsp1Codec.VectorLimits)

/-- `processFrame` up to the dispatcher: the pushes that a `SET` makes are made. -/
def entered (s : Traced ω) (id : Nat) (conn : Conn) (frame : Frame) (pushes : List (ω × Bytes))
    (result : WriteResult) : Traced ω :=
  let noted := match frame with
    | .request _ => s.note id [.dispatched]
    | _ => s
  noted.pushTags tags (handlerCall conn frame pushes result).1

theorem process_eq (s : Traced ω) (id : Nat) (conn : Conn) (frame : Frame)
    (pushes : List (ω × Bytes)) (result : WriteResult) :
    s.process tags id conn frame pushes result =
      (s.entered tags id conn frame pushes result).answer tags id frame
        (handlerCall conn frame pushes result).2 := by
  cases frame <;> rfl

theorem Pushing.entered (s : Traced ω) (c id : Nat) (conn : Conn) (frame : Frame)
    (pushes : List (ω × Bytes)) (result : WriteResult) :
    Pushing c s (s.entered tags id conn frame pushes result) := by
  have noted : Pushing c s (s.note id [.dispatched]) := by
    refine silent ?_ (fun _ conn there => ⟨conn, there, rfl⟩) le_rfl
    by_cases same : c = id
    · subst same
      simp [note, History.appended]
    · simp [note, same]
  cases frame with
  | ignored | malformed => exact pushTags tags s _
  | request value => exact noted.trans (pushTags tags _ _)

theorem receive_eq {s : IrspServer} {c : Nat} (empty : ∀ conn ∈ s.conns c, conn.rx = [])
    {data frame : Bytes} {conn : Conn}
    (whole : (s.receive c data true).2 = some (conn, frame)) : frame = data := by
  unfold IrspServer.receive at whole
  cases found : s.conns c with
  | none =>
    simp only [found] at whole
    cases whole
  | some old =>
    simp only [found, if_true, Option.some.injEq, Prod.mk.injEq, empty old found,
      List.nil_append] at whole
    exact whole.2.symm

end

end Traced

end IndustrialRuntime.Irsp
