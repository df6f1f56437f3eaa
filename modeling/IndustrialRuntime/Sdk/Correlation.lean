import Mathlib.Data.List.Lemmas
import Mathlib.Data.List.Nodup
import Mathlib.Data.List.Pairwise
import IndustrialRuntime.Sdk.ClientAgreement
import IndustrialRuntime.Sdk.IrspClient

namespace IndustrialRuntime.Sdk

/-- The server answers a request by a frame that is no push, and pushes by frames that are. -/
def Binding.Typed {K : Type} [DecidableEq K] (binding : Binding K) (e : Option Nat × Bytes) :
    Prop :=
  binding.pushes e.2 e.1.isNone = e.1.isNone

theorem Socket.ids_hand (k : Socket) (id : Nat) (frame : Bytes) :
    Socket.ids { k with requests := k.requests ++ [(id, frame)] } = k.ids ++ [id] := by
  simp [Socket.ids]

/-- A connection is replaced by one that has no call of another. -/
theorem Socket.apart_update {sockets : Nat → Socket} {i : Nat} {k : Socket}
    (apart : ∀ j l, j ≠ l → (sockets j).ids.Disjoint (sockets l).ids)
    (own : ∀ j, j ≠ i → k.ids.Disjoint (sockets j).ids) (j l : Nat) (ne : j ≠ l) :
    (Function.update sockets i k j).ids.Disjoint (Function.update sockets i k l).ids := by
  by_cases left : j = i
  · subst left
    rw [Function.update_self, Function.update_of_ne ne.symm]
    exact own l ne.symm
  · rw [Function.update_of_ne left]
    by_cases right : l = i
    · subst right
      rw [Function.update_self]
      exact List.disjoint_comm.mp (own j left)
    · rw [Function.update_of_ne right]
      exact apart j l ne

namespace IrspClient

variable {K : Type}

/-- The queue holds the requests that are not answered yet, in send order, and every entry that
was settled was settled by its own reply. -/
structure Correlated (s : IrspClient K) : Prop where
  pending : s.pending = s.unanswered
  own : ∀ st ∈ s.settled, st.request = some st.entry

section Orderly

variable (binding : Binding K) (s : IrspClient K)

/-- A reply decodes, and every call that waits on another connection is younger; no push handler
raises whose exception would clear a queue that is not empty. -/
def OrderlyFrame (i : Nat) (raised : Bool) : Option Nat × Bytes → Prop
  | (some id, bytes) => (binding.decode bytes).isOk = true ∧
    ∀ other ∈ s.pending, other ∉ (s.sockets i).ids → id < other
  | (none, bytes) => binding.fragile = true → raised = true →
    (binding.decode bytes).isOk = true → s.pending = []

/-- The steps that keep the queue right: a call that passes the check of `_send` encodes and is
sent, and its request is written; the next frame is handled in order; a connection that ends
rejects its own calls and no others. -/
def Orderly : ClientAction → Prop
  | .call parts accepted => binding.ready (s.ws.map fun i => (s.sockets i).phase) = true →
    (binding.encoded parts).isSome = true ∧ accepted = true
  | .withdraw _ _ => False
  | .receive i raised => ∀ e ∈ (s.sockets i).frames.head?, s.OrderlyFrame binding i raised e
  | .ended i => ∀ id ∈ s.pending, binding.rejects (s.sockets i) = true ↔ id ∈ (s.sockets i).ids
  | _ => True

instance decidableOrderlyFrame (i : Nat) (raised : Bool) :
    DecidablePred (s.OrderlyFrame binding i raised)
  | (some id, bytes) => inferInstanceAs (Decidable ((binding.decode bytes).isOk = true ∧
      ∀ other ∈ s.pending, other ∉ (s.sockets i).ids → id < other))
  | (none, bytes) => inferInstanceAs (Decidable (binding.fragile = true → raised = true →
      (binding.decode bytes).isOk = true → s.pending = []))

instance decidableOrderly : DecidablePred (s.Orderly binding)
  | .call parts accepted => inferInstanceAs (Decidable
      (binding.ready (s.ws.map fun i => (s.sockets i).phase) = true →
        (binding.encoded parts).isSome = true ∧ accepted = true))
  | .withdraw _ _ => inferInstanceAs (Decidable False)
  | .receive i raised => inferInstanceAs (Decidable
      (∀ e ∈ (s.sockets i).frames.head?, s.OrderlyFrame binding i raised e))
  | .ended i => inferInstanceAs (Decidable
      (∀ id ∈ s.pending, binding.rejects (s.sockets i) = true ↔ id ∈ (s.sockets i).ids))
  | .connect | .opened _ | .cancel _ | .answer .. | .push .. | .close =>
    inferInstanceAs (Decidable True)

end Orderly

variable {s t : IrspClient K}

theorem Correlated.congr (right : s.Correlated) (pending : t.pending = s.pending)
    (unanswered : t.unanswered = s.unanswered) (settled : t.settled = s.settled) :
    t.Correlated where
  pending := by rw [pending, unanswered, right.pending]
  own := settled ▸ right.own

theorem correlated_iff_pending (own : ∀ st ∈ t.settled, st.request = some st.entry) :
    t.Correlated ↔ t.pending = t.unanswered :=
  ⟨Correlated.pending, fun same => ⟨same, own⟩⟩

/-- An entry that no request was handed over for stays in the way. -/
theorem Correlated.not_enqueue (right : s.Correlated) : ¬s.enqueue.Correlated := by
  intro after
  have same : s.pending ++ [s.next] = s.unanswered := after.pending
  have size := congrArg List.length same
  rw [List.length_append, right.pending, List.length_singleton] at size
  omega

variable [DecidableEq K] {binding : Binding K}

/-- The calls on a connection are unanswered ones, in send order, and no call is on two of
them. -/
structure Coherent (binding : Binding K) (s : IrspClient K) : Prop where
  fresh : ∀ id ∈ s.unanswered, id < s.next
  ordered : s.unanswered.Pairwise (· < ·)
  sent : ∀ i, (s.sockets i).ids.Sublist s.unanswered
  apart : ∀ i j, i ≠ j → (s.sockets i).ids.Disjoint (s.sockets j).ids
  typed : ∀ i, ∀ e ∈ (s.sockets i).frames, binding.Typed e

theorem coherent_initial (binding : Binding K) : Coherent binding initial where
  fresh id there := by cases there
  ordered := List.Pairwise.nil
  sent _ := List.Sublist.refl _
  apart _ _ _ := List.disjoint_nil_left _
  typed i e there := by cases there

theorem Coherent.distinct (inv : Coherent binding s) : s.unanswered.Nodup :=
  inv.ordered.imp Nat.ne_of_lt

theorem Coherent.erase_eq (inv : Coherent binding s) (id : Nat) :
    s.unanswered.erase id = s.unanswered.filter (fun other => other ≠ id) := by
  rw [inv.distinct.erase_eq_filter]
  refine List.filter_congr fun other _ => ?_
  simp [bne, beq_eq_decide]

theorem Coherent.erase_ne (inv : Coherent binding s) {id : Nat} (owed : id ∈ s.unanswered) :
    s.unanswered ≠ s.unanswered.erase id :=
  fun same => inv.distinct.not_mem_erase (same ▸ owed)

theorem Coherent.congr (inv : Coherent binding s) (sockets : t.sockets = s.sockets)
    (unanswered : t.unanswered = s.unanswered) (next : s.next ≤ t.next) : Coherent binding t where
  fresh id there := by
    rw [unanswered] at there
    exact Nat.lt_of_lt_of_le (inv.fresh id there) next
  ordered := unanswered ▸ inv.ordered
  sent := by
    rw [sockets, unanswered]
    exact inv.sent
  apart := sockets ▸ inv.apart
  typed := sockets ▸ inv.typed

/-- A connection goes on without some of its calls, which are unanswered no more. -/
theorem Coherent.release (inv : Coherent binding s) {i : Nat} {k : Socket} (p : Nat → Bool)
    (sockets : t.sockets = Function.update s.sockets i k) (next : t.next = s.next)
    (unanswered : t.unanswered = s.unanswered.filter p)
    (ids : k.ids.Sublist ((s.sockets i).ids.filter p))
    (own : ∀ id ∈ s.unanswered, p id = false → id ∈ (s.sockets i).ids)
    (typed : ∀ e ∈ k.frames, binding.Typed e) : Coherent binding t where
  fresh id there := by
    rw [unanswered] at there
    rw [next]
    exact inv.fresh id (List.mem_of_mem_filter there)
  ordered := by
    rw [unanswered]
    exact inv.ordered.filter p
  sent := by
    rw [sockets, unanswered, Function.forall_update_iff s.sockets fun _ k =>
      k.ids.Sublist (s.unanswered.filter p)]
    refine ⟨ids.trans ((inv.sent i).filter p), fun j ne => ?_⟩
    have kept : (s.sockets j).ids.filter p = (s.sockets j).ids := by
      refine List.filter_eq_self.mpr fun id there => ?_
      by_contra gone
      exact inv.apart j i ne there
        (own id ((inv.sent j).subset there) (Bool.eq_false_iff.mpr gone))
    rw [← kept]
    exact (inv.sent j).filter p
  apart := by
    rw [sockets]
    refine Socket.apart_update inv.apart fun j ne id there => ?_
    exact inv.apart i j ne.symm (List.mem_of_mem_filter (ids.subset there))
  typed := by
    rw [sockets, Function.forall_update_iff s.sockets fun _ k => ∀ e ∈ k.frames, binding.Typed e]
    exact ⟨typed, fun j _ => inv.typed j⟩

/-- A connection goes on with the calls that it has. -/
theorem Coherent.keep (inv : Coherent binding s) {i : Nat} {k : Socket}
    (sockets : t.sockets = Function.update s.sockets i k) (next : t.next = s.next)
    (unanswered : t.unanswered = s.unanswered) (ids : k.ids.Sublist (s.sockets i).ids)
    (typed : ∀ e ∈ k.frames, binding.Typed e) : Coherent binding t := by
  refine inv.release (fun _ => true) sockets next ?_ ?_ (fun _ _ gone => nomatch gone) typed
  · rw [unanswered, List.filter_true]
  · rwa [List.filter_true]

/-- The next call is handed to a connection. -/
theorem Coherent.hand (inv : Coherent binding s) (i : Nat) (frame : Bytes) :
    Coherent binding (s.hand i frame).enqueue where
  fresh id there := by
    rcases List.mem_append.mp there with old | new
    · exact Nat.lt_succ_of_lt (inv.fresh id old)
    · rw [List.mem_singleton.mp new]
      exact Nat.lt_succ_self _
  ordered := by
    refine List.pairwise_append.mpr ⟨inv.ordered, List.pairwise_singleton _ _, ?_⟩
    intro id old other new
    rw [List.mem_singleton.mp new]
    exact inv.fresh id old
  sent := by
    refine (Function.forall_update_iff s.sockets fun _ k =>
      k.ids.Sublist (s.unanswered ++ [s.next])).mpr ⟨?_, fun j _ => ?_⟩
    · rw [Socket.ids_hand]
      exact (inv.sent i).append_right _
    · exact (inv.sent j).trans (List.sublist_append_left _ _)
  apart := by
    refine Socket.apart_update inv.apart fun j ne => ?_
    rw [Socket.ids_hand]
    refine List.disjoint_append_left.mpr ⟨inv.apart i j ne.symm, ?_⟩
    exact List.singleton_disjoint.mpr fun there =>
      Nat.lt_irrefl _ (inv.fresh _ ((inv.sent j).subset there))
  typed := (Function.forall_update_iff s.sockets fun _ k => ∀ e ∈ k.frames, binding.Typed e).mpr
    ⟨inv.typed i, fun j _ => inv.typed j⟩

theorem send_keeps (inv : Coherent binding s) (right : s.Correlated) {parts : List (Option Part)}
    {accepted : Bool} (next : s.send binding parts accepted = some t) :
    Coherent binding t ∧ (t.Correlated ↔ s.Orderly binding (.call parts accepted)) := by
  unfold send at next
  split at next
  · rename_i ready
    have stale : t = s.enqueue → Coherent binding t ∧ ¬t.Correlated := by
      rintro rfl
      exact ⟨inv.congr rfl rfl (Nat.le_succ _), right.not_enqueue⟩
    simp only [Orderly, ready, true_imp_iff]
    cases encoded : binding.encoded parts with
    | none =>
      rw [encoded] at next
      obtain ⟨kept, wrong⟩ := stale (Option.some.inj next).symm
      exact ⟨kept, by simp [wrong]⟩
    | some frame =>
      simp only [encoded] at next
      cases accepted with
      | false =>
        obtain ⟨kept, wrong⟩ := stale (Option.some.inj next).symm
        exact ⟨kept, by simp [wrong]⟩
      | true =>
        rw [if_pos rfl] at next
        split at next
        · cases next
        · rename_i i _
          split_ifs at next
          obtain rfl := Option.some.inj next
          refine ⟨inv.hand i frame, iff_of_true ⟨?_, right.own⟩ ⟨rfl, rfl⟩⟩
          exact congrArg (· ++ [s.next]) right.pending
  · rename_i unready
    obtain rfl := Option.some.inj next
    exact ⟨inv, iff_of_true right fun ready => absurd ready unready⟩

/-- The steps that change a connection only, and leave it its calls. -/
theorem setSocket_keeps (inv : Coherent binding s) (right : s.Correlated) {i : Nat} {k : Socket}
    (ids : k.ids = (s.sockets i).ids) (typed : ∀ e ∈ k.frames, binding.Typed e) :
    Coherent binding (s.setSocket i k) ∧ (s.setSocket i k).Correlated :=
  ⟨inv.keep rfl rfl rfl (ids ▸ List.Sublist.refl _) typed, right.congr rfl rfl rfl⟩

theorem connect_keeps (inv : Coherent binding s) (right : s.Correlated) :
    Coherent binding (s.connect binding) ∧ (s.connect binding).Correlated :=
  ⟨inv.keep rfl rfl rfl (List.nil_sublist _) (fun e there => by cases there),
    right.congr rfl rfl rfl⟩

theorem opened_keeps (inv : Coherent binding s) (right : s.Correlated) {i : Nat}
    (next : s.opened i = some t) : Coherent binding t ∧ t.Correlated := by
  unfold opened at next
  split_ifs at next
  obtain rfl := Option.some.inj next
  exact setSocket_keeps inv right rfl (inv.typed i)

theorem close_keeps (inv : Coherent binding s) (right : s.Correlated) :
    Coherent binding s.close ∧ s.close.Correlated := by
  unfold close
  split
  · exact ⟨inv, right⟩
  · rename_i i _
    split_ifs
    · exact ⟨inv, right⟩
    · exact setSocket_keeps inv right rfl (inv.typed i)

theorem cancel_keeps (inv : Coherent binding s) (right : s.Correlated) {id : Nat}
    (next : s.cancel binding id = some t) : Coherent binding t ∧ t.Correlated := by
  unfold cancel at next
  split_ifs at next
  obtain rfl := Option.some.inj next
  exact ⟨inv.congr rfl rfl (Nat.le_refl _), right.congr rfl rfl rfl⟩

theorem answer_keeps (inv : Coherent binding s) (right : s.Correlated) {i : Nat} {frame : Bytes}
    (next : s.answer binding i frame = some t) : Coherent binding t ∧ t.Correlated := by
  unfold answer at next
  dsimp only at next
  split at next
  · cases next
  · rename_i id request rest requests
    split_ifs at next with pushes
    obtain rfl := Option.some.inj next
    refine setSocket_keeps inv right (by simp [Socket.ids, requests]) fun e there => ?_
    rcases List.mem_append.mp there with old | new
    · exact inv.typed i e old
    · obtain rfl := List.mem_singleton.mp new
      exact Bool.eq_false_iff.mpr pushes

theorem push_keeps (inv : Coherent binding s) (right : s.Correlated) {i : Nat} {frame : Bytes}
    (next : s.push binding i frame = some t) : Coherent binding t ∧ t.Correlated := by
  unfold push at next
  dsimp only at next
  split_ifs at next with pushes
  obtain rfl := Option.some.inj next
  refine setSocket_keeps inv right (by simp [Socket.ids]) fun e there => ?_
  rcases List.mem_append.mp there with old | new
  · exact inv.typed i e old
  · obtain rfl := List.mem_singleton.mp new
    exact pushes.2

/-- The calls on a connection whose request is withdrawn. -/
theorem Socket.ids_withdraw (k : Socket) (id : Nat) (there : id ∈ k.requests.map Prod.fst)
    (distinct : k.ids.Nodup) :
    Socket.ids { k with requests := k.requests.filter (fun e => e.1 ≠ id) } =
      k.ids.filter (fun other => other ≠ id) := by
  obtain ⟨-, -, apart⟩ := List.nodup_append.mp distinct
  have brought : (k.frames.filterMap Prod.fst).filter (fun other => other ≠ id) =
      k.frames.filterMap Prod.fst :=
    List.filter_eq_self.mpr fun other found => decide_eq_true (apart other found id there)
  rw [Socket.ids, Socket.ids, List.filter_append, brought, List.filter_map]
  rfl

/-- A request that is never written leaves its entry behind. -/
theorem withdraw_keeps (inv : Coherent binding s) (right : s.Correlated) {i id : Nat}
    (next : s.withdraw binding i id = some t) : Coherent binding t ∧ ¬t.Correlated := by
  unfold withdraw at next
  dsimp only at next
  split_ifs at next with allowed
  obtain rfl := Option.some.inj next
  have own : id ∈ (s.sockets i).ids := List.mem_append_right _ allowed.2
  have owed : id ∈ s.unanswered := (inv.sent i).subset own
  refine ⟨inv.release (fun other => other ≠ id) rfl rfl ?_ ?_ ?_ (inv.typed i), fun after => ?_⟩
  · exact inv.erase_eq id
  · rw [Socket.ids_withdraw _ _ allowed.2 (inv.distinct.sublist (inv.sent i))]
  · intro other _ gone
    obtain rfl : other = id := by simpa using gone
    exact own
  · exact inv.erase_ne owed (right.pending.symm.trans after.pending)

/-- The calls of a connection that has ended are unanswered no more. -/
theorem ended_keeps (inv : Coherent binding s) (right : s.Correlated) {i : Nat}
    (next : s.ended binding i = some t) :
    Coherent binding t ∧ (t.Correlated ↔ s.Orderly binding (.ended i)) := by
  unfold ended at next
  dsimp only at next
  by_cases closed : (s.sockets i).phase = .closed
  · rw [if_pos closed] at next
    cases next
  rw [if_neg closed] at next
  obtain rfl := Option.some.inj next
  refine ⟨inv.release (fun id => id ∉ (s.sockets i).ids) rfl rfl rfl (List.nil_sublist _)
    (fun id _ gone => by simpa using gone) (fun e there => by cases there), ?_⟩
  apply Iff.trans (correlated_iff_pending _)
  · rw [Orderly, right.pending]
    cases binding.rejects (s.sockets i) with
    | true =>
      trans s.unanswered.filter (fun id => id ∉ (s.sockets i).ids) = []
      · exact eq_comm
      · simp [List.filter_eq_nil_iff]
    | false =>
      trans s.unanswered.filter (fun id => id ∉ (s.sockets i).ids) = s.unanswered
      · exact eq_comm
      · simp [List.filter_eq_self]
  · exact right.own

theorem Coherent.deliver (inv : Coherent binding s) {i : Nat} {request : Option Nat}
    {bytes : Bytes} {rest : List (Option Nat × Bytes)}
    (frames : (s.sockets i).frames = (request, bytes) :: rest) :
    Coherent binding (s.deliver i request rest) := by
  have typed : ∀ e ∈ rest, binding.Typed e := fun e there =>
    inv.typed i e (frames ▸ List.mem_cons_of_mem _ there)
  cases request with
  | none => exact inv.keep rfl rfl rfl (by simp [Socket.ids, frames]) typed
  | some id =>
    have ids : (s.sockets i).ids = id :: Socket.ids { s.sockets i with frames := rest } := by
      simp [Socket.ids, frames]
    have distinct : (s.sockets i).ids.Nodup := inv.distinct.sublist (inv.sent i)
    refine inv.release (fun other => other ≠ id) rfl rfl (inv.erase_eq id) ?_ ?_ typed
    · rw [ids] at distinct ⊢
      have later : (Socket.ids { s.sockets i with frames := rest }).filter
          (fun other => other ≠ id) = Socket.ids { s.sockets i with frames := rest } :=
        List.filter_eq_self.mpr fun other there => decide_eq_true fun same =>
          (List.nodup_cons.mp distinct).1 (same ▸ there)
      rw [List.filter_cons_of_neg (by simp), later]
    · intro other _ gone
      obtain rfl : other = id := by simpa using gone
      exact ids ▸ List.mem_cons_self

theorem Coherent.onFrame (inv : Coherent binding s) (i : Nat) (request : Option Nat)
    (bytes : Bytes) (raised : Bool) :
    Coherent binding (s.onFrame binding i request bytes raised) := by
  unfold IrspClient.onFrame
  split
  · exact inv
  · split_ifs
    · exact inv.keep rfl rfl rfl (List.Sublist.refl _) (inv.typed i)
    · exact inv
    · split
      · exact inv
      · exact inv.congr rfl rfl (Nat.le_refl _)

section Frame

variable {i : Nat} {request : Option Nat} {bytes : Bytes} {raised : Bool}

theorem onFrame_error {e : Failure} (decoded : binding.decode bytes = .error e) :
    s.onFrame binding i request bytes raised = s := by
  rw [IrspClient.onFrame, decoded]

theorem onFrame_push (s : IrspClient K) (i : Nat) (request : Option Nat) (raised : Bool)
    {value : ClientValue K} (decoded : binding.decode bytes = .ok value)
    (pushes : isPushFrame binding.push value = true) :
    (s.onFrame binding i request bytes raised).pending =
        (if binding.fragile && raised then [] else s.pending) ∧
      (s.onFrame binding i request bytes raised).unanswered = s.unanswered ∧
      (s.onFrame binding i request bytes raised).settled = s.settled := by
  simp only [IrspClient.onFrame, decoded, pushes, if_true]
  split_ifs <;> exact ⟨rfl, rfl, rfl⟩

theorem onFrame_reply (s : IrspClient K) (i : Nat) (request : Option Nat) (raised : Bool)
    {value : ClientValue K} (decoded : binding.decode bytes = .ok value)
    (replies : isPushFrame binding.push value = false) {entry : Nat} {rest : List Nat}
    (pending : s.pending = entry :: rest) :
    (s.onFrame binding i request bytes raised).pending = rest ∧
      (s.onFrame binding i request bytes raised).unanswered = s.unanswered ∧
      (s.onFrame binding i request bytes raised).settled =
        if entry ∈ s.cancelled then s.settled else s.settled ++ [⟨entry, request, value⟩] := by
  simp only [IrspClient.onFrame, decoded, replies, pending, Bool.false_eq_true, if_false, and_self]

/-- A push leaves the queue alone, unless its handler raises and that ends the read loop. -/
theorem handlePush_correlated (right : s.Correlated) (typed : binding.Typed (none, bytes)) :
    (s.onFrame binding i none bytes raised).Correlated ↔
      s.OrderlyFrame binding i raised (none, bytes) := by
  rw [OrderlyFrame]
  cases decoded : binding.decode bytes with
  | error e =>
    rw [onFrame_error decoded]
    exact iff_of_true right fun _ _ bad => Bool.noConfusion bad
  | ok value =>
    have pushes : isPushFrame binding.push value = true := by
      simpa [Binding.Typed, Binding.pushes, decoded] using typed
    obtain ⟨pending, unanswered, settled⟩ :=
      onFrame_push s i none raised decoded pushes
    rw [correlated_iff_pending (settled ▸ right.own), pending, unanswered, right.pending]
    have decodes : (Except.ok value : Except Failure (ClientValue K)).isOk = true := rfl
    simp only [decodes, true_imp_iff, Bool.and_eq_true]
    split_ifs with cleared
    · simp only [cleared, true_imp_iff]
      exact eq_comm
    · exact iff_of_true rfl fun fragile raises => absurd ⟨fragile, raises⟩ cleared

/-- The calls that are unanswered when the oldest one on a connection is answered: it is the
oldest of all just if the calls elsewhere are younger. -/
theorem Coherent.oldest_iff (inv : Coherent binding s) {id entry : Nat} {rest : List Nat}
    (first : (s.sockets i).ids.head? = some id) (pending : s.unanswered = entry :: rest) :
    entry = id ↔ ∀ other ∈ s.unanswered, other ∉ (s.sockets i).ids → id < other := by
  obtain ⟨tail, ids⟩ := List.head?_eq_some_iff.mp first
  have ordered := pending ▸ inv.ordered
  have here : (id :: tail).Pairwise (· < ·) := ids ▸ inv.ordered.sublist (inv.sent i)
  constructor
  · rintro rfl other there elsewhere
    rcases List.mem_cons.mp (pending ▸ there) with rfl | later
    · exact absurd (ids ▸ List.mem_cons_self) elsewhere
    · exact List.rel_of_pairwise_cons ordered later
  · intro younger
    have owed : id ∈ entry :: rest := pending ▸ (inv.sent i).subset (ids ▸ List.mem_cons_self)
    rcases List.mem_cons.mp owed with same | later
    · exact same.symm
    · have older : entry < id := List.rel_of_pairwise_cons ordered later
      have newer : id < entry := by
        by_cases own : entry ∈ (s.sockets i).ids
        · rcases List.mem_cons.mp (ids ▸ own) with same | behind
          · exact absurd same (Nat.ne_of_lt older)
          · exact List.rel_of_pairwise_cons here behind
        · exact younger entry (pending ▸ List.mem_cons_self) own
      exact absurd older (Nat.lt_asymm newer)

/-- A reply takes the first entry off the queue, which is its own just if no older call waits. -/
theorem handleReply_correlated (inv : Coherent binding s) (right : s.Correlated) {id : Nat}
    {frames : List (Option Nat × Bytes)}
    (there : (s.sockets i).frames = (some id, bytes) :: frames) :
    ((s.deliver i (some id) frames).onFrame binding i (some id) bytes raised).Correlated ↔
      s.OrderlyFrame binding i raised (some id, bytes) := by
  have first : (s.sockets i).ids.head? = some id := by simp [Socket.ids, there]
  have owed : id ∈ s.unanswered := (inv.sent i).subset (List.mem_of_mem_head? first)
  rw [OrderlyFrame]
  cases decoded : binding.decode bytes with
  | error e =>
    rw [onFrame_error decoded]
    refine iff_of_false (fun after => ?_) fun bad => Bool.noConfusion bad.1
    exact inv.erase_ne owed (right.pending.symm.trans after.pending)
  | ok value =>
    have replies : isPushFrame binding.push value = false := by
      have typed := inv.typed i _ (there ▸ List.mem_cons_self)
      simpa [Binding.Typed, Binding.pushes, decoded] using typed
    obtain ⟨entry, rest, queue⟩ := List.exists_cons_of_ne_nil (List.ne_nil_of_mem owed)
    have pending : (s.deliver i (some id) frames).pending = entry :: rest :=
      right.pending.trans queue
    obtain ⟨popped, unanswered, settled⟩ :=
      onFrame_reply (s.deliver i (some id) frames) i (some id) raised decoded replies pending
    have decodes : (Except.ok value : Except Failure (ClientValue K)).isOk = true := rfl
    rw [right.pending, ← inv.oldest_iff first queue, and_iff_right decodes]
    constructor
    · intro after
      by_contra other
      have same : rest = s.unanswered.erase id :=
        popped.symm.trans (after.pending.trans unanswered)
      rw [queue, List.erase_cons_tail (by simpa using other)] at same
      have distinct := queue ▸ inv.distinct
      exact (List.nodup_cons.mp distinct).1 (same ▸ List.mem_cons_self)
    · rintro rfl
      refine ⟨?_, fun st found => ?_⟩
      · rw [popped, unanswered]
        simp [deliver, queue]
      · rw [settled] at found
        split_ifs at found with cancelled
        · exact right.own st found
        · rcases List.mem_append.mp found with old | new
          · exact right.own st old
          · rw [List.mem_singleton.mp new]

end Frame

theorem receive_keeps (inv : Coherent binding s) (right : s.Correlated) {i : Nat} {raised : Bool}
    (next : s.receive binding i raised = some t) :
    Coherent binding t ∧ (t.Correlated ↔ s.Orderly binding (.receive i raised)) := by
  unfold receive at next
  split_ifs at next
  split at next
  · cases next
  · rename_i request bytes rest frames
    obtain rfl := Option.some.inj next
    refine ⟨(inv.deliver frames).onFrame i request bytes raised, ?_⟩
    rw [Orderly, frames, List.head?_cons]
    simp only [Option.mem_some_iff, forall_eq']
    cases request with
    | none =>
      have after : (s.deliver i none rest).Correlated := right.congr rfl rfl rfl
      exact handlePush_correlated after (inv.typed i _ (frames ▸ List.mem_cons_self))
    | some id => exact handleReply_correlated inv right frames

/-- What a step does to the queue: it stays right just when the step is orderly. -/
theorem step_keeps (inv : Coherent binding s) (right : s.Correlated) (a : ClientAction)
    (next : s.step binding a = some t) :
    Coherent binding t ∧ (t.Correlated ↔ s.Orderly binding a) := by
  have always (kept : Coherent binding t ∧ t.Correlated) :
      Coherent binding t ∧ (t.Correlated ↔ True) := ⟨kept.1, iff_of_true kept.2 trivial⟩
  cases a with
  | connect =>
    obtain rfl := Option.some.inj next
    exact always (connect_keeps inv right)
  | opened i => exact always (opened_keeps inv right next)
  | call parts accepted => exact send_keeps inv right next
  | withdraw i id =>
    obtain ⟨kept, wrong⟩ := withdraw_keeps inv right next
    exact ⟨kept, iff_of_false wrong not_false⟩
  | cancel id => exact always (cancel_keeps inv right next)
  | answer i frame => exact always (answer_keeps inv right next)
  | push i frame => exact always (push_keeps inv right next)
  | receive i raised => exact receive_keeps inv right next
  | close =>
    obtain rfl := Option.some.inj next
    exact always (close_keeps inv right)
  | ended i => exact ended_keeps inv right next

/-- In every run the queue is right after each step exactly when each step is orderly. -/
theorem correlated_iff (binding : Binding K) (as : List ClientAction)
    (run : (machine binding).run as = some t) :
    (machine binding).Steps ((machine binding).After Correlated) initial as ↔
      (machine binding).Steps (Orderly binding) initial as :=
  (machine binding).steps_after_iff (Orderly binding) (Coherent binding) Correlated
    (fun _ a _ inv right next => step_keeps inv right a next) initial as t
    (coherent_initial binding) ⟨rfl, fun _ found => by cases found⟩ run

/-- The runs of either client in which every reply finds its own entry. -/
theorem clients_correlated_iff (py : Python.Interpreter) (room room' : Nat)
    (as : List ClientAction) :
    (∀ t, (machine (JavaScript.binding room)).run as = some t →
      ((machine (JavaScript.binding room)).Steps
          ((machine (JavaScript.binding room)).After Correlated) initial as ↔
        (machine (JavaScript.binding room)).Steps (Orderly (JavaScript.binding room))
          initial as)) ∧
    ∀ t, (machine (Python.binding py room')).run as = some t →
      ((machine (Python.binding py room')).Steps
          ((machine (Python.binding py room')).After Correlated) initial as ↔
        (machine (Python.binding py room')).Steps (Orderly (Python.binding py room'))
          initial as) :=
  ⟨fun _ run => correlated_iff _ as run, fun _ run => correlated_iff _ as run⟩

/-- A client says `HELLO`, and the server pushes before it replies. -/
def session : List ClientAction :=
  [.call [some (.text "HELLO".toList), some (.text "1".toList)] true,
    .push 0 (ascii "%1\r\n$4\r\npush\r\n$3\r\ntag\r\n"), .answer 0 (ascii "%0\r\n"),
    .receive 0 false, .receive 0 false, .close, .ended 0]

theorem clients_correlated_iff_session :
    (machine (JavaScript.binding 2)).Steps ((machine (JavaScript.binding 2)).After Correlated)
        initial (.connect :: .opened 0 :: session) ∧
      (machine (Python.binding Python.asciiInterpreter 2)).Steps
        ((machine (Python.binding Python.asciiInterpreter 2)).After Correlated)
        initial (.connect :: session) := by
  obtain ⟨js, -⟩ :=
    clients_correlated_iff Python.asciiInterpreter 2 2 (.connect :: .opened 0 :: session)
  obtain ⟨-, python⟩ := clients_correlated_iff Python.asciiInterpreter 2 2 (.connect :: session)
  exact ⟨(js _ rfl).mpr (by decide), (python _ rfl).mpr (by decide)⟩

/-- A call whose argument does not encode, then a call that is answered. -/
def slipped : List ClientAction :=
  [.call [some (.text "GET".toList), none] true, .call [some (.text "PING".toList)] true,
    .answer 0 (ascii "+PONG\r\n"), .receive 0 false]

/-- The reply of the second call settles the entry of the first. -/
theorem not_clients_correlated :
    (∃ t, (machine (JavaScript.binding 2)).run (.connect :: .opened 0 :: slipped) = some t ∧
      t.settled.map (fun st => (st.entry, st.request)) = [(0, some 1)] ∧ ¬t.Correlated) ∧
    ∃ t, (machine (Python.binding Python.asciiInterpreter 2)).run (.connect :: slipped) = some t ∧
      t.settled.map (fun st => (st.entry, st.request)) = [(0, some 1)] ∧ ¬t.Correlated := by
  refine ⟨⟨_, rfl, by decide, fun right => ?_⟩, ⟨_, rfl, by decide, fun right => ?_⟩⟩
  · exact absurd right.pending (by decide)
  · exact absurd right.pending (by decide)

end IrspClient

end IndustrialRuntime.Sdk
