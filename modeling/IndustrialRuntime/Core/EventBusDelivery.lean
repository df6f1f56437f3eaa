import IndustrialRuntime.Core.EventBusClaims

namespace IndustrialRuntime.Core.EventBus

open MpmcQueue (Pc Enqueued System)

namespace Bus

variable {τ : Type*} {s s' : Bus τ} {C : Nat}

/-- Each of these subscriptions that wants the event of ticket `k` got it once. -/
def Served (s : Bus τ) (k : Nat) (subs : List Subscription) : Prop :=
  ∃ e, s.queue.enqueued[k]? = some e ∧
    ∀ sub ∈ subs, sub.wants e.item → s.delivered.count ⟨sub.id, e.ticket, e.item⟩ = 1

/-- How far the worker is: the snapshots taken, the tickets dequeued, and the
handlers already run for the current ticket. -/
def WorkerAt (s : Bus τ) : WorkerPc → Prop
  | .dequeueing _ =>
    match (s.queue.pc none).reads with
    | some pos => pos.toNat = s.snapshots.length ∧
        s.queue.dequeued.length = s.snapshots.length + 1
    | none => s.queue.dequeued.length = s.snapshots.length
  | .snapshot _ ticket event => ticket.toNat = s.snapshots.length ∧
      s.queue.dequeued.length = s.snapshots.length + 1 ∧
        ∃ thread, s.queue.enqueued[ticket.toNat]? = some ⟨ticket, thread, event⟩
  | .deliver _ ticket event rest => ticket.toNat + 1 = s.snapshots.length ∧
      s.queue.dequeued.length = s.snapshots.length ∧
        (∃ thread, s.queue.enqueued[ticket.toNat]? = some ⟨ticket, thread, event⟩) ∧
          (∀ sub ∈ rest, s.delivered.count ⟨sub.id, ticket, event⟩ = 0) ∧
            ∃ done, s.snapshots[ticket.toNat]? = some (done ++ rest) ∧ s.Served ticket.toNat done
  | _ => s.queue.dequeued.length = s.snapshots.length

/-- The ticket whose handlers are running. -/
def WorkerPc.current : WorkerPc → Option Nat
  | .deliver _ ticket _ _ => some ticket.toNat
  | _ => none

/-- Every snapshot but the one in progress has been served, each handler once. -/
structure Dispatched (s : Bus τ) : Prop where
  served : ∀ k subs, s.snapshots[k]? = some subs → WorkerPc.current s.worker ≠ some k →
    s.Served k subs
  past : ∀ d ∈ s.delivered, d.ticket.toNat < s.snapshots.length
  ids : ∀ subs ∈ s.snapshots, (subs.map Subscription.id).Nodup
  worker : s.WorkerAt s.worker

theorem Dispatched.room (h : s.Dispatched) : s.snapshots.length ≤ s.queue.dequeued.length := by
  have at_worker := h.worker
  cases hw : s.worker with
  | dequeueing final =>
    rw [hw, WorkerAt] at at_worker
    split at at_worker <;> omega
  | snapshot final ticket event =>
    rw [hw] at at_worker
    have := at_worker.2.1
    omega
  | deliver final ticket event rest =>
    rw [hw] at at_worker
    exact at_worker.2.1.ge
  | _ =>
    rw [hw] at at_worker
    exact Nat.le_of_eq at_worker.symm

theorem Served.grow {k : Nat} {subs : List Subscription} (h : s.Served k subs)
    {more : List (Enqueued (Option τ) Event)}
    (enqueued : s'.queue.enqueued = s.queue.enqueued ++ more)
    (delivered : s'.delivered = s.delivered) : s'.Served k subs := by
  obtain ⟨e, he, once⟩ := h
  refine ⟨e, ?_, ?_⟩
  · rw [enqueued]
    exact MpmcQueue.getElem?_append_some he _
  · rw [delivered]
    exact once

/-- A step of anyone but the worker. -/
theorem Dispatched.others (h : s.Dispatched) {more : List (Enqueued (Option τ) Event)}
    (enqueued : s'.queue.enqueued = s.queue.enqueued ++ more)
    (dequeued : s'.queue.dequeued = s.queue.dequeued)
    (pc : s'.queue.pc none = s.queue.pc none) (worker : s'.worker = s.worker)
    (delivered : s'.delivered = s.delivered) (snapshots : s'.snapshots = s.snapshots) :
    s'.Dispatched := by
  refine ⟨?_, ?_, ?_, ?_⟩
  · intro k subs hk hcur
    rw [snapshots] at hk
    rw [worker] at hcur
    exact (h.served k subs hk hcur).grow enqueued delivered
  · rw [delivered, snapshots]
    exact h.past
  · rw [snapshots]
    exact h.ids
  · have at_worker := h.worker
    rw [worker]
    cases hw : s.worker with
    | dequeueing final =>
      rw [hw] at at_worker
      rw [WorkerAt, pc, dequeued, snapshots]
      exact at_worker
    | snapshot final ticket event =>
      rw [hw] at at_worker
      obtain ⟨hticket, hcount, thread, hlog⟩ := at_worker
      rw [WorkerAt, dequeued, snapshots, enqueued]
      exact ⟨hticket, hcount, thread, MpmcQueue.getElem?_append_some hlog _⟩
    | deliver final ticket event rest =>
      rw [hw] at at_worker
      obtain ⟨hticket, hcount, ⟨thread, hlog⟩, hrest, done, hdone, hserved⟩ := at_worker
      rw [WorkerAt, dequeued, snapshots, enqueued, delivered]
      exact ⟨hticket, hcount, ⟨thread, MpmcQueue.getElem?_append_some hlog _⟩, hrest, done, hdone,
        hserved.grow enqueued delivered⟩
    | _ =>
      rw [hw] at at_worker
      change s'.queue.dequeued.length = s'.snapshots.length
      rw [dequeued, snapshots]
      exact at_worker

/-- A step of the worker outside `deliver`. -/
theorem Dispatched.workerMoves (h : s.Dispatched) (before : WorkerPc.current s.worker = none)
    (enqueued : s'.queue.enqueued = s.queue.enqueued) (worker : s'.WorkerAt s'.worker)
    (delivered : s'.delivered = s.delivered) (snapshots : s'.snapshots = s.snapshots) :
    s'.Dispatched := by
  refine ⟨?_, ?_, ?_, worker⟩
  · intro k subs hk _
    rw [snapshots] at hk
    have served := h.served k subs hk (by rw [before]; nofun)
    exact served.grow (enqueued.trans (List.append_nil _).symm) delivered
  · rw [delivered, snapshots]
    exact h.past
  · rw [snapshots]
    exact h.ids

theorem count_append_other {l : List Delivery} {d x : Delivery} (h : d ≠ x) :
    (l ++ [d]).count x = l.count x := by
  rw [List.count_append, List.count_singleton]
  simp [h]

/-- The worker takes the snapshot of a ticket. -/
theorem Dispatched.snapshot (h : s.Dispatched) (ids : (s.subscriptions.map Subscription.id).Nodup)
    {final : Bool} {ticket : UInt64} {event : Event}
    (before : s.worker = .snapshot final ticket event) :
    ({ s with
      worker := .deliver final ticket event s.subscriptions
      snapshots := s.snapshots ++ [s.subscriptions] } : Bus τ).Dispatched := by
  have at_worker := h.worker
  rw [before] at at_worker
  obtain ⟨hticket, hcount, thread, hlog⟩ := at_worker
  refine ⟨?_, ?_, ?_, ?_⟩
  · intro k subs hk hcur
    have other : k ≠ s.snapshots.length := by
      intro hk'
      apply hcur
      rw [hk', ← hticket]
      rfl
    have old : s.snapshots[k]? = some subs := by
      rcases Nat.lt_or_ge k s.snapshots.length with hlt | hge
      · rwa [List.getElem?_append_left hlt] at hk
      · rw [List.getElem?_eq_none (by rw [List.length_append, List.length_singleton]; omega)] at hk
        contradiction
    have served := h.served k subs old (by rw [before]; nofun)
    exact served.grow (List.append_nil _).symm rfl
  · intro d hd
    have := h.past d hd
    rw [List.length_append]
    omega
  · intro subs hsubs
    rw [List.mem_append, List.mem_singleton] at hsubs
    cases hsubs with
    | inl old => exact h.ids subs old
    | inr new => rwa [new]
  · refine ⟨?_, ?_, ⟨thread, hlog⟩, ?_, [], ?_, ⟨_, hlog, by simp⟩⟩
    · rw [List.length_append, List.length_singleton]
      omega
    · rw [List.length_append, List.length_singleton]
      exact hcount
    · intro sub _
      rw [List.count_eq_zero]
      intro hd
      have := h.past _ hd
      change ticket.toNat < _ at this
      omega
    · rw [hticket, List.nil_append]
      exact List.getElem?_concat_length

/-- The worker runs the handler of the next subscription, if it wants the event. -/
theorem Dispatched.deliver (h : s.Dispatched) (inv : s.queue.Inv C) {final : Bool}
    {ticket : UInt64} {event : Event} {sub : Subscription} {rest : List Subscription}
    (before : s.worker = .deliver final ticket event (sub :: rest)) :
    ({ s with
      worker := .deliver final ticket event rest
      delivered := if sub.wants event then s.delivered ++ [⟨sub.id, ticket, event⟩]
        else s.delivered } : Bus τ).Dispatched := by
  have at_worker := h.worker
  rw [before] at at_worker
  obtain ⟨hticket, hcount, ⟨thread, hlog⟩, hrest, done, hdone, e, he, once⟩ := at_worker
  rw [hlog] at he
  obtain rfl := Option.some_inj.mp he
  have ids := h.ids _ (List.mem_of_getElem? hdone)
  rw [List.map_append, List.map_cons, List.nodup_append, List.nodup_cons] at ids
  obtain ⟨-, ⟨fresh_rest, -⟩, apart⟩ := ids
  -- deliveries of other subscriptions or other tickets keep their count
  have unchanged (x : Delivery) (hx : x.subscription ≠ sub.id ∨ x.ticket ≠ ticket) :
      (if sub.wants event then s.delivered ++ [⟨sub.id, ticket, event⟩]
        else s.delivered).count x = s.delivered.count x := by
    split_ifs
    · apply count_append_other
      intro same
      subst same
      simp at hx
    · rfl
  refine ⟨?_, ?_, h.ids, ?_⟩
  · intro k subs hk hcur
    obtain ⟨e, he, served⟩ := h.served k subs hk (by rw [before]; exact hcur)
    refine ⟨e, he, ?_⟩
    intro other hother wants
    have distinct : e.ticket ≠ ticket := by
      intro same
      apply hcur
      rw [← inv.enqueueTicket k e he, same]
      rfl
    rw [unchanged _ (Or.inr distinct)]
    exact served other hother wants
  · intro d hd
    simp only at hd
    split_ifs at hd
    · rw [List.mem_append, List.mem_singleton] at hd
      cases hd with
      | inl old => exact h.past d old
      | inr new =>
        subst new
        change ticket.toNat < s.snapshots.length
        omega
    · exact h.past d hd
  · refine ⟨hticket, hcount, ⟨thread, hlog⟩, ?_, done ++ [sub], ?_, _, hlog, ?_⟩
    · intro other hother
      have distinct : other.id ≠ sub.id := by
        intro same
        exact fresh_rest (same ▸ List.mem_map_of_mem hother)
      rw [unchanged _ (Or.inl distinct)]
      exact hrest other (List.mem_cons_of_mem _ hother)
    · rw [List.append_assoc]
      exact hdone
    · intro other hother wants
      rw [List.mem_append, List.mem_singleton] at hother
      cases hother with
      | inl earlier =>
        have distinct : other.id ≠ sub.id :=
          apart _ (List.mem_map_of_mem earlier) _ List.mem_cons_self
        rw [unchanged _ (Or.inl distinct)]
        exact once other earlier wants
      | inr this =>
        subst this
        have none_yet := hrest other List.mem_cons_self
        simp only at wants ⊢
        rw [if_pos wants, List.count_append, none_yet, List.count_singleton]
        simp

variable [DecidableEq τ]

theorem Dispatched.step (h : s.Dispatched) (roles : s.Roles C) (claims : s.Claims) {a : Action τ}
    (moved : s.Moved a s') : s'.Dispatched := by
  have inv := roles.sound.inv
  have at_worker := h.worker
  cases moved with
  | publish t event queue before offer =>
    obtain ⟨-, rfl⟩ := System.offer_eq offer
    have pc := System.goto_pc_ne s.queue (.enqueue (.loadPos event)) (nofun : none ≠ some t)
    exact h.others (List.append_nil _).symm rfl pc rfl rfl rfl
  | enqueue t spurious event held queue before advance =>
    obtain ⟨pc, hpc, -⟩ := roles.enqueuing before
    obtain ⟨dequeued, others, effect⟩ := System.advance_enqueue hpc advance
    cases effect with
    | goesOn pc' now writes item enqueued =>
      exact h.others (enqueued.trans (List.append_nil _).symm) dequeued (others none nofun)
        rfl rfl rfl
    | wins item pos hw carried now head enqueued =>
      exact h.others enqueued dequeued (others none nofun) rfl rfl rfl
  | enqueued t spurious event held queue before advance =>
    obtain ⟨pc, hpc, -⟩ := roles.enqueuing before
    obtain ⟨dequeued, others, effect⟩ := System.advance_enqueue hpc advance
    cases effect with
    | accepted pos hw now enqueued =>
      exact h.others (enqueued.trans (List.append_nil _).symm) dequeued (others none nofun)
        rfl rfl rfl
  | full t spurious event held queue before advance =>
    obtain ⟨pc, hpc, -⟩ := roles.enqueuing before
    obtain ⟨dequeued, others, effect⟩ := System.advance_enqueue hpc advance
    cases effect with
    | rejected hw now enqueued =>
      exact h.others (enqueued.trans (List.append_nil _).symm) dequeued (others none nofun)
        rfl rfl rfl
  | checkStop choice before =>
    rw [before] at at_worker
    refine h.workerMoves (by rw [before]; rfl) rfl ?_ rfl rfl
    change WorkerAt _ (if s.stopRequested then _ else _)
    split_ifs <;> exact at_worker
  | acquire choice signal before =>
    rw [before] at at_worker
    exact h.workerMoves (by rw [before]; rfl) rfl at_worker rfl rfl
  | poll choice final queue before poll =>
    obtain ⟨-, rfl⟩ := System.poll_eq poll
    rw [before] at at_worker
    refine h.workerMoves (by rw [before]; rfl) rfl ?_ rfl rfl
    have now := System.goto_pc_self s.queue none (.dequeue .loadPos)
    simp only [WorkerAt, now]
    exact at_worker
  | dequeue choice final queue before advance =>
    obtain ⟨pc, hpc⟩ := roles.dequeuing before
    obtain ⟨enqueued, -, effect⟩ := System.advance_dequeue hpc advance
    rw [before] at at_worker
    cases effect with
    | goesOn pc' now reads target head dequeued =>
      refine h.workerMoves (by rw [before]; rfl) enqueued ?_ rfl rfl
      change WorkerAt _ s.worker
      simp only [before, WorkerAt, reads, dequeued]
      exact at_worker
    | wins pos hr head now dequeued =>
      refine h.workerMoves (by rw [before]; rfl) enqueued ?_ rfl rfl
      change WorkerAt _ s.worker
      have reads : (queue.pc none).reads = some pos := by
        rw [now]
        rfl
      have tail : pos.toNat = s.queue.dequeued.length := head ▸ inv.dequeuePos
      simp only [WorkerAt, hr] at at_worker
      simp only [before, WorkerAt, reads, dequeued, List.length_append, List.length_singleton]
      omega
  | empty choice final queue before advance =>
    obtain ⟨pc, hpc⟩ := roles.dequeuing before
    obtain ⟨enqueued, -, effect⟩ := System.advance_dequeue hpc advance
    rw [before] at at_worker
    cases effect with
    | empty pos hbefore behind now =>
      have reads : (s.queue.pc none).reads = none := by
        rw [hbefore]
        rfl
      simp only [WorkerAt, reads] at at_worker
      refine h.workerMoves (by rw [before]; rfl) enqueued ?_ rfl rfl
      subst now
      change WorkerAt _ (if final then _ else _)
      split_ifs <;> exact at_worker
  | dequeued choice final queue item before advance =>
    obtain ⟨pc, hpc⟩ := roles.dequeuing before
    obtain ⟨enqueued, -, effect⟩ := System.advance_dequeue hpc advance
    rw [before] at at_worker
    cases effect with
    | received pos _ hbefore now dequeued =>
      have reads : (s.queue.pc none).reads = some pos := by
        rw [hbefore]
        rfl
      have ok := inv.threads none
      rw [hbefore] at ok
      obtain ⟨-, -, -, e, he, hitem⟩ := ok
      have ticket : e.ticket = pos := UInt64.toNat_inj.mp (inv.enqueueTicket _ e he)
      simp only [WorkerAt, reads] at at_worker
      refine h.workerMoves (by rw [before]; rfl) enqueued ?_ rfl rfl
      simp only [WorkerAt, reads, Option.getD_some, dequeued, hitem, enqueued]
      refine ⟨at_worker.1, at_worker.2, e.thread, ?_⟩
      rw [he, ← ticket]
  | snapshot choice final ticket event before => exact h.snapshot claims.ids before
  | delivered choice final ticket event before =>
    rw [before] at at_worker
    obtain ⟨-, hcount, -, -, done, hdone, served⟩ := at_worker
    refine ⟨?_, h.past, h.ids, hcount⟩
    intro k subs hk _
    by_cases this : k = ticket.toNat
    · subst this
      rw [hdone, List.append_nil, Option.some_inj] at hk
      rwa [← hk]
    · apply h.served k subs hk
      rw [before]
      intro current
      exact this (Option.some_inj.mp current).symm
  | deliver choice final ticket event sub rest before => exact h.deliver inv before
  | stop _ hstop =>
    obtain ⟨queue, worker, -, -, -, -, delivered, snapshots⟩ := stopStep_same hstop
    have enqueued : s'.queue.enqueued = s.queue.enqueued ++ [] := by
      rw [queue, List.append_nil]
    exact h.others enqueued (by rw [queue]) (by rw [queue]) worker delivered snapshots
  | _ => exact h.others (List.append_nil _).symm rfl rfl rfl rfl rfl

end Bus

end IndustrialRuntime.Core.EventBus
