import IndustrialRuntime.Core.EventBusSteps

namespace IndustrialRuntime.Core.EventBus

open MpmcQueue (Pc EnqueuePc DequeuePc System)

/-- The queue call the worker is in. -/
def WorkerPc.Role : WorkerPc → Pc Event → Prop
  | .dequeueing _, p => ∃ pc, p = .dequeue pc
  | _, p => p = .idle

/-- The queue call a publisher is in, and the event it carries. -/
def PublishPc.Role : PublishPc → Pc Event → Prop
  | .enqueueing event _, p => ∃ pc, p = .enqueue pc ∧ ∀ i, pc.item = some i → i = event
  | _, p => p = .idle

namespace Bus

variable {τ : Type*} {s s' : Bus τ} {C : Nat}

/-- The queue is sound, every thread is in the call its program counter says,
and the worker's position is the current one: nobody else dequeues. -/
structure Roles (s : Bus τ) (C : Nat) : Prop where
  sound : s.queue.Sound C
  worker : s.worker.Role (s.queue.pc none)
  publisher : ∀ t, (s.publisher t).Role (s.queue.pc (some t))
  target : ∀ pc pos, s.queue.pc none = .dequeue pc → pc.target = some pos →
    pos = s.queue.queue.dequeuePos

theorem Roles.worker_at (h : s.Roles C) {w : WorkerPc} (hw : s.worker = w) :
    w.Role (s.queue.pc none) := by
  rw [← hw]
  exact h.worker

theorem Roles.publisher_at (h : s.Roles C) {t : τ} {p : PublishPc} (hp : s.publisher t = p) :
    p.Role (s.queue.pc (some t)) := by
  rw [← hp]
  exact h.publisher t

theorem Roles.dequeuing (h : s.Roles C) {final : Bool} (hw : s.worker = .dequeueing final) :
    ∃ pc, s.queue.pc none = .dequeue pc := h.worker_at hw

theorem Roles.enqueuing (h : s.Roles C) {t : τ} {event : Event} {held : List Subscription}
    (hp : s.publisher t = .enqueueing event held) :
    ∃ pc, s.queue.pc (some t) = .enqueue pc ∧ ∀ i, pc.item = some i → i = event :=
  h.publisher_at hp

theorem dequeuePos_eq {q q' : System (Option τ) Event} (h : q.Inv C) (h' : q'.Inv C)
    (same : q'.dequeued = q.dequeued) : q'.queue.dequeuePos = q.queue.dequeuePos := by
  apply UInt64.toNat_inj.mp
  rw [h.dequeuePos, h'.dequeuePos, same]

/-- A step of the worker inside the queue. -/
theorem Roles.workerMoves (h : s.Roles C) {queue : System (Option τ) Event}
    (sound : queue.Sound C) (others : ∀ u, u ≠ none → queue.pc u = s.queue.pc u)
    (role : s'.worker.Role (queue.pc none)) (publisher : s'.publisher = s.publisher)
    (target : ∀ pc pos, queue.pc none = .dequeue pc → pc.target = some pos →
      pos = queue.queue.dequeuePos)
    (moved : s'.queue = queue) : s'.Roles C := by
  subst moved
  refine ⟨sound, role, ?_, target⟩
  intro t
  rw [publisher, others (some t) nofun]
  exact h.publisher t

/-- A step outside the queue. -/
theorem Roles.elsewhere (h : s.Roles C) (queue : s'.queue = s.queue)
    (worker : s'.worker.Role (s.queue.pc none))
    (publisher : ∀ t, (s'.publisher t).Role (s.queue.pc (some t))) : s'.Roles C := by
  refine ⟨?_, ?_, ?_, ?_⟩
  · rw [queue]
    exact h.sound
  · rw [queue]
    exact worker
  · rw [queue]
    exact publisher
  · rw [queue]
    exact h.target

theorem stopStep_same (h : s.stopStep = some s') :
    s'.queue = s.queue ∧ s'.worker = s.worker ∧ s'.publisher = s.publisher ∧
      s'.subscriptions = s.subscriptions ∧ s'.nextId = s.nextId ∧ s'.accepted = s.accepted ∧
        s'.delivered = s.delivered ∧ s'.snapshots = s.snapshots := by
  unfold stopStep at h
  cases hs : s.stopper with
  | notCalled =>
    rw [hs] at h
    obtain rfl := Option.some_inj.mp h
    exact ⟨rfl, rfl, rfl, rfl, rfl, rfl, rfl, rfl⟩
  | exchange =>
    rw [hs] at h
    simp only at h
    split_ifs at h <;> obtain rfl := Option.some_inj.mp h <;>
      exact ⟨rfl, rfl, rfl, rfl, rfl, rfl, rfl, rfl⟩
  | requestStop =>
    rw [hs] at h
    obtain rfl := Option.some_inj.mp h
    exact ⟨rfl, rfl, rfl, rfl, rfl, rfl, rfl, rfl⟩
  | release =>
    rw [hs] at h
    obtain rfl := Option.some_inj.mp h
    exact ⟨rfl, rfl, rfl, rfl, rfl, rfl, rfl, rfl⟩
  | join =>
    rw [hs] at h
    simp only at h
    split_ifs at h
    obtain rfl := Option.some_inj.mp h
    exact ⟨rfl, rfl, rfl, rfl, rfl, rfl, rfl, rfl⟩
  | returned => simp [hs] at h

variable [DecidableEq τ]

theorem setPublisher_self (s : Bus τ) (t : τ) (p : PublishPc) :
    (s.setPublisher t p).publisher t = p := by
  simp [setPublisher]

theorem setPublisher_ne (s : Bus τ) {t u : τ} (p : PublishPc) (h : u ≠ t) :
    (s.setPublisher t p).publisher u = s.publisher u := by
  simp [setPublisher, h]

/-- A step of a publisher inside the queue. -/
theorem Roles.publisherMoves (h : s.Roles C) {t : τ} {p : PublishPc}
    {queue : System (Option τ) Event} (sound : queue.Sound C)
    (others : ∀ u, u ≠ some t → queue.pc u = s.queue.pc u)
    (dequeued : queue.dequeued = s.queue.dequeued) (role : p.Role (queue.pc (some t)))
    (worker : s'.worker = s.worker) (publisher : s'.publisher = (s.setPublisher t p).publisher)
    (moved : s'.queue = queue) : s'.Roles C := by
  subst moved
  refine ⟨sound, ?_, ?_, ?_⟩
  · rw [others none nofun, worker]
    exact h.worker
  · intro u
    rw [publisher]
    by_cases hu : u = t
    · subst hu
      rw [setPublisher_self]
      exact role
    · rw [setPublisher_ne s p hu, others (some u) (by simpa using hu)]
      exact h.publisher u
  · intro pc pos hpc hpos
    rw [others none nofun] at hpc
    rw [dequeuePos_eq h.sound.inv sound.inv dequeued]
    exact h.target pc pos hpc hpos

theorem Roles.publisherOnly (h : s.Roles C) {t : τ} {p : PublishPc}
    (role : p.Role (s.queue.pc (some t))) (queue : s'.queue = s.queue)
    (worker : s'.worker = s.worker) (publisher : s'.publisher = (s.setPublisher t p).publisher) :
    s'.Roles C := by
  refine h.elsewhere queue (by rw [worker]; exact h.worker) ?_
  intro u
  rw [publisher]
  by_cases hu : u = t
  · subst hu
    rw [setPublisher_self]
    exact role
  · rw [setPublisher_ne s p hu]
    exact h.publisher u

/-- Roles are kept by every step after fewer than 2^63 offers. -/
theorem Roles.step (h : s.Roles C) (few : s.queue.offers < 2 ^ 63) {a : Action τ}
    (moved : s.Moved a s') : s'.Roles C := by
  cases moved with
  | publish t event queue before offer =>
    have sound := h.sound.offer offer
    obtain ⟨-, rfl⟩ := MpmcQueue.System.offer_eq offer
    refine h.publisherMoves sound ?_ rfl ?_ rfl rfl rfl
    · exact fun u hu => MpmcQueue.System.goto_pc_ne s.queue _ hu
    · refine ⟨_, MpmcQueue.System.goto_pc_self s.queue (some t) _, ?_⟩
      intro i hi
      exact (Option.some_inj.mp hi).symm
  | enqueue t spurious event held queue before advance =>
    obtain ⟨pc, hpc, carries⟩ := h.enqueuing before
    obtain ⟨dequeued, others, effect⟩ := MpmcQueue.System.advance_enqueue hpc advance
    have sound := h.sound.advance few advance
    have same : s.publisher = (s.setPublisher t (.enqueueing event held)).publisher := by
      rw [setPublisher, ← before, Function.update_eq_self]
    cases effect with
    | goesOn pc' now writes item enqueued =>
      refine h.publisherMoves sound others dequeued ?_ rfl same rfl
      exact ⟨pc', now, fun i hi => carries i (item i hi)⟩
    | wins item pos hw carried now head enqueued =>
      refine h.publisherMoves sound others dequeued ?_ rfl same rfl
      refine ⟨_, now, ?_⟩
      intro i hi
      exact (Option.some_inj.mp hi) ▸ carries item carried
  | enqueued t spurious event held queue before advance =>
    obtain ⟨pc, hpc, -⟩ := h.enqueuing before
    obtain ⟨dequeued, others, effect⟩ := MpmcQueue.System.advance_enqueue hpc advance
    cases effect with
    | accepted pos hw now enqueued =>
      let p := PublishPc.releasing ((s.queue.pc (some t)).writes.getD 0) event held
      have role : p.Role (queue.pc (some t)) := now
      exact h.publisherMoves (h.sound.advance few advance) others dequeued role rfl rfl rfl
  | full t spurious event held queue before advance =>
    obtain ⟨pc, hpc, -⟩ := h.enqueuing before
    obtain ⟨dequeued, others, effect⟩ := MpmcQueue.System.advance_enqueue hpc advance
    cases effect with
    | rejected hw now enqueued =>
      have role : PublishPc.dropping.Role (queue.pc (some t)) := now
      exact h.publisherMoves (h.sound.advance few advance) others dequeued role rfl rfl rfl
  | release t spurious ticket event held before =>
    have idle : s.queue.pc (some t) = .idle := h.publisher_at before
    have role : PublishPc.idle.Role (s.queue.pc (some t)) := idle
    exact h.publisherOnly role rfl rfl rfl
  | drop t spurious before =>
    have idle : s.queue.pc (some t) = .idle := h.publisher_at before
    have role : PublishPc.idle.Role (s.queue.pc (some t)) := idle
    exact h.publisherOnly role rfl rfl rfl
  | checkStop choice before =>
    have idle : s.queue.pc none = .idle := h.worker_at before
    refine h.elsewhere rfl ?_ h.publisher
    change WorkerPc.Role (if s.stopRequested then _ else _) _
    split_ifs <;> exact idle
  | acquire choice signal before =>
    have idle : s.queue.pc none = .idle := h.worker_at before
    exact h.elsewhere rfl idle h.publisher
  | poll choice final queue before poll =>
    have sound := h.sound.poll poll
    obtain ⟨-, rfl⟩ := MpmcQueue.System.poll_eq poll
    have now := MpmcQueue.System.goto_pc_self s.queue none (.dequeue .loadPos)
    refine h.workerMoves sound ?_ ⟨_, now⟩ rfl ?_ rfl
    · exact fun u hu => MpmcQueue.System.goto_pc_ne s.queue _ hu
    · intro pc pos hpc hpos
      rw [now] at hpc
      cases hpc
      contradiction
  | dequeue choice final queue before advance =>
    obtain ⟨pc, hpc⟩ := h.dequeuing before
    obtain ⟨enqueued, others, effect⟩ := MpmcQueue.System.advance_dequeue hpc advance
    have sound := h.sound.advance few advance
    cases effect with
    | goesOn pc' now reads target head dequeued =>
      refine h.workerMoves sound others ?_ rfl ?_ rfl
      · change s.worker.Role _
        rw [before]
        exact ⟨pc', now⟩
      · intro p pos hp hpos
        rw [now] at hp
        obtain rfl : pc' = p := by simpa using hp
        rw [head]
        cases target pos hpos with
        | inl earlier => exact h.target pc pos hpc earlier
        | inr loaded => exact loaded
    | wins pos hr head now dequeued =>
      refine h.workerMoves sound others ?_ rfl ?_ rfl
      · change s.worker.Role _
        rw [before]
        exact ⟨_, now⟩
      · intro p q hp hq
        rw [now] at hp
        cases hp
        contradiction
  | empty choice final queue before advance =>
    obtain ⟨pc, hpc⟩ := h.dequeuing before
    obtain ⟨enqueued, others, effect⟩ := MpmcQueue.System.advance_dequeue hpc advance
    have sound := h.sound.advance few advance
    cases effect with
    | empty pos hbefore behind now =>
      have idle : queue.pc none = .idle := by
        rw [now, MpmcQueue.System.goto_pc_self]
      refine h.workerMoves sound others ?_ rfl ?_ rfl
      · change WorkerPc.Role (if final then _ else _) _
        split_ifs <;> exact idle
      · intro p q hp
        rw [idle] at hp
        contradiction
  | dequeued choice final queue item before advance =>
    obtain ⟨pc, hpc⟩ := h.dequeuing before
    obtain ⟨enqueued, others, effect⟩ := MpmcQueue.System.advance_dequeue hpc advance
    have sound := h.sound.advance few advance
    cases effect with
    | received pos _ hbefore now dequeued =>
      refine h.workerMoves sound others now rfl ?_ rfl
      intro p q hp
      rw [now] at hp
      contradiction
  | snapshot choice final ticket event before =>
    have idle : s.queue.pc none = .idle := h.worker_at before
    exact h.elsewhere rfl idle h.publisher
  | delivered choice final ticket event before =>
    have idle : s.queue.pc none = .idle := h.worker_at before
    exact h.elsewhere rfl idle h.publisher
  | deliver choice final ticket event sub rest before =>
    have idle : s.queue.pc none = .idle := h.worker_at before
    exact h.elsewhere rfl idle h.publisher
  | subscribe filter => exact h.elsewhere rfl h.worker h.publisher
  | unsubscribe id => exact h.elsewhere rfl h.worker h.publisher
  | stop _ hstop =>
    obtain ⟨queue, worker, publisher, -⟩ := stopStep_same hstop
    refine h.elsewhere queue ?_ ?_
    · rw [worker]
      exact h.worker
    · rw [publisher]
      exact h.publisher

end Bus

end IndustrialRuntime.Core.EventBus
