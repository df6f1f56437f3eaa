import IndustrialRuntime.Core.EventBusDelivery
import Mathlib.Data.Fintype.Option

namespace IndustrialRuntime.Core.EventBus

open MpmcQueue (Pc System)

/-- Past the stop request: draining for the last time, or finished. -/
def WorkerPc.final : WorkerPc → Bool
  | .checkStop => false
  | .acquire => false
  | .poll final => final
  | .dequeueing final => final
  | .snapshot final _ _ => final
  | .deliver final _ _ _ => final
  | .finished => true

def Action.isWorker {τ : Type*} : Action τ → Bool
  | .worker _ => true
  | _ => false

namespace Bus

variable {τ : Type*} {s s' : Bus τ} {C : Nat}

/-- The head ticket belongs to a `publish` suspended between its exchange and
its sequence store, and an event accepted before `stop` waits behind it. -/
def HeadSuspended (s : Bus τ) : Prop :=
  ∃ u, (s.queue.pc u).writes = some s.queue.queue.dequeuePos ∧
    ∃ a ∈ s.accepted, s.queue.queue.dequeuePos < a.ticket

instance [Fintype τ] (s : Bus τ) : Decidable s.HeadSuspended :=
  inferInstanceAs (Decidable (∃ _, _))

/-- The last drain is about to load the sequence of the head cell. -/
def lastLook (s : Bus τ) : Bool :=
  match s.worker, s.queue.pc none with
  | .dequeueing true, .dequeue (.loadSequence _) => true
  | _, _ => false

/-- Fewer than 2^63 publishes so far, and the last drain does not look at a
suspended head with accepted events behind it. -/
def Sighted (s : Bus τ) (a : Action τ) : Prop :=
  s.queue.offers < 2 ^ 63 ∧ (a.isWorker → s.lastLook → ¬s.HeadSuspended)

instance [Fintype τ] (s : Bus τ) (a : Action τ) : Decidable (s.Sighted a) :=
  inferInstanceAs (Decidable (_ ∧ (_ → _ → ¬s.HeadSuspended)))

/-- The order in which `stop` and the worker shut down. -/
structure Stopping (s : Bus τ) : Prop where
  running : s.stopper = .notCalled ∨ s.stopper = .exchange → s.running = true
  requested : s.stopRequested = true → s.stopper ≠ .notCalled
  final : s.worker.final = true → s.stopRequested = true
  joined : s.stopper = .returned → s.worker = .finished
  drained : s.worker = .finished → ∀ a ∈ s.accepted, a.ticket.toNat < s.queue.dequeued.length

/-- An empty answer means that no ticket is claimed, or that the head is suspended. -/
theorem suspended_of_empty (inv : s.queue.Inv C) {pos : UInt64}
    (behind : MpmcQueue.diff (s.queue.queue.cell pos).sequence (pos + 1) ≠ 0)
    (head : pos = s.queue.queue.dequeuePos) (few : s.queue.enqueued.length < 2 ^ 63)
    (claimed : s.queue.dequeued.length < s.queue.enqueued.length) :
    ∃ u, (s.queue.pc u).writes = some pos := by
  have position : pos.toNat = s.queue.dequeued.length := head ▸ inv.dequeuePos
  cases inv.unread_current le_rfl claimed with
  | inl free =>
    obtain ⟨u, q, hw, hq⟩ := free.owner claimed
    obtain rfl : q = pos := UInt64.toNat_inj.mp (hq.trans position.symm)
    exact ⟨u, hw⟩
  | inr full =>
    exfalso
    apply behind
    rw [MpmcQueue.diff_eq_zero]
    apply UInt64.toNat_inj.mp
    rw [MpmcQueue.cell, inv.sized.index, position, full.sequence, UInt64.toNat_add, position]
    exact (Nat.mod_eq_of_lt (show s.queue.dequeued.length + 1 < 2 ^ 64 by omega)).symm

theorem Stopping.stop (h : s.Stopping) (step : s.stopStep = some s') : s'.Stopping := by
  unfold stopStep at step
  cases hs : s.stopper with
  | notCalled =>
    rw [hs] at step
    obtain rfl := Option.some_inj.mp step
    exact ⟨fun _ => h.running (Or.inl hs), nofun, h.final, nofun, h.drained⟩
  | exchange =>
    rw [hs] at step
    simp only at step
    have running := h.running (Or.inr hs)
    rw [if_pos running] at step
    obtain rfl := Option.some_inj.mp step
    exact ⟨by simp, nofun, h.final, nofun, h.drained⟩
  | requestStop =>
    rw [hs] at step
    obtain rfl := Option.some_inj.mp step
    exact ⟨by simp, nofun, fun _ => rfl, nofun, h.drained⟩
  | release =>
    rw [hs] at step
    obtain rfl := Option.some_inj.mp step
    exact ⟨by simp, nofun, h.final, nofun, h.drained⟩
  | join =>
    rw [hs] at step
    simp only at step
    split_ifs at step with finished
    obtain rfl := Option.some_inj.mp step
    exact ⟨by simp, nofun, h.final, fun _ => finished, h.drained⟩
  | returned => simp [hs] at step

/-- A step that changes neither `stop` nor the worker's place nor what is accepted. -/
theorem Stopping.aside (h : s.Stopping) (stopper : s'.stopper = s.stopper)
    (running : s'.running = s.running) (requested : s'.stopRequested = s.stopRequested)
    (worker : s'.worker = s.worker) (accepted : s'.worker = .finished → s'.accepted = s.accepted)
    (dequeued : s'.queue.dequeued = s.queue.dequeued) : s'.Stopping := by
  refine ⟨?_, ?_, ?_, ?_, ?_⟩
  · rw [stopper, running]
    exact h.running
  · rw [stopper, requested]
    exact h.requested
  · rw [worker, requested]
    exact h.final
  · rw [stopper, worker]
    exact h.joined
  · intro finished
    rw [accepted finished, dequeued]
    exact h.drained (worker ▸ finished)

/-- A step of the worker that does not end its loop. -/
theorem Stopping.works (h : s.Stopping) (stopper : s'.stopper = s.stopper)
    (running : s'.running = s.running) (requested : s'.stopRequested = s.stopRequested)
    (before : s.worker ≠ .finished)
    (final : s'.worker.final = true → s'.stopRequested = true)
    (drained : s'.worker = .finished →
      ∀ a ∈ s'.accepted, a.ticket.toNat < s'.queue.dequeued.length) : s'.Stopping := by
  refine ⟨?_, ?_, final, ?_, drained⟩
  · rw [stopper, running]
    exact h.running
  · rw [stopper, requested]
    exact h.requested
  · rw [stopper]
    exact fun returned => absurd (h.joined returned) before

/-- All that a run keeps. -/
structure Inv (s : Bus τ) (C : Nat) : Prop where
  roles : s.Roles C
  claims : s.Claims
  dispatched : s.Dispatched
  stopping : s.Stopping

theorem inv_started {capacity : UInt64} {queue : MpmcQueue Event}
    (made : MpmcQueue.create capacity = some queue) : ∃ C, (started queue : Bus τ).Inv C := by
  obtain ⟨C, -, init⟩ := MpmcQueue.create_sized made
  have no_claim (ticket : UInt64) (event : Event) (held : List Subscription) :
      ¬(started queue : Bus τ).Holds ticket event held := by
    intro holds
    rcases holds with ⟨t, hp, -⟩ | ⟨⟨t, hp⟩ | ⟨ha⟩⟩
    · cases hp
    · cases hp
    · cases ha
  refine ⟨C, ⟨?_, ?_, ?_, ?_⟩⟩
  · exact ⟨⟨init, System.budget_start queue, System.delivered_start queue⟩, rfl, fun _ => rfl,
      nofun⟩
  · refine ⟨List.nodup_nil, nofun, nofun, ?_, ?_, ?_, ?_⟩
    · exact fun ticket event held h => absurd h (no_claim ticket event held)
    · exact fun ticket event held h => absurd h (no_claim ticket event held)
    · exact fun ticket event held h => absurd h (no_claim ticket event held)
    · exact fun ticket event held h => absurd (.published h) (no_claim ticket event held)
  · exact ⟨nofun, nofun, nofun, rfl⟩
  · exact ⟨fun _ => rfl, nofun, nofun, nofun, nofun⟩

/-- Each event accepted before `stop` was delivered once to each matching
subscription held from the call of its `publish` until now. -/
def Lossless (s : Bus τ) : Prop :=
  ∀ a ∈ s.accepted, ∀ sub ∈ a.held, sub ∈ s.subscriptions → sub.wants a.event →
    s.delivered.count ⟨sub.id, a.ticket, a.event⟩ = 1

theorem Inv.lossless (h : s.Inv C) (returned : s.stopper = .returned) : s.Lossless := by
  intro a ha sub held kept wants
  have finished := h.stopping.joined returned
  have holds : s.Holds a.ticket a.event a.held := .published (.accepted ha)
  have at_worker := h.dispatched.worker
  rw [finished] at at_worker
  have taken : a.ticket.toNat < s.snapshots.length := at_worker ▸ h.stopping.drained finished a ha
  have snapshot := List.getElem?_eq_getElem taken
  obtain ⟨e, he, once⟩ := h.dispatched.served _ _ snapshot (by rw [finished]; nofun)
  obtain ⟨thread, hlog⟩ := h.claims.logged _ _ _ holds
  rw [hlog] at he
  obtain rfl := Option.some_inj.mp he
  exact once sub (h.claims.kept _ _ _ holds _ snapshot sub held kept) wants

/-! ### Steps and runs -/

variable [DecidableEq τ]

theorem Stopping.step (h : s.Stopping) (roles : s.Roles C) (claims : s.Claims)
    {a : Action τ} (sighted : s.Sighted a) (moved : s.Moved a s') : s'.Stopping := by
  cases moved with
  | publish t event queue before offer =>
    obtain ⟨-, rfl⟩ := System.offer_eq offer
    exact h.aside rfl rfl rfl rfl (fun _ => rfl) rfl
  | enqueue t spurious event held queue before advance =>
    obtain ⟨pc, hpc, -⟩ := roles.enqueuing before
    obtain ⟨dequeued, -⟩ := System.advance_enqueue hpc advance
    exact h.aside rfl rfl rfl rfl (fun _ => rfl) dequeued
  | enqueued t spurious event held queue before advance =>
    obtain ⟨pc, hpc, -⟩ := roles.enqueuing before
    obtain ⟨dequeued, -⟩ := System.advance_enqueue hpc advance
    exact h.aside rfl rfl rfl rfl (fun _ => rfl) dequeued
  | full t spurious event held queue before advance =>
    obtain ⟨pc, hpc, -⟩ := roles.enqueuing before
    obtain ⟨dequeued, -⟩ := System.advance_enqueue hpc advance
    exact h.aside rfl rfl rfl rfl (fun _ => rfl) dequeued
  | release t spurious ticket event held before =>
    refine h.aside rfl rfl rfl rfl ?_ rfl
    intro finished
    have final : s.worker.final = true := by
      change s.worker = _ at finished
      rw [finished]
      rfl
    exact if_neg (h.requested (h.final final))
  | checkStop choice before =>
    refine h.works rfl rfl rfl (by rw [before]; nofun) ?_ ?_
    · intro final
      by_cases requested : s.stopRequested
      · exact requested
      · simp [requested, WorkerPc.final] at final
    · intro finished
      change (if s.stopRequested then WorkerPc.poll true else .acquire) = _ at finished
      split_ifs at finished
  | acquire choice signal before =>
    exact h.works rfl rfl rfl (by rw [before]; nofun) nofun nofun
  | poll choice final queue before poll =>
    refine h.works rfl rfl rfl (by rw [before]; nofun) ?_ nofun
    intro hfinal
    exact h.final (by rw [before]; exact hfinal)
  | dequeue choice final queue before advance =>
    refine h.works rfl rfl rfl (by rw [before]; nofun) h.final ?_
    intro finished
    change s.worker = _ at finished
    rw [before] at finished
    contradiction
  | empty choice final queue before advance =>
    obtain ⟨pc, hpc⟩ := roles.dequeuing before
    obtain ⟨enqueued, -, effect⟩ := System.advance_dequeue hpc advance
    refine h.works rfl rfl rfl (by rw [before]; nofun) ?_ ?_
    · intro hfinal
      change (if final then WorkerPc.finished else .checkStop).final = true at hfinal
      apply h.final
      rw [before]
      by_contra not_final
      simp only [WorkerPc.final] at not_final
      simp [not_final, WorkerPc.final] at hfinal
    · intro finished accepted haccepted
      change (if final then WorkerPc.finished else .checkStop) = _ at finished
      split_ifs at finished with hfinal
      cases effect with
      | empty pos hbefore behind now =>
        subst now
        subst hfinal
        by_contra late
        change ¬accepted.ticket.toNat < s.queue.dequeued.length at late
        have published : s.Published accepted.ticket accepted.event accepted.held :=
          .accepted haccepted
        obtain ⟨thread, hlog⟩ := claims.logged _ _ _ (.published published)
        have claimed := (List.getElem?_eq_some_iff.mp hlog).1
        have head := roles.target _ pos hbefore rfl
        have few : s.queue.enqueued.length < 2 ^ 63 :=
          lt_of_le_of_lt roles.sound.budget.le sighted.1
        obtain ⟨u, hu⟩ := suspended_of_empty roles.sound.inv behind head few (by omega)
        have position : pos.toNat = s.queue.dequeued.length := head ▸ roles.sound.inv.dequeuePos
        have other : pos ≠ accepted.ticket := claims.written _ _ _ published u pos hu
        have after : pos.toNat ≠ accepted.ticket.toNat :=
          fun same => other (UInt64.toNat_inj.mp same)
        have looks : s.lastLook := by simp [lastLook, before, hbefore]
        apply sighted.2 rfl looks
        refine ⟨u, head ▸ hu, accepted, haccepted, ?_⟩
        rw [UInt64.lt_iff_toNat_lt, ← head]
        omega
  | dequeued choice final queue item before advance =>
    refine h.works rfl rfl rfl (by rw [before]; nofun) ?_ nofun
    intro hfinal
    exact h.final (by rw [before]; exact hfinal)
  | snapshot choice final ticket event before =>
    refine h.works rfl rfl rfl (by rw [before]; nofun) ?_ nofun
    intro hfinal
    exact h.final (by rw [before]; exact hfinal)
  | delivered choice final ticket event before =>
    refine h.works rfl rfl rfl (by rw [before]; nofun) ?_ nofun
    intro hfinal
    exact h.final (by rw [before]; exact hfinal)
  | deliver choice final ticket event sub rest before =>
    refine h.works rfl rfl rfl (by rw [before]; nofun) ?_ nofun
    intro hfinal
    exact h.final (by rw [before]; exact hfinal)
  | stop _ hstop => exact h.stop hstop
  | _ => exact h.aside rfl rfl rfl rfl (fun _ => rfl) rfl

theorem Inv.step (h : s.Inv C) {a : Action τ} (sighted : s.Sighted a)
    (step : s.step a = some s') : s'.Inv C := by
  have moved := moved_of_step step
  have room := h.dispatched.room.trans h.roles.sound.inv.le
  exact ⟨h.roles.step sighted.1 moved, h.claims.step h.roles sighted.1 room moved,
    h.dispatched.step h.roles h.claims moved, h.stopping.step h.roles h.claims sighted moved⟩

/-- `stop` loses nothing in a run whose last drain never looks at a suspended
head with accepted events behind it. -/
theorem lossless_of_sighted {capacity : UInt64} {queue : MpmcQueue Event}
    (made : MpmcQueue.create capacity = some queue) (schedule : List (Action τ))
    (sighted : (machine τ queue).Steps Sighted (started queue) schedule) (s : Bus τ)
    (run : (machine τ queue).run schedule = some s) (returned : s.stopper = .returned) :
    s.Lossless := by
  obtain ⟨C, init⟩ := inv_started made
  have keep : ∀ (u : Bus τ) (a : Action τ) (v : Bus τ), u.Inv C → u.Sighted a →
      (machine τ queue).step u a = some v → v.Inv C :=
    fun _ _ _ h sighted step => h.step sighted step
  have inv := (machine τ queue).invariant_of_steps _ _ keep _ schedule s init sighted run
  exact inv.lossless returned

def sample : Event := { category := ascii "alarm" }

/-- One subscription; one publish, accepted and drained before `stop` returns. -/
def cleanStop : List (Action Unit) :=
  [.subscribe {}, .publish () sample, .publisher () false, .publisher () false,
    .publisher () false, .publisher () false, .publisher () false, .publisher () false,
    .stop, .stop, .stop, .stop, .worker false, .worker false, .worker false, .worker false,
    .worker false, .worker false, .worker false, .worker false, .worker false, .worker false,
    .worker false, .worker false, .worker false, .stop]

theorem lossless_of_sighted_cleanStop : ∃ queue s, MpmcQueue.create 2 = some queue ∧
    (machine Unit queue).run cleanStop = some s ∧ s.stopper = .returned ∧
      s.accepted.length = 1 ∧ s.Lossless := by
  obtain ⟨queue, made⟩ : ∃ queue : MpmcQueue Event, MpmcQueue.create 2 = some queue := ⟨_, rfl⟩
  have ends : ((machine Unit queue).run cleanStop).map
      (fun s => (s.stopper, s.accepted.length)) = some (.returned, 1) := by
    obtain rfl := Option.some_inj.mp made
    rfl
  have sighted : (machine Unit queue).Steps Sighted (started queue) cleanStop := by
    obtain rfl := Option.some_inj.mp made
    decide
  obtain ⟨s, run, last⟩ := Option.map_eq_some_iff.mp ends
  injection last with returned accepted
  exact ⟨queue, s, made, run, returned, accepted,
    lossless_of_sighted made cleanStop sighted s run returned⟩

/-- The first publisher stops after its exchange; the second one's event is
accepted behind it, and the last drain finds the head cell unpublished. -/
def blindStop : List (Action Bool) :=
  [.subscribe {}, .publish true sample, .publisher true false, .publisher true false,
    .publisher true false, .publish false sample, .publisher false false,
    .publisher false false, .publisher false false, .publisher false false,
    .publisher false false, .publisher false false, .stop, .stop, .stop, .stop, .worker false,
    .worker false, .worker false, .worker false, .stop]

/-- `stop` can return with an accepted event undelivered. -/
theorem not_lossless_blindStop : ¬∀ (queue : MpmcQueue Event) (s : Bus Bool),
    MpmcQueue.create 2 = some queue → (machine Bool queue).run blindStop = some s →
      s.stopper = .returned → s.Lossless := by
  intro lossless
  obtain ⟨queue, made⟩ : ∃ queue : MpmcQueue Event, MpmcQueue.create 2 = some queue := ⟨_, rfl⟩
  have ends : ((machine Bool queue).run blindStop).map
      (fun s => (s.stopper, s.accepted, s.subscriptions, s.delivered)) =
      some (.returned, [⟨1, sample, [⟨1, {}⟩]⟩], [⟨1, {}⟩], []) := by
    obtain rfl := Option.some_inj.mp made
    rfl
  obtain ⟨s, run, last⟩ := Option.map_eq_some_iff.mp ends
  injection last with returned last
  injection last with accepted last
  injection last with subscriptions delivered
  have once := lossless queue s made run returned ⟨1, sample, [⟨1, {}⟩]⟩
    (by rw [accepted]; exact List.mem_singleton_self _) ⟨1, {}⟩ (List.mem_singleton_self _)
    (by rw [subscriptions]; exact List.mem_singleton_self _) rfl
  rw [delivered] at once
  contradiction

end Bus

end IndustrialRuntime.Core.EventBus
