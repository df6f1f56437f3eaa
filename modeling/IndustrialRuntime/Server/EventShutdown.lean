import IndustrialRuntime.Core.EventBusStop
import IndustrialRuntime.Core.EventBusUnsubscribe

namespace IndustrialRuntime.Irsp

open IndustrialRuntime.Core
open IndustrialRuntime.Core.EventBus

namespace EventShutdown

/-- The thread that calls `IrspServer::stop`, by the line it is about to run. -/
inductive StopPc where
  | exchange | clearCallback | unsubscribe | requestStop | join | destroy | returned
  deriving DecidableEq

/-- The server's part in the shutdown, beside the bus of its runtime. `mark` records
how many handlers had been called when `stop` returned. -/
structure Shutdown (τ : Type*) where
  bus : Bus τ
  running : Bool
  eventSubId : Nat
  stopRequested : Bool
  serving : Bool
  context : Bool
  pc : StopPc
  mark : Nat

inductive Action (τ : Type*) where
  | bus (action : EventBus.Action τ)
  | stop
  /-- The service thread sees the stop request and ends. -/
  | service

namespace Shutdown

variable {τ : Type*}

def stopStep (x : Shutdown τ) : Option (Shutdown τ) :=
  match x.pc with
  | .exchange =>
    if x.running then some { x with running := false, pc := .clearCallback }
    else some { x with pc := .returned, mark := x.bus.delivered.length }
  | .clearCallback => some { x with pc := .unsubscribe }
  | .unsubscribe =>
    if x.eventSubId ≠ 0 then
      some { x with bus := x.bus.unsubscribe x.eventSubId, eventSubId := 0, pc := .requestStop }
    else some { x with pc := .requestStop }
  | .requestStop => some { x with stopRequested := true, pc := .join }
  | .join => if x.serving then none else some { x with pc := .destroy }
  | .destroy => some { x with context := false, pc := .returned, mark := x.bus.delivered.length }
  | .returned => none

/-- The handlers called since `stop` returned. -/
def late (x : Shutdown τ) : List Delivery :=
  if x.pc = .returned then x.bus.delivered.drop x.mark else []

variable {x y z : Shutdown τ} {s : Bus τ} {id : Nat}

/-- After its `unsubscribe` line the server's subscription is gone, and what was
called so far does not count as late. -/
structure Quiet (s : Bus τ) (id : Nat) (x : Shutdown τ) : Prop where
  gone : x.bus.Gone id
  spares : s.Spares x.bus id
  mark : x.pc = .returned → s.delivered.length ≤ x.mark

theorem Quiet.late (h : Quiet s id x) : ∀ d ∈ x.late, d.subscription ≠ id := by
  intro d called
  unfold Shutdown.late at called
  split_ifs at called with returned
  · obtain ⟨calls, delivered, spared⟩ := h.spares
    have after := h.mark returned
    rw [delivered, List.drop_append, List.drop_eq_nil_of_le after, List.nil_append] at called
    exact spared d (List.mem_of_mem_drop called)
  · exact absurd called List.not_mem_nil

variable [DecidableEq τ]

def step (x : Shutdown τ) : Action τ → Option (Shutdown τ)
  | .bus a => (x.bus.step a).map fun bus => { x with bus := bus }
  | .stop => x.stopStep
  | .service => if x.stopRequested && x.serving then some { x with serving := false } else none

def machine (init : Shutdown τ) : Machine (Shutdown τ) (Action τ) := ⟨init, step⟩

theorem Quiet.moved (h : Quiet s id x) {a : EventBus.Action τ} {bus : Bus τ}
    (moved : x.bus.step a = some bus) : bus.Gone id ∧ s.Spares bus id := by
  obtain ⟨gone, spares⟩ := h.gone.step (Bus.moved_of_step moved)
  exact ⟨gone, h.spares.trans spares⟩

theorem Quiet.step (h : Quiet s id x) {a : Action τ} (step : x.step a = some y) :
    Quiet s id y := by
  have longer : s.delivered.length ≤ x.bus.delivered.length := by
    obtain ⟨calls, delivered, -⟩ := h.spares
    rw [delivered, List.length_append]
    exact Nat.le_add_right _ _
  cases a with
  | bus action =>
    obtain ⟨bus, moved, rfl⟩ := Option.map_eq_some_iff.mp step
    obtain ⟨gone, spares⟩ := h.moved moved
    exact ⟨gone, spares, h.mark⟩
  | stop =>
    simp only [Shutdown.step, stopStep] at step
    cases pc : x.pc with
    | exchange =>
      simp only [pc] at step
      split_ifs at step
      · obtain rfl := Option.some_inj.mp step
        exact ⟨h.gone, h.spares, fun returned => by contradiction⟩
      · obtain rfl := Option.some_inj.mp step
        exact ⟨h.gone, h.spares, fun _ => longer⟩
    | unsubscribe =>
      simp only [pc] at step
      split_ifs at step
      · obtain rfl := Option.some_inj.mp step
        obtain ⟨gone, spares⟩ := h.moved (a := .unsubscribe x.eventSubId) rfl
        exact ⟨gone, spares, fun returned => by contradiction⟩
      · obtain rfl := Option.some_inj.mp step
        exact ⟨h.gone, h.spares, fun returned => by contradiction⟩
    | join =>
      simp only [pc] at step
      split_ifs at step
      obtain rfl := Option.some_inj.mp step
      exact ⟨h.gone, h.spares, fun returned => by contradiction⟩
    | destroy =>
      simp only [pc] at step
      obtain rfl := Option.some_inj.mp step
      exact ⟨h.gone, h.spares, fun _ => longer⟩
    | clearCallback | requestStop =>
      simp only [pc] at step
      obtain rfl := Option.some_inj.mp step
      exact ⟨h.gone, h.spares, fun returned => by contradiction⟩
    | returned => simp [pc] at step
  | service =>
    simp only [Shutdown.step] at step
    split_ifs at step
    obtain rfl := Option.some_inj.mp step
    exact ⟨h.gone, h.spares, h.mark⟩

/-- While `stop` has returned, the bus goes on by itself. -/
theorem runFrom_bus {queue : MpmcQueue Event} {bus : Bus τ} (schedule : List (EventBus.Action τ))
    (run : (Bus.machine τ queue).runFrom x.bus schedule = some bus) :
    (machine y).runFrom x (schedule.map .bus) = some { x with bus := bus } := by
  induction schedule generalizing x with
  | nil =>
    obtain rfl : x.bus = bus := by simpa using run
    rfl
  | cons a schedule ih =>
    rw [Machine.runFrom_cons] at run
    obtain ⟨next, moved, rest⟩ := Option.bind_eq_some_iff.mp run
    have here : (machine y).step x (.bus a) = some { x with bus := next } := by
      have moved' : x.bus.step a = some next := moved
      simp only [machine, Shutdown.step, moved', Option.map_some]
    rw [List.map_cons, Machine.runFrom_cons, here]
    exact ih rest

/-- From the line after its `unsubscribe`, `stop` returns without the bus moving. -/
theorem runFrom_stop (at_request : x.pc = .requestStop) :
    ∃ schedule z, (machine y).runFrom x schedule = some z ∧ z.pc = .returned ∧
      z.bus = x.bus ∧ z.mark = x.bus.delivered.length := by
  let z : Shutdown τ := { x with
    stopRequested := true
    serving := false
    context := false
    pc := .returned
    mark := x.bus.delivered.length }
  cases serving : x.serving with
  | true =>
    refine ⟨[.stop, .service, .stop, .stop], z, ?_, rfl, rfl, rfl⟩
    simp [machine, Machine.runFrom_cons, Shutdown.step, stopStep, at_request, serving, z]
  | false =>
    refine ⟨[.stop, .stop, .stop], z, ?_, rfl, rfl, rfl⟩
    simp [machine, Machine.runFrom_cons, Shutdown.step, stopStep, at_request, serving, z]

/-- `IrspServer::stop` keeps late events out exactly when the worker does not
have the server's handler pending at the `unsubscribe` line. -/
theorem stop_quiesces_iff (queue : MpmcQueue Event) (numbered : s.Numbered)
    (held : ∃ sub ∈ s.subscriptions, sub.id = id) (at_bus : x.bus = s)
    (at_unsubscribe : x.pc = .unsubscribe) (own : x.eventSubId = id)
    (step : x.step .stop = some y) :
    (∀ schedule z, (machine y).runFrom y schedule = some z →
      ∀ d ∈ z.late, d.subscription ≠ id) ↔ ¬s.Pending id := by
  have nonzero : id ≠ 0 := by
    obtain ⟨sub, found, rfl⟩ := held
    exact Nat.pos_iff_ne_zero.mp (numbered.positive sub found)
  have after : y = { x with bus := s.unsubscribe id, eventSubId := 0, pc := .requestStop } := by
    simp only [Shutdown.step, stopStep, at_unsubscribe, own, nonzero, ne_eq, not_false_eq_true,
      if_true, at_bus] at step
    exact (Option.some_inj.mp step).symm
  have bus : y.bus = s.unsubscribe id := by rw [after]
  have next : y.pc = .requestStop := by rw [after]
  constructor
  · intro quiet pending
    have still : y.bus.Pending id := by
      rw [bus]
      exact pending
    obtain ⟨first, r, stopped, returned, same_bus, mark⟩ := runFrom_stop (y := y) next
    rw [← same_bus] at still
    obtain ⟨more, last, calls, run, delivered, d, called, same⟩ := still.calls queue
    let z : Shutdown τ := { r with bus := last }
    have whole : (machine y).runFrom y (first ++ more.map .bus) = some z := by
      rw [Machine.runFrom_append, stopped]
      exact runFrom_bus more run
    have late : d ∈ z.late := by
      have counted : z.late = last.delivered.drop r.mark := if_pos returned
      rw [counted, delivered, mark, same_bus, List.drop_left]
      exact called
    exact quiet _ z whole d late same
  · intro idle schedule z run
    have start : Quiet s id y := by
      refine ⟨?_, ?_, fun returned => ?_⟩
      · rw [bus]
        exact Bus.gone_unsubscribe numbered held idle
      · rw [bus]
        exact Bus.spares_of_eq rfl id
      · rw [next] at returned
        contradiction
    have keep : ∀ (u : Shutdown τ) (a : Action τ) (v : Shutdown τ), Quiet s id u → True →
        (machine y).step u a = some v → Quiet s id v := fun _ _ _ h _ moved => h.step moved
    have quiet := (machine y).invariant_of_steps (fun _ _ => True) _ keep y schedule z start
      ((machine y).steps_of_forall _ (fun _ _ => trivial) y schedule) run
    exact quiet.late

end Shutdown

/-- `unsubscribe` ends the calls of a handler, and `IrspServer::stop` those of
`onEvent`, exactly when the worker holds no copy of the subscription that it is
still going to call. -/
theorem unsubscribe_quiesces_iff {τ : Type*} [DecidableEq τ] (queue : MpmcQueue Event)
    (past : List (EventBus.Action τ)) (s : Bus τ)
    (reached : (Bus.machine τ queue).run past = some s) (id : Nat)
    (held : ∃ sub ∈ s.subscriptions, sub.id = id) :
    ((∀ schedule s', (Bus.machine τ queue).runFrom (s.unsubscribe id) schedule = some s' →
      ∀ d ∈ s'.delivered.drop s.delivered.length, d.subscription ≠ id) ↔ ¬s.Pending id) ∧
    ∀ x y : Shutdown τ, x.bus = s → x.pc = .unsubscribe → x.eventSubId = id →
      x.step .stop = some y →
        ((∀ schedule z, (Shutdown.machine y).runFrom y schedule = some z →
          ∀ d ∈ z.late, d.subscription ≠ id) ↔ ¬s.Pending id) := by
  have numbered := Bus.numbered_run queue past s reached
  refine ⟨Bus.quiesces_iff queue numbered held, ?_⟩
  intro x y at_bus at_unsubscribe own step
  exact Shutdown.stop_quiesces_iff queue numbered held at_bus at_unsubscribe own step

/-- A bus with one subscription, whose worker has nothing in hand. -/
theorem unsubscribe_quiesces_idle : ∃ (queue : MpmcQueue Event) (s : Bus Unit),
    MpmcQueue.create 2 = some queue ∧
    (Bus.machine Unit queue).run [.subscribe {}] = some s ∧
    ∀ schedule s', (Bus.machine Unit queue).runFrom (s.unsubscribe 1) schedule = some s' →
      ∀ d ∈ s'.delivered.drop s.delivered.length, d.subscription ≠ 1 := by
  obtain ⟨queue, made⟩ : ∃ queue : MpmcQueue Event, MpmcQueue.create 2 = some queue := ⟨_, rfl⟩
  let s : Bus Unit := (Bus.started queue).subscribe {}
  have run : (Bus.machine Unit queue).run [.subscribe {}] = some s := rfl
  have held : ∃ sub ∈ s.subscriptions, sub.id = 1 := ⟨⟨1, {}⟩, List.mem_singleton_self _, rfl⟩
  have quiesces := unsubscribe_quiesces_iff queue [.subscribe {}] s run 1 held
  exact ⟨queue, s, made, run, quiesces.1.mpr (fun pending => pending)⟩

/-- The worker is preempted between copying the subscriptions and the first call. -/
def interrupted : List (EventBus.Action Unit) :=
  [.subscribe {}, .publish () Bus.sample, .publisher () false, .publisher () false,
    .publisher () false, .publisher () false, .publisher () false, .publisher () false,
    .worker false, .worker false, .worker false, .worker false, .worker false, .worker false,
    .worker false, .worker false, .worker false]

/-- The server whose `stop` is about to unsubscribe. -/
def stopping (s : Bus Unit) : Shutdown Unit where
  bus := s
  running := false
  eventSubId := 1
  stopRequested := false
  serving := true
  context := true
  pc := .unsubscribe
  mark := 0

/-- The handler is called after `unsubscribe` has returned true, and `onEvent`
after `stop` has returned and the context is destroyed. -/
theorem not_unsubscribe_quiesces :
    (¬∀ (queue : MpmcQueue Event) (s : Bus Unit), MpmcQueue.create 2 = some queue →
      (Bus.machine Unit queue).run interrupted = some s → (∃ sub ∈ s.subscriptions, sub.id = 1) →
      ∀ schedule s', (Bus.machine Unit queue).runFrom (s.unsubscribe 1) schedule = some s' →
        ∀ d ∈ s'.delivered.drop s.delivered.length, d.subscription ≠ 1) ∧
    ¬∀ (queue : MpmcQueue Event) (s : Bus Unit), MpmcQueue.create 2 = some queue →
      (Bus.machine Unit queue).run interrupted = some s → ∀ schedule z,
        (Shutdown.machine (stopping s)).runFrom (stopping s) schedule = some z →
          ¬z.context → ∀ d ∈ z.late, d.subscription ≠ 1 := by
  obtain ⟨queue, made⟩ : ∃ queue : MpmcQueue Event, MpmcQueue.create 2 = some queue := ⟨_, rfl⟩
  constructor
  · intro quiesces
    have ends : ((Bus.machine Unit queue).run interrupted).bind (fun s =>
        ((Bus.machine Unit queue).runFrom (s.unsubscribe 1) [.worker false]).map (fun s' =>
          (s.subscriptions, s.delivered, s'.delivered))) =
        some ([⟨1, {}⟩], [], [⟨1, 0, Bus.sample⟩]) := by
      obtain rfl := Option.some_inj.mp made
      rfl
    obtain ⟨s, run, rest⟩ := Option.bind_eq_some_iff.mp ends
    obtain ⟨s', next, last⟩ := Option.map_eq_some_iff.mp rest
    injection last with subscriptions last
    injection last with before after
    have held : ∃ sub ∈ s.subscriptions, sub.id = 1 := by
      rw [subscriptions]
      exact ⟨⟨1, {}⟩, List.mem_singleton_self _, rfl⟩
    have called : ⟨1, 0, Bus.sample⟩ ∈ s'.delivered.drop s.delivered.length := by
      rw [before, after]
      exact List.mem_singleton_self _
    exact quiesces queue s made run held [.worker false] s' next _ called rfl
  · intro quiesces
    have ends : ((Bus.machine Unit queue).run interrupted).bind (fun s =>
        ((Shutdown.machine (stopping s)).runFrom (stopping s)
          [.stop, .stop, .service, .stop, .stop, .bus (.worker false)]).map (fun z =>
            (z.context, z.late))) = some (false, [⟨1, 0, Bus.sample⟩]) := by
      obtain rfl := Option.some_inj.mp made
      rfl
    obtain ⟨s, run, rest⟩ := Option.bind_eq_some_iff.mp ends
    obtain ⟨z, next, last⟩ := Option.map_eq_some_iff.mp rest
    injection last with context late
    have called : ⟨1, 0, Bus.sample⟩ ∈ z.late := by
      rw [late]
      exact List.mem_singleton_self _
    exact quiesces queue s made run _ z next (by rw [context]; decide) _ called rfl

end EventShutdown

end IndustrialRuntime.Irsp
