import IndustrialRuntime.Core.EventBus
import IndustrialRuntime.Core.MpmcThreads

namespace IndustrialRuntime.Core.EventBus.Bus

variable {τ : Type*}

/-- A new subscription has the next id, which no other has. -/
theorem nodup_subscribe (s : Bus τ) (filter : Filter)
    (ids : (s.subscriptions.map Subscription.id).Nodup)
    (fresh : ∀ sub ∈ s.subscriptions, sub.id < s.nextId) :
    ((s.subscribe filter).subscriptions.map Subscription.id).Nodup := by
  have new : ∀ id ∈ s.subscriptions.map Subscription.id, ∀ other ∈ [s.nextId], id ≠ other := by
    intro id taken other own
    obtain ⟨sub, held, rfl⟩ := List.mem_map.mp taken
    rw [List.mem_singleton.mp own]
    exact (fresh sub held).ne
  rw [subscribe, List.map_append]
  exact List.nodup_append.mpr ⟨ids, List.nodup_singleton _, new⟩

theorem fresh_subscribe (s : Bus τ) (filter : Filter)
    (fresh : ∀ sub ∈ s.subscriptions, sub.id < s.nextId) :
    ∀ sub ∈ (s.subscribe filter).subscriptions, sub.id < (s.subscribe filter).nextId := by
  intro sub held
  rcases List.mem_append.mp held with old | new
  · exact Nat.lt_succ_of_lt (fresh sub old)
  · rw [List.mem_singleton.mp new]
    exact Nat.lt_succ_self _

variable [DecidableEq τ]

/-- What one step of the bus can do. -/
inductive Moved (s : Bus τ) : Action τ → Bus τ → Prop where
  | publish (t : τ) (event : Event) (queue : MpmcQueue.System (Option τ) Event)
      (before : s.publisher t = .idle) (offer : s.queue.offer (some t) event = some queue) :
      Moved s (.publish t event)
        { s.setPublisher t (.enqueueing event s.subscriptions) with queue := queue }
  | enqueue (t : τ) (spurious : Bool) (event : Event) (held : List Subscription)
      (queue : MpmcQueue.System (Option τ) Event)
      (before : s.publisher t = .enqueueing event held)
      (advance : s.queue.advance (some t) spurious = some (queue, none)) :
      Moved s (.publisher t spurious) { s with queue := queue }
  | enqueued (t : τ) (spurious : Bool) (event : Event) (held : List Subscription)
      (queue : MpmcQueue.System (Option τ) Event)
      (before : s.publisher t = .enqueueing event held)
      (advance : s.queue.advance (some t) spurious = some (queue, some (.enqueue true))) :
      Moved s (.publisher t spurious)
        { s.setPublisher t (.releasing ((s.queue.pc (some t)).writes.getD 0) event held) with
          queue := queue }
  | full (t : τ) (spurious : Bool) (event : Event) (held : List Subscription)
      (queue : MpmcQueue.System (Option τ) Event)
      (before : s.publisher t = .enqueueing event held)
      (advance : s.queue.advance (some t) spurious = some (queue, some (.enqueue false))) :
      Moved s (.publisher t spurious) { s.setPublisher t .dropping with queue := queue }
  | release (t : τ) (spurious : Bool) (ticket : UInt64) (event : Event)
      (held : List Subscription) (before : s.publisher t = .releasing ticket event held) :
      Moved s (.publisher t spurious)
        { s.setPublisher t .idle with
          signal := s.signal + 1
          accepted := if s.stopper = .notCalled then s.accepted ++ [⟨ticket, event, held⟩]
            else s.accepted }
  | drop (t : τ) (spurious : Bool) (before : s.publisher t = .dropping) :
      Moved s (.publisher t spurious) { s.setPublisher t .idle with dropped := s.dropped + 1 }
  | checkStop (choice : Bool) (before : s.worker = .checkStop) :
      Moved s (.worker choice)
        { s with worker := if s.stopRequested then .poll true else .acquire }
  | acquire (choice : Bool) (signal : Nat) (before : s.worker = .acquire) :
      Moved s (.worker choice) { s with signal := signal, worker := .poll false }
  | poll (choice final : Bool) (queue : MpmcQueue.System (Option τ) Event)
      (before : s.worker = .poll final) (poll : s.queue.poll none = some queue) :
      Moved s (.worker choice) { s with queue := queue, worker := .dequeueing final }
  | dequeue (choice final : Bool) (queue : MpmcQueue.System (Option τ) Event)
      (before : s.worker = .dequeueing final)
      (advance : s.queue.advance none choice = some (queue, none)) :
      Moved s (.worker choice) { s with queue := queue }
  | empty (choice final : Bool) (queue : MpmcQueue.System (Option τ) Event)
      (before : s.worker = .dequeueing final)
      (advance : s.queue.advance none choice = some (queue, some (.dequeue none))) :
      Moved s (.worker choice)
        { s with queue := queue, worker := if final then .finished else .checkStop }
  | dequeued (choice final : Bool) (queue : MpmcQueue.System (Option τ) Event)
      (item : Option Event) (before : s.worker = .dequeueing final)
      (advance : s.queue.advance none choice = some (queue, some (.dequeue (some item)))) :
      Moved s (.worker choice)
        { s with
          queue := queue
          worker := .snapshot final ((s.queue.pc none).reads.getD 0) (item.getD {}) }
  | snapshot (choice final : Bool) (ticket : UInt64) (event : Event)
      (before : s.worker = .snapshot final ticket event) :
      Moved s (.worker choice)
        { s with
          worker := .deliver final ticket event s.subscriptions
          snapshots := s.snapshots ++ [s.subscriptions] }
  | delivered (choice final : Bool) (ticket : UInt64) (event : Event)
      (before : s.worker = .deliver final ticket event []) :
      Moved s (.worker choice) { s with worker := .poll final }
  | deliver (choice final : Bool) (ticket : UInt64) (event : Event) (sub : Subscription)
      (rest : List Subscription) (before : s.worker = .deliver final ticket event (sub :: rest)) :
      Moved s (.worker choice)
        { s with
          worker := .deliver final ticket event rest
          delivered := if sub.wants event then s.delivered ++ [⟨sub.id, ticket, event⟩]
            else s.delivered }
  | subscribe (filter : Filter) : Moved s (.subscribe filter) (s.subscribe filter)
  | unsubscribe (id : Nat) : Moved s (.unsubscribe id) (s.unsubscribe id)
  | stop (s' : Bus τ) (h : s.stopStep = some s') : Moved s .stop s'

theorem moved_of_step {s s' : Bus τ} {a : Action τ} (h : s.step a = some s') : s.Moved a s' := by
  cases a with
  | publish t event =>
    simp only [step, publish] at h
    cases before : s.publisher t with
    | idle =>
      rw [before] at h
      obtain ⟨queue, offer, rfl⟩ := Option.map_eq_some_iff.mp h
      exact .publish t event queue before offer
    | enqueueing => simp [before] at h
    | releasing => simp [before] at h
    | dropping => simp [before] at h
  | publisher t spurious =>
    simp only [step, publisherStep] at h
    cases before : s.publisher t with
    | idle => simp [before] at h
    | enqueueing event held =>
      simp only [before] at h
      split at h
      · obtain rfl := Option.some_inj.mp h
        exact .enqueue t spurious event held _ before ‹_›
      · obtain rfl := Option.some_inj.mp h
        exact .enqueued t spurious event held _ before ‹_›
      · obtain rfl := Option.some_inj.mp h
        exact .full t spurious event held _ before ‹_›
      · contradiction
    | releasing ticket event held =>
      simp only [before] at h
      obtain rfl := Option.some_inj.mp h
      exact .release t spurious ticket event held before
    | dropping =>
      simp only [before] at h
      obtain rfl := Option.some_inj.mp h
      exact .drop t spurious before
  | worker choice =>
    simp only [step, workerStep] at h
    cases before : s.worker with
    | checkStop =>
      simp only [before] at h
      obtain rfl := Option.some_inj.mp h
      exact .checkStop choice before
    | acquire =>
      simp only [before] at h
      split_ifs at h with hc hs
      · obtain rfl := Option.some_inj.mp h
        exact .acquire choice _ before
      · obtain rfl := Option.some_inj.mp h
        exact .acquire choice s.signal before
    | poll final =>
      simp only [before] at h
      obtain ⟨queue, poll, rfl⟩ := Option.map_eq_some_iff.mp h
      exact .poll choice final queue before poll
    | dequeueing final =>
      simp only [before] at h
      split at h
      · obtain rfl := Option.some_inj.mp h
        rw [← before]
        exact .dequeue choice final _ before ‹_›
      · obtain rfl := Option.some_inj.mp h
        exact .empty choice final _ before ‹_›
      · obtain rfl := Option.some_inj.mp h
        exact .dequeued choice final _ _ before ‹_›
      · contradiction
    | snapshot final ticket event =>
      simp only [before] at h
      obtain rfl := Option.some_inj.mp h
      exact .snapshot choice final ticket event before
    | deliver final ticket event rest =>
      cases rest with
      | nil =>
        simp only [before] at h
        obtain rfl := Option.some_inj.mp h
        exact .delivered choice final ticket event before
      | cons sub rest =>
        simp only [before] at h
        obtain rfl := Option.some_inj.mp h
        exact .deliver choice final ticket event sub rest before
    | finished => simp [before] at h
  | subscribe filter =>
    obtain rfl := Option.some_inj.mp h
    exact .subscribe filter
  | unsubscribe id =>
    obtain rfl := Option.some_inj.mp h
    exact .unsubscribe id
  | stop => exact .stop s' h

end IndustrialRuntime.Core.EventBus.Bus
