import IndustrialRuntime.Core.MpmcInvariant
import IndustrialRuntime.Core.Types

namespace IndustrialRuntime.Core

inductive EventSeverity where
  | info | warning | alarm | critical
  deriving DecidableEq, Repr

/-- The value of the enumerator. -/
def EventSeverity.rank : EventSeverity → Nat
  | .info => 0
  | .warning => 1
  | .alarm => 2
  | .critical => 3

structure Event where
  source : Bytes := []
  category : Bytes := []
  message : Bytes := []
  severity : EventSeverity := .info
  timestamp : Timestamp := 0
  deriving DecidableEq, Repr

namespace EventBus

structure Filter where
  minSeverity : EventSeverity := .info
  category : Bytes := []
  deriving DecidableEq, Repr

/-- A subscription; its handler is known by its id. -/
structure Subscription where
  id : Nat
  filter : Filter
  deriving DecidableEq, Repr

/-- The two tests of `deliver`. -/
def Subscription.wants (sub : Subscription) (event : Event) : Bool :=
  if event.severity.rank < sub.filter.minSeverity.rank then false
  else if !sub.filter.category.isEmpty && sub.filter.category != event.category then false
  else true

/-- The dispatch thread; `final` is the drain after the stop request. -/
inductive WorkerPc where
  | checkStop
  | acquire
  | poll (final : Bool)
  | dequeueing (final : Bool)
  | snapshot (final : Bool) (ticket : UInt64) (event : Event)
  | deliver (final : Bool) (ticket : UInt64) (event : Event) (rest : List Subscription)
  | finished
  deriving DecidableEq

/-- A publishing thread; `held` records the subscriptions of the call's start. -/
inductive PublishPc where
  | idle
  | enqueueing (event : Event) (held : List Subscription)
  | releasing (ticket : UInt64) (event : Event) (held : List Subscription)
  | dropping
  deriving DecidableEq

/-- The thread that calls `stop`. -/
inductive StopPc where
  | notCalled | exchange | requestStop | release | join | returned
  deriving DecidableEq

/-- A `publish` that returned true before `stop` was called. -/
structure Accepted where
  ticket : UInt64
  event : Event
  held : List Subscription

/-- One call of a handler. -/
structure Delivery where
  subscription : Nat
  ticket : UInt64
  event : Event
  deriving DecidableEq

/-- A running bus and its threads: the worker is the queue's thread `none`, the
publishers are `some t`. `accepted`, `delivered` and `snapshots` record the run. -/
structure Bus (τ : Type*) where
  queue : MpmcQueue.System (Option τ) Event
  signal : Nat
  dropped : Nat
  subscriptions : List Subscription
  nextId : Nat
  running : Bool
  stopRequested : Bool
  worker : WorkerPc
  stopper : StopPc
  publisher : τ → PublishPc
  accepted : List Accepted
  delivered : List Delivery
  snapshots : List (List Subscription)

inductive Action (τ : Type*) where
  | publish (thread : τ) (event : Event)
  | publisher (thread : τ) (spurious : Bool)
  | worker (choice : Bool)
  | subscribe (filter : Filter)
  | unsubscribe (id : Nat)
  | stop

namespace Bus

variable {τ : Type*} [DecidableEq τ]

/-- The bus after `start`. -/
def started (queue : MpmcQueue Event) : Bus τ where
  queue := .start queue
  signal := 0
  dropped := 0
  subscriptions := []
  nextId := 1
  running := true
  stopRequested := false
  worker := .checkStop
  stopper := .notCalled
  publisher _ := .idle
  accepted := []
  delivered := []
  snapshots := []

def setPublisher (s : Bus τ) (t : τ) (pc : PublishPc) : Bus τ :=
  { s with publisher := Function.update s.publisher t pc }

def publish (s : Bus τ) (t : τ) (event : Event) : Option (Bus τ) :=
  match s.publisher t with
  | .idle =>
    (s.queue.offer (some t) event).map fun queue =>
      { s.setPublisher t (.enqueueing event s.subscriptions) with queue := queue }
  | _ => none

/-- The next atomic step of a `publish` call. -/
def publisherStep (s : Bus τ) (t : τ) (spurious : Bool) : Option (Bus τ) :=
  match s.publisher t with
  | .idle => none
  | .enqueueing event held =>
    match s.queue.advance (some t) spurious with
    | some (queue, none) => some { s with queue := queue }
    | some (queue, some (.enqueue true)) =>
      let ticket := (s.queue.pc (some t)).writes.getD 0
      some { s.setPublisher t (.releasing ticket event held) with queue := queue }
    | some (queue, some (.enqueue false)) =>
      some { s.setPublisher t .dropping with queue := queue }
    | _ => none
  | .releasing ticket event held =>
    let accepted :=
      if s.stopper = .notCalled then s.accepted ++ [⟨ticket, event, held⟩] else s.accepted
    some { s.setPublisher t .idle with signal := s.signal + 1, accepted := accepted }
  | .dropping => some { s.setPublisher t .idle with dropped := s.dropped + 1 }

/-- The next step of `dispatchLoop`; `choice` is the answer of `try_acquire_for`,
or a spurious failure inside `tryDequeue`. -/
def workerStep (s : Bus τ) (choice : Bool) : Option (Bus τ) :=
  match s.worker with
  | .checkStop =>
    some { s with worker := if s.stopRequested then .poll true else .acquire }
  | .acquire =>
    if choice then
      if 0 < s.signal then some { s with signal := s.signal - 1, worker := .poll false } else none
    else some { s with worker := .poll false }
  | .poll final =>
    (s.queue.poll none).map fun queue => { s with queue := queue, worker := .dequeueing final }
  | .dequeueing final =>
    match s.queue.advance none choice with
    | some (queue, none) => some { s with queue := queue }
    | some (queue, some (.dequeue none)) =>
      some { s with queue := queue, worker := if final then .finished else .checkStop }
    | some (queue, some (.dequeue (some item))) =>
      let ticket := (s.queue.pc none).reads.getD 0
      some { s with queue := queue, worker := .snapshot final ticket (item.getD {}) }
    | _ => none
  | .snapshot final ticket event =>
    some { s with
      worker := .deliver final ticket event s.subscriptions
      snapshots := s.snapshots ++ [s.subscriptions] }
  | .deliver final _ _ [] => some { s with worker := .poll final }
  | .deliver final ticket event (sub :: rest) =>
    let delivered :=
      if sub.wants event then s.delivered ++ [⟨sub.id, ticket, event⟩] else s.delivered
    some { s with worker := .deliver final ticket event rest, delivered := delivered }
  | .finished => none

def subscribe (s : Bus τ) (filter : Filter) : Bus τ :=
  { s with subscriptions := s.subscriptions ++ [⟨s.nextId, filter⟩], nextId := s.nextId + 1 }

def unsubscribe (s : Bus τ) (id : Nat) : Bus τ :=
  { s with subscriptions := s.subscriptions.eraseP (fun sub => sub.id = id) }

/-- The next step of `stop`; `join` waits for the worker. -/
def stopStep (s : Bus τ) : Option (Bus τ) :=
  match s.stopper with
  | .notCalled => some { s with stopper := .exchange }
  | .exchange =>
    if s.running then some { s with running := false, stopper := .requestStop }
    else some { s with stopper := .returned }
  | .requestStop => some { s with stopRequested := true, stopper := .release }
  | .release => some { s with signal := s.signal + 1, stopper := .join }
  | .join => if s.worker = .finished then some { s with stopper := .returned } else none
  | .returned => none

def step (s : Bus τ) : Action τ → Option (Bus τ)
  | .publish t event => s.publish t event
  | .publisher t spurious => s.publisherStep t spurious
  | .worker choice => s.workerStep choice
  | .subscribe filter => some (s.subscribe filter)
  | .unsubscribe id => some (s.unsubscribe id)
  | .stop => s.stopStep

def machine (τ : Type*) [DecidableEq τ] (queue : MpmcQueue Event) : Machine (Bus τ) (Action τ) :=
  ⟨started queue, step⟩

end Bus

end EventBus

end IndustrialRuntime.Core
