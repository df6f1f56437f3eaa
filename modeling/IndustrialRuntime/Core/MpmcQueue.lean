import IndustrialRuntime.Lib.Machine
import Mathlib.Data.Nat.Bitwise
import Mathlib.Logic.Function.Basic

namespace IndustrialRuntime.Core

/-- A cell of the ring; `none` is a default-constructed or moved-from `T`. -/
structure Cell (T : Type*) where
  sequence : UInt64
  data : Option T

/-- The cells are indexed by `pos & mask`, which stays below the capacity. -/
structure MpmcQueue (T : Type*) where
  buffer : Nat → Cell T
  mask : UInt64
  enqueuePos : UInt64
  dequeuePos : UInt64

namespace MpmcQueue

variable {T : Type*}

/-- The loop `while (p < n) p <<= 1`; `none` is a loop that is still running. -/
def doubleUntil (n : UInt64) : Nat → UInt64 → Option UInt64
  | 0, _ => none
  | fuel + 1, p => if p < n then doubleUntil n fuel (p <<< 1) else some p

def roundUpPow2 (n : UInt64) : Option UInt64 := if n < 2 then some 2 else doubleUntil n 65 1

/-- The constructor; `none` when `roundUpPow2` does not return. -/
def create (capacity : UInt64) : Option (MpmcQueue T) :=
  (roundUpPow2 capacity).map fun size =>
    { buffer := fun i => ⟨UInt64.ofNat i, none⟩
      mask := size - 1
      enqueuePos := 0
      dequeuePos := 0 }

def index (q : MpmcQueue T) (pos : UInt64) : Nat := (pos &&& q.mask).toNat

def cell (q : MpmcQueue T) (pos : UInt64) : Cell T := q.buffer (q.index pos)

def setData (q : MpmcQueue T) (pos : UInt64) (data : Option T) : MpmcQueue T :=
  { q with buffer := Function.update q.buffer (q.index pos) { q.cell pos with data := data } }

def setSequence (q : MpmcQueue T) (pos sequence : UInt64) : MpmcQueue T :=
  { q with
    buffer := Function.update q.buffer (q.index pos) { q.cell pos with sequence := sequence } }

/-- Signed difference of two positions. -/
def diff (a b : UInt64) : Int64 := a.toInt64 - b.toInt64

/-- The next atomic step of a call of `tryEnqueue(item)`. -/
inductive EnqueuePc (T : Type*) where
  | loadPos (item : T)
  | loadSequence (item : T) (pos : UInt64)
  | compareExchange (item : T) (pos : UInt64)
  | storeData (item : T) (pos : UInt64)
  | storeSequence (pos : UInt64)

/-- The next atomic step of a call of `tryDequeue(out)`. -/
inductive DequeuePc (T : Type*) where
  | loadPos
  | loadSequence (pos : UInt64)
  | compareExchange (pos : UInt64)
  | moveData (pos : UInt64)
  | storeSequence (pos : UInt64) (out : Option T)

/-- A step either reaches the next program point or returns from the call. -/
inductive Progress (P R : Type*) where
  | goto (pc : P)
  | finish (result : R)

/-- One step of `tryEnqueue`; `spurious` lets `compare_exchange_weak` fail. A
failed exchange loads the current position. -/
def enqueueStep (q : MpmcQueue T) (spurious : Bool) :
    EnqueuePc T → MpmcQueue T × Progress (EnqueuePc T) Bool
  | .loadPos item => (q, .goto (.loadSequence item q.enqueuePos))
  | .loadSequence item pos =>
    if diff (q.cell pos).sequence pos = 0 then (q, .goto (.compareExchange item pos))
    else if diff (q.cell pos).sequence pos < 0 then (q, .finish false)
    else (q, .goto (.loadPos item))
  | .compareExchange item pos =>
    if q.enqueuePos = pos ∧ !spurious then
      ({ q with enqueuePos := pos + 1 }, .goto (.storeData item pos))
    else (q, .goto (.loadSequence item q.enqueuePos))
  | .storeData item pos => (q.setData pos (some item), .goto (.storeSequence pos))
  | .storeSequence pos => (q.setSequence pos (pos + 1), .finish true)

/-- One step of `tryDequeue`; the result is the item moved to `out`, if any. -/
def dequeueStep (q : MpmcQueue T) (spurious : Bool) :
    DequeuePc T → MpmcQueue T × Progress (DequeuePc T) (Option (Option T))
  | .loadPos => (q, .goto (.loadSequence q.dequeuePos))
  | .loadSequence pos =>
    if diff (q.cell pos).sequence (pos + 1) = 0 then (q, .goto (.compareExchange pos))
    else if diff (q.cell pos).sequence (pos + 1) < 0 then (q, .finish none)
    else (q, .goto .loadPos)
  | .compareExchange pos =>
    if q.dequeuePos = pos ∧ !spurious then
      ({ q with dequeuePos := pos + 1 }, .goto (.moveData pos))
    else (q, .goto (.loadSequence q.dequeuePos))
  | .moveData pos => (q.setData pos none, .goto (.storeSequence pos (q.cell pos).data))
  | .storeSequence pos out => (q.setSequence pos (pos + q.mask + 1), .finish (some out))

/-! ### Any number of threads -/

/-- What a thread is doing with the queue. -/
inductive Pc (T : Type*) where
  | idle
  | enqueue (pc : EnqueuePc T)
  | dequeue (pc : DequeuePc T)

structure Enqueued (τ T : Type*) where
  ticket : UInt64
  thread : τ
  item : T

structure Dequeued (τ : Type*) where
  ticket : UInt64
  thread : τ

structure Received (τ T : Type*) where
  ticket : UInt64
  thread : τ
  item : Option T

/-- The queue, its threads, and a record of the run: the tickets in the order
their exchanges won, the items in the order their calls returned them, and the
number of `tryEnqueue` calls made. -/
structure System (τ T : Type*) where
  queue : MpmcQueue T
  pc : τ → Pc T
  enqueued : List (Enqueued τ T)
  dequeued : List (Dequeued τ)
  received : List (Received τ T)
  offers : Nat

inductive Action (τ T : Type*) where
  | enqueue (thread : τ) (item : T)
  | dequeue (thread : τ)
  | advance (thread : τ) (spurious : Bool)

/-- What a call returned: the result of `tryEnqueue`, or the item of `tryDequeue`. -/
inductive Outcome (T : Type*) where
  | enqueue (accepted : Bool)
  | dequeue (out : Option (Option T))

namespace System

variable {τ : Type*} [DecidableEq τ]

def start (queue : MpmcQueue T) : System τ T := ⟨queue, fun _ => .idle, [], [], [], 0⟩

def goto (s : System τ T) (t : τ) (pc : Pc T) : System τ T :=
  { s with pc := Function.update s.pc t pc }

/-- A won exchange of the enqueue position. -/
def claimedEnqueue (t : τ) : EnqueuePc T → EnqueuePc T → List (Enqueued τ T)
  | .compareExchange _ _, .storeData item pos => [⟨pos, t, item⟩]
  | _, _ => []

/-- A won exchange of the dequeue position. -/
def claimedDequeue (t : τ) : DequeuePc T → DequeuePc T → List (Dequeued τ)
  | .compareExchange _, .moveData pos => [⟨pos, t⟩]
  | _, _ => []

/-- The item a returning dequeue hands out. -/
def handedOut (t : τ) : DequeuePc T → List (Received τ T)
  | .storeSequence pos out => [⟨pos, t, out⟩]
  | _ => []

/-- One atomic step of a thread that is inside a call. -/
def advance (s : System τ T) (t : τ) (spurious : Bool) :
    Option (System τ T × Option (Outcome T)) :=
  match s.pc t with
  | .idle => none
  | .enqueue pc =>
    match s.queue.enqueueStep spurious pc with
    | (queue, .goto next) =>
      some ({ s.goto t (.enqueue next) with
        queue := queue
        enqueued := s.enqueued ++ claimedEnqueue t pc next }, none)
    | (queue, .finish accepted) =>
      some ({ s.goto t .idle with queue := queue }, some (.enqueue accepted))
  | .dequeue pc =>
    match s.queue.dequeueStep spurious pc with
    | (queue, .goto next) =>
      some ({ s.goto t (.dequeue next) with
        queue := queue
        dequeued := s.dequeued ++ claimedDequeue t pc next }, none)
    | (queue, .finish out) =>
      some ({ s.goto t .idle with
        queue := queue
        received := s.received ++ handedOut t pc }, some (.dequeue out))

/-- A thread that is in no call starts `tryEnqueue(item)`. -/
def offer (s : System τ T) (t : τ) (item : T) : Option (System τ T) :=
  match s.pc t with
  | .idle => some { s.goto t (.enqueue (.loadPos item)) with offers := s.offers + 1 }
  | _ => none

/-- A thread that is in no call starts `tryDequeue`. -/
def poll (s : System τ T) (t : τ) : Option (System τ T) :=
  match s.pc t with
  | .idle => some (s.goto t (.dequeue .loadPos))
  | _ => none

def step (s : System τ T) : Action τ T → Option (System τ T)
  | .enqueue t item => s.offer t item
  | .dequeue t => s.poll t
  | .advance t spurious => (s.advance t spurious).map Prod.fst

def machine (τ : Type*) [DecidableEq τ] (queue : MpmcQueue T) : Machine (System τ T) (Action τ T) :=
  ⟨start queue, step⟩

end System

end MpmcQueue

end IndustrialRuntime.Core
