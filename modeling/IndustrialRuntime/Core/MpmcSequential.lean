import IndustrialRuntime.Core.MpmcThreads

namespace IndustrialRuntime.Core.MpmcQueue

variable {T : Type*}

/-! ### Calls from one thread -/

inductive Call (T : Type*) where
  | tryEnqueue (item : T)
  | tryDequeue

/-- What a call returns: whether the item was accepted, with what the caller's item holds then,
or what was moved to `out`, if anything was. -/
inductive Result (T : Type*) where
  | enqueued (accepted : Bool) (left : Option T)
  | dequeued (out : Option (Option T))

def Result.Failed : Result T → Prop
  | .enqueued accepted _ => accepted = false
  | .dequeued out => out = none

/-- A call from a program point on, one flag a step, with the point it returned from; `none`
when the flags end before the call does. -/
def runCall {P R : Type*} (step : MpmcQueue T → Bool → P → MpmcQueue T × Progress P R)
    (q : MpmcQueue T) : List Bool → P → Option (MpmcQueue T × R × P)
  | [], _ => none
  | spurious :: flags, pc =>
    match step q spurious pc with
    | (q', .goto next) => runCall step q' flags next
    | (q', .finish result) => some (q', result, pc)

def perform (q : MpmcQueue T) (flags : List Bool) : Call T → Option (MpmcQueue T × Result T)
  | .tryEnqueue item =>
    (runCall enqueueStep q flags (.loadPos item)).map fun r =>
      (r.1, .enqueued r.2.1 r.2.2.item)
  | .tryDequeue => (runCall dequeueStep q flags .loadPos).map fun r => (r.1, .dequeued r.2.1)

/-- One of the exchanges does not fail spuriously, and the call is given the steps it takes
from there. The exchanges are every second step. -/
def Exchanges (flags : List Bool) : Prop :=
  ∃ k, flags[2 * k + 2]? = some false ∧ 2 * k + 5 ≤ flags.length

/-- Calls one after the other. -/
def performAll (q : MpmcQueue T) :
    List (List Bool × Call T) → Option (MpmcQueue T × List (Result T))
  | [] => some (q, [])
  | (flags, c) :: calls =>
    match q.perform flags c with
    | none => none
    | some (q', result) =>
      (q'.performAll calls).map fun r => (r.1, result :: r.2)

/-! ### The bounded queue -/

namespace Fifo

/-- A queue of at most `C` items. -/
def perform (C : Nat) (items : List T) : Call T → List T × Result T
  | .tryEnqueue item =>
    if items.length < C then (items ++ [item], .enqueued true none)
    else (items, .enqueued false (some item))
  | .tryDequeue =>
    match items with
    | [] => ([], .dequeued none)
    | item :: rest => (rest, .dequeued (some (some item)))

def performAll (C : Nat) (items : List T) : List (Call T) → List T × List (Result T)
  | [] => (items, [])
  | c :: calls =>
    let r := perform C items c
    let rest := performAll C r.1 calls
    (rest.1, r.2 :: rest.2)

end Fifo

/-! ### The capacity -/

theorem toNat_double {p : UInt64} {k : Nat} (pow : p.toNat = 2 ^ k) (low : k < 63) :
    (p <<< 1).toNat = 2 ^ (k + 1) := by
  have doubled : (p <<< 1).toNat = p.toNat * 2 % 2 ^ 64 := by
    simp [UInt64.toNat_shiftLeft, Nat.shiftLeft_eq]
  rw [doubled, pow, ← Nat.pow_succ]
  exact Nat.mod_eq_of_lt (Nat.pow_lt_pow_right (by decide) (by omega))

/-- The doubling stops at the first power of two that is large enough. -/
theorem doubleUntil_least {n : UInt64} (small : n.toNat ≤ 2 ^ 63) {fuel k : Nat} {p : UInt64}
    (pow : p.toNat = 2 ^ k) (le : k ≤ 63) (enough : 64 ≤ fuel + k)
    (below : ∀ j < k, 2 ^ j < n.toNat) :
    ∃ c m, doubleUntil n fuel p = some c ∧ c.toNat = 2 ^ m ∧ m ≤ 63 ∧ n.toNat ≤ 2 ^ m ∧
      ∀ j < m, 2 ^ j < n.toNat := by
  induction fuel generalizing k p with
  | zero => omega
  | succ fuel ih =>
    rw [doubleUntil]
    by_cases less : p < n
    · have under : 2 ^ k < n.toNat := by
        rw [← pow]
        exact UInt64.lt_iff_toNat_lt.mp less
      have low : k < 63 := (Nat.pow_lt_pow_iff_right (by decide)).mp (under.trans_le small)
      rw [if_pos less]
      apply ih (toNat_double pow low) (by omega) (by omega)
      intro j inside
      obtain before | rfl := Nat.lt_succ_iff_lt_or_eq.mp inside
      · exact below j before
      · exact under
    · rw [if_neg less]
      have large := UInt64.le_iff_toNat_le.mp (UInt64.not_lt.mp less)
      rw [pow] at large
      exact ⟨p, k, rfl, pow, le, large, below⟩

/-- `C` is the least power of two that is at least two and at least `n`. -/
structure Capacity (n C : Nat) : Prop where
  pow : ∃ m, C = 2 ^ m
  ge : max 2 n ≤ C
  least : ∀ m, max 2 n ≤ 2 ^ m → C ≤ 2 ^ m

theorem capacity_roundUpPow2 {n : UInt64} (small : n.toNat ≤ 2 ^ 63) :
    ∃ c, roundUpPow2 n = some c ∧ Capacity n.toNat c.toNat ∧ c.toNat ≤ 2 ^ 63 := by
  rw [roundUpPow2]
  by_cases least : n < 2
  · have two : n.toNat < 2 := UInt64.lt_iff_toNat_lt.mp least
    have same : max 2 n.toNat = 2 := max_eq_left two.le
    rw [if_pos least]
    refine ⟨2, rfl, ⟨⟨1, rfl⟩, ?_, ?_⟩, by decide⟩
    · rw [same]
      exact le_rfl
    · intro m ge
      rw [same] at ge
      exact ge
  · have two : 2 ≤ n.toNat := UInt64.le_iff_toNat_le.mp (UInt64.not_lt.mp least)
    have same : max 2 n.toNat = n.toNat := max_eq_right two
    rw [if_neg least]
    have one : (1 : UInt64).toNat = 2 ^ 0 := rfl
    have enough : 64 ≤ 65 + 0 := by decide
    obtain ⟨c, m, stops, pow, le, ge, below⟩ :=
      doubleUntil_least small one (by decide) enough (by simp)
    refine ⟨c, stops, ⟨⟨m, pow⟩, ?_, ?_⟩, ?_⟩
    · rw [same, pow]
      exact ge
    · intro j large
      rw [same] at large
      rw [pow]
      apply Nat.pow_le_pow_right (by decide)
      by_contra shorter
      exact absurd (below j (not_le.mp shorter)) (not_lt.mpr large)
    · rw [pow]
      exact Nat.pow_le_pow_right (by decide) le

/-! ### The ring between two calls -/

/-- The cells from `d` on hold the items, and the others wait for the next lap. -/
structure Holds (q : MpmcQueue T) (C d : Nat) (items : List T) : Prop where
  sized : q.Sized C
  dequeuePos : q.dequeuePos.toNat = d
  enqueuePos : q.enqueuePos.toNat = d + items.length
  le : items.length ≤ C
  full : ∀ i item, items[i]? = some item →
    q.buffer ((d + i) % C) = ⟨UInt64.ofNat (d + i + 1), some item⟩
  free : ∀ k, d + items.length ≤ k → k < d + C → q.buffer (k % C) = ⟨UInt64.ofNat k, none⟩

theorem holds_create {n : UInt64} (small : n.toNat ≤ 2 ^ 63) :
    ∃ (q : MpmcQueue T) (C : Nat), create n = some q ∧ Capacity n.toNat C ∧ q.Holds C 0 [] := by
  obtain ⟨c, stops, capacity, le⟩ := capacity_roundUpPow2 small
  have two : 2 ≤ c.toNat := (Nat.le_max_left 2 n.toNat).trans capacity.ge
  have one_le : (1 : UInt64) ≤ c := UInt64.le_iff_toNat_le.mpr (by show 1 ≤ c.toNat; omega)
  refine ⟨_, c.toNat, by rw [create, stops]; rfl, capacity, ?_⟩
  refine ⟨⟨two, le, capacity.pow, ?_⟩, rfl, rfl, Nat.zero_le _, ?_, ?_⟩
  · show (c - 1).toNat = c.toNat - 1
    rw [UInt64.toNat_sub_of_le c 1 one_le]
    rfl
  · intro i item found
    simp at found
  · intro k _ inside
    rw [Nat.zero_add] at inside
    rw [Nat.mod_eq_of_lt inside]

theorem diff_neg {a b : UInt64} (less : a.toNat < b.toNat) (near : b.toNat - a.toNat ≤ 2 ^ 63) :
    diff a b < 0 := by
  have signed (c : UInt64) : c.toInt64.toInt = (c.toNat : Int).bmod (2 ^ 64) :=
    BitVec.toInt_eq_toNat_bmod c.toBitVec
  have same : (diff a b).toInt = (a.toNat : Int) - b.toNat := by
    rw [diff, Int64.toInt_sub, signed, signed, Int.sub_bmod_bmod, Int.bmod_sub_bmod]
    apply Int.bmod_eq_of_le <;> omega
  rw [Int64.lt_iff_toInt_lt, same, Int64.toInt_zero]
  omega

/-! ### One call -/

/-- The way of a call that gets its ticket: it checks the cell, exchanges the position, perhaps
again, and then owns the cell. -/
structure Wins {P R : Type*} (step : MpmcQueue T → Bool → P → MpmcQueue T × Progress P R)
    (q claimed moved done : MpmcQueue T) (check exchange move publish : P) (result : R) : Prop where
  checks : ∀ s, step q s check = (q, .goto exchange)
  fails : step q true exchange = (q, .goto check)
  claims : step q false exchange = (claimed, .goto move)
  moves : ∀ s, step claimed s move = (moved, .goto publish)
  publishes : ∀ s, step moved s publish = (done, .finish result)

/-- Spurious failures only lead back to the check. -/
theorem runCall_wins {P R : Type*} {step : MpmcQueue T → Bool → P → MpmcQueue T × Progress P R}
    {q claimed moved done : MpmcQueue T} {check exchange move publish : P} {result : R}
    (wins : Wins step q claimed moved done check exchange move publish result) :
    ∀ flags, runCall step q flags check = some (done, result, publish) ∨
      (runCall step q flags check = none ∧
        ∀ k, flags[2 * k + 1]? = some false → flags.length < 2 * k + 4)
  | [] => .inr ⟨rfl, by simp⟩
  | [s] => by
    refine .inr ⟨?_, by simp⟩
    simp only [runCall, wins.checks]
  | s :: true :: flags => by
    have again : runCall step q (s :: true :: flags) check = runCall step q flags check := by
      simp only [runCall, wins.checks, wins.fails]
    rw [again]
    obtain returns | ⟨runs, late⟩ := runCall_wins wins flags
    · exact .inl returns
    · refine .inr ⟨runs, ?_⟩
      intro k found
      cases k with
      | zero => simp at found
      | succ k =>
        have shorter := late k (by simpa [Nat.mul_succ] using found)
        simp only [List.length_cons]
        omega
  | [s, false] => by
    refine .inr ⟨?_, ?_⟩
    · simp only [runCall, wins.checks, wins.claims]
    · intro k _
      simp only [List.length_cons, List.length_nil]
      omega
  | [s, false, s'] => by
    refine .inr ⟨?_, ?_⟩
    · simp only [runCall, wins.checks, wins.claims, wins.moves]
    · intro k _
      simp only [List.length_cons, List.length_nil]
      omega
  | s :: false :: s' :: s'' :: flags => by
    left
    simp only [runCall, wins.checks, wins.claims, wins.moves, wins.publishes]

/-- The ring with an item behind the last one. -/
def pushed (q : MpmcQueue T) (item : T) : MpmcQueue T :=
  (setData { q with enqueuePos := q.enqueuePos + 1 } q.enqueuePos (some item)).setSequence
    q.enqueuePos (q.enqueuePos + 1)

/-- The ring without its first item. -/
def popped (q : MpmcQueue T) : MpmcQueue T :=
  (setData { q with dequeuePos := q.dequeuePos + 1 } q.dequeuePos none).setSequence
    q.dequeuePos (q.dequeuePos + q.mask + 1)

theorem wins_enqueue {q : MpmcQueue T} (item : T)
    (waits : (q.cell q.enqueuePos).sequence = q.enqueuePos) :
    Wins enqueueStep q { q with enqueuePos := q.enqueuePos + 1 }
      (setData { q with enqueuePos := q.enqueuePos + 1 } q.enqueuePos (some item)) (q.pushed item)
      (.loadSequence item q.enqueuePos) (.compareExchange item q.enqueuePos)
      (.storeData item q.enqueuePos) (.storeSequence q.enqueuePos) true where
  checks s := by
    rw [enqueueStep, if_pos (diff_eq_zero.mpr waits)]
  fails := by simp [enqueueStep]
  claims := by simp [enqueueStep]
  moves _ := rfl
  publishes _ := rfl

theorem wins_dequeue {q : MpmcQueue T}
    (waits : (q.cell q.dequeuePos).sequence = q.dequeuePos + 1) :
    Wins dequeueStep q { q with dequeuePos := q.dequeuePos + 1 }
      (setData { q with dequeuePos := q.dequeuePos + 1 } q.dequeuePos none) q.popped
      (.loadSequence q.dequeuePos) (.compareExchange q.dequeuePos) (.moveData q.dequeuePos)
      (.storeSequence q.dequeuePos (q.cell q.dequeuePos).data)
      (some (q.cell q.dequeuePos).data) where
  checks s := by
    rw [dequeueStep, if_pos (diff_eq_zero.mpr waits)]
  fails := by simp [dequeueStep]
  claims := by simp [dequeueStep]
  moves _ := rfl
  publishes _ := rfl

/-- With one more step in front, a call that runs on has no exchange that counts. -/
theorem not_exchanges {flags : List Bool} {s : Bool}
    (late : ∀ k, flags[2 * k + 1]? = some false → flags.length < 2 * k + 4) :
    ¬Exchanges (s :: flags) := by
  rintro ⟨k, found, enough⟩
  have short := late k (by simpa using found)
  simp only [List.length_cons] at enough
  omega

/-- What a call does: it returns this, or has had no exchange that counts. -/
def Returns (q : MpmcQueue T) (flags : List Bool) (c : Call T)
    (r : MpmcQueue T × Result T) : Prop :=
  q.perform flags c = some r ∨ (q.perform flags c = none ∧ ¬Exchanges flags)

theorem not_exchanges_nil : ¬Exchanges [] := by
  rintro ⟨k, found, -⟩
  simp at found

theorem returns_accepted {q : MpmcQueue T} (waits : (q.cell q.enqueuePos).sequence = q.enqueuePos)
    (flags : List Bool) (item : T) :
    q.Returns flags (.tryEnqueue item) (q.pushed item, .enqueued true none) := by
  cases flags with
  | nil => exact .inr ⟨rfl, not_exchanges_nil⟩
  | cons s flags =>
    have start : runCall enqueueStep q (s :: flags) (.loadPos item) =
        runCall enqueueStep q flags (.loadSequence item q.enqueuePos) := rfl
    obtain returns | ⟨runs, late⟩ := runCall_wins (wins_enqueue item waits) flags
    · left
      rw [perform, start, returns]
      rfl
    · right
      refine ⟨?_, not_exchanges late⟩
      rw [perform, start, runs]
      rfl

theorem returns_taken {q : MpmcQueue T} {item : T}
    (waits : q.cell q.dequeuePos = ⟨q.dequeuePos + 1, some item⟩) (flags : List Bool) :
    q.Returns flags .tryDequeue (q.popped, .dequeued (some (some item))) := by
  cases flags with
  | nil => exact .inr ⟨rfl, not_exchanges_nil⟩
  | cons s flags =>
    have start : runCall dequeueStep q (s :: flags) .loadPos =
        runCall dequeueStep q flags (.loadSequence q.dequeuePos) := rfl
    have sequence : (q.cell q.dequeuePos).sequence = q.dequeuePos + 1 := by
      rw [waits]
    have data : (q.cell q.dequeuePos).data = some item := by
      rw [waits]
    have wins := wins_dequeue sequence
    rw [data] at wins
    obtain returns | ⟨runs, late⟩ := runCall_wins wins flags
    · left
      rw [perform, start, returns]
      rfl
    · right
      refine ⟨?_, not_exchanges late⟩
      rw [perform, start, runs]
      rfl

/-- A call that is refused returns at its first look at the cell. -/
theorem returns_full {q : MpmcQueue T}
    (behind : diff (q.cell q.enqueuePos).sequence q.enqueuePos < 0) (flags : List Bool) (item : T) :
    q.Returns flags (.tryEnqueue item) (q, .enqueued false (some item)) := by
  have nonzero : diff (q.cell q.enqueuePos).sequence q.enqueuePos ≠ 0 := Int64.ne_of_lt behind
  match flags with
  | [] => exact .inr ⟨rfl, not_exchanges_nil⟩
  | [s] => exact .inr ⟨rfl, not_exchanges (by simp)⟩
  | s :: s' :: flags =>
    left
    simp [perform, runCall, enqueueStep, nonzero, behind, EnqueuePc.item]

theorem returns_empty {q : MpmcQueue T}
    (behind : diff (q.cell q.dequeuePos).sequence (q.dequeuePos + 1) < 0) (flags : List Bool) :
    q.Returns flags .tryDequeue (q, .dequeued none) := by
  have nonzero : diff (q.cell q.dequeuePos).sequence (q.dequeuePos + 1) ≠ 0 :=
    Int64.ne_of_lt behind
  match flags with
  | [] => exact .inr ⟨rfl, not_exchanges_nil⟩
  | [s] => exact .inr ⟨rfl, not_exchanges (by simp)⟩
  | s :: s' :: flags =>
    left
    simp [perform, runCall, dequeueStep, nonzero, behind]

theorem buffer_pushed (q : MpmcQueue T) (item : T) (i : Nat) :
    (q.pushed item).buffer i =
      if i = q.index q.enqueuePos then ⟨q.enqueuePos + 1, some item⟩ else q.buffer i := by
  by_cases here : i = q.index q.enqueuePos
  · simp [pushed, setSequence, setData, cell, index, here]
  · simp [pushed, setSequence, setData, cell, index, Function.update_apply]

theorem buffer_popped (q : MpmcQueue T) (i : Nat) :
    q.popped.buffer i =
      if i = q.index q.dequeuePos then ⟨q.dequeuePos + q.mask + 1, none⟩ else q.buffer i := by
  by_cases here : i = q.index q.dequeuePos
  · simp [popped, setSequence, setData, cell, index, here]
  · simp [popped, setSequence, setData, cell, index, Function.update_apply]

namespace Holds

variable {q : MpmcQueue T} {C d : Nat} {items : List T}

theorem enqueuePos_eq (h : q.Holds C d items) :
    q.enqueuePos = UInt64.ofNat (d + items.length) := by
  rw [← h.enqueuePos, UInt64.ofNat_toNat]

theorem dequeuePos_eq (h : q.Holds C d items) : q.dequeuePos = UInt64.ofNat d := by
  rw [← h.dequeuePos, UInt64.ofNat_toNat]

theorem cell_enqueue (h : q.Holds C d items) :
    q.cell q.enqueuePos = q.buffer ((d + items.length) % C) := by
  rw [cell, h.sized.index, h.enqueuePos]

theorem cell_dequeue (h : q.Holds C d items) : q.cell q.dequeuePos = q.buffer (d % C) := by
  rw [cell, h.sized.index, h.dequeuePos]

theorem waits_enqueue (h : q.Holds C d items) (room : items.length < C) :
    (q.cell q.enqueuePos).sequence = q.enqueuePos := by
  rw [h.cell_enqueue, h.free _ le_rfl (by omega), h.enqueuePos_eq]

theorem waits_dequeue {item : T} {rest : List T} (h : q.Holds C d (item :: rest)) :
    q.cell q.dequeuePos = ⟨q.dequeuePos + 1, some item⟩ := by
  have first := h.full 0 item rfl
  rw [Nat.add_zero] at first
  rw [h.cell_dequeue, first, h.dequeuePos_eq, UInt64.ofNat_add]
  rfl

/-- In a full ring the next cell is a lap behind. -/
theorem behind_enqueue (h : q.Holds C d items) (bound : d + items.length < 2 ^ 63)
    (full : items.length = C) : diff (q.cell q.enqueuePos).sequence q.enqueuePos < 0 := by
  have two := h.sized.two_le
  have le := h.sized.le
  obtain ⟨item, found⟩ : ∃ item, items[0]? = some item := by
    have some : 0 < items.length := by omega
    exact ⟨items[0], List.getElem?_eq_getElem some⟩
  have first := h.full 0 item found
  have same : (d + items.length) % C = (d + 0) % C := by
    rw [full, Nat.add_mod_right, Nat.add_zero]
  have sequence : (UInt64.ofNat (d + 0 + 1)).toNat = d + 1 := by
    rw [UInt64.toNat_ofNat']
    omega
  rw [h.cell_enqueue, same, first]
  apply diff_neg <;> rw [sequence, h.enqueuePos] <;> omega

theorem behind_dequeue (h : q.Holds C d []) (bound : d < 2 ^ 63) :
    diff (q.cell q.dequeuePos).sequence (q.dequeuePos + 1) < 0 := by
  have two := h.sized.two_le
  have next : (q.dequeuePos + 1).toNat = d + 1 := by
    have one : (1 : UInt64).toNat = 1 := rfl
    rw [UInt64.toNat_add, h.dequeuePos, one]
    omega
  have same : (UInt64.ofNat d).toNat = d := by
    rw [UInt64.toNat_ofNat']
    omega
  rw [h.cell_dequeue, h.free d le_rfl (by omega)]
  apply diff_neg <;> rw [same, next] <;> omega

theorem pushed (h : q.Holds C d items) (bound : d + items.length < 2 ^ 63)
    (room : items.length < C) (item : T) : (q.pushed item).Holds C d (items ++ [item]) where
  sized := ⟨h.sized.two_le, h.sized.le, h.sized.pow, h.sized.mask⟩
  dequeuePos := h.dequeuePos
  enqueuePos := by
    have one : (1 : UInt64).toNat = 1 := rfl
    show (q.enqueuePos + 1).toNat = _
    rw [UInt64.toNat_add, h.enqueuePos, one, List.length_append, List.length_singleton]
    omega
  le := by
    rw [List.length_append, List.length_singleton]
    exact room
  full := by
    intro i found at_i
    rw [buffer_pushed, h.sized.index, h.enqueuePos]
    by_cases last : i = items.length
    · subst last
      rw [List.getElem?_append_right le_rfl, Nat.sub_self] at at_i
      obtain rfl : item = found := by simpa using at_i
      rw [if_pos rfl, h.enqueuePos_eq, UInt64.ofNat_add (d + items.length) 1]
      rfl
    · have before : i < items.length := by
        have inside := (List.getElem?_eq_some_iff.mp at_i).1
        rw [List.length_append, List.length_singleton] at inside
        omega
      rw [List.getElem?_append_left before] at at_i
      have other : (d + i) % C ≠ (d + items.length) % C := by
        intro same
        have equal := eq_of_mod_eq same (by omega) (by omega)
        omega
      rw [if_neg other, h.full i found at_i]
  free := by
    intro k after near
    rw [List.length_append, List.length_singleton] at after
    have other : k % C ≠ (d + items.length) % C := by
      intro same
      have equal := eq_of_mod_eq same (by omega) (by omega)
      omega
    rw [buffer_pushed, h.sized.index, h.enqueuePos, if_neg other, h.free k (by omega) near]

theorem popped {item : T} {rest : List T} (h : q.Holds C d (item :: rest))
    (bound : d + (item :: rest).length < 2 ^ 63) : q.popped.Holds C (d + 1) rest where
  sized := ⟨h.sized.two_le, h.sized.le, h.sized.pow, h.sized.mask⟩
  dequeuePos := by
    have one : (1 : UInt64).toNat = 1 := rfl
    show (q.dequeuePos + 1).toNat = _
    rw [UInt64.toNat_add, h.dequeuePos, one]
    omega
  enqueuePos := by
    show q.enqueuePos.toNat = _
    rw [h.enqueuePos, List.length_cons]
    omega
  le := by
    have le := h.le
    rw [List.length_cons] at le
    omega
  full := by
    intro i found at_i
    have inside := (List.getElem?_eq_some_iff.mp at_i).1
    have le := h.le
    rw [List.length_cons] at le
    have other : (d + 1 + i) % C ≠ d % C := by
      intro same
      have equal := eq_of_mod_eq same (by omega) (by omega)
      omega
    have later := h.full (i + 1) found (by simpa using at_i)
    rw [buffer_popped, h.sized.index, h.dequeuePos, if_neg other, Nat.add_assoc d 1 i,
      Nat.add_comm 1 i, later]
  free := by
    intro k after near
    have two := h.sized.two_le
    rw [buffer_popped, h.sized.index, h.dequeuePos]
    by_cases lap : k = d + C
    · subst lap
      have mask : q.mask = UInt64.ofNat (C - 1) := by
        rw [← h.sized.mask, UInt64.ofNat_toNat]
      have next : q.dequeuePos + q.mask + 1 = UInt64.ofNat (d + C) := by
        have split : d + C = d + (C - 1) + 1 := by omega
        rw [h.dequeuePos_eq, mask, split, UInt64.ofNat_add, UInt64.ofNat_add]
        rfl
      rw [if_pos (Nat.add_mod_right d C), next]
    · have other : k % C ≠ d % C := by
        intro same
        have equal := eq_of_mod_eq same (by omega) (by omega)
        omega
      rw [if_neg other, h.free k (by rw [List.length_cons]; omega) (by omega)]

/-- A call does to the ring what it does to the bounded queue, and changes nothing when
it fails. -/
theorem perform (h : q.Holds C d items) (bound : d + items.length < 2 ^ 63) (flags : List Bool)
    (c : Call T) :
    ∃ q' d', q.Returns flags c (q', (Fifo.perform C items c).2) ∧
      q'.Holds C d' (Fifo.perform C items c).1 ∧
      d' + (Fifo.perform C items c).1.length ≤ d + items.length + 1 ∧
      ((Fifo.perform C items c).2.Failed → q' = q) := by
  cases c with
  | tryEnqueue item =>
    by_cases room : items.length < C
    · refine ⟨q.pushed item, d, ?_, ?_, ?_, ?_⟩
      · rw [Fifo.perform, if_pos room]
        exact returns_accepted (h.waits_enqueue room) flags item
      · rw [Fifo.perform, if_pos room]
        exact h.pushed bound room item
      · rw [Fifo.perform, if_pos room, List.length_append, List.length_singleton]
        omega
      · rw [Fifo.perform, if_pos room]
        intro failed
        exact absurd failed (by simp [Result.Failed])
    · have full : items.length = C := Nat.le_antisymm h.le (not_lt.mp room)
      refine ⟨q, d, ?_, ?_, ?_, fun _ => rfl⟩
      · rw [Fifo.perform, if_neg room]
        exact returns_full (h.behind_enqueue bound full) flags item
      · rw [Fifo.perform, if_neg room]
        exact h
      · rw [Fifo.perform, if_neg room]
        exact Nat.le_succ _
  | tryDequeue =>
    cases items with
    | nil =>
      refine ⟨q, d, returns_empty (h.behind_dequeue ?_) flags, h, Nat.le_succ _, fun _ => rfl⟩
      exact bound
    | cons item rest =>
      refine ⟨q.popped, d + 1, returns_taken h.waits_dequeue flags, h.popped bound, ?_, ?_⟩
      · show d + 1 + rest.length ≤ d + (rest.length + 1) + 1
        omega
      · intro failed
        exact absurd failed (by simp [Fifo.perform, Result.Failed])

theorem performAll (h : q.Holds C d items) (calls : List (List Bool × Call T))
    (bound : d + items.length + calls.length < 2 ^ 63) {r : MpmcQueue T × List (Result T)}
    (returns : q.performAll calls = some r) :
    r.2 = (Fifo.performAll C items (calls.map Prod.snd)).2 ∧
      ∃ d', r.1.Holds C d' (Fifo.performAll C items (calls.map Prod.snd)).1 ∧
        d' + (Fifo.performAll C items (calls.map Prod.snd)).1.length ≤
          d + items.length + calls.length := by
  induction calls generalizing q d items r with
  | nil =>
    obtain rfl := Option.some.inj returns
    exact ⟨rfl, d, h, le_rfl⟩
  | cons call calls ih =>
    obtain ⟨flags, c⟩ := call
    rw [List.length_cons] at bound
    obtain ⟨q', d', once, holds, grows, -⟩ := h.perform (by omega) flags c
    rw [MpmcQueue.performAll] at returns
    obtain here | ⟨runs, -⟩ := once
    · rw [here] at returns
      obtain ⟨rest, later, rfl⟩ := Option.map_eq_some_iff.mp returns
      obtain ⟨results, d'', holds', grows'⟩ := ih holds (by omega) later
      refine ⟨?_, d'', holds', ?_⟩
      · rw [List.map_cons, Fifo.performAll, results]
      · rw [List.map_cons, Fifo.performAll, List.length_cons]
        show d'' + (Fifo.performAll C (Fifo.perform C items c).1 (calls.map Prod.snd)).1.length ≤ _
        omega
    · rw [runs] at returns
      cases returns

end Holds

/-- After fewer than `2 ^ 63` calls the ring has returned what a queue of at most `C` items
returns, and so does the next call: it returns once one of its exchanges does not fail, and
changes nothing when it is refused. -/
def BoundedFifo (q : MpmcQueue T) (C : Nat) : Prop :=
  ∀ (calls : List (List Bool × Call T)) (r : MpmcQueue T × List (Result T)),
    calls.length + 1 < 2 ^ 63 → q.performAll calls = some r →
      let fifo := Fifo.performAll C [] (calls.map Prod.snd)
      r.2 = fifo.2 ∧ ∀ flags c, ∃ q',
        r.1.Returns flags c (q', (Fifo.perform C fifo.1 c).2) ∧
          ((Fifo.perform C fifo.1 c).2.Failed → q' = r.1)

theorem Holds.boundedFifo {q : MpmcQueue T} {C : Nat} (h : q.Holds C 0 []) : q.BoundedFifo C := by
  intro calls r few returns
  have bound : 0 + ([] : List T).length + calls.length < 2 ^ 63 := by
    rw [List.length_nil]
    omega
  obtain ⟨results, d, holds, grows⟩ := h.performAll calls bound returns
  rw [List.length_nil] at grows
  refine ⟨results, ?_⟩
  intro flags c
  obtain ⟨q', -, once, -, -, unchanged⟩ := holds.perform (by omega) flags c
  exact ⟨q', once, unchanged⟩

/-- The queue for a capacity `n` holds the least power of two from `n` on, and at least two
items, and is exactly a bounded queue of these. -/
theorem sequential_fifo (n : UInt64) (small : n.toNat ≤ 2 ^ 63) :
    ∃ (q : MpmcQueue T) (C : Nat), create n = some q ∧ q.mask.toNat + 1 = C ∧
      Capacity n.toNat C ∧ q.BoundedFifo C := by
  obtain ⟨q, C, created, capacity, holds⟩ := holds_create (T := T) small
  have two := holds.sized.two_le
  refine ⟨q, C, created, ?_, capacity, holds.boundedFifo⟩
  rw [holds.sized.mask]
  omega

/-- A capacity that is no power of two. -/
theorem sequential_fifo_three :
    ∃ (q : MpmcQueue Nat) (C : Nat), create 3 = some q ∧ q.mask.toNat + 1 = C ∧
      Capacity (3 : UInt64).toNat C ∧ q.BoundedFifo C :=
  sequential_fifo 3 (by decide)

end IndustrialRuntime.Core.MpmcQueue
