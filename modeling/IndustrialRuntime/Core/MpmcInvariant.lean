import IndustrialRuntime.Core.MpmcQueue
import Mathlib.Data.Finset.Card

namespace IndustrialRuntime.Core.MpmcQueue

variable {T : Type*}

/-! ### Capacity and positions -/

theorem doubleUntil_pow (n : UInt64) (fuel : Nat) (p c : UInt64)
    (hp : p.toNat = 0 ∨ ∃ m, p.toNat = 2 ^ m) (h : doubleUntil n fuel p = some c) :
    (c.toNat = 0 ∨ ∃ m, c.toNat = 2 ^ m) ∧ n ≤ c := by
  induction fuel generalizing p with
  | zero => contradiction
  | succ fuel ih =>
    rw [doubleUntil] at h
    split_ifs at h with hlt
    · apply ih (p <<< 1) _ h
      have doubled : (p <<< 1).toNat = p.toNat * 2 % 2 ^ 64 := by
        simp [UInt64.toNat_shiftLeft, Nat.shiftLeft_eq]
      rw [doubled]
      cases hp with
      | inl zero => simp [zero]
      | inr pow =>
        obtain ⟨m, hm⟩ := pow
        have below : 2 ^ m < 2 ^ 64 := hm ▸ p.toNat_lt
        have hm64 : m < 64 := (Nat.pow_lt_pow_iff_right (by decide)).mp below
        rcases Nat.lt_or_ge (m + 1) 64 with hlow | htop
        · refine Or.inr ⟨m + 1, ?_⟩
          rw [hm, ← Nat.pow_succ]
          exact Nat.mod_eq_of_lt (Nat.pow_lt_pow_right (by decide) hlow)
        · obtain rfl : m = 63 := by omega
          exact Or.inl (by rw [hm]; rfl)
    · obtain rfl : p = c := Option.some_inj.mp h
      exact ⟨hp, UInt64.not_lt.mp hlt⟩

/-- A capacity is a power of two and at least two. -/
theorem roundUpPow2_pow {n c : UInt64} (h : roundUpPow2 n = some c) :
    2 ≤ c.toNat ∧ ∃ m, c.toNat = 2 ^ m := by
  rw [roundUpPow2] at h
  split_ifs at h with hlt
  · obtain rfl : 2 = c := Option.some_inj.mp h
    exact ⟨by decide, 1, rfl⟩
  · obtain ⟨shape, hle⟩ := doubleUntil_pow n 65 1 c (Or.inr ⟨0, rfl⟩) h
    have large : 2 ≤ c.toNat := by
      have := UInt64.le_iff_toNat_le.mp (UInt64.not_lt.mp hlt)
      have := UInt64.le_iff_toNat_le.mp hle
      exact le_trans ‹(2 : UInt64).toNat ≤ n.toNat› this
    exact ⟨large, shape.resolve_left (by omega)⟩

theorem diff_eq_zero {a b : UInt64} : diff a b = 0 ↔ a = b := by
  constructor
  · intro h
    have signed : a.toInt64 = b.toInt64 := by
      rw [← Int64.sub_add_cancel a.toInt64 b.toInt64]
      change diff a b + b.toInt64 = b.toInt64
      rw [h, Int64.zero_add]
    rw [← UInt64.toUInt64_toInt64 a, signed, UInt64.toUInt64_toInt64]
  · intro h
    rw [diff, h, Int64.sub_self]

/-- The ring has `C` cells, and `pos & mask` is the position modulo `C`. -/
structure Sized (q : MpmcQueue T) (C : Nat) : Prop where
  two_le : 2 ≤ C
  le : C ≤ 2 ^ 63
  pow : ∃ m, C = 2 ^ m
  mask : q.mask.toNat = C - 1

theorem Sized.index {q : MpmcQueue T} {C : Nat} (h : q.Sized C) (pos : UInt64) :
    q.index pos = pos.toNat % C := by
  obtain ⟨m, hm⟩ := h.pow
  rw [MpmcQueue.index, UInt64.toNat_and, h.mask, hm, Nat.and_two_pow_sub_one_eq_mod]

@[simp] theorem Sized.setData {q : MpmcQueue T} {C : Nat} (h : q.Sized C) (pos : UInt64)
    (data : Option T) : (q.setData pos data).Sized C :=
  ⟨h.two_le, h.le, h.pow, h.mask⟩

@[simp] theorem Sized.setSequence {q : MpmcQueue T} {C : Nat} (h : q.Sized C)
    (pos sequence : UInt64) : (q.setSequence pos sequence).Sized C :=
  ⟨h.two_le, h.le, h.pow, h.mask⟩

/-! ### The invariant -/

namespace Pc

/-- The ticket whose cell an enqueuing thread owns. -/
def writes : Pc T → Option UInt64
  | .enqueue (.storeData _ pos) => some pos
  | .enqueue (.storeSequence pos) => some pos
  | _ => none

/-- The ticket whose cell a dequeuing thread owns. -/
def reads : Pc T → Option UInt64
  | .dequeue (.moveData pos) => some pos
  | .dequeue (.storeSequence pos _) => some pos
  | _ => none

/-- Inside a call that has not won an exchange. -/
def searching : Pc T → Bool
  | .idle => false
  | .enqueue (.storeData _ _) => false
  | .enqueue (.storeSequence _) => false
  | .dequeue (.moveData _) => false
  | .dequeue (.storeSequence _ _) => false
  | _ => true

/-- Inside a call of `tryEnqueue` that has not won its ticket. -/
def offering : Pc T → Bool
  | .enqueue pc => (Pc.enqueue pc).searching
  | _ => false

end Pc

namespace System

variable {τ : Type*}

/-- The cell of ticket `k` waits for it: everything before `k` has left the
cell, and from its claim on an enqueuer owns it. -/
structure Free (s : System τ T) (C k : Nat) : Prop where
  sequence : (s.queue.buffer (k % C)).sequence.toNat = k
  le : s.dequeued.length ≤ k
  near : k < s.dequeued.length + C
  unclaimed : s.enqueued.length ≤ k + C
  owner : k < s.enqueued.length → ∃ t pos, (s.pc t).writes = some pos ∧ pos.toNat = k
  data : s.enqueued.length ≤ k → (s.queue.buffer (k % C)).data = none

/-- The cell of ticket `k` holds its item, and from its claim on a dequeuer owns it. -/
structure Full (s : System τ T) (C k : Nat) : Prop where
  sequence : (s.queue.buffer (k % C)).sequence.toNat = k + 1
  lt : k < s.enqueued.length
  le : s.dequeued.length ≤ k + C
  near : k < s.dequeued.length + C
  unclaimed : s.enqueued.length ≤ k + C
  owner : k < s.dequeued.length → ∃ t pos, (s.pc t).reads = some pos ∧ pos.toNat = k
  data : s.dequeued.length ≤ k →
    ∃ e, s.enqueued[k]? = some e ∧ (s.queue.buffer (k % C)).data = some e.item

/-- What a thread may rely on at each program point. -/
def ThreadOk (s : System τ T) (C : Nat) (t : τ) : Pc T → Prop
  | .enqueue (.loadSequence _ pos) => pos.toNat ≤ s.enqueued.length
  | .enqueue (.compareExchange _ pos) =>
    pos.toNat ≤ s.enqueued.length ∧
      (s.enqueued.length = pos.toNat →
        (s.queue.buffer (pos.toNat % C)).sequence.toNat = pos.toNat)
  | .enqueue (.storeData item pos) =>
    s.enqueued[pos.toNat]? = some ⟨pos, t, item⟩ ∧ s.dequeued.length ≤ pos.toNat ∧
      (s.queue.buffer (pos.toNat % C)).sequence.toNat = pos.toNat ∧
        (s.queue.buffer (pos.toNat % C)).data = none
  | .enqueue (.storeSequence pos) =>
    s.dequeued.length ≤ pos.toNat ∧
      (s.queue.buffer (pos.toNat % C)).sequence.toNat = pos.toNat ∧
        ∃ item, s.enqueued[pos.toNat]? = some ⟨pos, t, item⟩ ∧
          (s.queue.buffer (pos.toNat % C)).data = some item
  | .dequeue (.loadSequence pos) => pos.toNat ≤ s.dequeued.length
  | .dequeue (.compareExchange pos) =>
    pos.toNat ≤ s.dequeued.length ∧
      (s.dequeued.length = pos.toNat →
        (s.queue.buffer (pos.toNat % C)).sequence.toNat = pos.toNat + 1)
  | .dequeue (.moveData pos) =>
    s.dequeued[pos.toNat]? = some ⟨pos, t⟩ ∧
      (s.queue.buffer (pos.toNat % C)).sequence.toNat = pos.toNat + 1 ∧
        ∃ e, s.enqueued[pos.toNat]? = some e ∧
          (s.queue.buffer (pos.toNat % C)).data = some e.item
  | .dequeue (.storeSequence pos out) =>
    s.dequeued[pos.toNat]? = some ⟨pos, t⟩ ∧
      (s.queue.buffer (pos.toNat % C)).sequence.toNat = pos.toNat + 1 ∧
        (s.queue.buffer (pos.toNat % C)).data = none ∧
          ∃ e, s.enqueued[pos.toNat]? = some e ∧ out = some e.item
  | _ => True

/-- The counters, the cells and the threads agree with the logs. -/
structure Inv (s : System τ T) (C : Nat) : Prop where
  sized : s.queue.Sized C
  enqueuePos : s.queue.enqueuePos.toNat = s.enqueued.length
  dequeuePos : s.queue.dequeuePos.toNat = s.dequeued.length
  enqueueTicket : ∀ k (e : Enqueued τ T), s.enqueued[k]? = some e → e.ticket.toNat = k
  dequeueTicket : ∀ k (d : Dequeued τ), s.dequeued[k]? = some d → d.ticket.toNat = k
  le : s.dequeued.length ≤ s.enqueued.length
  cells : ∀ i < C, ∃ k, k % C = i ∧ (s.Free C k ∨ s.Full C k)
  threads : ∀ t, s.ThreadOk C t (s.pc t)

end System

end IndustrialRuntime.Core.MpmcQueue
