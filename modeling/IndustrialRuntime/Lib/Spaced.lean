import Mathlib.Algebra.Group.Defs
import Mathlib.Algebra.Order.Monoid.Defs
import Mathlib.Data.List.Chain

namespace IndustrialRuntime

/-- From the start on, each moment is at least `d` after the one before. -/
def Spaced {α : Type*} [Add α] [LE α] (d start : α) (times : List α) : Prop :=
  (start :: times).IsChain (fun a b => a + d ≤ b)

namespace Spaced

section Chain

variable {α : Type*} [Add α] [LE α] {d start t : α} {times : List α}

theorem nil (d start : α) : Spaced d start [] := List.isChain_singleton start

theorem snoc (h : Spaced d start times) (later : times.getLast?.getD start + d ≤ t) :
    Spaced d start (times ++ [t]) := by
  unfold Spaced at h ⊢
  rw [← List.cons_append, List.isChain_append]
  refine ⟨h, List.isChain_singleton t, fun x last y next => ?_⟩
  rw [List.head?_cons, Option.mem_def, Option.some_inj] at next
  rw [List.getLast?_cons, Option.mem_def, Option.some_inj] at last
  subst next last
  exact later

/-- Two moments in a row. -/
theorem apart (h : Spaced d start times) {k : Nat} {u : α} (first : times[k]? = some t)
    (second : times[k + 1]? = some u) : t + d ≤ u := by
  obtain ⟨inside, rfl⟩ := List.getElem?_eq_some_iff.mp second
  obtain ⟨_, rfl⟩ := List.getElem?_eq_some_iff.mp first
  have step := List.isChain_iff_getElem.mp h (k + 1) (by simpa using inside)
  simpa using step

end Chain

/-- The moment with number `k`, counted from 0. -/
theorem rate {α : Type*} [AddCommMonoid α] [PartialOrder α] [IsOrderedAddMonoid α]
    {d start t : α} {times : List α} (h : Spaced d start times) {k : Nat}
    (found : times[k]? = some t) : start + (k + 1) • d ≤ t := by
  induction times generalizing start k with
  | nil => simp at found
  | cons first times ih =>
    obtain ⟨near, rest⟩ := List.isChain_cons_cons.mp h
    cases k with
    | zero =>
      obtain rfl : first = t := by simpa using found
      rw [Nat.zero_add, one_nsmul]
      exact near
    | succ k =>
      have later : first + (k + 1) • d ≤ t := ih rest (by simpa using found)
      calc start + (k + 1 + 1) • d = start + d + (k + 1) • d := by
            rw [succ_nsmul' d (k + 1), add_assoc]
        _ ≤ first + (k + 1) • d := add_le_add_left near _
        _ ≤ t := later

end Spaced

end IndustrialRuntime
