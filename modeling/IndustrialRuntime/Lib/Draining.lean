import IndustrialRuntime.Lib.Machine
import Mathlib.Algebra.Ring.Nat

namespace IndustrialRuntime.Machine

variable {σ α : Type*} (M : Machine σ α)

/-- Every step that meets the condition uses up some of the work that is left. -/
def Drains (C : σ → α → Prop) (I : σ → Prop) (work : σ → Nat) : Prop :=
  ∀ s a t, I s → C s a → M.step s a = some t → I t ∧ work t < work s

/-- No step that meets the condition is enabled. -/
def Drained (C : σ → α → Prop) (s : σ) : Prop := ∀ a, C s a → M.step s a = none

variable {M} {C : σ → α → Prop} {I : σ → Prop} {work : σ → Nat}

/-- A run of such steps is no longer than the work that it uses up. -/
theorem Drains.length_le (drains : M.Drains C I work) {s t : σ} {as : List α} (inv : I s)
    (steps : M.Steps C s as) (run : M.runFrom s as = some t) :
    I t ∧ as.length + work t ≤ work s := by
  induction as generalizing s with
  | nil =>
    obtain rfl : s = t := by simpa using run
    exact ⟨inv, by simp⟩
  | cons a as ih =>
    rw [runFrom_cons] at run
    obtain ⟨u, next, rest⟩ := Option.bind_eq_some_iff.mp run
    have one := drains s a u inv steps.1 next
    have more := ih one.1 (steps.2 u next) rest
    refine ⟨more.1, ?_⟩
    rw [List.length_cons]
    omega

/-- Such steps lead to a state in which none is left. -/
theorem Drains.exists_drained (drains : M.Drains C I work) {s : σ} (inv : I s) :
    ∃ t, M.Reaches C s t ∧ I t ∧ M.Drained C t := by
  induction left : work s using Nat.strongRecOn generalizing s with
  | ind n ih =>
    by_cases done : M.Drained C s
    · exact ⟨s, .refl M C s, inv, done⟩
    · simp only [Drained, not_forall] at done
      obtain ⟨a, ok, enabled⟩ := done
      obtain ⟨u, next⟩ := Option.ne_none_iff_exists'.mp enabled
      have one := drains s a u inv ok next
      have less : work u < n := by omega
      obtain ⟨t, reaches, last⟩ := ih (work u) less one.1 rfl
      exact ⟨t, .head M a ok next reaches, last⟩

/-! ### Steps that are paid for -/

/-- Until the goal, each step uses up its cost of what is left, but for what it brings. The goal
stays reached. -/
structure Pays (M : Machine σ α) (C : σ → α → Prop) (I : σ → Nat → Prop) (goal : σ → Prop)
    (cost gain : α → Nat) : Prop where
  keeps : ∀ s a t, goal s → C s a → M.step s a = some t → goal t
  pays : ∀ s left a t, I s left → C s a → M.step s a = some t →
    goal t ∨ ∃ left', I t left' ∧ left' + cost a ≤ left + gain a

theorem Pays.goal_of_run {I : σ → Nat → Prop} {goal : σ → Prop} {cost gain : α → Nat}
    (pays : M.Pays C I goal cost gain) {s t : σ} {as : List α} (reached : goal s)
    (steps : M.Steps C s as) (run : M.runFrom s as = some t) : goal t :=
  M.invariant_of_steps C goal pays.keeps s as t reached steps run

/-- A run reaches the goal, or costs no more than what was left and what it brought. -/
theorem Pays.cost_le {I : σ → Nat → Prop} {goal : σ → Prop} {cost gain : α → Nat}
    (pays : M.Pays C I goal cost gain) {s t : σ} {left : Nat} {as : List α} (inv : I s left)
    (steps : M.Steps C s as) (run : M.runFrom s as = some t) :
    goal t ∨ ∃ left', I t left' ∧ (as.map cost).sum + left' ≤ left + (as.map gain).sum := by
  induction as generalizing s left with
  | nil =>
    obtain rfl : s = t := by simpa using run
    exact .inr ⟨left, inv, by simp⟩
  | cons a as ih =>
    rw [runFrom_cons] at run
    obtain ⟨u, next, rest⟩ := Option.bind_eq_some_iff.mp run
    cases pays.pays s left a u inv steps.1 next with
    | inl reached => exact .inl (pays.goal_of_run reached (steps.2 u next) rest)
    | inr one =>
      obtain ⟨left', inv', paid⟩ := one
      refine (ih inv' (steps.2 u next) rest).imp_right fun more => ?_
      obtain ⟨last, inv'', paid'⟩ := more
      refine ⟨last, inv'', ?_⟩
      rw [List.map_cons, List.map_cons, List.sum_cons, List.sum_cons]
      omega

end IndustrialRuntime.Machine
