import Mathlib.Data.List.Basic

namespace IndustrialRuntime

/-- A transition system whose labels carry all the nondeterminism: a schedule
is a list of labels, and a label that is not enabled blocks the schedule. -/
structure Machine (σ α : Type*) where
  init : σ
  step : σ → α → Option σ

namespace Machine

variable {σ α : Type*} (M : Machine σ α)

/-- Runs a schedule from a given state. -/
def runFrom (s : σ) : List α → Option σ
  | [] => some s
  | a :: as => (M.step s a).bind (fun t => runFrom t as)

/-- Runs a schedule from the initial state. -/
def run (as : List α) : Option σ := M.runFrom M.init as

@[simp] theorem runFrom_nil (s : σ) : M.runFrom s [] = some s := rfl

theorem runFrom_cons (s : σ) (a : α) (as : List α) :
    M.runFrom s (a :: as) = (M.step s a).bind (fun t => M.runFrom t as) := rfl

theorem runFrom_append (s : σ) (as bs : List α) :
    M.runFrom s (as ++ bs) = (M.runFrom s as).bind (fun t => M.runFrom t bs) := by
  induction as generalizing s with
  | nil => rfl
  | cons a as ih =>
    simp only [List.cons_append, runFrom_cons]
    cases M.step s a with
    | none => rfl
    | some t => exact ih t

theorem runFrom_snoc (s : σ) (as : List α) (a : α) :
    M.runFrom s (as ++ [a]) = (M.runFrom s as).bind (fun t => M.step t a) := by
  rw [runFrom_append]
  congr 1
  funext t
  rw [runFrom_cons]
  cases M.step t a <;> rfl

/-- A schedule all of whose steps satisfy a condition on the state before. -/
def Steps (C : σ → α → Prop) (s : σ) : List α → Prop
  | [] => True
  | a :: as => C s a ∧ ∀ t, M.step s a = some t → Steps C t as

instance decidableSteps (C : σ → α → Prop) [∀ s a, Decidable (C s a)] :
    ∀ s as, Decidable (M.Steps C s as)
  | _, [] => isTrue trivial
  | s, a :: as =>
    match h : M.step s a with
    | none => decidable_of_iff (C s a) (by simp [Steps, h])
    | some t =>
      have := decidableSteps C t as
      decidable_of_iff (C s a ∧ M.Steps C t as) (by simp [Steps, h])

theorem steps_of_forall (C : σ → α → Prop) (h : ∀ s a, C s a) (s : σ) (as : List α) :
    M.Steps C s as := by
  induction as generalizing s with
  | nil => trivial
  | cons a as ih => exact ⟨h s a, fun t _ => ih t⟩

/-- A condition on the labels alone. -/
theorem steps_of_mem (C : α → Prop) (s : σ) (as : List α) (h : ∀ a ∈ as, C a) :
    M.Steps (fun _ a => C a) s as := by
  induction as generalizing s with
  | nil => trivial
  | cons a as ih =>
    have rest : ∀ b ∈ as, C b := fun b later => h b (List.mem_cons_of_mem a later)
    exact ⟨h a List.mem_cons_self, fun t _ => ih t rest⟩

variable {M} in
theorem Steps.mono {C D : σ → α → Prop} (weaker : ∀ s a, C s a → D s a) {s : σ} {as : List α}
    (steps : M.Steps C s as) : M.Steps D s as := by
  induction as generalizing s with
  | nil => trivial
  | cons a as ih => exact ⟨weaker s a steps.1, fun t next => ih (steps.2 t next)⟩

variable {M} in
theorem Steps.and {C D : σ → α → Prop} {s : σ} {as : List α} (left : M.Steps C s as)
    (right : M.Steps D s as) : M.Steps (fun s a => C s a ∧ D s a) s as := by
  induction as generalizing s with
  | nil => trivial
  | cons a as ih =>
    exact ⟨⟨left.1, right.1⟩, fun t next => ih (left.2 t next) (right.2 t next)⟩

variable {M} in
theorem Steps.snoc {C : σ → α → Prop} {s t : σ} {a : α} {as : List α} (steps : M.Steps C s as)
    (run : M.runFrom s as = some t) (last : C t a) : M.Steps C s (as ++ [a]) := by
  induction as generalizing s with
  | nil =>
    obtain rfl : s = t := by simpa using run
    exact ⟨last, fun _ _ => trivial⟩
  | cons b as ih =>
    rw [runFrom_cons] at run
    obtain ⟨u, next, rest⟩ := Option.bind_eq_some_iff.mp run
    refine ⟨steps.1, fun v other => ?_⟩
    obtain rfl : u = v := Option.some.inj (next.symm.trans other)
    exact ih (steps.2 u next) rest

variable {M} in
theorem Steps.of_append {C : σ → α → Prop} {s t : σ} {as bs : List α}
    (steps : M.Steps C s (as ++ bs)) (run : M.runFrom s as = some t) :
    M.Steps C s as ∧ M.Steps C t bs := by
  induction as generalizing s with
  | nil =>
    obtain rfl : s = t := by simpa using run
    exact ⟨trivial, steps⟩
  | cons a as ih =>
    rw [runFrom_cons] at run
    obtain ⟨u, next, rest⟩ := Option.bind_eq_some_iff.mp run
    obtain ⟨-, later⟩ := ih (steps.2 u next) rest
    refine ⟨⟨steps.1, fun v other => ?_⟩, later⟩
    obtain rfl : u = v := Option.some.inj (next.symm.trans other)
    exact (ih (steps.2 u next) rest).1

/-- Invariant rule for the schedules whose steps all meet a condition. -/
theorem invariant_of_steps (C : σ → α → Prop) (I : σ → Prop)
    (step : ∀ s a t, I s → C s a → M.step s a = some t → I t)
    (s : σ) (as : List α) (t : σ) (hs : I s) (hc : M.Steps C s as)
    (run : M.runFrom s as = some t) : I t := by
  induction as generalizing s with
  | nil =>
    obtain rfl : s = t := by simpa using run
    exact hs
  | cons a as ih =>
    rw [runFrom_cons] at run
    obtain ⟨u, hu, rest⟩ := Option.bind_eq_some_iff.mp run
    exact ih u (step s a u hs hc.1 hu) (hc.2 u hu) rest

/-- Invariant rule over every schedule from the initial state. -/
theorem invariant (I : σ → Prop) (base : I M.init)
    (step : ∀ s a t, I s → M.step s a = some t → I t)
    (as : List α) (t : σ) (run : M.run as = some t) : I t :=
  M.invariant_of_steps (fun _ _ => True) I (fun s a u hs _ hu => step s a u hs hu)
    M.init as t base (M.steps_of_forall _ (fun _ _ => trivial) _ _) run

/-- Rule for an exact condition: a property that every step keeps just when the condition is
met holds in the end if and only if it held at first and every step met the condition. -/
theorem iff_of_steps (C D : σ → α → Prop) (I P : σ → Prop)
    (step : ∀ s a t, I s → D s a → M.step s a = some t → I t ∧ (P t ↔ P s ∧ C s a))
    (s : σ) (as : List α) (t : σ) (hs : I s) (hd : M.Steps D s as)
    (run : M.runFrom s as = some t) : I t ∧ (P t ↔ P s ∧ M.Steps C s as) := by
  induction as generalizing s with
  | nil =>
    obtain rfl : s = t := by simpa using run
    exact ⟨hs, by simp [Steps]⟩
  | cons a as ih =>
    rw [runFrom_cons] at run
    obtain ⟨u, next, rest⟩ := Option.bind_eq_some_iff.mp run
    obtain ⟨hu, one⟩ := step s a u hs hd.1 next
    obtain ⟨ht, more⟩ := ih u hu (hd.2 u next) rest
    have tail : (∀ v, M.step s a = some v → M.Steps C v as) ↔ M.Steps C u as := by
      simp [next]
    refine ⟨ht, ?_⟩
    rw [more, one, Steps, tail, and_assoc]

/-- The state after a step has a property. -/
def After (P : σ → Prop) (s : σ) (a : α) : Prop := ∀ t, M.step s a = some t → P t

instance decidableAfter (P : σ → Prop) [DecidablePred P] (s : σ) (a : α) :
    Decidable (M.After P s a) :=
  match h : M.step s a with
  | none => isTrue (by simp [After, h])
  | some t => decidable_of_iff (P t) (by simp [After, h])

/-- Rule for an exact condition on each step: when a step from a state with the property keeps it
just in case the condition is met, a run has the property after every step just in case every
step meets the condition. -/
theorem steps_after_iff (C : σ → α → Prop) (I P : σ → Prop)
    (step : ∀ s a t, I s → P s → M.step s a = some t → I t ∧ (P t ↔ C s a))
    (s : σ) (as : List α) (t : σ) (hs : I s) (hp : P s) (run : M.runFrom s as = some t) :
    M.Steps (M.After P) s as ↔ M.Steps C s as := by
  induction as generalizing s with
  | nil => exact Iff.rfl
  | cons a as ih =>
    rw [runFrom_cons] at run
    obtain ⟨u, next, rest⟩ := Option.bind_eq_some_iff.mp run
    obtain ⟨hu, exact_⟩ := step s a u hs hp next
    have after : M.After P s a ↔ P u := by simp [After, next]
    simp only [Steps, after, exact_, next, Option.some.injEq, forall_eq']
    exact and_congr_right fun ok => ih u hu (exact_.mpr ok) rest

/-- Two conditions that are the same on every step taken are the same on a run. -/
theorem steps_iff (C D : σ → α → Prop) (I : σ → Prop)
    (step : ∀ s a t, I s → M.step s a = some t → I t ∧ (C s a ↔ D s a))
    (s : σ) (as : List α) (t : σ) (hs : I s) (run : M.runFrom s as = some t) :
    M.Steps C s as ↔ M.Steps D s as := by
  induction as generalizing s with
  | nil => exact Iff.rfl
  | cons a as ih =>
    rw [runFrom_cons] at run
    obtain ⟨u, next, rest⟩ := Option.bind_eq_some_iff.mp run
    obtain ⟨hu, same⟩ := step s a u hs next
    simp only [Steps, same, next, Option.some.injEq, forall_eq']
    exact and_congr_right fun _ => ih u hu rest

/-- Some schedule whose steps all meet a condition leads from one state to another. -/
def Reaches (C : σ → α → Prop) (s t : σ) : Prop :=
  ∃ as, M.Steps C s as ∧ M.runFrom s as = some t

theorem Reaches.refl (C : σ → α → Prop) (s : σ) : M.Reaches C s s := ⟨[], trivial, rfl⟩

theorem Reaches.head {C : σ → α → Prop} {s u t : σ} (a : α) (ok : C s a)
    (step : M.step s a = some u) (rest : M.Reaches C u t) : M.Reaches C s t := by
  obtain ⟨as, steps, run⟩ := rest
  refine ⟨a :: as, ⟨ok, fun v next => ?_⟩, ?_⟩
  · obtain rfl : u = v := Option.some.inj (step.symm.trans next)
    exact steps
  · rw [runFrom_cons, step]
    exact run

theorem Reaches.trans {C : σ → α → Prop} {s u t : σ} (first : M.Reaches C s u)
    (rest : M.Reaches C u t) : M.Reaches C s t := by
  obtain ⟨as, steps, run⟩ := first
  induction as generalizing s with
  | nil =>
    obtain rfl : s = u := by simpa using run
    exact rest
  | cons a as ih =>
    rw [runFrom_cons] at run
    obtain ⟨v, step, run⟩ := Option.bind_eq_some_iff.mp run
    exact .head M a steps.1 step (ih (steps.2 v step) run)

end Machine

end IndustrialRuntime
