import IndustrialRuntime.Lib.Machine

namespace IndustrialRuntime.Atomic

universe u v w x

/-- What is seen of the calls on an object. -/
inductive Seen (T : Type u) (ρ : Type v) (α : Type w) where
  | called (thread : T) (request : ρ)
  | returned (thread : T) (answer : α)
  deriving DecidableEq

/-- Where a thread is: outside, in a call that has not taken effect, or in one that has. -/
inductive Progress (ρ : Type v) (α : Type w) where
  | idle
  | pending (request : ρ)
  | settled (answer : α)

structure State (T : Type u) (σ : Type x) (ρ : Type v) (α : Type w) where
  value : σ
  threads : T → Progress ρ α
  history : List (Seen T ρ α)

inductive Action (T : Type u) (ρ : Type v) where
  | call (thread : T) (request : ρ)
  | effect (thread : T)
  | return_ (thread : T)

section

variable {T : Type u} [DecidableEq T] {σ : Type x} {ρ : Type v} {α : Type w}
  (spec : ρ → σ → σ × α)

/-- A call takes effect at one instant between its invocation and its return. -/
def step (s : State T σ ρ α) : Action T ρ → Option (State T σ ρ α)
  | .call t request =>
    match s.threads t with
    | .idle => some { s with
        threads := Function.update s.threads t (.pending request)
        history := s.history ++ [.called t request] }
    | _ => none
  | .effect t =>
    match s.threads t with
    | .pending request => some { s with
        value := (spec request s.value).1
        threads := Function.update s.threads t (.settled (spec request s.value).2) }
    | _ => none
  | .return_ t =>
    match s.threads t with
    | .settled answer => some { s with
        threads := Function.update s.threads t .idle
        history := s.history ++ [.returned t answer] }
    | _ => none

/-- The object that behaves as the sequential specification says, for any number of callers. -/
def machine (init : σ) : Machine (State T σ ρ α) (Action T ρ) :=
  ⟨⟨init, fun _ => .idle, []⟩, step spec⟩

/-- What is seen can be explained by calls that take effect one at a time. -/
def Linearizable (init : σ) (history : List (Seen T ρ α)) : Prop :=
  ∃ as s, (machine spec init).run as = some s ∧ s.history = history

variable {spec}

theorem step_call {s : State T σ ρ α} {t : T} (outside : s.threads t = .idle) (request : ρ) :
    step spec s (.call t request) = some { s with
      threads := Function.update s.threads t (.pending request)
      history := s.history ++ [.called t request] } := by
  simp only [step, outside]

theorem step_effect {s : State T σ ρ α} {t : T} {request : ρ}
    (waits : s.threads t = .pending request) :
    step spec s (.effect t) = some { s with
      value := (spec request s.value).1
      threads := Function.update s.threads t (.settled (spec request s.value).2) } := by
  simp only [step, waits]

theorem step_return {s : State T σ ρ α} {t : T} {answer : α}
    (done : s.threads t = .settled answer) :
    step spec s (.return_ t) = some { s with
      threads := Function.update s.threads t .idle
      history := s.history ++ [.returned t answer] } := by
  simp only [step, done]

end

/-- Another machine is seen to be such an object when each of its steps is one of the object's or
leaves the object alone. -/
theorem linearizable_of_projection {T : Type u} [DecidableEq T] {σ : Type x} {ρ : Type v}
    {α : Type w} {spec : ρ → σ → σ × α} {init : σ} {S A : Type*} (M : Machine S A)
    (project : S → State T σ ρ α) (begun : project M.init = (machine spec init).init)
    (I : S → Prop) (base : I M.init)
    (kept : ∀ s a t, I s → M.step s a = some t → I t ∧
      (project t = project s ∨ ∃ b, step spec (project s) b = some (project t)))
    (as : List A) (s : S) (run : M.run as = some s) :
    I s ∧ Linearizable spec init (project s).history := by
  have explained : I s ∧ ∃ bs, (machine spec init).run bs = some (project s) := by
    refine M.invariant (fun s => I s ∧ ∃ bs, (machine spec init).run bs = some (project s))
      ⟨base, [], congrArg some begun.symm⟩ ?_ as s run
    intro s a t before next
    obtain ⟨holds, bs, reached⟩ := before
    obtain ⟨after, same | moved⟩ := kept s a t holds next
    · rw [same]
      exact ⟨after, bs, reached⟩
    · obtain ⟨b, moved⟩ := moved
      refine ⟨after, bs ++ [b], ?_⟩
      rw [Machine.run] at reached
      rw [Machine.run, Machine.runFrom_snoc, reached]
      exact moved
  obtain ⟨holds, bs, reached⟩ := explained
  exact ⟨holds, bs, project s, reached, rfl⟩

end IndustrialRuntime.Atomic
