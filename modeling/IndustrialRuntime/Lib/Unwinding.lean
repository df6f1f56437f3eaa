import Mathlib.Data.List.Basic

namespace IndustrialRuntime

/-- An unwinding relation of a deterministic system: hidden events are not seen
through it, and every event maintains it. -/
structure Unwinding {σ α : Type*} (step : σ → α → σ) (hidden : α → Prop)
    (R : σ → σ → Prop) : Prop where
  respects : ∀ s t e, hidden e → R s t → R (step s e) t
  consistent : ∀ s t e, R s t → R (step s e) (step t e)

namespace Unwinding

variable {σ α : Type*} {step : σ → α → σ} {hidden : α → Prop} {R : σ → σ → Prop}

/-- Deleting the hidden events of a run is not seen through the relation. -/
theorem run [DecidablePred hidden] (unwinding : Unwinding step hidden R) {s t : σ} (h : R s t)
    (events : List α) :
    R (events.foldl step s) ((events.filter (fun e => ¬hidden e)).foldl step t) := by
  induction events generalizing s t with
  | nil => exact h
  | cons e events ih =>
    by_cases he : hidden e
    · have skipped : R (step s e) t := unwinding.respects s t e he h
      simpa only [List.foldl_cons, List.filter_cons, he, not_true, decide_false,
        Bool.false_eq_true, if_false] using ih skipped
    · have kept : R (step s e) (step t e) := unwinding.consistent s t e h
      simpa only [List.foldl_cons, List.filter_cons, he, not_false_eq_true, decide_true,
        if_true] using ih kept

end Unwinding

end IndustrialRuntime
