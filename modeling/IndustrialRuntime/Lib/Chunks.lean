import Mathlib.Data.List.Basic

namespace IndustrialRuntime.Chunks

variable {α : Type*} (enough : List α → Bool)

/-- Reads a stream in the chunks in which it arrives, up to its end or until there is enough. -/
def fill (got : List α) : List (List α) → List α
  | [] => got
  | chunk :: chunks =>
    if enough got || chunk.isEmpty then got else fill (got ++ chunk) chunks

/-- What is read is the stream up to a point between two chunks; there was not enough before. -/
theorem fill_split (got : List α) (chunks : List (List α)) (whole : ∀ c ∈ chunks, c ≠ []) :
    ∃ taken left, chunks = taken ++ left ∧ fill enough got chunks = got ++ taken.flatten ∧
      (left = [] ∨ enough (got ++ taken.flatten) = true) ∧
      ∀ before next after, taken = before ++ next :: after →
        enough (got ++ before.flatten) = false := by
  induction chunks generalizing got with
  | nil =>
    refine ⟨[], [], rfl, by simp [fill], .inl rfl, ?_⟩
    intro before next after none
    simp at none
  | cons chunk chunks ih =>
    have some_ : chunk.isEmpty = false := by
      simpa using whole chunk List.mem_cons_self
    cases stop : enough got with
    | true =>
      refine ⟨[], chunk :: chunks, rfl, by simp [fill, stop], .inr (by simpa using stop), ?_⟩
      intro before next after none
      simp at none
    | false =>
      obtain ⟨taken, left, split, read, last, first⟩ := ih (got ++ chunk) fun c later =>
        whole c (List.mem_cons_of_mem chunk later)
      refine ⟨chunk :: taken, left, by rw [split, List.cons_append], ?_, ?_, ?_⟩
      · rw [fill, stop, some_, List.flatten_cons, ← List.append_assoc]
        exact read
      · rw [List.flatten_cons, ← List.append_assoc]
        exact last
      · intro before next after same
        cases before with
        | nil => simpa using stop
        | cons c before =>
          rw [List.cons_append] at same
          injection same with head tail
          rw [← head, List.flatten_cons, ← List.append_assoc]
          exact first before next after tail

end IndustrialRuntime.Chunks
