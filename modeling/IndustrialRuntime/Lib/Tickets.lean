import Mathlib.Data.List.Nodup
import Mathlib.Data.Set.Insert

namespace IndustrialRuntime

/-- Every issued ticket is in the hands of one holder or was handed in once. -/
structure Ledger {τ κ : Type*} (holder : τ → Option κ) (issued : Set κ) (handed : List κ) :
    Prop where
  valid : ∀ t k, holder t = some k → k ∈ issued
  used : ∀ k ∈ handed, k ∈ issued
  distinct : ∀ t u k, holder t = some k → holder u = some k → t = u
  away : ∀ t k, holder t = some k → k ∉ handed
  once : handed.Nodup
  complete : ∀ k ∈ issued, k ∈ handed ∨ ∃ t, holder t = some k

namespace Ledger

variable {τ κ : Type*} {holder holder' : τ → Option κ} {issued : Set κ} {handed : List κ}

theorem empty (τ κ : Type*) : Ledger (fun _ : τ => (none : Option κ)) ∅ [] where
  valid _ _ h := by contradiction
  used _ h := absurd h List.not_mem_nil
  distinct _ _ _ h := by contradiction
  away _ _ h := by contradiction
  once := List.nodup_nil
  complete _ h := absurd h (Set.notMem_empty _)

theorem keep (inv : Ledger holder issued handed) (same : ∀ t, holder' t = holder t) :
    Ledger holder' issued handed := by
  obtain rfl : holder' = holder := funext same
  exact inv

/-- A thread without a ticket gets a new one. -/
theorem issue (inv : Ledger holder issued handed) (t : τ) (k : κ) (new : k ∉ issued)
    (before : holder t = none) (own : holder' t = some k)
    (others : ∀ u, u ≠ t → holder' u = holder u) : Ledger holder' (insert k issued) handed where
  valid u i held := by
    by_cases same : u = t
    · rw [same, own] at held
      exact .inl (Option.some.inj held).symm
    · rw [others u same] at held
      exact .inr (inv.valid u i held)
  used i found := .inr (inv.used i found)
  distinct u v i hu hv := by
    have fresh : ∀ w, holder w ≠ some k := fun w held => new (inv.valid w k held)
    by_cases same : u = t
    · by_cases same' : v = t
      · rw [same, same']
      · rw [same, own] at hu
        rw [others v same', ← hu] at hv
        exact absurd hv (fresh v)
    · by_cases same' : v = t
      · rw [same', own] at hv
        rw [others u same, ← hv] at hu
        exact absurd hu (fresh u)
      · rw [others u same] at hu
        rw [others v same'] at hv
        exact inv.distinct u v i hu hv
  away u i held := by
    by_cases same : u = t
    · rw [same, own] at held
      intro found
      exact new (inv.used k (Option.some.inj held ▸ found))
    · rw [others u same] at held
      exact inv.away u i held
  once := inv.once
  complete i found := by
    rcases Set.mem_insert_iff.mp found with rfl | old
    · exact .inr ⟨t, own⟩
    · rcases inv.complete i old with done | ⟨u, held⟩
      · exact .inl done
      · refine .inr ⟨u, ?_⟩
        rw [others u, held]
        intro same
        rw [same, before] at held
        contradiction

/-- A thread hands its ticket in. -/
theorem handIn (inv : Ledger holder issued handed) (t : τ) (k : κ) (before : holder t = some k)
    (own : holder' t = none) (others : ∀ u, u ≠ t → holder' u = holder u) :
    Ledger holder' issued (handed ++ [k]) := by
  have still : ∀ u i, holder' u = some i → u ≠ t ∧ holder u = some i := by
    intro u i held
    have other : u ≠ t := by
      intro same
      rw [same, own] at held
      contradiction
    exact ⟨other, others u other ▸ held⟩
  refine ⟨fun u i held => inv.valid u i (still u i held).2, fun i found => ?_,
    fun u v i hu hv => inv.distinct u v i (still u i hu).2 (still v i hv).2,
    fun u i held found => ?_, ?_, fun i found => ?_⟩
  · rcases List.mem_append.mp found with old | last
    · exact inv.used i old
    · rw [List.mem_singleton.mp last]
      exact inv.valid t k before
  · obtain ⟨other, held⟩ := still u i held
    rcases List.mem_append.mp found with old | last
    · exact inv.away u i held old
    · rw [List.mem_singleton.mp last] at held
      exact other (inv.distinct u t k held before)
  · refine List.nodup_append.mpr ⟨inv.once, List.nodup_singleton k, fun i old j last => ?_⟩
    rw [List.mem_singleton.mp last]
    intro same
    exact inv.away t k before (same ▸ old)
  · rcases inv.complete i found with done | ⟨u, held⟩
    · exact .inl (List.mem_append_left _ done)
    · by_cases same : u = t
      · rw [same, before] at held
        exact .inl (List.mem_append_right _ (List.mem_singleton.mpr (Option.some.inj held).symm))
      · exact .inr ⟨u, by rw [others u same, held]⟩

end Ledger

end IndustrialRuntime
