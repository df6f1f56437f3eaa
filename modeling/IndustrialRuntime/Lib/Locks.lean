import Mathlib.Data.List.Count
import Mathlib.Logic.Relation

namespace IndustrialRuntime

/-- How a lock is held or wanted: a mutex is only ever taken exclusively. -/
inductive LockMode where
  | shared | exclusive
  deriving DecidableEq, Repr

def LockMode.conflicts : LockMode → LockMode → Bool
  | .shared, .shared => false
  | _, _ => true

theorem LockMode.conflicts_comm (m n : LockMode) : m.conflicts n = n.conflicts m := by
  cases m <;> cases n <;> rfl

structure Grant (τ ℓ : Type*) where
  thread : τ
  lock : ℓ
  mode : LockMode
  deriving DecidableEq

/-- The locks that are held; a thread that entered a recursive lock twice is listed twice. -/
abbrev LockTable (τ ℓ : Type*) := List (Grant τ ℓ)

namespace LockTable

variable {τ ℓ : Type*} [DecidableEq τ] [DecidableEq ℓ]

/-- No other thread holds the lock in a conflicting mode. -/
def free (table : LockTable τ ℓ) (t : τ) (l : ℓ) (m : LockMode) : Bool :=
  table.all fun g => g.thread = t || g.lock ≠ l || !m.conflicts g.mode

def acquire (table : LockTable τ ℓ) (t : τ) (l : ℓ) (m : LockMode) : LockTable τ ℓ :=
  ⟨t, l, m⟩ :: table

def release (table : LockTable τ ℓ) (t : τ) (l : ℓ) (m : LockMode) : LockTable τ ℓ :=
  table.erase ⟨t, l, m⟩

@[simp] theorem release_acquire (table : LockTable τ ℓ) (t : τ) (l : ℓ) (m : LockMode) :
    (table.acquire t l m).release t l m = table :=
  List.erase_cons_head _ _

omit [DecidableEq τ] [DecidableEq ℓ] in
/-- Conflicting grants of one lock belong to one thread. -/
def Exclusive (table : LockTable τ ℓ) : Prop :=
  ∀ g ∈ table, ∀ h ∈ table, g.lock = h.lock → g.mode.conflicts h.mode → g.thread = h.thread

/-- The table lists exactly what the threads hold. -/
structure Consistent (table : LockTable τ ℓ) (held : τ → List (ℓ × LockMode)) : Prop where
  exact : ∀ t l m, table.count ⟨t, l, m⟩ = (held t).count (l, m)
  exclusive : table.Exclusive

theorem consistent_nil : Consistent ([] : LockTable τ ℓ) (fun _ => []) :=
  ⟨fun _ _ _ => rfl, fun _ found => absurd found List.not_mem_nil⟩

variable {table : LockTable τ ℓ} {held held' : τ → List (ℓ × LockMode)}

theorem Consistent.mem_iff (inv : table.Consistent held) (g : Grant τ ℓ) :
    g ∈ table ↔ (g.lock, g.mode) ∈ held g.thread := by
  rw [← List.count_pos_iff, ← List.count_pos_iff, ← inv.exact]

/-- Two threads never hold one lock in conflicting modes. -/
theorem Consistent.same_thread (inv : table.Consistent held) {t u : τ} {l : ℓ} {m n : LockMode}
    (here : (l, m) ∈ held t) (there : (l, n) ∈ held u) (conflict : m.conflicts n = true) :
    t = u :=
  inv.exclusive ⟨t, l, m⟩ ((inv.mem_iff _).mpr here) ⟨u, l, n⟩ ((inv.mem_iff _).mpr there) rfl
    conflict

/-- A step that takes and gives back nothing. -/
theorem Consistent.keep (inv : table.Consistent held)
    (same : ∀ t l m, (held' t).count (l, m) = (held t).count (l, m)) :
    table.Consistent held' :=
  ⟨fun t l m => (inv.exact t l m).trans (same t l m).symm, inv.exclusive⟩

theorem free_spec {t : τ} {l : ℓ} {m : LockMode} (free : table.free t l m = true) (g : Grant τ ℓ)
    (found : g ∈ table) (lock : g.lock = l) (conflict : m.conflicts g.mode = true) :
    g.thread = t := by
  have entry := List.all_eq_true.mp free g found
  simpa [lock, conflict] using entry

theorem Consistent.acquire (inv : table.Consistent held) (t : τ) (l : ℓ) (m : LockMode)
    (free : table.free t l m = true)
    (own : ∀ l' m', (held' t).count (l', m') = ((l, m) :: held t).count (l', m'))
    (others : ∀ u, u ≠ t → held' u = held u) :
    (table.acquire t l m).Consistent held' := by
  refine ⟨fun u l' m' => ?_, ?_⟩
  · by_cases same : u = t
    · subst same
      rw [own, LockTable.acquire, List.count_cons, List.count_cons, inv.exact]
      simp
    · rw [others u same, LockTable.acquire, List.count_cons_of_ne, inv.exact]
      intro equal
      injection equal with thread
      exact same thread.symm
  · intro g found h found' lock conflict
    rcases List.mem_cons.mp found with rfl | old
    · rcases List.mem_cons.mp found' with rfl | old'
      · rfl
      · exact (free_spec free h old' lock.symm conflict).symm
    · rcases List.mem_cons.mp found' with rfl | old'
      · rw [LockMode.conflicts_comm] at conflict
        exact free_spec free g old lock conflict
      · exact inv.exclusive g old h old' lock conflict

theorem Consistent.release (inv : table.Consistent held) (t : τ) (l : ℓ) (m : LockMode)
    (own : ∀ l' m', (held t).count (l', m') = ((l, m) :: held' t).count (l', m'))
    (others : ∀ u, u ≠ t → held' u = held u) :
    (table.release t l m).Consistent held' := by
  refine ⟨fun u l' m' => ?_, ?_⟩
  · by_cases same : u = t
    · subst same
      rw [LockTable.release, List.count_erase, inv.exact, own, List.count_cons]
      by_cases equal : l = l' ∧ m = m'
      · obtain ⟨rfl, rfl⟩ := equal
        simp
      · simp [equal]
    · rw [others u same, LockTable.release, List.count_erase_of_ne, inv.exact]
      intro equal
      injection equal with thread
      exact same thread
  · intro g found h found' lock conflict
    exact inv.exclusive g (List.mem_of_mem_erase found) h (List.mem_of_mem_erase found') lock
      conflict

end LockTable

/-! ### Waiting -/

section Waiting

variable {τ ℓ : Type*}

/-- Thread `t` waits for a lock that another thread `u` holds in a conflicting mode. -/
def WaitsFor (table : LockTable τ ℓ) (wants : τ → Option (ℓ × LockMode)) (t u : τ) : Prop :=
  ∃ l m, wants t = some (l, m) ∧ u ≠ t ∧
    ∃ g ∈ table, g.thread = u ∧ g.lock = l ∧ m.conflicts g.mode = true

/-- A cycle of threads, each waiting for a lock that the next one holds. -/
def Deadlocked (table : LockTable τ ℓ) (wants : τ → Option (ℓ × LockMode)) : Prop :=
  ∃ t, Relation.TransGen (WaitsFor table wants) t t

/-- There is no cycle when every wait goes down in some rank. -/
theorem not_deadlocked_of_rank {table : LockTable τ ℓ} {wants : τ → Option (ℓ × LockMode)}
    (rank : τ → Nat) (down : ∀ t u, WaitsFor table wants t u → rank u < rank t) :
    ¬Deadlocked table wants := by
  intro cycle
  obtain ⟨t, path⟩ := cycle
  have below : ∀ u, Relation.TransGen (WaitsFor table wants) t u → rank u < rank t := by
    intro u path
    induction path with
    | single edge => exact down _ _ edge
    | tail _ edge ih => exact Nat.lt_trans (down _ _ edge) ih
  exact Nat.lt_irrefl _ (below t path)

/-- Two threads that wait for each other. -/
theorem deadlocked_of_pair {table : LockTable τ ℓ} {wants : τ → Option (ℓ × LockMode)} (t u : τ)
    (there : WaitsFor table wants t u) (back : WaitsFor table wants u t) :
    Deadlocked table wants :=
  ⟨t, .tail (.single there) back⟩

end Waiting

end IndustrialRuntime
