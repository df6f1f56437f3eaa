import IndustrialRuntime.Core.MpmcInvariant
import Mathlib.Data.Nat.ModEq

namespace IndustrialRuntime.Core.MpmcQueue

variable {T τ : Type*}

/-! ### Positions of one cell -/

theorem eq_of_mod_eq {C k j : Nat} (h : k % C = j % C) (hk : k < j + C) (hj : j < k + C) :
    k = j := by
  apply Nat.ModEq.eq_of_abs_lt (show k ≡ j [MOD C] from h)
  rw [abs_lt]
  omega

theorem succ_mod_ne {C k : Nat} (hC : 2 ≤ C) : (k + 1) % C ≠ k % C := by
  intro h
  have := eq_of_mod_eq h (by omega) (by omega)
  omega

theorem add_self_ne {C k j : Nat} (h : k % C ≠ j % C) : j ≠ k + C := by
  intro hj
  exact h (by rw [hj, Nat.add_mod_right])

theorem getElem?_append_some {α : Type*} {l : List α} {i : Nat} {a : α} (h : l[i]? = some a)
    (l' : List α) : (l ++ l')[i]? = some a := by
  rw [List.getElem?_append_left (List.getElem?_eq_some_iff.mp h).1, h]

/-- A log whose entries carry their place goes on with an entry that does. -/
theorem index_append {α : Type*} {l : List α} {a : α} {index : α → Nat}
    (old : ∀ k e, l[k]? = some e → index e = k) (last : index a = l.length) (k : Nat) (e : α)
    (found : (l ++ [a])[k]? = some e) : index e = k := by
  rcases Nat.lt_or_ge k l.length with below | above
  · rw [List.getElem?_append_left below] at found
    exact old k e found
  · rw [List.getElem?_append_right above, List.getElem?_singleton] at found
    split_ifs at found with here
    obtain rfl := Option.some_inj.mp found
    omega

theorem buffer_setData (q : MpmcQueue T) (pos : UInt64) (data : Option T) (i : Nat) :
    (q.setData pos data).buffer i =
      if i = q.index pos then { q.cell pos with data := data } else q.buffer i := by
  simp [setData, Function.update_apply]

theorem buffer_setSequence (q : MpmcQueue T) (pos sequence : UInt64) (i : Nat) :
    (q.setSequence pos sequence).buffer i =
      if i = q.index pos then { q.cell pos with sequence := sequence } else q.buffer i := by
  simp [setSequence, Function.update_apply]

/-- The ticket whose cell a thread owns. -/
def Pc.owns (pc : Pc T) : Option UInt64 := pc.writes <|> pc.reads

namespace System

variable {s : System τ T} {C : Nat}

/-! ### Owners of a cell -/

/-- A writer's ticket is logged under its thread and is its cell's sequence. -/
theorem Inv.writer_sequence (h : s.Inv C) {t : τ} {pos : UInt64}
    (hw : (s.pc t).writes = some pos) :
    (s.queue.buffer (pos.toNat % C)).sequence.toNat = pos.toNat ∧
      ∃ item, s.enqueued[pos.toNat]? = some ⟨pos, t, item⟩ := by
  have ok := h.threads t
  cases hpc : s.pc t with
  | idle => simp [hpc, Pc.writes] at hw
  | dequeue pc => simp [hpc, Pc.writes] at hw
  | enqueue pc =>
    rw [hpc] at ok
    cases pc with
    | storeData item p =>
      obtain rfl : p = pos := by simpa [hpc, Pc.writes] using hw
      exact ⟨ok.2.2.1, item, ok.1⟩
    | storeSequence p =>
      obtain rfl : p = pos := by simpa [hpc, Pc.writes] using hw
      obtain ⟨-, hseq, item, hlog, -⟩ := ok
      exact ⟨hseq, item, hlog⟩
    | loadPos => simp [hpc, Pc.writes] at hw
    | loadSequence => simp [hpc, Pc.writes] at hw
    | compareExchange => simp [hpc, Pc.writes] at hw

/-- A reader's ticket is logged under its thread, one below its cell's sequence. -/
theorem Inv.reader_sequence (h : s.Inv C) {t : τ} {pos : UInt64}
    (hr : (s.pc t).reads = some pos) :
    (s.queue.buffer (pos.toNat % C)).sequence.toNat = pos.toNat + 1 ∧
      s.dequeued[pos.toNat]? = some ⟨pos, t⟩ := by
  have ok := h.threads t
  cases hpc : s.pc t with
  | idle => simp [hpc, Pc.reads] at hr
  | enqueue pc => simp [hpc, Pc.reads] at hr
  | dequeue pc =>
    rw [hpc] at ok
    cases pc with
    | moveData p =>
      obtain rfl : p = pos := by simpa [hpc, Pc.reads] using hr
      exact ⟨ok.2.1, ok.1⟩
    | storeSequence p out =>
      obtain rfl : p = pos := by simpa [hpc, Pc.reads] using hr
      exact ⟨ok.2.1, ok.1⟩
    | loadPos => simp [hpc, Pc.reads] at hr
    | loadSequence => simp [hpc, Pc.reads] at hr
    | compareExchange => simp [hpc, Pc.reads] at hr

theorem Inv.owner_sequence (h : s.Inv C) {t : τ} {pos : UInt64} (ho : (s.pc t).owns = some pos) :
    ((s.queue.buffer (pos.toNat % C)).sequence.toNat = pos.toNat ∧
      ∃ item, s.enqueued[pos.toNat]? = some ⟨pos, t, item⟩) ∨
    ((s.queue.buffer (pos.toNat % C)).sequence.toNat = pos.toNat + 1 ∧
      s.dequeued[pos.toNat]? = some ⟨pos, t⟩) := by
  rw [Pc.owns, Option.orElse_eq_some] at ho
  cases ho with
  | inl writer => exact Or.inl (h.writer_sequence writer)
  | inr reader => exact Or.inr (h.reader_sequence reader.2)

/-- No cell has two owners. -/
theorem Inv.owner_unique (h : s.Inv C) {t u : τ} {a b : UInt64}
    (ht : (s.pc t).owns = some a) (hu : (s.pc u).owns = some b)
    (cell : a.toNat % C = b.toNat % C) : t = u := by
  have two := h.sized.two_le
  rcases h.owner_sequence ht with ⟨sa, ia, la⟩ | ⟨sa, la⟩ <;>
    rcases h.owner_sequence hu with ⟨sb, ib, lb⟩ | ⟨sb, lb⟩ <;> rw [cell] at sa
  · rw [← sa, sb, lb] at la
    injection la with same
    injection same with _ thread
    exact thread.symm
  · have ticket : b.toNat + 1 = a.toNat := by omega
    rw [← ticket] at cell
    exact absurd cell (succ_mod_ne two)
  · have ticket : a.toNat + 1 = b.toNat := by omega
    rw [← ticket] at cell
    exact absurd cell.symm (succ_mod_ne two)
  · have ticket : a.toNat = b.toNat := by omega
    rw [ticket, lb] at la
    injection la with same
    injection same with _ thread
    exact thread.symm

/-! ### Cells at the two ends -/

theorem Inv.free_of_sequence (h : s.Inv C) {k : Nat}
    (hseq : (s.queue.buffer (k % C)).sequence.toNat = k) : s.Free C k := by
  have two := h.sized.two_le
  obtain ⟨j, hj, phase⟩ := h.cells (k % C) (Nat.mod_lt _ (by omega))
  cases phase with
  | inl free =>
    have := free.sequence
    rw [hj, hseq] at this
    exact this ▸ free
  | inr full =>
    have := full.sequence
    rw [hj, hseq] at this
    rw [this] at hj
    exact absurd hj.symm (succ_mod_ne two)

theorem Inv.full_of_sequence (h : s.Inv C) {k : Nat}
    (hseq : (s.queue.buffer (k % C)).sequence.toNat = k + 1) : s.Full C k := by
  have two := h.sized.two_le
  obtain ⟨j, hj, phase⟩ := h.cells (k % C) (Nat.mod_lt _ (by omega))
  cases phase with
  | inl free =>
    have := free.sequence
    rw [hj, hseq] at this
    rw [← this] at hj
    exact absurd hj (succ_mod_ne two)
  | inr full =>
    have := full.sequence
    rw [hj, hseq] at this
    obtain rfl : k = j := by omega
    exact full

/-! ### What a step leaves alone -/

theorem Free.frame {s' : System τ T} {k : Nat} (h : s.Free C k)
    (buffer : s'.queue.buffer (k % C) = s.queue.buffer (k % C))
    (enqueued : s'.enqueued = s.enqueued) (dequeued : s'.dequeued = s.dequeued)
    (owner : (∃ t pos, (s.pc t).writes = some pos ∧ pos.toNat = k) →
      ∃ t pos, (s'.pc t).writes = some pos ∧ pos.toNat = k) : s'.Free C k where
  sequence := by rw [buffer, h.sequence]
  le := by rw [dequeued]; exact h.le
  near := by rw [dequeued]; exact h.near
  unclaimed := by rw [enqueued]; exact h.unclaimed
  owner := by rw [enqueued]; exact fun hk => owner (h.owner hk)
  data := by rw [enqueued, buffer]; exact h.data

theorem Full.frame {s' : System τ T} {k : Nat} (h : s.Full C k)
    (buffer : s'.queue.buffer (k % C) = s.queue.buffer (k % C))
    (enqueued : s'.enqueued = s.enqueued) (dequeued : s'.dequeued = s.dequeued)
    (owner : (∃ t pos, (s.pc t).reads = some pos ∧ pos.toNat = k) →
      ∃ t pos, (s'.pc t).reads = some pos ∧ pos.toNat = k) : s'.Full C k where
  sequence := by rw [buffer, h.sequence]
  lt := by rw [enqueued]; exact h.lt
  le := by rw [dequeued]; exact h.le
  near := by rw [dequeued]; exact h.near
  unclaimed := by rw [enqueued]; exact h.unclaimed
  owner := by rw [dequeued]; exact fun hk => owner (h.owner hk)
  data := by rw [dequeued, enqueued, buffer]; exact h.data

/-- One more ticket of `tryEnqueue` concerns no cell but its own. -/
theorem Free.grow_enqueued {s' : System τ T} {k : Nat} (h : s.Free C k) {e : Enqueued τ T}
    (buffer : s'.queue.buffer = s.queue.buffer) (enqueued : s'.enqueued = s.enqueued ++ [e])
    (dequeued : s'.dequeued = s.dequeued) (other : k % C ≠ s.enqueued.length % C)
    (owner : (∃ t pos, (s.pc t).writes = some pos ∧ pos.toNat = k) →
      ∃ t pos, (s'.pc t).writes = some pos ∧ pos.toNat = k) : s'.Free C k := by
  have longer : s'.enqueued.length = s.enqueued.length + 1 := by
    rw [enqueued, List.length_append, List.length_singleton]
  have ne : k ≠ s.enqueued.length := fun e => other (by rw [e])
  have ne_lap := add_self_ne other
  refine ⟨?_, ?_, ?_, ?_, ?_, ?_⟩
  · rw [buffer, h.sequence]
  · rw [dequeued]
    exact h.le
  · rw [dequeued]
    exact h.near
  · have := h.unclaimed
    omega
  · intro hlt
    exact owner (h.owner (by omega))
  · intro hle
    rw [buffer]
    exact h.data (by omega)

theorem Full.grow_enqueued {s' : System τ T} {k : Nat} (h : s.Full C k) {e : Enqueued τ T}
    (buffer : s'.queue.buffer = s.queue.buffer) (enqueued : s'.enqueued = s.enqueued ++ [e])
    (dequeued : s'.dequeued = s.dequeued) (other : k % C ≠ s.enqueued.length % C)
    (owner : (∃ t pos, (s.pc t).reads = some pos ∧ pos.toNat = k) →
      ∃ t pos, (s'.pc t).reads = some pos ∧ pos.toNat = k) : s'.Full C k := by
  have longer : s'.enqueued.length = s.enqueued.length + 1 := by
    rw [enqueued, List.length_append, List.length_singleton]
  have ne_lap := add_self_ne other
  refine ⟨?_, ?_, ?_, ?_, ?_, ?_, ?_⟩
  · rw [buffer, h.sequence]
  · have := h.lt
    omega
  · rw [dequeued]
    exact h.le
  · rw [dequeued]
    exact h.near
  · have := h.unclaimed
    omega
  · rw [dequeued]
    exact fun hlt => owner (h.owner hlt)
  · rw [dequeued, buffer, enqueued]
    intro hle
    obtain ⟨e, he, hdata⟩ := h.data hle
    exact ⟨e, getElem?_append_some he _, hdata⟩

/-- One more ticket of `tryDequeue` concerns no cell but its own. -/
theorem Free.grow_dequeued {s' : System τ T} {k : Nat} (h : s.Free C k) {d : Dequeued τ}
    (buffer : s'.queue.buffer = s.queue.buffer) (enqueued : s'.enqueued = s.enqueued)
    (dequeued : s'.dequeued = s.dequeued ++ [d]) (other : k % C ≠ s.dequeued.length % C)
    (owner : (∃ t pos, (s.pc t).writes = some pos ∧ pos.toNat = k) →
      ∃ t pos, (s'.pc t).writes = some pos ∧ pos.toNat = k) : s'.Free C k := by
  have longer : s'.dequeued.length = s.dequeued.length + 1 := by
    rw [dequeued, List.length_append, List.length_singleton]
  have ne : k ≠ s.dequeued.length := fun e => other (by rw [e])
  refine ⟨?_, ?_, ?_, ?_, ?_, ?_⟩
  · rw [buffer, h.sequence]
  · have := h.le
    omega
  · have := h.near
    omega
  · rw [enqueued]
    exact h.unclaimed
  · rw [enqueued]
    exact fun hlt => owner (h.owner hlt)
  · rw [enqueued, buffer]
    exact h.data

theorem Full.grow_dequeued {s' : System τ T} {k : Nat} (h : s.Full C k) {d : Dequeued τ}
    (buffer : s'.queue.buffer = s.queue.buffer) (enqueued : s'.enqueued = s.enqueued)
    (dequeued : s'.dequeued = s.dequeued ++ [d]) (other : k % C ≠ s.dequeued.length % C)
    (owner : (∃ t pos, (s.pc t).reads = some pos ∧ pos.toNat = k) →
      ∃ t pos, (s'.pc t).reads = some pos ∧ pos.toNat = k) : s'.Full C k := by
  have longer : s'.dequeued.length = s.dequeued.length + 1 := by
    rw [dequeued, List.length_append, List.length_singleton]
  have ne : k ≠ s.dequeued.length := fun e => other (by rw [e])
  have ne_lap := add_self_ne other
  refine ⟨?_, ?_, ?_, ?_, ?_, ?_, ?_⟩
  · rw [buffer, h.sequence]
  · rw [enqueued]
    exact h.lt
  · have := h.le
    omega
  · have := h.near
    omega
  · rw [enqueued]
    exact h.unclaimed
  · intro hlt
    exact owner (h.owner (by omega))
  · intro hle
    rw [enqueued, buffer]
    exact h.data (by omega)

/-- A thread's facts survive a step that spares the cell it owns and the
sequence its exchange relies on. -/
theorem ThreadOk.frame {s' : System τ T} {u : τ} {p : Pc T} (h : s.ThreadOk C u p)
    (enqueued : s'.enqueued = s.enqueued) (dequeued : s'.dequeued = s.dequeued)
    (own : ∀ pos, p.owns = some pos →
      s'.queue.buffer (pos.toNat % C) = s.queue.buffer (pos.toNat % C))
    (tail : (s.queue.buffer (s.enqueued.length % C)).sequence.toNat = s.enqueued.length →
      (s'.queue.buffer (s.enqueued.length % C)).sequence.toNat = s.enqueued.length)
    (head : (s.queue.buffer (s.dequeued.length % C)).sequence.toNat = s.dequeued.length + 1 →
      (s'.queue.buffer (s.dequeued.length % C)).sequence.toNat = s.dequeued.length + 1) :
    s'.ThreadOk C u p := by
  cases p with
  | idle => trivial
  | enqueue pc =>
    cases pc with
    | loadPos => trivial
    | loadSequence item pos =>
      change pos.toNat ≤ s'.enqueued.length
      rw [enqueued]
      exact h
    | compareExchange item pos =>
      obtain ⟨hle, hseq⟩ := h
      refine ⟨by rw [enqueued]; exact hle, ?_⟩
      rw [enqueued]
      intro hpos
      rw [← hpos]
      apply tail
      rw [hpos]
      exact hseq hpos
    | storeData item pos =>
      have same := own pos rfl
      change s'.enqueued[pos.toNat]? = _ ∧ s'.dequeued.length ≤ _ ∧ _ ∧ _
      rw [enqueued, dequeued, same]
      exact h
    | storeSequence pos =>
      have same := own pos rfl
      change s'.dequeued.length ≤ _ ∧ _ ∧ ∃ item, s'.enqueued[pos.toNat]? = _ ∧ _
      rw [enqueued, dequeued, same]
      exact h
  | dequeue pc =>
    cases pc with
    | loadPos => trivial
    | loadSequence pos =>
      change pos.toNat ≤ s'.dequeued.length
      rw [dequeued]
      exact h
    | compareExchange pos =>
      obtain ⟨hle, hseq⟩ := h
      refine ⟨by rw [dequeued]; exact hle, ?_⟩
      rw [dequeued]
      intro hpos
      rw [← hpos]
      apply head
      rw [hpos]
      exact hseq hpos
    | moveData pos =>
      have same := own pos rfl
      change s'.dequeued[pos.toNat]? = _ ∧ _ ∧ ∃ e, s'.enqueued[pos.toNat]? = _ ∧ _
      rw [enqueued, dequeued, same]
      exact h
    | storeSequence pos out =>
      have same := own pos rfl
      change s'.dequeued[pos.toNat]? = _ ∧ _ ∧ _ ∧ ∃ e, s'.enqueued[pos.toNat]? = _ ∧ _
      rw [enqueued, dequeued, same]
      exact h

/-- Appending to the log of enqueues leaves every thread's facts. -/
theorem ThreadOk.grow_enqueued {s' : System τ T} {u : τ} {p : Pc T} (h : s.ThreadOk C u p)
    {more : List (Enqueued τ T)} (enqueued : s'.enqueued = s.enqueued ++ more)
    (dequeued : s'.dequeued = s.dequeued) (buffer : s'.queue.buffer = s.queue.buffer) :
    s'.ThreadOk C u p := by
  have longer : s.enqueued.length ≤ s'.enqueued.length := by
    rw [enqueued, List.length_append]
    omega
  cases p with
  | idle => trivial
  | enqueue pc =>
    cases pc with
    | loadPos => trivial
    | loadSequence item pos => exact le_trans h longer
    | compareExchange item pos =>
      obtain ⟨hle, hseq⟩ := h
      refine ⟨le_trans hle longer, ?_⟩
      rw [buffer]
      intro hpos
      exact hseq (by omega)
    | storeData item pos =>
      obtain ⟨hlog, hle, hseq, hdata⟩ := h
      rw [ThreadOk, buffer, enqueued, dequeued]
      exact ⟨getElem?_append_some hlog _, hle, hseq, hdata⟩
    | storeSequence pos =>
      obtain ⟨hle, hseq, item, hlog, hdata⟩ := h
      rw [ThreadOk, buffer, enqueued, dequeued]
      exact ⟨hle, hseq, item, getElem?_append_some hlog _, hdata⟩
  | dequeue pc =>
    cases pc with
    | loadPos => trivial
    | loadSequence pos =>
      rw [ThreadOk, dequeued]
      exact h
    | compareExchange pos =>
      rw [ThreadOk, dequeued, buffer]
      exact h
    | moveData pos =>
      obtain ⟨hlog, hseq, e, he, hdata⟩ := h
      rw [ThreadOk, buffer, enqueued, dequeued]
      exact ⟨hlog, hseq, e, getElem?_append_some he _, hdata⟩
    | storeSequence pos out =>
      obtain ⟨hlog, hseq, hdata, e, he, hout⟩ := h
      rw [ThreadOk, buffer, enqueued, dequeued]
      exact ⟨hlog, hseq, hdata, e, getElem?_append_some he _, hout⟩

/-- Appending to the log of dequeues leaves the facts of every thread that is
not about to overwrite the cell at its end. -/
theorem ThreadOk.grow_dequeued {s' : System τ T} {u : τ} {p : Pc T} (h : s.ThreadOk C u p)
    {d : Dequeued τ} (enqueued : s'.enqueued = s.enqueued)
    (dequeued : s'.dequeued = s.dequeued ++ [d]) (buffer : s'.queue.buffer = s.queue.buffer)
    (head : (s.queue.buffer (s.dequeued.length % C)).sequence.toNat = s.dequeued.length + 1) :
    s'.ThreadOk C u p := by
  have longer : s'.dequeued.length = s.dequeued.length + 1 := by
    rw [dequeued, List.length_append, List.length_singleton]
  have past (pos : UInt64) (hle : s.dequeued.length ≤ pos.toNat)
      (hseq : (s.queue.buffer (pos.toNat % C)).sequence.toNat = pos.toNat) :
      s'.dequeued.length ≤ pos.toNat := by
    by_contra hlt
    have at_head : pos.toNat = s.dequeued.length := by omega
    rw [at_head, head] at hseq
    omega
  cases p with
  | idle => trivial
  | enqueue pc =>
    cases pc with
    | loadPos => trivial
    | loadSequence item pos =>
      rw [ThreadOk, enqueued]
      exact h
    | compareExchange item pos =>
      rw [ThreadOk, enqueued, buffer]
      exact h
    | storeData item pos =>
      obtain ⟨hlog, hle, hseq, hdata⟩ := h
      rw [ThreadOk, buffer, enqueued]
      exact ⟨hlog, past pos hle hseq, hseq, hdata⟩
    | storeSequence pos =>
      obtain ⟨hle, hseq, hitem⟩ := h
      rw [ThreadOk, buffer, enqueued]
      exact ⟨past pos hle hseq, hseq, hitem⟩
  | dequeue pc =>
    cases pc with
    | loadPos => trivial
    | loadSequence pos =>
      rw [ThreadOk, longer]
      exact Nat.le_succ_of_le h
    | compareExchange pos =>
      obtain ⟨hle, -⟩ := h
      rw [ThreadOk, longer]
      exact ⟨Nat.le_succ_of_le hle, fun hpos => absurd hpos (by omega)⟩
    | moveData pos =>
      obtain ⟨hlog, hseq, hitem⟩ := h
      rw [ThreadOk, buffer, enqueued, dequeued]
      exact ⟨getElem?_append_some hlog _, hseq, hitem⟩
    | storeSequence pos out =>
      obtain ⟨hlog, hseq, hitem⟩ := h
      rw [ThreadOk, buffer, enqueued, dequeued]
      exact ⟨getElem?_append_some hlog _, hseq, hitem⟩

variable [DecidableEq τ]

@[simp] theorem goto_pc_self (s : System τ T) (t : τ) (p : Pc T) : (s.goto t p).pc t = p := by
  simp [goto]

theorem goto_pc_ne (s : System τ T) {t u : τ} (p : Pc T) (h : u ≠ t) :
    (s.goto t p).pc u = s.pc u := by
  simp [goto, h]

/-- An owner stays one when the thread that moves keeps the ticket, if it has it. -/
theorem owner_goto {f : Pc T → Option UInt64} {k : Nat} (t : τ) (p : Pc T)
    (keep : ∀ pos, f (s.pc t) = some pos → pos.toNat = k → f p = some pos)
    (h : ∃ u pos, f (s.pc u) = some pos ∧ pos.toNat = k) :
    ∃ u pos, f ((s.goto t p).pc u) = some pos ∧ pos.toNat = k := by
  obtain ⟨u, pos, hf, hk⟩ := h
  by_cases hu : u = t
  · subst hu
    exact ⟨u, pos, by rw [goto_pc_self]; exact keep pos hf hk, hk⟩
  · exact ⟨u, pos, by rw [goto_pc_ne s p hu]; exact hf, hk⟩

/-- A thread that owns nothing may move anywhere. -/
theorem owner_goto_of_none {f : Pc T → Option UInt64} {k : Nat} (t : τ) (p : Pc T)
    (quiet : f (s.pc t) = none) (h : ∃ u pos, f (s.pc u) = some pos ∧ pos.toNat = k) :
    ∃ u pos, f ((s.goto t p).pc u) = some pos ∧ pos.toNat = k := by
  apply owner_goto t p _ h
  intro pos hpos
  rw [quiet] at hpos
  contradiction

/-- Threads are as they should be when the one that moved is and the step kept the others. -/
theorem threads_goto {s' : System τ T} {C : Nat} (t : τ) (p : Pc T)
    (moved : s'.pc = (s.goto t p).pc) (own : s'.ThreadOk C t p)
    (others : ∀ u, u ≠ t → s'.ThreadOk C u (s.pc u)) (u : τ) : s'.ThreadOk C u (s'.pc u) := by
  rw [moved]
  by_cases same : u = t
  · subst same
    rw [goto_pc_self]
    exact own
  · rw [goto_pc_ne s p same]
    exact others u same

theorem writes_of_owns {p : Pc T} {pos : UInt64} (h : p.writes = some pos) : p.owns = some pos := by
  rw [Pc.owns, h]
  rfl

theorem reads_of_owns {p : Pc T} {pos : UInt64} (h : p.reads = some pos) : p.owns = some pos := by
  cases p with
  | idle => contradiction
  | enqueue pc => contradiction
  | dequeue pc => exact h

theorem reads_eq_none {p : Pc T} (h : p.owns = none) : p.reads = none := by
  cases hr : p.reads with
  | none => rfl
  | some pos =>
    rw [reads_of_owns hr] at h
    contradiction

end System

end IndustrialRuntime.Core.MpmcQueue
