import IndustrialRuntime.Core.MpmcPreserve

namespace IndustrialRuntime.Core.MpmcQueue.System

variable {T τ : Type*} {s : System τ T} {C : Nat}

/-! ### Tickets never outnumber offers -/

/-- Every ticket and every thread still after one is a `tryEnqueue` call of its own. -/
def Budget (s : System τ T) : Prop :=
  ∃ offering : Finset τ, (∀ t, t ∈ offering ↔ (s.pc t).offering) ∧
    s.enqueued.length + offering.card ≤ s.offers

theorem budget_start (queue : MpmcQueue T) : (start queue : System τ T).Budget :=
  ⟨∅, by simp [start, Pc.offering], by simp [start]⟩

theorem Budget.le (h : s.Budget) : s.enqueued.length ≤ s.offers := by
  obtain ⟨offering, -, hcard⟩ := h
  omega

/-! ### What dequeues hand out -/

/-- Received items are those of their tickets, each consumer's tickets ascend,
and every claimed ticket is received or in the hands of its dequeuer. -/
structure Delivered (s : System τ T) : Prop where
  logged : ∀ r ∈ s.received, ∃ e : Enqueued τ T, s.enqueued[r.ticket.toNat]? = some e ∧
    r.item = some e.item ∧ s.dequeued[r.ticket.toNat]? = some ⟨r.ticket, r.thread⟩
  ascending : s.received.Pairwise (fun a b => a.thread = b.thread →
    a.ticket.toNat < b.ticket.toNat)
  current : ∀ t pos, (s.pc t).reads = some pos →
    ∀ r ∈ s.received, r.thread = t → r.ticket.toNat < pos.toNat
  complete : ∀ k < s.dequeued.length, (∃ t pos, (s.pc t).reads = some pos ∧ pos.toNat = k) ∨
    ∃ r ∈ s.received, r.ticket.toNat = k

theorem delivered_start (queue : MpmcQueue T) : (start queue : System τ T).Delivered where
  logged := by simp [start]
  ascending := by simp [start]
  current := by simp [start]
  complete := by simp [start]

/-! ### Steps keep both -/

variable [DecidableEq τ]

/-- A thread that stops offering pays for one ticket. -/
theorem Budget.claim (h : s.Budget) {t : τ} {p : Pc T} (ht : (s.pc t).offering)
    (hp : ¬p.offering) {s' : System τ T} (pc : s'.pc = (s.goto t p).pc)
    (offers : s'.offers = s.offers) (tickets : s'.enqueued.length ≤ s.enqueued.length + 1) :
    s'.Budget := by
  obtain ⟨offering, hmem, hcard⟩ := h
  refine ⟨offering.erase t, ?_, ?_⟩
  · intro u
    rw [pc, Finset.mem_erase, hmem]
    by_cases hu : u = t
    · subst hu
      simp [hp]
    · simp [goto_pc_ne s p hu, hu]
  · have := Finset.card_erase_add_one ((hmem t).mpr ht)
    rw [offers]
    omega

theorem Budget.stay (h : s.Budget) {t : τ} {p : Pc T} (same : (s.pc t).offering = p.offering)
    {s' : System τ T} (pc : s'.pc = (s.goto t p).pc) (offers : s'.offers = s.offers)
    (enqueued : s'.enqueued = s.enqueued) : s'.Budget := by
  obtain ⟨offering, hmem, hcard⟩ := h
  refine ⟨offering, ?_, by rw [offers, enqueued]; exact hcard⟩
  intro u
  rw [pc, hmem]
  by_cases hu : u = t
  · subst hu
    rw [goto_pc_self, same]
  · rw [goto_pc_ne s p hu]

theorem Budget.advance (h : s.Budget) {s' : System τ T} {t : τ} {spurious : Bool}
    {out : Option (Outcome T)} (step : s.advance t spurious = some (s', out)) : s'.Budget := by
  rcases advance_cases step with ⟨p, hs, -, rfl, hp, -⟩ | ⟨item, pos, hpc, -, rfl⟩ |
    ⟨item, pos, hpc, rfl⟩ | ⟨pos, hpc, -, rfl⟩ | ⟨pos, hpc, -, rfl⟩ | ⟨pos, hpc, rfl⟩ |
    ⟨pos, item, hpc, -, rfl⟩
  · by_cases offering : p.offering
    · exact h.stay ((hp offering).trans offering.symm) rfl rfl rfl
    · by_cases before : (s.pc t).offering
      · exact h.claim before offering rfl rfl (Nat.le_succ _)
      · exact h.stay (by simp [offering, before]) rfl rfl rfl
  · refine h.claim (by rw [hpc]; rfl) ?_ rfl rfl ?_
    · simp [Pc.offering, Pc.searching]
    · simp
  · exact h.stay (by rw [hpc]; rfl) rfl rfl rfl
  · exact h.stay (by rw [hpc]; rfl) rfl rfl rfl
  · exact h.stay (by rw [hpc]; rfl) rfl rfl rfl
  · exact h.stay (by rw [hpc]; rfl) rfl rfl rfl
  · exact h.stay (by rw [hpc]; rfl) rfl rfl rfl

theorem offer_eq {s' : System τ T} {t : τ} {item : T} (h : s.offer t item = some s') :
    s.pc t = .idle ∧
      s' = { s.goto t (.enqueue (.loadPos item)) with offers := s.offers + 1 } := by
  unfold offer at h
  cases hpc : s.pc t with
  | idle =>
    simp only [hpc, Option.some_inj] at h
    exact ⟨rfl, h.symm⟩
  | enqueue => simp [hpc] at h
  | dequeue => simp [hpc] at h

theorem poll_eq {s' : System τ T} {t : τ} (h : s.poll t = some s') :
    s.pc t = .idle ∧ s' = s.goto t (.dequeue .loadPos) := by
  unfold poll at h
  cases hpc : s.pc t with
  | idle =>
    simp only [hpc, Option.some_inj] at h
    exact ⟨rfl, h.symm⟩
  | enqueue => simp [hpc] at h
  | dequeue => simp [hpc] at h

theorem Budget.offer (h : s.Budget) {s' : System τ T} {t : τ} {item : T}
    (step : s.offer t item = some s') : s'.Budget := by
  obtain ⟨hpc, rfl⟩ := offer_eq step
  obtain ⟨offering, hmem, hcard⟩ := h
  refine ⟨insert t offering, ?_, ?_⟩
  · intro u
    rw [Finset.mem_insert, hmem]
    change _ ↔ ((s.goto t (.enqueue (.loadPos item))).pc u).offering
    by_cases hu : u = t
    · subst hu
      simp [Pc.offering, Pc.searching]
    · simp [goto_pc_ne s _ hu, hu]
  · have := Finset.card_insert_le t offering
    change s.enqueued.length + _ ≤ s.offers + 1
    omega

/-- A step that hands nothing out and keeps the readers. -/
theorem Delivered.stay (h : s.Delivered) {t : τ} {p : Pc T} (same : (s.pc t).reads = p.reads)
    {s' : System τ T} (pc : s'.pc = (s.goto t p).pc) (received : s'.received = s.received)
    {more : List (Enqueued τ T)} (enqueued : s'.enqueued = s.enqueued ++ more)
    (dequeued : s'.dequeued = s.dequeued) : s'.Delivered := by
  have reads (u : τ) : (s'.pc u).reads = (s.pc u).reads := by
    rw [pc]
    by_cases hu : u = t
    · subst hu
      rw [goto_pc_self, same]
    · rw [goto_pc_ne s p hu]
  constructor
  · intro r hr
    rw [received] at hr
    obtain ⟨e, he, hitem, hlog⟩ := h.logged r hr
    exact ⟨e, by rw [enqueued]; exact getElem?_append_some he _, hitem,
      by rw [dequeued]; exact hlog⟩
  · rw [received]
    exact h.ascending
  · intro u pos hu
    rw [received]
    rw [reads] at hu
    exact h.current u pos hu
  · intro k hk
    rw [dequeued] at hk
    rw [received]
    cases h.complete k hk with
    | inl reading =>
      obtain ⟨u, pos, hu, hpos⟩ := reading
      exact Or.inl ⟨u, pos, by rw [reads]; exact hu, hpos⟩
    | inr done => exact Or.inr done

theorem Delivered.claimDequeue (h : s.Delivered) {t : τ} {pos : UInt64} {p : Pc T}
    (head : pos.toNat = s.dequeued.length) (before : (s.pc t).reads = none)
    (after : p.reads = some pos) {s' : System τ T} (pc : s'.pc = (s.goto t p).pc)
    (received : s'.received = s.received) (enqueued : s'.enqueued = s.enqueued)
    (dequeued : s'.dequeued = s.dequeued ++ [⟨pos, t⟩]) : s'.Delivered := by
  constructor
  · intro r hr
    rw [received] at hr
    obtain ⟨e, he, hitem, hlog⟩ := h.logged r hr
    exact ⟨e, by rw [enqueued]; exact he, hitem,
      by rw [dequeued]; exact getElem?_append_some hlog _⟩
  · rw [received]
    exact h.ascending
  · intro u q hu r hr hthread
    rw [received] at hr
    rw [pc] at hu
    by_cases hut : u = t
    · subst hut
      rw [goto_pc_self, after] at hu
      obtain rfl := Option.some_inj.mp hu
      obtain ⟨e, -, -, hlog⟩ := h.logged r hr
      have := (List.getElem?_eq_some_iff.mp hlog).1
      omega
    · rw [goto_pc_ne s p hut] at hu
      exact h.current u q hu r hr hthread
  · intro k hk
    rw [dequeued, List.length_append, List.length_singleton] at hk
    rw [pc, received]
    rcases Nat.lt_or_ge k s.dequeued.length with hlt | hge
    · cases h.complete k hlt with
      | inl reading =>
        apply Or.inl
        apply owner_goto t p _ reading
        intro q hq
        rw [before] at hq
        contradiction
      | inr done => exact Or.inr done
    · exact Or.inl ⟨t, pos, by rw [goto_pc_self]; exact after, by omega⟩

theorem Delivered.release (h : s.Delivered) {t : τ} {pos : UInt64} {item : Option T}
    (hpc : s.pc t = .dequeue (.storeSequence pos item)) (ok : s.ThreadOk C t (s.pc t))
    {s' : System τ T} (pc : s'.pc = (s.goto t .idle).pc)
    (received : s'.received = s.received ++ [⟨pos, t, item⟩])
    (enqueued : s'.enqueued = s.enqueued) (dequeued : s'.dequeued = s.dequeued) :
    s'.Delivered := by
  have reading : (s.pc t).reads = some pos := by
    rw [hpc]
    rfl
  rw [hpc] at ok
  obtain ⟨hlog, -, -, e, he, hout⟩ := ok
  constructor
  · intro r hr
    rw [enqueued, dequeued]
    rw [received, List.mem_append, List.mem_singleton] at hr
    cases hr with
    | inl earlier => exact h.logged r earlier
    | inr now =>
      subst now
      exact ⟨e, he, hout, hlog⟩
  · rw [received, List.pairwise_append]
    refine ⟨h.ascending, List.pairwise_singleton _ _, ?_⟩
    intro a ha b hb own
    obtain rfl := List.mem_singleton.mp hb
    exact h.current t pos reading a ha own
  · intro u q hu r hr hthread
    rw [pc] at hu
    by_cases hut : u = t
    · subst hut
      rw [goto_pc_self] at hu
      contradiction
    · rw [goto_pc_ne s .idle hut] at hu
      rw [received, List.mem_append, List.mem_singleton] at hr
      cases hr with
      | inl earlier => exact h.current u q hu r earlier hthread
      | inr now =>
        subst now
        exact absurd hthread.symm hut
  · intro k hk
    rw [dequeued] at hk
    rw [pc, received]
    cases h.complete k hk with
    | inl owner =>
      obtain ⟨u, q, hu, hq⟩ := owner
      by_cases hut : u = t
      · subst hut
        rw [reading] at hu
        obtain rfl := Option.some_inj.mp hu
        exact Or.inr ⟨_, List.mem_append_right _ (List.mem_singleton_self _), hq⟩
      · exact Or.inl ⟨u, q, by rw [goto_pc_ne s .idle hut]; exact hu, hq⟩
    | inr done =>
      obtain ⟨r, hr, hk⟩ := done
      exact Or.inr ⟨r, List.mem_append_left _ hr, hk⟩

end IndustrialRuntime.Core.MpmcQueue.System
