import IndustrialRuntime.Core.MpmcSteps

namespace IndustrialRuntime.Core.MpmcQueue

namespace System

variable {T τ : Type*} [DecidableEq τ] {s : System τ T} {C : Nat}

/-- A step of a thread that owns no cell and wins no exchange. -/
theorem Inv.quiet (h : s.Inv C) (t : τ) (p : Pc T) (before : (s.pc t).owns = none)
    (ok : s.ThreadOk C t p) (received : List (Received τ T)) (offers : Nat) :
    ({ s.goto t p with received := received, offers := offers } : System τ T).Inv C where
  sized := h.sized
  enqueuePos := h.enqueuePos
  dequeuePos := h.dequeuePos
  enqueueTicket := h.enqueueTicket
  dequeueTicket := h.dequeueTicket
  le := h.le
  cells := by
    intro i hi
    obtain ⟨k, hk, phase⟩ := h.cells i hi
    refine ⟨k, hk, ?_⟩
    cases phase with
    | inl free =>
      refine Or.inl (free.frame rfl rfl rfl ?_)
      apply owner_goto
      intro pos hpos
      rw [writes_of_owns hpos] at before
      contradiction
    | inr full =>
      refine Or.inr (full.frame rfl rfl rfl ?_)
      apply owner_goto
      intro pos hpos
      rw [reads_of_owns hpos] at before
      contradiction
  threads := threads_goto t p rfl (ok.frame rfl rfl (fun _ _ => rfl) id id)
    (fun u _ => (h.threads u).frame rfl rfl (fun _ _ => rfl) id id)

/-- The exchange of `tryEnqueue` wins ticket `pos`. -/
theorem Inv.claimEnqueue (h : s.Inv C) {t : τ} {item : T} {pos : UInt64}
    (hpc : s.pc t = .enqueue (.compareExchange item pos)) (hpos : s.queue.enqueuePos = pos)
    (room : s.enqueued.length + 1 < 2 ^ 64) :
    ({ s.goto t (.enqueue (.storeData item pos)) with
      queue := { s.queue with enqueuePos := pos + 1 }
      enqueued := s.enqueued ++ [⟨pos, t, item⟩] } : System τ T).Inv C := by
  have two := h.sized.two_le
  have tail : pos.toNat = s.enqueued.length := hpos ▸ h.enqueuePos
  have ok := h.threads t
  rw [hpc] at ok
  have free : s.Free C s.enqueued.length := by
    apply h.free_of_sequence
    have := ok.2 tail.symm
    rwa [tail] at this
  constructor
  · exact ⟨h.sized.two_le, h.sized.le, h.sized.pow, h.sized.mask⟩
  · simp only [UInt64.toNat_add, List.length_append, List.length_singleton, tail]
    exact Nat.mod_eq_of_lt room
  · exact h.dequeuePos
  · exact index_append h.enqueueTicket tail
  · exact h.dequeueTicket
  · have := h.le
    simp only [List.length_append, List.length_singleton]
    change s.dequeued.length ≤ _
    omega
  · intro i hi
    by_cases hcell : i = s.enqueued.length % C
    · refine ⟨s.enqueued.length, hcell.symm, Or.inl ?_⟩
      refine ⟨free.sequence, free.le, free.near, ?_, ?_, ?_⟩
      · simp only [List.length_append, List.length_singleton]
        omega
      · intro _
        exact ⟨t, pos, by rw [show _ = _ from goto_pc_self s t _]; rfl, tail⟩
      · simp
    · obtain ⟨k, hk, phase⟩ := h.cells i hi
      have other : k % C ≠ s.enqueued.length % C := by rw [hk]; exact hcell
      refine ⟨k, hk, ?_⟩
      cases phase with
      | inl f =>
        refine Or.inl (f.grow_enqueued rfl rfl rfl other ?_)
        exact owner_goto_of_none t _ (by rw [hpc]; rfl)
      | inr f =>
        refine Or.inr (f.grow_enqueued rfl rfl rfl other ?_)
        exact owner_goto_of_none t _ (by rw [hpc]; rfl)
  · refine threads_goto t _ rfl ⟨?_, ?_, ?_, ?_⟩
      (fun u _ => (h.threads u).grow_enqueued rfl rfl rfl)
    · simp [tail]
    · rw [tail]
      exact free.le
    · rw [tail]
      exact free.sequence
    · rw [tail]
      exact free.data le_rfl

/-- The exchange of `tryDequeue` wins ticket `pos`. -/
theorem Inv.claimDequeue (h : s.Inv C) {t : τ} {pos : UInt64}
    (hpc : s.pc t = .dequeue (.compareExchange pos)) (hpos : s.queue.dequeuePos = pos)
    (room : s.dequeued.length + 1 < 2 ^ 64) :
    ({ s.goto t (.dequeue (.moveData pos)) with
      queue := { s.queue with dequeuePos := pos + 1 }
      dequeued := s.dequeued ++ [⟨pos, t⟩] } : System τ T).Inv C := by
  have two := h.sized.two_le
  have head : pos.toNat = s.dequeued.length := hpos ▸ h.dequeuePos
  have ok := h.threads t
  rw [hpc] at ok
  have full : s.Full C s.dequeued.length := by
    apply h.full_of_sequence
    have := ok.2 head.symm
    rwa [head] at this
  constructor
  · exact ⟨h.sized.two_le, h.sized.le, h.sized.pow, h.sized.mask⟩
  · exact h.enqueuePos
  · simp only [UInt64.toNat_add, List.length_append, List.length_singleton, head]
    exact Nat.mod_eq_of_lt room
  · exact h.enqueueTicket
  · exact index_append h.dequeueTicket head
  · have := full.lt
    simp only [List.length_append, List.length_singleton]
    change _ ≤ s.enqueued.length
    omega
  · intro i hi
    by_cases hcell : i = s.dequeued.length % C
    · refine ⟨s.dequeued.length, hcell.symm, Or.inr ?_⟩
      refine ⟨full.sequence, full.lt, ?_, ?_, full.unclaimed, ?_, ?_⟩
      · simp only [List.length_append, List.length_singleton]
        omega
      · simp only [List.length_append, List.length_singleton]
        omega
      · intro _
        exact ⟨t, pos, by rw [show _ = _ from goto_pc_self s t _]; rfl, head⟩
      · simp
    · obtain ⟨k, hk, phase⟩ := h.cells i hi
      have other : k % C ≠ s.dequeued.length % C := by rw [hk]; exact hcell
      refine ⟨k, hk, ?_⟩
      cases phase with
      | inl f =>
        refine Or.inl (f.grow_dequeued rfl rfl rfl other ?_)
        exact owner_goto_of_none t _ (by rw [hpc]; rfl)
      | inr f =>
        refine Or.inr (f.grow_dequeued rfl rfl rfl other ?_)
        exact owner_goto_of_none t _ (by rw [hpc]; rfl)
  · refine threads_goto t _ rfl ⟨?_, ?_, ?_⟩
      (fun u _ => (h.threads u).grow_dequeued rfl rfl rfl full.sequence)
    · simp [head]
    · rw [head]
      exact full.sequence
    · rw [head]
      exact full.data le_rfl

/-- The owner of a cell writes its data. -/
theorem Inv.setData (h : s.Inv C) {t : τ} {p : Pc T} {pos : UInt64} {data : Option T}
    (own : (s.pc t).owns = some pos) (writes : (s.pc t).writes = p.writes)
    (reads : (s.pc t).reads = p.reads)
    (ok : ({ s.goto t p with queue := s.queue.setData pos data } : System τ T).ThreadOk C t p) :
    ({ s.goto t p with queue := s.queue.setData pos data } : System τ T).Inv C := by
  have index := h.sized.index pos
  have elsewhere (i : Nat) (hi : i ≠ pos.toNat % C) :
      (s.queue.setData pos data).buffer i = s.queue.buffer i := by
    rw [buffer_setData, if_neg (by rw [index]; exact hi)]
  have sequence (i : Nat) :
      ((s.queue.setData pos data).buffer i).sequence = (s.queue.buffer i).sequence := by
    rw [buffer_setData]
    split_ifs with hi
    · rw [hi]
      rfl
    · rfl
  constructor
  · exact h.sized.setData pos data
  · exact h.enqueuePos
  · exact h.dequeuePos
  · exact h.enqueueTicket
  · exact h.dequeueTicket
  · exact h.le
  · intro i hi
    obtain ⟨k, hk, phase⟩ := h.cells i hi
    refine ⟨k, hk, ?_⟩
    have writer : (∃ u q, (s.pc u).writes = some q ∧ q.toNat = k) →
        ∃ u q, ((s.goto t p).pc u).writes = some q ∧ q.toNat = k :=
      owner_goto t p (fun q hq _ => writes ▸ hq)
    have reader : (∃ u q, (s.pc u).reads = some q ∧ q.toNat = k) →
        ∃ u q, ((s.goto t p).pc u).reads = some q ∧ q.toNat = k :=
      owner_goto t p (fun q hq _ => reads ▸ hq)
    by_cases hcell : k % C = pos.toNat % C
    · have at_cell := h.owner_sequence own
      rw [← hcell] at at_cell
      cases phase with
      | inl f =>
        refine Or.inl ⟨?_, f.le, f.near, f.unclaimed, fun hlt => writer (f.owner hlt), ?_⟩
        · change ((s.queue.setData pos data).buffer (k % C)).sequence.toNat = k
          rw [sequence, f.sequence]
        · intro hle
          rcases at_cell with ⟨hseq, item, hlog⟩ | ⟨hseq, hlog⟩
          · have := f.sequence
            have := (List.getElem?_eq_some_iff.mp hlog).1
            change s.enqueued.length ≤ k at hle
            omega
          · have := f.sequence
            have claimed : k = pos.toNat + 1 := by omega
            rw [claimed] at hcell
            exact absurd hcell (succ_mod_ne h.sized.two_le)
      | inr f =>
        refine Or.inr ⟨?_, f.lt, f.le, f.near, f.unclaimed, fun hlt => reader (f.owner hlt), ?_⟩
        · change ((s.queue.setData pos data).buffer (k % C)).sequence.toNat = k + 1
          rw [sequence, f.sequence]
        · intro hle
          rcases at_cell with ⟨hseq, item, hlog⟩ | ⟨hseq, hlog⟩
          · have := f.sequence
            have claimed : pos.toNat = k + 1 := by omega
            rw [claimed] at hcell
            exact absurd hcell.symm (succ_mod_ne h.sized.two_le)
          · have := f.sequence
            have := (List.getElem?_eq_some_iff.mp hlog).1
            change s.dequeued.length ≤ k at hle
            omega
    · cases phase with
      | inl f => exact Or.inl (f.frame (elsewhere _ hcell) rfl rfl writer)
      | inr f => exact Or.inr (f.frame (elsewhere _ hcell) rfl rfl reader)
  · refine threads_goto t p rfl ok (fun u hu => (h.threads u).frame rfl rfl ?_ ?_ ?_)
    · intro q hq
      apply elsewhere
      exact fun cell => hu (h.owner_unique hq own cell)
    · intro hseq
      change ((s.queue.setData pos data).buffer _).sequence.toNat = _
      rw [sequence]
      exact hseq
    · intro hseq
      change ((s.queue.setData pos data).buffer _).sequence.toNat = _
      rw [sequence]
      exact hseq

/-- The owner of a cell publishes its sequence and returns. -/
theorem Inv.setSequence (h : s.Inv C) {t : τ} {pos sequence : UInt64}
    (own : (s.pc t).owns = some pos) (k' : Nat) (cell : k' % C = pos.toNat % C)
    (phase : ({ s.goto t .idle with queue := s.queue.setSequence pos sequence } :
        System τ T).Free C k' ∨
      ({ s.goto t .idle with queue := s.queue.setSequence pos sequence } :
        System τ T).Full C k')
    (received : List (Received τ T)) :
    ({ s.goto t .idle with
      queue := s.queue.setSequence pos sequence
      received := received } : System τ T).Inv C := by
  have index := h.sized.index pos
  have elsewhere (i : Nat) (hi : i ≠ pos.toNat % C) :
      (s.queue.setSequence pos sequence).buffer i = s.queue.buffer i := by
    rw [buffer_setSequence, if_neg (by rw [index]; exact hi)]
  constructor
  · exact h.sized.setSequence pos sequence
  · exact h.enqueuePos
  · exact h.dequeuePos
  · exact h.enqueueTicket
  · exact h.dequeueTicket
  · exact h.le
  · intro i hi
    by_cases hcell : i = pos.toNat % C
    · refine ⟨k', cell.trans hcell.symm, ?_⟩
      cases phase with
      | inl f => exact Or.inl (f.frame rfl rfl rfl id)
      | inr f => exact Or.inr (f.frame rfl rfl rfl id)
    · obtain ⟨k, hk, current⟩ := h.cells i hi
      have other : k % C ≠ pos.toNat % C := by rw [hk]; exact hcell
      refine ⟨k, hk, ?_⟩
      cases current with
      | inl f =>
        refine Or.inl (f.frame (elsewhere _ other) rfl rfl ?_)
        apply owner_goto
        intro q hq hqk
        have same : some q = some pos := (writes_of_owns hq).symm.trans own
        rw [Option.some_inj.mp same] at hqk
        exact absurd (by rw [hqk]) other
      | inr f =>
        refine Or.inr (f.frame (elsewhere _ other) rfl rfl ?_)
        apply owner_goto
        intro q hq hqk
        have same : some q = some pos := (reads_of_owns hq).symm.trans own
        rw [Option.some_inj.mp same] at hqk
        exact absurd (by rw [hqk]) other
  · have at_cell := h.owner_sequence own
    refine threads_goto t .idle rfl trivial (fun u hu => (h.threads u).frame rfl rfl ?_ ?_ ?_)
    · intro q hq
      apply elsewhere
      exact fun cell => hu (h.owner_unique hq own cell)
    · intro hseq
      change ((s.queue.setSequence pos sequence).buffer _).sequence.toNat = _
      rw [elsewhere]
      · exact hseq
      · intro hcell
        rw [hcell] at hseq
        rcases at_cell with ⟨hown, item, hlog⟩ | ⟨hown, hlog⟩
        · have := (List.getElem?_eq_some_iff.mp hlog).1
          omega
        · have claimed : s.enqueued.length = pos.toNat + 1 := by omega
          rw [claimed] at hcell
          exact absurd hcell (succ_mod_ne h.sized.two_le)
    · intro hseq
      change ((s.queue.setSequence pos sequence).buffer _).sequence.toNat = _
      rw [elsewhere]
      · exact hseq
      · intro hcell
        rw [hcell] at hseq
        rcases at_cell with ⟨hown, item, hlog⟩ | ⟨hown, hlog⟩
        · have claimed : pos.toNat = s.dequeued.length + 1 := by omega
          rw [claimed] at hcell
          exact absurd hcell.symm (succ_mod_ne h.sized.two_le)
        · have := (List.getElem?_eq_some_iff.mp hlog).1
          omega

/-- `tryEnqueue` publishes the item of ticket `pos` and returns. -/
theorem Inv.publish (h : s.Inv C) {t : τ} {pos : UInt64}
    (hpc : s.pc t = .enqueue (.storeSequence pos)) (room : s.enqueued.length < 2 ^ 64) :
    ({ s.goto t .idle with queue := s.queue.setSequence pos (pos + 1) } : System τ T).Inv C := by
  have two := h.sized.two_le
  have index := h.sized.index pos
  have ok := h.threads t
  rw [hpc] at ok
  obtain ⟨hle, hseq, item, hlog, hdata⟩ := ok
  have claimed := (List.getElem?_eq_some_iff.mp hlog).1
  have free := h.free_of_sequence hseq
  have next : (pos + 1).toNat = pos.toNat + 1 := by
    rw [UInt64.toNat_add]
    exact Nat.mod_eq_of_lt (by change pos.toNat + 1 < 2 ^ 64; omega)
  refine h.setSequence (by rw [hpc]; rfl) pos.toNat rfl (Or.inr ?_) s.received
  refine ⟨?_, claimed, ?_, free.near, free.unclaimed, ?_, ?_⟩
  · change ((s.queue.setSequence pos (pos + 1)).buffer _).sequence.toNat = _
    rw [buffer_setSequence, if_pos index.symm]
    exact next
  · change s.dequeued.length ≤ _
    omega
  · intro hlt
    change _ < s.dequeued.length at hlt
    omega
  · intro _
    refine ⟨_, hlog, ?_⟩
    change ((s.queue.setSequence pos (pos + 1)).buffer _).data = _
    rw [buffer_setSequence, if_pos index.symm, ← hdata, ← index]
    rfl

/-- `tryDequeue` hands the cell of ticket `pos` to the next lap and returns. -/
theorem Inv.release (h : s.Inv C) {t : τ} {pos : UInt64} {out : Option T}
    (hpc : s.pc t = .dequeue (.storeSequence pos out)) (room : s.dequeued.length ≤ 2 ^ 63)
    (received : List (Received τ T)) :
    ({ s.goto t .idle with
      queue := s.queue.setSequence pos (pos + s.queue.mask + 1)
      received := received } : System τ T).Inv C := by
  have two := h.sized.two_le
  have small := h.sized.le
  have index := h.sized.index pos
  have ok := h.threads t
  rw [hpc] at ok
  obtain ⟨hlog, hseq, hdata, -⟩ := ok
  have claimed := (List.getElem?_eq_some_iff.mp hlog).1
  have full := h.full_of_sequence hseq
  have lap : (pos + s.queue.mask + 1).toNat = pos.toNat + C := by
    rw [UInt64.toNat_add, UInt64.toNat_add, h.sized.mask]
    change ((pos.toNat + (C - 1)) % 2 ^ 64 + 1) % 2 ^ 64 = pos.toNat + C
    omega
  have same_cell : (pos.toNat + C) % C = pos.toNat % C := Nat.add_mod_right _ _
  refine h.setSequence (by rw [hpc]; rfl) (pos.toNat + C) same_cell (Or.inl ?_) received
  refine ⟨?_, full.le, ?_, ?_, ?_, ?_⟩
  · change ((s.queue.setSequence pos (pos + s.queue.mask + 1)).buffer _).sequence.toNat = _
    rw [same_cell, buffer_setSequence, if_pos index.symm]
    exact lap
  · change _ < s.dequeued.length + C
    omega
  · have := full.unclaimed
    change s.enqueued.length ≤ _
    omega
  · intro hlt
    have := full.unclaimed
    change _ < s.enqueued.length at hlt
    omega
  · intro _
    change ((s.queue.setSequence pos (pos + s.queue.mask + 1)).buffer _).data = _
    rw [same_cell, buffer_setSequence, if_pos index.symm, ← hdata, ← index]
    rfl

/-- `tryEnqueue` stores its item in the cell it claimed. -/
theorem Inv.storeData (h : s.Inv C) {t : τ} {item : T} {pos : UInt64}
    (hpc : s.pc t = .enqueue (.storeData item pos)) :
    ({ s.goto t (.enqueue (.storeSequence pos)) with
      queue := s.queue.setData pos (some item) } : System τ T).Inv C := by
  have index := h.sized.index pos
  have ok := h.threads t
  rw [hpc] at ok
  obtain ⟨hlog, hle, hseq, -⟩ := ok
  apply h.setData
  · rw [hpc]
    rfl
  · rw [hpc]
    rfl
  · rw [hpc]
    rfl
  · refine ⟨hle, ?_, item, hlog, ?_⟩
    · change ((s.queue.setData pos (some item)).buffer _).sequence.toNat = _
      rw [buffer_setData, if_pos index.symm, ← hseq, ← index]
      rfl
    · change ((s.queue.setData pos (some item)).buffer _).data = _
      rw [buffer_setData, if_pos index.symm]

/-- `tryDequeue` moves the item out of the cell it claimed. -/
theorem Inv.moveData (h : s.Inv C) {t : τ} {pos : UInt64}
    (hpc : s.pc t = .dequeue (.moveData pos)) :
    ({ s.goto t (.dequeue (.storeSequence pos (s.queue.cell pos).data)) with
      queue := s.queue.setData pos none } : System τ T).Inv C := by
  have index := h.sized.index pos
  have ok := h.threads t
  rw [hpc] at ok
  obtain ⟨hlog, hseq, e, he, hdata⟩ := ok
  apply h.setData
  · rw [hpc]
    rfl
  · rw [hpc]
    rfl
  · rw [hpc]
    rfl
  · refine ⟨hlog, ?_, ?_, e, he, ?_⟩
    · change ((s.queue.setData pos none).buffer _).sequence.toNat = _
      rw [buffer_setData, if_pos index.symm, ← hseq, ← index]
      rfl
    · change ((s.queue.setData pos none).buffer _).data = _
      rw [buffer_setData, if_pos index.symm]
    · rw [cell, index, hdata]

/-! ### Every step of a call -/

theorem owns_of_searching {p : Pc T} (h : p.searching) : p.owns = none := by
  cases p with
  | idle => rfl
  | enqueue pc =>
    cases pc with
    | storeData => contradiction
    | storeSequence => contradiction
    | _ => rfl
  | dequeue pc =>
    cases pc with
    | moveData => contradiction
    | storeSequence => contradiction
    | _ => rfl

/-- What one step of a thread inside a call can do. -/
theorem advance_cases {s' : System τ T} {t : τ} {spurious : Bool} {out : Option (Outcome T)}
    (h : s.advance t spurious = some (s', out)) :
    (∃ p, (s.pc t).searching ∧ p.owns = none ∧ s' = s.goto t p ∧
      (p.offering → (s.pc t).offering) ∧
        ∀ C, s.Inv C → s.dequeued.length < 2 ^ 63 → s.ThreadOk C t p) ∨
    (∃ item pos, s.pc t = .enqueue (.compareExchange item pos) ∧ s.queue.enqueuePos = pos ∧
      s' = { s.goto t (.enqueue (.storeData item pos)) with
        queue := { s.queue with enqueuePos := pos + 1 }
        enqueued := s.enqueued ++ [⟨pos, t, item⟩] }) ∨
    (∃ item pos, s.pc t = .enqueue (.storeData item pos) ∧
      s' = { s.goto t (.enqueue (.storeSequence pos)) with
        queue := s.queue.setData pos (some item) }) ∨
    (∃ pos, s.pc t = .enqueue (.storeSequence pos) ∧ out = some (.enqueue true) ∧
      s' = { s.goto t .idle with queue := s.queue.setSequence pos (pos + 1) }) ∨
    (∃ pos, s.pc t = .dequeue (.compareExchange pos) ∧ s.queue.dequeuePos = pos ∧
      s' = { s.goto t (.dequeue (.moveData pos)) with
        queue := { s.queue with dequeuePos := pos + 1 }
        dequeued := s.dequeued ++ [⟨pos, t⟩] }) ∨
    (∃ pos, s.pc t = .dequeue (.moveData pos) ∧
      s' = { s.goto t (.dequeue (.storeSequence pos (s.queue.cell pos).data)) with
        queue := s.queue.setData pos none }) ∨
    (∃ pos item, s.pc t = .dequeue (.storeSequence pos item) ∧
      out = some (.dequeue (some item)) ∧
      s' = { s.goto t .idle with
        queue := s.queue.setSequence pos (pos + s.queue.mask + 1)
        received := s.received ++ [⟨pos, t, item⟩] }) := by
  unfold advance at h
  cases hpc : s.pc t with
  | idle => simp [hpc] at h
  | enqueue pc =>
    simp only [hpc] at h
    cases pc with
    | loadPos item =>
      obtain ⟨rfl, -⟩ : s.goto t _ = s' ∧ _ := by
        simpa [enqueueStep, claimedEnqueue, goto] using h
      refine Or.inl ⟨_, rfl, rfl, rfl, id, ?_⟩
      intro C hs _
      exact hs.enqueuePos.le
    | loadSequence item pos =>
      rw [enqueueStep] at h
      split_ifs at h with hzero hneg
      · obtain ⟨rfl, -⟩ : s.goto t _ = s' ∧ _ := by simpa [claimedEnqueue, goto] using h
        refine Or.inl ⟨_, rfl, rfl, rfl, id, ?_⟩
        intro C hs small
        have ok := hs.threads t
        rw [hpc] at ok
        refine ⟨ok, fun _ => ?_⟩
        rw [← hs.sized.index pos]
        exact congrArg UInt64.toNat (diff_eq_zero.mp hzero)
      · obtain ⟨rfl, -⟩ : s.goto t _ = s' ∧ _ := by simpa [goto] using h
        exact Or.inl ⟨_, rfl, rfl, rfl, fun offers => by contradiction,
          fun _ _ _ => trivial⟩
      · obtain ⟨rfl, -⟩ : s.goto t _ = s' ∧ _ := by simpa [claimedEnqueue, goto] using h
        exact Or.inl ⟨_, rfl, rfl, rfl, id, fun _ _ _ => trivial⟩
    | compareExchange item pos =>
      rw [enqueueStep] at h
      split_ifs at h with hwin
      · obtain ⟨rfl, -⟩ : _ = s' ∧ _ := by simpa [claimedEnqueue] using h
        exact Or.inr (Or.inl ⟨item, pos, rfl, hwin.1, rfl⟩)
      · obtain ⟨rfl, -⟩ : s.goto t _ = s' ∧ _ := by simpa [claimedEnqueue, goto] using h
        refine Or.inl ⟨_, rfl, rfl, rfl, id, ?_⟩
        intro C hs small
        exact hs.enqueuePos.le
    | storeData item pos =>
      obtain ⟨rfl, -⟩ : _ = s' ∧ _ := by simpa [enqueueStep, claimedEnqueue] using h
      exact Or.inr (Or.inr (Or.inl ⟨item, pos, rfl, rfl⟩))
    | storeSequence pos =>
      obtain ⟨rfl, rfl⟩ : _ = s' ∧ _ = out := by simpa [enqueueStep] using h
      exact Or.inr (Or.inr (Or.inr (Or.inl ⟨pos, rfl, rfl, rfl⟩)))
  | dequeue pc =>
    simp only [hpc] at h
    cases pc with
    | loadPos =>
      obtain ⟨rfl, -⟩ : s.goto t _ = s' ∧ _ := by
        simpa [dequeueStep, claimedDequeue, goto] using h
      refine Or.inl ⟨_, rfl, rfl, rfl, id, ?_⟩
      intro C hs small
      exact hs.dequeuePos.le
    | loadSequence pos =>
      rw [dequeueStep] at h
      split_ifs at h with hzero hneg
      · obtain ⟨rfl, -⟩ : s.goto t _ = s' ∧ _ := by simpa [claimedDequeue, goto] using h
        refine Or.inl ⟨_, rfl, rfl, rfl, id, ?_⟩
        intro C hs small
        have ok := hs.threads t
        rw [hpc] at ok
        refine ⟨ok, fun hhead => ?_⟩
        have loaded := congrArg UInt64.toNat (diff_eq_zero.mp hzero)
        rw [cell, hs.sized.index, UInt64.toNat_add] at loaded
        rw [loaded]
        exact Nat.mod_eq_of_lt (by change pos.toNat + 1 < 2 ^ 64; omega)
      · obtain ⟨rfl, -⟩ : s.goto t _ = s' ∧ _ := by simpa [handedOut, goto] using h
        exact Or.inl ⟨_, rfl, rfl, rfl, fun offers => by contradiction,
          fun _ _ _ => trivial⟩
      · obtain ⟨rfl, -⟩ : s.goto t _ = s' ∧ _ := by simpa [claimedDequeue, goto] using h
        exact Or.inl ⟨_, rfl, rfl, rfl, id, fun _ _ _ => trivial⟩
    | compareExchange pos =>
      rw [dequeueStep] at h
      split_ifs at h with hwin
      · obtain ⟨rfl, -⟩ : _ = s' ∧ _ := by simpa [claimedDequeue] using h
        exact Or.inr (Or.inr (Or.inr (Or.inr (Or.inl ⟨pos, rfl, hwin.1, rfl⟩))))
      · obtain ⟨rfl, -⟩ : s.goto t _ = s' ∧ _ := by simpa [claimedDequeue, goto] using h
        refine Or.inl ⟨_, rfl, rfl, rfl, id, ?_⟩
        intro C hs small
        exact hs.dequeuePos.le
    | moveData pos =>
      obtain ⟨rfl, -⟩ : _ = s' ∧ _ := by simpa [dequeueStep, claimedDequeue] using h
      exact Or.inr (Or.inr (Or.inr (Or.inr (Or.inr (Or.inl ⟨pos, rfl, rfl⟩)))))
    | storeSequence pos item =>
      obtain ⟨rfl, rfl⟩ : _ = s' ∧ _ = out := by simpa [dequeueStep, handedOut] using h
      exact Or.inr (Or.inr (Or.inr (Or.inr (Or.inr (Or.inr ⟨pos, item, rfl, rfl, rfl⟩)))))

end System

end IndustrialRuntime.Core.MpmcQueue
