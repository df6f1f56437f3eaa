import IndustrialRuntime.Core.MpmcSafety

namespace IndustrialRuntime.Core.MpmcQueue

variable {T τ : Type*}

/-- The item a call of `tryEnqueue` still carries. -/
def EnqueuePc.item : EnqueuePc T → Option T
  | .loadPos item => some item
  | .loadSequence item _ => some item
  | .compareExchange item _ => some item
  | .storeData item _ => some item
  | .storeSequence _ => none

/-- The position a call of `tryDequeue` is trying to claim. -/
def DequeuePc.target : DequeuePc T → Option UInt64
  | .loadSequence pos => some pos
  | .compareExchange pos => some pos
  | _ => none

namespace System

variable [DecidableEq τ] {s s' : System τ T} {t : τ} {spurious : Bool} {out : Option (Outcome T)}

/-- A step inside `tryEnqueue`: it goes on, wins its ticket, is rejected, or returns true. -/
inductive EnqueueAdvance (s : System τ T) (t : τ) (pc : EnqueuePc T) (s' : System τ T) :
    Option (Outcome T) → Prop where
  | goesOn (pc' : EnqueuePc T) (now : s'.pc t = .enqueue pc')
      (writes : (s'.pc t).writes = (s.pc t).writes)
      (item : ∀ i, pc'.item = some i → pc.item = some i) (enqueued : s'.enqueued = s.enqueued) :
      EnqueueAdvance s t pc s' none
  | wins (item : T) (pos : UInt64) (before : (s.pc t).writes = none)
      (carried : pc.item = some item) (now : s'.pc t = .enqueue (.storeData item pos))
      (head : s.queue.enqueuePos = pos)
      (enqueued : s'.enqueued = s.enqueued ++ [⟨pos, t, item⟩]) :
      EnqueueAdvance s t pc s' none
  | rejected (before : (s.pc t).writes = none) (now : s'.pc t = .idle)
      (enqueued : s'.enqueued = s.enqueued) :
      EnqueueAdvance s t pc s' (some (.enqueue false))
  | accepted (pos : UInt64) (before : (s.pc t).writes = some pos) (now : s'.pc t = .idle)
      (enqueued : s'.enqueued = s.enqueued) :
      EnqueueAdvance s t pc s' (some (.enqueue true))

theorem advance_enqueue {pc : EnqueuePc T} (hpc : s.pc t = .enqueue pc)
    (h : s.advance t spurious = some (s', out)) :
    s'.dequeued = s.dequeued ∧ (∀ u, u ≠ t → s'.pc u = s.pc u) ∧ s.EnqueueAdvance t pc s' out := by
  have others (p : Pc T) : ∀ u, u ≠ t → (s.goto t p).pc u = s.pc u :=
    fun u hu => goto_pc_ne s p hu
  unfold advance at h
  simp only [hpc] at h
  cases pc with
  | loadPos item =>
    obtain ⟨rfl, rfl⟩ : s.goto t _ = s' ∧ none = out := by
      simpa [enqueueStep, claimedEnqueue, goto] using h
    refine ⟨rfl, others _, .goesOn _ (goto_pc_self _ _ _) ?_ (fun _ hi => hi) rfl⟩
    rw [goto_pc_self, hpc]
    rfl
  | loadSequence item pos =>
    rw [enqueueStep] at h
    split_ifs at h with hzero hneg
    · obtain ⟨rfl, rfl⟩ : s.goto t _ = s' ∧ none = out := by
        simpa [claimedEnqueue, goto] using h
      refine ⟨rfl, others _, .goesOn _ (goto_pc_self _ _ _) ?_ (fun _ hi => hi) rfl⟩
      rw [goto_pc_self, hpc]
      rfl
    · obtain ⟨rfl, rfl⟩ : s.goto t _ = s' ∧ _ = out := by simpa [goto] using h
      exact ⟨rfl, others _, .rejected (by rw [hpc]; rfl) (goto_pc_self _ _ _) rfl⟩
    · obtain ⟨rfl, rfl⟩ : s.goto t _ = s' ∧ none = out := by
        simpa [claimedEnqueue, goto] using h
      refine ⟨rfl, others _, .goesOn _ (goto_pc_self _ _ _) ?_ (fun _ hi => hi) rfl⟩
      rw [goto_pc_self, hpc]
      rfl
  | compareExchange item pos =>
    rw [enqueueStep] at h
    split_ifs at h with hwin
    · obtain ⟨rfl, rfl⟩ : _ = s' ∧ none = out := by simpa [claimedEnqueue] using h
      exact ⟨rfl, others _, .wins item pos (by rw [hpc]; rfl) rfl (goto_pc_self _ _ _) hwin.1 rfl⟩
    · obtain ⟨rfl, rfl⟩ : s.goto t _ = s' ∧ none = out := by
        simpa [claimedEnqueue, goto] using h
      refine ⟨rfl, others _, .goesOn _ (goto_pc_self _ _ _) ?_ (fun _ hi => hi) rfl⟩
      rw [goto_pc_self, hpc]
      rfl
  | storeData item pos =>
    obtain ⟨rfl, rfl⟩ : _ = s' ∧ none = out := by simpa [enqueueStep, claimedEnqueue] using h
    refine ⟨rfl, others _, .goesOn _ (goto_pc_self _ _ _) ?_
      (fun item none => by contradiction) rfl⟩
    change ((s.goto t _).pc t).writes = _
    rw [goto_pc_self, hpc]
    rfl
  | storeSequence pos =>
    obtain ⟨rfl, rfl⟩ : _ = s' ∧ _ = out := by simpa [enqueueStep] using h
    exact ⟨rfl, others _, .accepted pos (by rw [hpc]; rfl) (goto_pc_self _ _ _) rfl⟩

/-- A step inside `tryDequeue`: it goes on, wins its ticket, finds the queue
empty, or returns the item it moved out. -/
inductive DequeueAdvance (s : System τ T) (t : τ) (pc : DequeuePc T) (s' : System τ T) :
    Option (Outcome T) → Prop where
  | goesOn (pc' : DequeuePc T) (now : s'.pc t = .dequeue pc')
      (reads : (s'.pc t).reads = (s.pc t).reads)
      (target : ∀ pos, pc'.target = some pos → pc.target = some pos ∨ pos = s.queue.dequeuePos)
      (head : s'.queue.dequeuePos = s.queue.dequeuePos) (dequeued : s'.dequeued = s.dequeued) :
      DequeueAdvance s t pc s' none
  | wins (pos : UInt64) (before : (s.pc t).reads = none) (head : s.queue.dequeuePos = pos)
      (now : s'.pc t = .dequeue (.moveData pos))
      (dequeued : s'.dequeued = s.dequeued ++ [⟨pos, t⟩]) :
      DequeueAdvance s t pc s' none
  | empty (pos : UInt64) (before : s.pc t = .dequeue (.loadSequence pos))
      (behind : diff (s.queue.cell pos).sequence (pos + 1) ≠ 0) (now : s' = s.goto t .idle) :
      DequeueAdvance s t pc s' (some (.dequeue none))
  | received (pos : UInt64) (item : Option T)
      (before : s.pc t = .dequeue (.storeSequence pos item)) (now : s'.pc t = .idle)
      (dequeued : s'.dequeued = s.dequeued) :
      DequeueAdvance s t pc s' (some (.dequeue (some item)))

theorem advance_dequeue {pc : DequeuePc T} (hpc : s.pc t = .dequeue pc)
    (h : s.advance t spurious = some (s', out)) :
    s'.enqueued = s.enqueued ∧ (∀ u, u ≠ t → s'.pc u = s.pc u) ∧ s.DequeueAdvance t pc s' out := by
  have others (p : Pc T) : ∀ u, u ≠ t → (s.goto t p).pc u = s.pc u :=
    fun u hu => goto_pc_ne s p hu
  unfold advance at h
  simp only [hpc] at h
  cases pc with
  | loadPos =>
    obtain ⟨rfl, rfl⟩ : s.goto t _ = s' ∧ none = out := by
      simpa [dequeueStep, claimedDequeue, goto] using h
    refine ⟨rfl, others _, .goesOn _ (goto_pc_self _ _ _) ?_ ?_ rfl rfl⟩
    · rw [goto_pc_self, hpc]
      rfl
    · intro pos hpos
      exact Or.inr (Option.some_inj.mp hpos).symm
  | loadSequence pos =>
    rw [dequeueStep] at h
    split_ifs at h with hzero hneg
    · obtain ⟨rfl, rfl⟩ : s.goto t _ = s' ∧ none = out := by
        simpa [claimedDequeue, goto] using h
      refine ⟨rfl, others _, .goesOn _ (goto_pc_self _ _ _) ?_ (fun _ hp => Or.inl hp) rfl rfl⟩
      rw [goto_pc_self, hpc]
      rfl
    · obtain ⟨rfl, rfl⟩ : s.goto t _ = s' ∧ _ = out := by simpa [handedOut, goto] using h
      exact ⟨rfl, others _, .empty pos hpc hzero rfl⟩
    · obtain ⟨rfl, rfl⟩ : s.goto t _ = s' ∧ none = out := by
        simpa [claimedDequeue, goto] using h
      refine ⟨rfl, others _, .goesOn _ (goto_pc_self _ _ _) ?_
        (fun pos none => by contradiction) rfl rfl⟩
      rw [goto_pc_self, hpc]
      rfl
  | compareExchange pos =>
    rw [dequeueStep] at h
    split_ifs at h with hwin
    · obtain ⟨rfl, rfl⟩ : _ = s' ∧ none = out := by simpa [claimedDequeue] using h
      exact ⟨rfl, others _, .wins pos (by rw [hpc]; rfl) hwin.1 (goto_pc_self _ _ _) rfl⟩
    · obtain ⟨rfl, rfl⟩ : s.goto t _ = s' ∧ none = out := by
        simpa [claimedDequeue, goto] using h
      refine ⟨rfl, others _, .goesOn _ (goto_pc_self _ _ _) ?_ ?_ rfl rfl⟩
      · rw [goto_pc_self, hpc]
        rfl
      · intro p hp
        exact Or.inr (Option.some_inj.mp hp).symm
  | moveData pos =>
    obtain ⟨rfl, rfl⟩ : _ = s' ∧ none = out := by simpa [dequeueStep, claimedDequeue] using h
    refine ⟨rfl, others _, .goesOn _ (goto_pc_self _ _ _) ?_
      (fun pos none => by contradiction) rfl rfl⟩
    change ((s.goto t _).pc t).reads = _
    rw [goto_pc_self, hpc]
    rfl
  | storeSequence pos item =>
    obtain ⟨rfl, rfl⟩ : _ = s' ∧ _ = out := by simpa [dequeueStep, handedOut] using h
    exact ⟨rfl, others _, .received pos item hpc (goto_pc_self _ _ _) rfl⟩

end System

end IndustrialRuntime.Core.MpmcQueue
