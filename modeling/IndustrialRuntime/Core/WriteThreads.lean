import Mathlib.Data.Finset.Card
import IndustrialRuntime.Core.PluginManager

namespace IndustrialRuntime.Core.PluginManager

/-- A thread that holds the shared lock. -/
def WritePc.reading : WritePc → Bool
  | .select _ | .increment .. | .unlock .. => true
  | _ => false

/-- The owner that counts a thread as in flight. -/
def WritePc.counted : WritePc → Option OwnerId
  | .unlock _ found => found.map WriteReg.owner
  | .call _ reg | .handling _ reg | .decrement reg _ => some reg.owner
  | _ => none

/-- The registration whose handler a thread has selected and not yet left. -/
def WritePc.target : WritePc → Option WriteReg
  | .increment _ reg | .call _ reg | .handling _ reg => some reg
  | .unlock _ found => found
  | _ => none

namespace System

variable {τ : Type*}

/-- The in-flight counter of an owner is the number of its counted threads. -/
def Counted (s : System τ) (o : OwnerId) : Prop :=
  ∃ F : Finset τ, (∀ t, t ∈ F ↔ (s.writer t).counted = some o) ∧ s.host.inflight o = F.card

theorem Counted.same {s s' : System τ} {o : OwnerId} (inv : s.Counted o)
    (writer : ∀ t, (s'.writer t).counted = some o ↔ (s.writer t).counted = some o)
    (inflight : s'.host.inflight o = s.host.inflight o) : s'.Counted o := by
  obtain ⟨F, members, card⟩ := inv
  refine ⟨F, fun t => ?_, inflight.trans card⟩
  rw [writer]
  exact members t

/-- A drained owner counts no thread. -/
theorem Counted.drained {s : System τ} {o : OwnerId} (inv : s.Counted o)
    (drained : ¬ 0 < s.host.inflight o) (t : τ) : (s.writer t).counted ≠ some o := by
  obtain ⟨F, members, card⟩ := inv
  have empty : F = ∅ := by
    apply Finset.card_eq_zero.mp
    omega
  intro counted
  have found : t ∈ F := (members t).mpr counted
  simp [empty] at found

/-- What the threads inside `write` keep. -/
structure Threads (s : System τ) : Prop where
  locked : ∀ t, (s.writer t).reading = true → t ∈ s.readers
  counted : ∀ o, s.Counted o
  selected : ∀ t tag reg, s.writer t = .increment tag reg → reg ∈ s.host.writers

theorem threads_initial : Threads (initial : System τ) where
  locked t reading := by simp [initial, WritePc.reading] at reading
  counted o := ⟨∅, fun t => by simp [initial, WritePc.counted], rfl⟩
  selected t tag reg pc := by cases pc

theorem Threads.same {s s' : System τ} (inv : Threads s) (host : s'.host = s.host)
    (readers : s'.readers = s.readers) (writer : s'.writer = s.writer) : Threads s' where
  locked := by
    rw [readers, writer]
    exact inv.locked
  counted o := (inv.counted o).same (fun t => by rw [writer]) (by rw [host])
  selected := by
    rw [host, writer]
    exact inv.selected

/-- While no thread holds the shared lock, the table may change freely. -/
theorem Threads.exclusive {s s' : System τ} (inv : Threads s) (free : s.readers = ∅)
    (readers : s'.readers = s.readers) (writer : s'.writer = s.writer)
    (inflight : s'.host.inflight = s.host.inflight) : Threads s' where
  locked t reading := by
    rw [writer] at reading
    rw [readers]
    exact inv.locked t reading
  counted o := (inv.counted o).same (fun t => by rw [writer]) (by rw [inflight])
  selected t tag reg pc := by
    rw [writer] at pc
    have held : t ∈ s.readers := inv.locked t (by rw [pc]; rfl)
    simp [free] at held

variable [DecidableEq τ]

theorem Counted.enter {s s' : System τ} {o : OwnerId} (inv : s.Counted o) (t : τ)
    (before : (s.writer t).counted ≠ some o) (now : (s'.writer t).counted = some o)
    (others : ∀ u, u ≠ t → s'.writer u = s.writer u)
    (inflight : s'.host.inflight o = s.host.inflight o + 1) : s'.Counted o := by
  obtain ⟨F, members, card⟩ := inv
  have fresh : t ∉ F := fun found => before ((members t).mp found)
  refine ⟨insert t F, fun u => ?_, ?_⟩
  · by_cases same : u = t
    · simp [same, now]
    · rw [others u same, ← members u]
      simp [same]
  · rw [Finset.card_insert_of_notMem fresh, inflight, card]
    rfl

theorem Counted.leave {s s' : System τ} {o : OwnerId} (inv : s.Counted o) (t : τ)
    (before : (s.writer t).counted = some o) (now : (s'.writer t).counted ≠ some o)
    (others : ∀ u, u ≠ t → s'.writer u = s.writer u)
    (inflight : s'.host.inflight o = s.host.inflight o + -1) : s'.Counted o := by
  obtain ⟨F, members, card⟩ := inv
  have found : t ∈ F := (members t).mpr before
  refine ⟨F.erase t, fun u => ?_, ?_⟩
  · by_cases same : u = t
    · simp [same, now]
    · rw [others u same, ← members u]
      simp [same]
  · have size := Finset.card_erase_add_one found
    omega

/-- What a step of a thread inside `write` can do. -/
inductive Advanced (s : System τ) (t : τ) : System τ → Prop where
  | lock (tag : TagValue) (before : s.writer t = .lock tag) :
      Advanced s t { s.setWriter t (.select tag) with readers := insert t s.readers }
  | unmatched (tag : TagValue) (before : s.writer t = .select tag)
      (unselected : s.host.select tag.name = none) :
      Advanced s t (s.setWriter t (.unlock tag none))
  | select (tag : TagValue) (reg : WriteReg) (before : s.writer t = .select tag)
      (selected : s.host.select tag.name = some reg) :
      Advanced s t (s.setWriter t (.increment tag reg))
  | increment (tag : TagValue) (reg : WriteReg) (before : s.writer t = .increment tag reg) :
      Advanced s t
        { s.setWriter t (.unlock tag (some reg)) with host := s.host.addInflight reg.owner 1 }
  | refused (tag : TagValue) (before : s.writer t = .unlock tag none) :
      Advanced s t { s.setWriter t .idle with readers := s.readers.erase t }
  | unlock (tag : TagValue) (reg : WriteReg) (before : s.writer t = .unlock tag (some reg)) :
      Advanced s t { s.setWriter t (.call tag reg) with readers := s.readers.erase t }
  | call (tag : TagValue) (reg : WriteReg) (before : s.writer t = .call tag reg) :
      Advanced s t (s.setWriter t (.handling tag reg))
  | handled (accepted : Bool) (tag : TagValue) (reg : WriteReg)
      (before : s.writer t = .handling tag reg) :
      Advanced s t (s.setWriter t (.decrement reg accepted))
  | decrement (reg : WriteReg) (accepted : Bool) (before : s.writer t = .decrement reg accepted) :
      Advanced s t { s.setWriter t .idle with host := s.host.addInflight reg.owner (-1) }

theorem advanced_of_advance {s s' : System τ} {t : τ} {accepted : Bool}
    (h : s.advance t accepted = some s') : Advanced s t s' := by
  unfold advance at h
  cases pc : s.writer t with
  | idle => simp [pc] at h
  | lock tag =>
    obtain rfl := by simpa [pc] using h
    exact .lock tag pc
  | select tag =>
    cases found : s.host.select tag.name with
    | none =>
      obtain rfl := by simpa [pc, found] using h
      exact .unmatched tag pc found
    | some reg =>
      obtain rfl := by simpa [pc, found] using h
      exact .select tag reg pc found
  | increment tag reg =>
    obtain rfl := by simpa [pc] using h
    exact .increment tag reg pc
  | unlock tag found =>
    cases found with
    | none =>
      obtain rfl := by simpa [pc] using h
      exact .refused tag pc
    | some reg =>
      obtain rfl := by simpa [pc] using h
      exact .unlock tag reg pc
  | call tag reg =>
    obtain rfl := by simpa [pc] using h
    exact .call tag reg pc
  | handling tag reg =>
    obtain rfl := by simpa [pc] using h
    exact .handled accepted tag reg pc
  | decrement reg accepted =>
    obtain rfl := by simpa [pc] using h
    exact .decrement reg accepted pc

@[simp] theorem setWriter_self (s : System τ) (t : τ) (pc : WritePc) :
    (s.setWriter t pc).writer t = pc := by
  simp [setWriter]

@[simp] theorem setWriter_ne (s : System τ) (t u : τ) (pc : WritePc) (other : u ≠ t) :
    (s.setWriter t pc).writer u = s.writer u := by
  simp [setWriter, other]

/-- A thread's step leaves the manager and the writer table alone. -/
structure Frame (s s' : System τ) : Prop where
  writers : s'.host.writers = s.host.writers
  owners : s'.host.owners = s.host.owners
  activeOwner : s'.host.activeOwner = s.host.activeOwner
  nextOwner : s'.host.nextOwner = s.host.nextOwner
  plugins : s'.plugins = s.plugins
  stage : s'.stage = s.stage
  quiesced : s'.quiesced = s.quiesced

theorem Advanced.frame {s s' : System τ} {t : τ} (h : Advanced s t s') : Frame s s' := by
  cases h <;> exact ⟨rfl, rfl, rfl, rfl, rfl, rfl, rfl⟩

theorem Advanced.others {s s' : System τ} {t : τ} (h : Advanced s t s') (u : τ) (other : u ≠ t) :
    s'.writer u = s.writer u := by
  cases h <;> exact setWriter_ne _ _ _ _ other

theorem Advanced.locked {s s' : System τ} {t : τ} (h : Advanced s t s')
    (inv : ∀ u, (s.writer u).reading = true → u ∈ s.readers) (u : τ)
    (reading : (s'.writer u).reading = true) : u ∈ s'.readers := by
  by_cases same : u = t
  · subst same
    cases h with
    | lock tag before => exact Finset.mem_insert_self u s.readers
    | unmatched tag before => exact inv u (by rw [before]; rfl)
    | select tag reg before => exact inv u (by rw [before]; rfl)
    | increment tag reg before => exact inv u (by rw [before]; rfl)
    | refused tag before => simp [WritePc.reading] at reading
    | unlock tag reg before => simp [WritePc.reading] at reading
    | call tag reg before => simp [WritePc.reading] at reading
    | handled accepted tag reg before => simp [WritePc.reading] at reading
    | decrement reg accepted before => simp [WritePc.reading] at reading
  · rw [h.others u same] at reading
    have held : u ∈ s.readers := inv u reading
    cases h with
    | lock tag before => exact Finset.mem_insert_of_mem held
    | refused tag before => exact Finset.mem_erase.mpr ⟨same, held⟩
    | unlock tag reg before => exact Finset.mem_erase.mpr ⟨same, held⟩
    | _ => exact held

/-- A step that moves a thread between states of one count keeps the counters. -/
theorem Advanced.uncounted {s s' : System τ} {t : τ} (h : Advanced s t s') (o : OwnerId)
    (inv : s.Counted o) (own : (s'.writer t).counted = some o ↔ (s.writer t).counted = some o)
    (inflight : s'.host.inflight o = s.host.inflight o) : s'.Counted o := by
  apply inv.same _ inflight
  intro u
  by_cases same : u = t
  · subst same
    exact own
  · rw [h.others u same]

theorem Advanced.counted {s s' : System τ} {t : τ} (h : Advanced s t s') (o : OwnerId)
    (inv : s.Counted o) : s'.Counted o := by
  have others := h.others
  have uncounted := h.uncounted o inv
  cases h with
  | lock tag before => exact uncounted (by simp [before, WritePc.counted]) rfl
  | unmatched tag before => exact uncounted (by simp [before, WritePc.counted]) rfl
  | select tag reg before => exact uncounted (by simp [before, WritePc.counted]) rfl
  | increment tag reg before =>
    by_cases own : reg.owner = o
    · subst own
      apply inv.enter t (by simp [before, WritePc.counted]) (by simp [WritePc.counted]) others
      exact PluginHost.addInflight_self s.host reg.owner 1
    · apply uncounted (by simp [before, WritePc.counted, own])
      exact PluginHost.addInflight_ne s.host reg.owner 1 o (Ne.symm own)
  | refused tag before => exact uncounted (by simp [before, WritePc.counted]) rfl
  | unlock tag reg before => exact uncounted (by simp [before, WritePc.counted]) rfl
  | call tag reg before => exact uncounted (by simp [before, WritePc.counted]) rfl
  | handled accepted tag reg before => exact uncounted (by simp [before, WritePc.counted]) rfl
  | decrement reg accepted before =>
    by_cases own : reg.owner = o
    · subst own
      apply inv.leave t (by simp [before, WritePc.counted]) (by simp [WritePc.counted]) others
      exact PluginHost.addInflight_self s.host reg.owner (-1)
    · apply uncounted (by simp [before, WritePc.counted, own])
      exact PluginHost.addInflight_ne s.host reg.owner (-1) o (Ne.symm own)

theorem Advanced.selected {s s' : System τ} {t : τ} (h : Advanced s t s')
    (inv : ∀ u tag reg, s.writer u = .increment tag reg → reg ∈ s.host.writers) (u : τ)
    (tag : TagValue) (reg : WriteReg) (pc : s'.writer u = .increment tag reg) :
    reg ∈ s'.host.writers := by
  rw [h.frame.writers]
  by_cases same : u = t
  · subst same
    cases h with
    | select tag' reg' before found =>
      obtain ⟨rfl, rfl⟩ : tag' = tag ∧ reg' = reg := by simpa using pc
      exact PluginHost.mem_of_select s.host tag'.name reg' found
    | _ => simp at pc
  · rw [h.others u same] at pc
    exact inv u tag reg pc

theorem Threads.advance {s s' : System τ} {t : τ} (inv : Threads s) (h : Advanced s t s') :
    Threads s' where
  locked := h.locked inv.locked
  counted o := h.counted o (inv.counted o)
  selected := h.selected inv.selected

/-- A call of `write` begins by waiting for the shared lock. -/
theorem written_of_write {s s' : System τ} {t : τ} {tag : TagValue}
    (h : s.write t tag = some s') : s.writer t = .idle ∧ s' = s.setWriter t (.lock tag) := by
  unfold System.write at h
  cases pc : s.writer t with
  | idle =>
    obtain rfl : s.setWriter t (.lock tag) = s' := by simpa [pc] using h
    exact ⟨rfl, rfl⟩
  | _ => simp [pc] at h

theorem Threads.write {s s' : System τ} {t : τ} {tag : TagValue} (inv : Threads s)
    (h : s.write t tag = some s') : Threads s' := by
  obtain ⟨pc, rfl⟩ := written_of_write h
  refine ⟨fun u reading => ?_, fun o => ?_, fun u tag' reg now => ?_⟩
  · by_cases same : u = t
    · simp [same, WritePc.reading] at reading
    · rw [setWriter_ne _ _ _ _ same] at reading
      exact inv.locked u reading
  · refine Counted.same (inv.counted o) (fun u => ?_) rfl
    by_cases same : u = t
    · simp [same, pc, WritePc.counted]
    · rw [setWriter_ne _ _ _ _ same]
  · by_cases same : u = t
    · simp [same] at now
    · rw [setWriter_ne _ _ _ _ same] at now
      exact inv.selected u tag' reg now

end System

end IndustrialRuntime.Core.PluginManager
