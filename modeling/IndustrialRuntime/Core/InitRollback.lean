import Mathlib.Data.Fintype.Basic
import IndustrialRuntime.Core.ManagerRuns

namespace IndustrialRuntime.Core.PluginManager

/-- The plugin whose `init` is executing. -/
def Stage.initializing : Stage → Option OwnerId
  | .init p _ => some p.owner
  | _ => none

/-- The plugin whose `init` has failed and whose registrations are not yet revoked. -/
def Stage.rollingBack : Stage → Option OwnerId
  | .destroy .rollback p | .deactivate .rollback p | .retire .rollback p => some p.owner
  | _ => none

namespace System

variable {τ : Type*}

/-- The registration that the next step of a thread selects. -/
def selecting (s : System τ) (t : τ) : Option WriteReg :=
  match s.writer t with
  | .select tag => s.host.select tag.name
  | _ => none

/-- When `init` fails, no write is between its selection of a handler registered by the failing
load and the return of that handler; and none selects one from then until `retireOwner`. -/
def RollsBackQuietly (s : System τ) : Action τ → Prop
  | .manage reply =>
    reply.ok = true ∨ ∀ t, ∀ reg ∈ (s.writer t).target, s.stage.initializing ≠ some reg.owner
  | .advance t _ => ∀ reg ∈ s.selecting t, s.stage.rollingBack ≠ some reg.owner
  | _ => True

instance decidableRollsBackQuietly [Fintype τ] (s : System τ) (a : Action τ) :
    Decidable (s.RollsBackQuietly a) :=
  match a with
  | .manage reply => inferInstanceAs (Decidable (reply.ok = true ∨
      ∀ t, ∀ reg ∈ (s.writer t).target, s.stage.initializing ≠ some reg.owner))
  | .advance t _ => inferInstanceAs (Decidable
      (∀ reg ∈ s.selecting t, s.stage.rollingBack ≠ some reg.owner))
  | .write .. | .operation _ | .register .. => isTrue trivial

/-- No thread has selected a handler of the owner, or is inside one. -/
def Unselected (s : System τ) (o : OwnerId) : Prop :=
  ∀ t reg, (s.writer t).target = some reg → reg.owner ≠ o

/-- An owner that the host will never again attribute a registration to, and has none of. -/
structure Forgotten (s : System τ) (o : OwnerId) : Prop where
  positive : 0 < o
  below : o < s.host.nextOwner
  absent : o ∉ s.ids
  inactive : s.bracketOwner ≠ o
  elsewhere : ∀ p, s.stage.joining = some p → p.owner ≠ o
  regs : ∀ reg ∈ s.host.writers, reg.owner ≠ o

/-- A step that attributes no registration to an owner anew. -/
theorem Forgotten.keep {s s' : System τ} {o : OwnerId} (forgotten : s.Forgotten o)
    (nextOwner : s'.host.nextOwner = s.host.nextOwner) (absent : o ∉ s'.ids)
    (inactive : s'.bracketOwner ≠ o)
    (joining : s'.stage.joining = none ∨ s'.stage.joining = s.stage.joining)
    (writers : s'.host.writers ⊆ s.host.writers) : s'.Forgotten o where
  positive := forgotten.positive
  below := by
    rw [nextOwner]
    exact forgotten.below
  absent := absent
  inactive := inactive
  elsewhere p found := by
    rcases joining with none | same
    · simp [none] at found
    · exact forgotten.elsewhere p (same ▸ found)
  regs reg found := forgotten.regs reg (writers found)

theorem Forgotten.unstarted {s : System τ} {o : OwnerId} (forgotten : s.Forgotten o) (index : Nat)
    (started : Bool) : o ∉ (s.setStarted index started).ids := by
  rw [setStarted_ids]
  exact forgotten.absent

theorem Forgotten.local {s s' : System τ} {o : OwnerId} (forgotten : s.Forgotten o)
    (h : Local s s') : s'.Forgotten o := by
  obtain ⟨host, _, _⟩ := h.same
  have inactive : s'.bracketOwner ≠ o := by
    rw [h.bracketOwner]
    exact forgotten.inactive
  have keep : o ∉ s'.ids → (s'.stage.joining = none ∨ s'.stage.joining = s.stage.joining) →
      s'.Forgotten o := by
    intro absent joining
    apply forgotten.keep (by rw [host]) absent inactive joining
    rw [host]
    exact List.Subset.refl _
  cases h with
  | taken _ before taken =>
    cases taken with
    | done jobs => exact keep forgotten.absent (.inr rfl)
    | _ => exact keep forgotten.absent (.inl rfl)
  | created p thenStart before => exact keep forgotten.absent (.inr (by rw [before]; rfl))
  | initialized p thenStart before => exact keep forgotten.absent (.inr (by rw [before]; rfl))
  | pushed p thenStart jobs before =>
    apply keep _ (.inl rfl)
    intro found
    have members : o ∈ s.ids ++ [p.owner] := by simpa [System.ids] using found
    rcases List.mem_append.mp members with old | own
    · exact forgotten.absent old
    · exact forgotten.elsewhere p (by rw [before]; rfl) (List.mem_singleton.mp own).symm
  | stopped index p ok before =>
    exact keep (forgotten.unstarted index false) (.inl rfl)
  | unknown exit p before =>
    apply keep
    · cases exit <;> exact forgotten.absent
    · exact .inl (s.quiescent_joining exit p)
  | yielded exit p before => exact forgotten
  | drained exit p before =>
    apply keep
    · cases exit <;> exact forgotten.absent
    · exact .inl (s.quiescent_joining exit p)
  | stoppedUnload index p ok before =>
    exact keep (forgotten.unstarted index false) (.inl rfl)
  | closed index p before =>
    apply keep _ (.inl rfl)
    intro found
    have erased : o ∈ s.ids.eraseIdx index := by simpa [System.ids, List.eraseIdx_map] using found
    exact forgotten.absent ((List.eraseIdx_sublist _ _).subset erased)
  | _ => exact keep forgotten.absent (.inl rfl)

theorem Forgotten.exclusive {s s' : System τ} {o : OwnerId} (forgotten : s.Forgotten o)
    (owners : Owners s) (h : Exclusive s s') : s'.Forgotten o := by
  have writers := h.same.2.2.2
  have nobody : (0 : OwnerId) ≠ o := Nat.ne_of_lt forgotten.positive
  cases h with
  | createOwner handle id path configPath thenStart before =>
    refine ⟨forgotten.positive, Nat.lt_succ_of_lt forgotten.below, forgotten.absent, nobody,
      fun p found => ?_, forgotten.regs⟩
    obtain rfl := Option.some.inj found
    exact Nat.ne_of_gt forgotten.below
  | activateLoad p thenStart before =>
    have joining : s.stage.joining = some p := by rw [before]; rfl
    exact forgotten.keep rfl forgotten.absent (forgotten.elsewhere p joining)
      (.inr (by rw [before]; rfl)) writers
  | deactivateLoad p thenStart before =>
    exact forgotten.keep rfl forgotten.absent nobody (.inr (by rw [before]; rfl)) writers
  | activateStart index p before =>
    have found := List.mem_of_getElem? (owners.entry index p.owner (by rw [before]; rfl))
    have other : p.owner ≠ o := fun own => forgotten.absent (own ▸ found)
    exact forgotten.keep rfl forgotten.absent other (.inl rfl) writers
  | started index p before =>
    exact forgotten.keep rfl (forgotten.unstarted index true) nobody (.inl rfl) writers
  | unstarted index p before =>
    exact forgotten.keep rfl forgotten.absent nobody (.inl rfl) writers
  | rollback p before => exact forgotten.keep rfl forgotten.absent nobody (.inl rfl) writers
  | abandon exit p before => exact forgotten.keep rfl forgotten.absent nobody (.inl rfl) writers
  | retire exit p before =>
    exact forgotten.keep (PluginHost.retireOwner_nextOwner _ _) forgotten.absent nobody (.inl rfl)
      writers
  | removeOwner exit p before =>
    exact forgotten.keep (PluginHost.removeOwner_nextOwner _ _) forgotten.absent nobody (.inl rfl)
      writers

theorem Forgotten.register {s : System τ} {o : OwnerId} (forgotten : s.Forgotten o) (kept : Kept s)
    (topicPrefix : Bytes) (pluginCtx : Nat) (handler : Handler) :
    Forgotten { s with host := s.host.registerWriter topicPrefix pluginCtx handler } o := by
  refine ⟨forgotten.positive, ?_, forgotten.absent, forgotten.inactive, forgotten.elsewhere,
    fun reg found => ?_⟩
  · rw [PluginHost.registerWriter_nextOwner]
    exact forgotten.below
  · rcases PluginHost.mem_registerWriter s.host topicPrefix pluginCtx _ reg found with old | rfl
    · exact forgotten.regs reg old
    · change s.host.registrant ≠ o
      rw [kept.givenOut.registrant kept.owners]
      exact forgotten.inactive

/-- What a failed `init` keeps on a quiet run: from then to the revocation no write has selected
a handler of the plugin. -/
def Rolled (s : System τ) : Prop := ∀ o, s.stage.rollingBack = some o → s.Unselected o

/-- A step by which no thread selects anything. -/
theorem Unselected.same {s s' : System τ} {o : OwnerId} (free : s.Unselected o)
    (writer : s'.writer = s.writer) : s'.Unselected o := by
  rw [Unselected, writer]
  exact free

theorem quiescent_rollingBack (s : System τ) (exit : Exit) (p : Loaded) :
    (s.quiescent exit p).stage.rollingBack = none :=
  s.quiescent_stage exit p Stage.rollingBack none (fun _ _ => ⟨rfl, rfl⟩) (fun _ => rfl)

/-- Without the failure of an `init` no rollback begins. -/
theorem Local.rollingBack {s s' : System τ} (h : Local s s') (o : OwnerId)
    (other : s.stage.initializing = none) (rolling : s'.stage.rollingBack = some o) :
    s.stage.rollingBack = some o := by
  cases h with
  | taken _ before taken =>
    cases taken with
    | done jobs => exact rolling
    | _ => cases rolling
  | uninitialized p thenStart before => simp [before, Stage.initializing] at other
  | unknown exit p before => simp [s.quiescent_rollingBack exit p] at rolling
  | yielded exit p before => exact rolling
  | drained exit p before => simp [s.quiescent_rollingBack exit p] at rolling
  | rolledBack exit p ok before loading =>
    rw [before]
    cases exit with
    | unload index => exact absurd rfl (loading index)
    | abandon => cases rolling
    | rollback => exact rolling
  | _ => cases rolling

/-- Under the exclusive lock a rollback goes on, or a retirement ends it. -/
theorem Exclusive.rollingBack {s s' : System τ} (h : Exclusive s s') (o : OwnerId)
    (rolling : s'.stage.rollingBack = some o) : s.stage.rollingBack = some o := by
  cases h with
  | rollback p before =>
    rw [before]
    exact rolling
  | _ => cases rolling

theorem mem_of_selecting (s : System τ) (t : τ) (reg : WriteReg)
    (selecting : s.selecting t = some reg) : reg ∈ s.host.writers := by
  cases pc : s.writer t with
  | select tag =>
    apply PluginHost.mem_of_select s.host tag.name reg
    simpa [System.selecting, pc] using selecting
  | _ => simp [System.selecting, pc] at selecting

/-- A rollback goes on to `retireOwner`. -/
theorem Local.rolls {s s' : System τ} (h : Local s s') (o : OwnerId)
    (rolling : s.stage.rollingBack = some o) : s'.stage.rollingBack = some o := by
  have elsewhere : ∀ stage, s.stage = stage → stage.rollingBack = none →
      s'.stage.rollingBack = some o := by
    intro stage before none
    rw [before, none] at rolling
    cases rolling
  cases h with
  | taken _ before => exact elsewhere _ before rfl
  | waiting exit p before => exact elsewhere _ before rfl
  | unknown exit p before => exact elsewhere _ before rfl
  | yielded exit p before => exact rolling
  | drained exit p before => exact elsewhere _ before rfl
  | rolledBack exit p ok before =>
    cases exit with
    | rollback =>
      rw [before] at rolling
      exact rolling
    | _ => exact elsewhere _ before rfl
  | dropped exit p before => exact elsewhere _ before rfl
  | _ =>
    rename_i before
    exact elsewhere _ before rfl

/-- `retireOwner` ends the rollback's exposure. -/
theorem Exclusive.rolls {s s' : System τ} (h : Exclusive s s') (owners : Owners s) (o : OwnerId)
    (rolling : s.stage.rollingBack = some o) :
    s'.stage.rollingBack = some o ∨ s'.Forgotten o := by
  cases h with
  | rollback p before =>
    rw [before] at rolling
    exact .inl rolling
  | abandon exit p before other =>
    rw [before] at rolling
    cases exit with
    | rollback => exact absurd rfl other
    | _ => cases rolling
  | retire exit p before =>
    rw [before] at rolling
    cases exit with
    | rollback =>
      obtain rfl := Option.some.inj rolling
      obtain ⟨positive, below, known, _, absent⟩ := owners.loading p (by rw [before]; rfl)
      refine .inr ⟨positive, ?_, absent, Nat.ne_of_lt positive, by simp [Stage.joining], ?_⟩
      · rw [PluginHost.retireOwner_nextOwner]
        exact below
      · exact PluginHost.retireOwner_clears s.host p.owner (Nat.ne_of_gt positive) known
    | _ => cases rolling
  | _ =>
    rename_i before
    rw [before] at rolling
    cases rolling

variable [DecidableEq τ]

/-- What a thread has selected it had selected before, or its step has just selected it. -/
theorem Advanced.selected_now {s s' : System τ} {t : τ} (h : Advanced s t s') (u : τ)
    (reg : WriteReg) (found : (s'.writer u).target = some reg) :
    (s.writer u).target = some reg ∨ s.selecting t = some reg := by
  by_cases same : u = t
  · subst same
    cases h with
    | select tag reg' before selected =>
      obtain rfl : reg' = reg := by simpa [WritePc.target] using found
      exact .inr (by simpa [selecting, before] using selected)
    | increment tag reg' before => exact .inl (by simpa [before, WritePc.target] using found)
    | unlock tag reg' before => exact .inl (by simpa [before, WritePc.target] using found)
    | call tag reg' before => exact .inl (by simpa [before, WritePc.target] using found)
    | _ => simp [WritePc.target] at found
  · rw [h.others u same] at found
    exact .inl found

/-- `write` begins with nothing selected. -/
theorem Unselected.write {s : System τ} {o : OwnerId} (free : s.Unselected o) (t : τ)
    (tag : TagValue) : (s.setWriter t (.lock tag)).Unselected o := by
  intro u reg found
  by_cases same : u = t
  · simp [same, WritePc.target] at found
  · rw [setWriter_ne _ _ _ _ same] at found
    exact free u reg found

theorem Unselected.advance {s s' : System τ} {o : OwnerId} {t : τ} (free : s.Unselected o)
    (h : Advanced s t s') (other : ∀ reg ∈ s.selecting t, reg.owner ≠ o) : s'.Unselected o := by
  intro u reg found
  rcases h.selected_now u reg found with before | now
  · exact free u reg before
  · exact other reg now

/-- `init` returns: the load goes on, or it failed and the rollback begins. -/
theorem manage_init {s s' : System τ} {reply : Reply} {p : Loaded} {thenStart : Bool}
    (before : s.stage = .init p thenStart) (h : s.manage reply = some s') :
    s'.writer = s.writer ∧ s'.stage =
      if reply.ok then .deactivateLoad p thenStart else .destroy .rollback p := by
  simp only [manage, before, locksHost, Bool.false_eq_true, if_false, localStep] at h
  cases ok : reply.ok with
  | true =>
    simp only [ok, if_true, Option.some.injEq] at h
    subst h
    exact ⟨rfl, by simp⟩
  | false =>
    simp only [ok, Bool.false_eq_true, if_false, Option.some.injEq] at h
    subst h
    exact ⟨rfl, by simp⟩

theorem Rolled.manage {s s' : System τ} {reply : Reply} (rolled : Rolled s)
    (quietly : s.RollsBackQuietly (.manage reply)) (h : s.manage reply = some s') : Rolled s' := by
  intro o rolling
  by_cases initializing : ∃ p thenStart, s.stage = .init p thenStart
  · obtain ⟨p, thenStart, before⟩ := initializing
    obtain ⟨writer, stage⟩ := manage_init before h
    rw [stage] at rolling
    rcases quietly with ok | free
    · simp [ok, Stage.rollingBack] at rolling
    · cases ok : reply.ok with
      | true => simp [ok, Stage.rollingBack] at rolling
      | false =>
        obtain rfl : p.owner = o := by simpa [ok, Stage.rollingBack] using rolling
        intro t reg found own
        rw [writer] at found
        apply free t reg found
        rw [before, own]
        rfl
  · have other : s.stage.initializing = none := by
      cases stage : s.stage with
      | init p thenStart => exact absurd ⟨p, thenStart, stage⟩ initializing
      | _ => rfl
    rcases manage_cases h with step | ⟨_, step⟩
    · exact (rolled o (step.rollingBack o other rolling)).same step.same.2.2
    · exact (rolled o (step.rollingBack o rolling)).same step.same.2.1

theorem Rolled.step {s s' : System τ} {a : Action τ} (rolled : Rolled s)
    (quietly : s.RollsBackQuietly a) (h : s.step a = some s') : Rolled s' := by
  cases a with
  | write t tag =>
    obtain ⟨_, rfl⟩ := written_of_write h
    exact fun o rolling => (rolled o rolling).write t tag
  | advance t accepted =>
    have moved := advanced_of_advance h
    intro o rolling
    rw [moved.frame.stage] at rolling
    apply (rolled o rolling).advance moved
    intro reg selecting own
    apply quietly reg selecting
    rw [rolling, own]
  | operation op =>
    obtain ⟨_, _, writer, _, stage, _⟩ := operation_same h
    intro o rolling
    rw [stage] at rolling
    exact (rolled o rolling).same writer
  | manage reply => exact rolled.manage quietly h
  | register plugin topicPrefix pluginCtx entry =>
    obtain ⟨_, _, rfl⟩ := registered_of_register h
    exact rolled

theorem Forgotten.step {s s' : System τ} {a : Action τ} {o : OwnerId} (forgotten : s.Forgotten o)
    (kept : Kept s) (h : s.step a = some s') : s'.Forgotten o := by
  cases stepped_of_step h with
  | aside _ _ same =>
    have absent : o ∉ s'.ids := by
      rw [ids, same.plugins]
      exact forgotten.absent
    have inactive : s'.bracketOwner ≠ o := by
      rw [bracketOwner, same.stage]
      exact forgotten.inactive
    have joining : s'.stage.joining = s.stage.joining := by rw [same.stage]
    have writers : s'.host.writers ⊆ s.host.writers := by
      rw [same.writers]
      exact List.Subset.refl _
    exact forgotten.keep same.nextOwner absent inactive (.inr joining) writers
  | managed _ _ step => exact forgotten.local step
  | locked _ _ _ step => exact forgotten.exclusive kept.owners step
  | registered plugin topicPrefix pluginCtx entry =>
    exact forgotten.register kept topicPrefix pluginCtx ⟨plugin, entry⟩

/-- No thread ever selects what is not registered. -/
theorem Forgotten.unselected {s s' : System τ} {a : Action τ} {o : OwnerId}
    (forgotten : s.Forgotten o) (free : s.Unselected o) (h : s.step a = some s') :
    s'.Unselected o := by
  cases a with
  | write t tag =>
    obtain ⟨_, rfl⟩ := written_of_write h
    exact free.write t tag
  | advance t accepted =>
    apply free.advance (advanced_of_advance h)
    intro reg selecting
    exact forgotten.regs reg (s.mem_of_selecting t reg selecting)
  | operation op => exact free.same (operation_same h).2.2.1
  | manage reply =>
    rcases manage_cases h with step | ⟨_, step⟩
    · exact free.same step.same.2.2
    · exact free.same step.same.2.1
  | register plugin topicPrefix pluginCtx entry =>
    obtain ⟨_, _, rfl⟩ := registered_of_register h
    exact free

/-- The plugin is being rolled back, or nothing of it can be called any more. -/
def Vanishing (s : System τ) (o : OwnerId) : Prop :=
  s.stage.rollingBack = some o ∨ (s.Forgotten o ∧ s.Unselected o)

theorem Vanishing.step {s s' : System τ} {a : Action τ} {o : OwnerId} (vanishing : s.Vanishing o)
    (kept : Kept s) (rolled : Rolled s) (h : s.step a = some s') : s'.Vanishing o := by
  rcases vanishing with rolling | ⟨forgotten, free⟩
  · have free : s.Unselected o := rolled o rolling
    cases stepped_of_step h with
    | aside _ _ same =>
      left
      rw [same.stage]
      exact rolling
    | managed _ _ step => exact .inl (step.rolls o rolling)
    | locked _ _ _ step =>
      rcases step.rolls kept.owners o rolling with still | forgotten
      · exact .inl still
      · exact .inr ⟨forgotten, free.same step.same.2.1⟩
    | registered => exact .inl rolling
  · exact .inr ⟨forgotten.step kept h, forgotten.unselected free h⟩

/-- Some continuation has the thread inside the handler. -/
def CanEnter (s : System τ) (t : τ) (reg : WriteReg) : Prop :=
  ∃ (after : List (Action τ)) (u : System τ) (tag : TagValue),
    (machine τ).runFrom s after = some u ∧ u.writer t = .handling tag reg

theorem CanEnter.advance {s s' : System τ} {t : τ} {reg : WriteReg}
    (step : s.advance t true = some s') (enters : s'.CanEnter t reg) : s.CanEnter t reg := by
  obtain ⟨after, u, tag, run, inside⟩ := enters
  refine ⟨.advance t true :: after, u, tag, ?_, inside⟩
  have next : (machine τ).step s (.advance t true) = some s' := step
  rw [Machine.runFrom_cons, next]
  exact run

/-- A thread that has selected a handler can go on until it is inside. -/
theorem canEnter_of_target (s : System τ) (t : τ) (reg : WriteReg)
    (target : (s.writer t).target = some reg) : s.CanEnter t reg := by
  have handling : ∀ (v : System τ) tag, v.writer t = .handling tag reg → v.CanEnter t reg :=
    fun v tag pc => ⟨[], v, tag, rfl, pc⟩
  have call : ∀ (v : System τ) tag, v.writer t = .call tag reg → v.CanEnter t reg := by
    intro v tag pc
    have inside := handling (v.setWriter t (.handling tag reg)) tag (setWriter_self _ _ _)
    exact inside.advance (by rw [System.advance, pc])
  have unlock : ∀ (v : System τ) tag, v.writer t = .unlock tag (some reg) → v.CanEnter t reg := by
    intro v tag pc
    have next := call { v.setWriter t (.call tag reg) with readers := v.readers.erase t } tag
      (setWriter_self v t _)
    exact next.advance (by rw [System.advance, pc])
  cases pc : s.writer t with
  | increment tag found =>
    obtain rfl : found = reg := by simpa [pc, WritePc.target] using target
    have next := unlock { s.setWriter t (.unlock tag (some found)) with
      host := s.host.addInflight found.owner 1 } tag (setWriter_self s t _)
    exact next.advance (by rw [System.advance, pc])
  | unlock tag found =>
    obtain rfl : found = some reg := by simpa [pc, WritePc.target] using target
    exact unlock s tag pc
  | call tag found =>
    obtain rfl : found = reg := by simpa [pc, WritePc.target] using target
    exact call s tag pc
  | handling tag found =>
    obtain rfl : found = reg := by simpa [pc, WritePc.target] using target
    exact handling s tag pc
  | _ => simp [pc, WritePc.target] at target

/-- A step that is not quiet lets a write into the plugin that is rolled back. -/
theorem canEnter_of_loud {s s' : System τ} {a : Action τ} (loud : ¬ s.RollsBackQuietly a)
    (h : s.step a = some s') :
    ∃ t reg, s'.stage.rollingBack = some reg.owner ∧ s'.CanEnter t reg := by
  cases a with
  | manage reply =>
    simp only [RollsBackQuietly, not_or, not_forall, not_not] at loud
    obtain ⟨failed, t, reg, target, initializing⟩ := loud
    cases stage : s.stage with
    | init p thenStart =>
      obtain ⟨writer, next⟩ := manage_init stage h
      refine ⟨t, reg, ?_, canEnter_of_target s' t reg (by rw [writer]; exact target)⟩
      rw [next, if_neg failed]
      rw [stage] at initializing
      exact initializing
    | _ => simp [stage, Stage.initializing] at initializing
  | advance t accepted =>
    simp only [RollsBackQuietly, not_forall, not_not] at loud
    obtain ⟨reg, selecting, rolling⟩ := loud
    cases pc : s.writer t with
    | select tag =>
      have selected : s.host.select tag.name = some reg := by
        simpa [System.selecting, pc] using selecting
      change s.advance t accepted = some s' at h
      simp only [System.advance, pc, selected, Option.some.injEq] at h
      subst h
      refine ⟨t, reg, rolling, canEnter_of_target _ t reg ?_⟩
      rw [setWriter_self]
      rfl
    | _ => simp [System.selecting, pc] at selecting
  | _ => exact absurd trivial loud

/-- If, whenever `init` fails, no write is between selecting a handler of the failing load and
its return, and none selects one until `retireOwner`, then no such handler is executing when
`destroy` is called, or is entered after. A step that breaks the condition lets a write in. -/
theorem unentered_of_quiet (before after : List (Action τ)) (s u : System τ) (p : Loaded)
    (quietly : (machine τ).Steps RollsBackQuietly initial before)
    (run : (machine τ).run before = some s) (destroying : s.stage = .destroy .rollback p)
    (quietlyAfter : (machine τ).Steps RollsBackQuietly s after)
    (later : (machine τ).runFrom s after = some u) :
    (∀ t tag reg, u.writer t = .handling tag reg → reg.owner ≠ p.owner) ∧
      ∀ a v, ¬ u.RollsBackQuietly a → u.step a = some v →
        ∃ t reg, v.stage.rollingBack = some reg.owner ∧ v.CanEnter t reg := by
  have now : Kept s ∧ Rolled s := (machine τ).invariant_of_steps RollsBackQuietly
    (fun v => Kept v ∧ Rolled v) (fun _ _ _ inv ok step => ⟨inv.1.step step, inv.2.step ok step⟩)
    initial before s ⟨kept_initial, fun o rolling => by cases rolling⟩ quietly run
  have then_ : (Kept u ∧ Rolled u) ∧ u.Vanishing p.owner :=
    (machine τ).invariant_of_steps RollsBackQuietly
      (fun v => (Kept v ∧ Rolled v) ∧ v.Vanishing p.owner)
      (fun _ _ _ inv ok step => ⟨⟨inv.1.1.step step, inv.1.2.step ok step⟩,
        inv.2.step inv.1.1 inv.1.2 step⟩) s after u
      ⟨now, .inl (by rw [destroying]; rfl)⟩ quietlyAfter later
  obtain ⟨⟨_, rolled⟩, vanishing⟩ := then_
  have free : u.Unselected p.owner := by
    rcases vanishing with rolling | ⟨_, free⟩
    · exact rolled p.owner rolling
    · exact free
  refine ⟨fun t tag reg pc => free t reg (by rw [pc]; rfl), fun a v loud step => ?_⟩
  exact canEnter_of_loud loud step

/-- A plugin registers in `init`, a write goes through its handler, and `init` fails. -/
def writeReturns : List (Action Unit) :=
  [.operation (.load (ascii "p.so") []), .manage {}, .manage {},
    .manage { info := some ⟨3, some (ascii "p")⟩ }, .manage {}, .manage {}, .manage {},
    .register 1 (ascii "a/") 0 0, .write () (.of (ascii "a/x") .null 0), .advance () true,
    .advance () true, .advance () true, .advance () true, .advance () true, .advance () true,
    .manage { ok := false }]

/-- The rollback goes on, and another write finds no handler. -/
def writeFindsNone : List (Action Unit) :=
  [.advance () true, .write () (.of (ascii "a/x") .null 0), .manage {}, .manage {}, .manage {},
    .advance () true, .advance () true, .advance () true]

theorem unentered_of_quiet_writeReturns : ∃ s u : System Unit,
    (machine Unit).run writeReturns = some s ∧ (machine Unit).runFrom s writeFindsNone = some u ∧
      (∃ p, s.stage = .destroy .rollback p) ∧
      ∀ t tag reg, u.writer t = .handling tag reg → reg.owner ≠ 1 := by
  have ends : (((machine Unit).run writeReturns).bind fun s =>
      ((machine Unit).runFrom s writeFindsNone).map fun _ => s.stage) =
        some (.destroy .rollback ⟨0, some (ascii "p"), false, ascii "p.so", [], 1⟩) := by rfl
  obtain ⟨s, run, rest⟩ := Option.bind_eq_some_iff.mp ends
  obtain ⟨u, later, stage⟩ := Option.map_eq_some_iff.mp rest
  have quietly : (machine Unit).Steps RollsBackQuietly initial writeReturns := by decide
  have quietlyAfter : (machine Unit).Steps RollsBackQuietly s writeFindsNone := by
    obtain rfl := Option.some.inj run
    decide
  have unentered := unentered_of_quiet writeReturns writeFindsNone s u _ quietly run stage
    quietlyAfter later
  exact ⟨s, u, run, later, ⟨_, stage⟩, unentered.1⟩

/-- A plugin registers in `init`, a write enters its handler, and `init` fails. -/
def writeInside : List (Action Unit) :=
  [.operation (.load (ascii "p.so") []), .manage {}, .manage {},
    .manage { info := some ⟨3, some (ascii "p")⟩ }, .manage {}, .manage {}, .manage {},
    .register 1 (ascii "a/") 0 0, .write () (.of (ascii "a/x") .null 0), .advance () true,
    .advance () true, .advance () true, .advance () true, .advance () true,
    .manage { ok := false }]

theorem not_unentered : ¬ ∀ (before after : List (Action Unit)) (s u : System Unit) (p : Loaded),
    (machine Unit).run before = some s → s.stage = .destroy .rollback p →
      (machine Unit).runFrom s after = some u →
      ∀ t tag reg, u.writer t = .handling tag reg → reg.owner ≠ p.owner := by
  intro unentered
  have ends : ((machine Unit).run writeInside).map (fun s => (s.stage, s.writer ())) =
      some (.destroy .rollback ⟨0, some (ascii "p"), false, ascii "p.so", [], 1⟩,
        .handling (.of (ascii "a/x") .null 0) ⟨ascii "a/", 0, ⟨1, 0⟩, 1⟩) := by rfl
  obtain ⟨s, run, last⟩ := Option.map_eq_some_iff.mp ends
  injection last with stage pc
  exact unentered writeInside [] s s _ run stage rfl () _ _ pc rfl

end System

end IndustrialRuntime.Core.PluginManager
