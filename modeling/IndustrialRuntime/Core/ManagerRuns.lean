import IndustrialRuntime.Core.PluginOwners
import IndustrialRuntime.Core.WriteThreads

namespace IndustrialRuntime.Core.PluginManager

/-- The plugin between whose `setActiveOwner(owner)` and `setActiveOwner(0)` the managing
thread is. -/
def Stage.bracket : Stage → Option Loaded
  | .createPlugin p _ | .init p _ | .deactivateLoad p _ | .start _ p | .deactivateStart _ p _ =>
    some p
  | .destroy exit p | .deactivate exit p =>
    match exit with
    | .unload _ => none
    | _ => some p
  | _ => none

/-- The plugin that joins the table if the load in progress succeeds. -/
def Stage.joining : Stage → Option Loaded
  | .activateLoad p _ | .createPlugin p _ | .init p _ | .deactivateLoad p _ | .pushBack p _ =>
    some p
  | _ => none

namespace System

variable {τ : Type*}

/-- The owner that registrations are attributed to now. -/
def bracketOwner (s : System τ) : OwnerId := (s.stage.bracket.map Loaded.owner).getD 0

@[simp] theorem bracketOwner_none (s : System τ) (none : s.stage.bracket = none) :
    s.bracketOwner = 0 := by simp [bracketOwner, none]

@[simp] theorem bracketOwner_some (s : System τ) (p : Loaded) (some : s.stage.bracket = some p) :
    s.bracketOwner = p.owner := by simp [bracketOwner, some]

/-- The owners that the host knows or refers to have been given out. -/
structure GivenOut (s : System τ) : Prop where
  owners : ∀ o ∈ s.host.owners, o < s.host.nextOwner
  regs : ∀ reg ∈ s.host.writers, reg.owner < s.host.nextOwner
  active : s.host.activeOwner = s.bracketOwner

theorem givenOut_initial : GivenOut (initial : System τ) where
  owners o found := by
    obtain rfl : o = 0 := by simpa [initial, PluginHost.initial] using found
    exact Nat.one_pos
  regs reg found := by simp [initial, PluginHost.initial] at found
  active := rfl

/-- A plugin whose registrations are attributed to it is known to the host. -/
theorem Owners.bracket {s : System τ} (inv : Owners s) (p : Loaded)
    (bracket : s.stage.bracket = some p) : 0 < p.owner ∧ p.owner ∈ s.host.owners := by
  have loading : s.stage.loading = some p → 0 < p.owner ∧ p.owner ∈ s.host.owners := by
    intro found
    obtain ⟨positive, _, known, _⟩ := inv.loading p found
    exact ⟨positive, known⟩
  have entry : ∀ index, s.stage.entry = some (index, p.owner) → s.stage.unloading = none →
      0 < p.owner ∧ p.owner ∈ s.host.owners := by
    intro index place running
    have found := List.mem_of_getElem? (inv.entry index p.owner place)
    have known := inv.table p.owner found (by simp [running])
    exact ⟨(inv.given p.owner found).1, known.1⟩
  cases stage : s.stage with
  | start index q =>
    obtain rfl : q = p := by simpa [stage, Stage.bracket] using bracket
    exact entry index (by rw [stage]; rfl) (by rw [stage]; rfl)
  | deactivateStart index q ok =>
    obtain rfl : q = p := by simpa [stage, Stage.bracket] using bracket
    exact entry index (by rw [stage]; rfl) (by rw [stage]; rfl)
  | createPlugin q thenStart => exact loading (by rw [stage] at bracket ⊢; exact bracket)
  | init q thenStart => exact loading (by rw [stage] at bracket ⊢; exact bracket)
  | deactivateLoad q thenStart => exact loading (by rw [stage] at bracket ⊢; exact bracket)
  | destroy exit q =>
    apply loading
    rw [stage] at bracket ⊢
    cases exit with
    | unload index => simp [Stage.bracket] at bracket
    | _ => exact bracket
  | deactivate exit q =>
    apply loading
    rw [stage] at bracket ⊢
    cases exit with
    | unload index => simp [Stage.bracket] at bracket
    | _ => exact bracket
  | _ => simp [stage, Stage.bracket] at bracket

/-- A registration made now is attributed to the plugin between whose brackets the manager is,
and to nobody otherwise. -/
theorem GivenOut.registrant {s : System τ} (inv : GivenOut s) (owners : Owners s) :
    s.host.registrant = s.bracketOwner := by
  rw [PluginHost.registrant, inv.active]
  cases bracket : s.stage.bracket with
  | none => simp [bracketOwner, bracket]
  | some p =>
    have known : s.bracketOwner ∈ s.host.owners := by
      rw [s.bracketOwner_some p bracket]
      exact (owners.bracket p bracket).2
    rw [if_pos known]

/-- A step that leaves the table and the owners of the host alone. -/
theorem GivenOut.keep {s s' : System τ} (inv : GivenOut s)
    (owners : s'.host.owners = s.host.owners) (writers : s'.host.writers ⊆ s.host.writers)
    (nextOwner : s'.host.nextOwner = s.host.nextOwner)
    (active : s'.host.activeOwner = s'.bracketOwner) : GivenOut s' where
  owners := by
    rw [owners, nextOwner]
    exact inv.owners
  regs reg found := by
    rw [nextOwner]
    exact inv.regs reg (writers found)
  active := active

theorem GivenOut.aside {s s' : System τ} (inv : GivenOut s) (same : Frame s s') : GivenOut s' := by
  have active : s'.host.activeOwner = s'.bracketOwner := by
    rw [same.activeOwner, inv.active, bracketOwner, bracketOwner, same.stage]
  have writers : s'.host.writers ⊆ s.host.writers := by
    rw [same.writers]
    exact List.Subset.refl _
  exact inv.keep same.owners writers same.nextOwner active

theorem Owners.aside {s s' : System τ} (inv : Owners s) (same : Frame s s') : Owners s' := by
  have members : s'.ids = s.ids := by rw [ids, ids, same.plugins]
  have loading : s'.stage.loading = s.stage.loading := by rw [same.stage]
  have entry : s'.stage.entry = s.stage.entry := by rw [same.stage]
  have unloading : s'.stage.unloading = s.stage.unloading := by rw [same.stage]
  exact inv.next same.nextOwner same.owners members same.quiesced (.inr loading) (.inr entry)
    unloading

theorem quiescent_bracket (s : System τ) (exit : Exit) (p : Loaded) :
    (s.quiescent exit p).stage.bracket = none :=
  s.quiescent_stage exit p Stage.bracket none (fun _ _ => ⟨rfl, rfl⟩) (fun _ => rfl)

theorem quiescent_joining (s : System τ) (exit : Exit) (p : Loaded) :
    (s.quiescent exit p).stage.joining = none :=
  s.quiescent_stage exit p Stage.joining none (fun _ _ => ⟨rfl, rfl⟩) (fun _ => rfl)

/-- A step without the exclusive lock stays on its side of the bracket. -/
theorem Local.bracketOwner {s s' : System τ} (h : Local s s') :
    s'.bracketOwner = s.bracketOwner := by
  have stay : s'.stage.bracket = s.stage.bracket → s'.bracketOwner = s.bracketOwner :=
    fun same => by rw [System.bracketOwner, System.bracketOwner, same]
  apply stay
  cases h with
  | taken _ before taken =>
    cases taken with
    | done jobs => rfl
    | _ => rw [before]; rfl
  | waiting exit p before => rw [before]; cases exit <;> rfl
  | unknown exit p before =>
    rw [before]
    exact s.quiescent_bracket exit p
  | yielded exit p before => rfl
  | drained exit p before =>
    rw [before]
    exact s.quiescent_bracket exit p
  | rolledBack exit p ok before loading =>
    rw [before]
    cases exit <;> rfl
  | dropped exit p before loading =>
    rw [before]
    cases exit <;> rfl
  | _ =>
    rename_i before
    rw [before]
    rfl

theorem GivenOut.local {s s' : System τ} (inv : GivenOut s) (h : Local s s') : GivenOut s' := by
  obtain ⟨host, _, _⟩ := h.same
  have active : s'.host.activeOwner = s'.bracketOwner := by
    rw [host, h.bracketOwner]
    exact inv.active
  have writers : s'.host.writers ⊆ s.host.writers := by
    rw [host]
    exact List.Subset.refl _
  exact inv.keep (by rw [host]) writers (by rw [host]) active

theorem GivenOut.exclusive {s s' : System τ} (inv : GivenOut s) (h : Exclusive s s') :
    GivenOut s' := by
  have writers : s'.host.writers ⊆ s.host.writers := h.same.2.2.2
  have outside : s.stage.bracket = none → s.host.activeOwner = 0 := by
    intro none
    rw [inv.active]
    exact s.bracketOwner_none none
  cases h with
  | createOwner handle id path configPath thenStart before =>
    have given : ∀ o ∈ s.host.createOwner.2.owners, o < s.host.nextOwner + 1 := by
      intro o found
      rcases Finset.mem_insert.mp found with rfl | old
      · exact Nat.lt_succ_self _
      · exact Nat.lt_succ_of_lt (inv.owners o old)
    have regs : ∀ reg ∈ s.host.writers, reg.owner < s.host.nextOwner + 1 :=
      fun reg found => Nat.lt_succ_of_lt (inv.regs reg found)
    exact ⟨given, regs, outside (by rw [before]; rfl)⟩
  | retire exit p before =>
    have active : (s.host.retireOwner p.owner).activeOwner = 0 := by
      rw [PluginHost.retireOwner_activeOwner]
      exact outside (by rw [before]; rfl)
    exact inv.keep (PluginHost.retireOwner_owners _ _) writers
      (PluginHost.retireOwner_nextOwner _ _) active
  | removeOwner exit p before =>
    have next := PluginHost.removeOwner_nextOwner s.host p.owner
    have known : ∀ o ∈ (s.host.removeOwner p.owner).owners,
        o < (s.host.removeOwner p.owner).nextOwner := by
      intro o found
      rw [next]
      exact inv.owners o (PluginHost.removeOwner_subset _ _ found)
    have regs : ∀ reg ∈ (s.host.removeOwner p.owner).writers,
        reg.owner < (s.host.removeOwner p.owner).nextOwner := by
      intro reg found
      rw [next]
      exact inv.regs reg (writers found)
    have active : (s.host.removeOwner p.owner).activeOwner = 0 := by
      rw [PluginHost.removeOwner_activeOwner]
      exact outside (by rw [before]; rfl)
    exact ⟨known, regs, active⟩
  | rollback p before => exact inv.keep rfl writers rfl rfl
  | abandon exit p before => exact inv.keep rfl writers rfl (by cases exit <;> rfl)
  | _ => exact inv.keep rfl writers rfl rfl

theorem Owners.register {s : System τ} (inv : Owners s) (topicPrefix : Bytes) (pluginCtx : Nat)
    (handler : Handler) :
    Owners { s with host := s.host.registerWriter topicPrefix pluginCtx handler } := by
  have nextOwner := PluginHost.registerWriter_nextOwner s.host topicPrefix pluginCtx handler
  have owners := PluginHost.registerWriter_owners s.host topicPrefix pluginCtx handler
  exact inv.next nextOwner owners rfl rfl (.inr rfl) (.inr rfl) rfl

theorem GivenOut.register {s : System τ} (inv : GivenOut s) (owners : Owners s)
    (topicPrefix : Bytes) (pluginCtx : Nat) (handler : Handler) :
    GivenOut { s with host := s.host.registerWriter topicPrefix pluginCtx handler } := by
  have next := PluginHost.registerWriter_nextOwner s.host topicPrefix pluginCtx handler
  have registrant : s.host.registrant < s.host.nextOwner := by
    rw [PluginHost.registrant]
    split_ifs with known
    · exact inv.owners _ known
    · exact owners.positive
  constructor
  · show ∀ o ∈ (s.host.registerWriter topicPrefix pluginCtx handler).owners,
      o < (s.host.registerWriter topicPrefix pluginCtx handler).nextOwner
    rw [PluginHost.registerWriter_owners, next]
    exact inv.owners
  · show ∀ reg ∈ (s.host.registerWriter topicPrefix pluginCtx handler).writers,
      reg.owner < (s.host.registerWriter topicPrefix pluginCtx handler).nextOwner
    intro reg found
    rw [next]
    rcases PluginHost.mem_registerWriter s.host topicPrefix pluginCtx _ reg found with old | rfl
    · exact inv.regs reg old
    · exact registrant
  · show (s.host.registerWriter topicPrefix pluginCtx handler).activeOwner = s.bracketOwner
    rw [PluginHost.registerWriter_activeOwner]
    exact inv.active

/-- Everything that every run keeps, whatever the plugins register and when. -/
structure Kept (s : System τ) : Prop where
  threads : Threads s
  owners : Owners s
  givenOut : GivenOut s

theorem kept_initial : Kept (initial : System τ) :=
  ⟨threads_initial, owners_initial, givenOut_initial⟩

theorem operation_live {s s' : System τ} {op : Operation} (h : s.operation op = some s') :
    s'.live = s.live := by
  unfold System.operation at h
  split_ifs at h
  obtain rfl := Option.some.inj h
  cases op with
  | scan entries =>
    simp only [begin]
    split <;> rfl
  | unload id =>
    simp only [begin]
    split <;> rfl
  | reload id =>
    simp only [begin]
    split
    · rfl
    · split <;> rfl
  | _ => rfl

variable [DecidableEq τ]

theorem Advanced.live {s s' : System τ} {t : τ} (h : Advanced s t s') : s'.live = s.live := by
  cases h <;> rfl

/-- A plugin that registers is live, and holds the exclusive lock. -/
theorem registered_of_register {s s' : System τ} {plugin : OwnerId} {topicPrefix : Bytes}
    {pluginCtx entry : Nat} (h : s.register plugin topicPrefix pluginCtx entry = some s') :
    plugin ∈ s.live ∧ s.readers = ∅ ∧
      s' = { s with host := s.host.registerWriter topicPrefix pluginCtx ⟨plugin, entry⟩ } := by
  unfold System.register at h
  split_ifs at h with enabled
  exact ⟨enabled.1, enabled.2, (Option.some.inj h).symm⟩

theorem Threads.manage {s s' : System τ} {reply : Reply} (inv : Threads s)
    (h : s.manage reply = some s') : Threads s' := by
  rcases manage_cases h with step | ⟨free, step⟩
  · obtain ⟨host, readers, writer⟩ := step.same
    exact inv.same host readers writer
  · obtain ⟨readers, writer, inflight, _⟩ := step.same
    exact inv.exclusive free readers writer inflight

theorem Threads.step {s s' : System τ} {a : Action τ} (inv : Threads s)
    (h : s.step a = some s') : Threads s' := by
  cases a with
  | write t tag => exact inv.write h
  | advance t accepted => exact inv.advance (advanced_of_advance h)
  | operation op =>
    obtain ⟨host, readers, writer, _⟩ := operation_same h
    exact inv.same host readers writer
  | manage reply => exact inv.manage h
  | register plugin topicPrefix pluginCtx entry =>
    obtain ⟨_, free, rfl⟩ := registered_of_register h
    exact inv.exclusive free rfl rfl (PluginHost.registerWriter_inflight _ _ _ _)

/-- What a step can do to the manager and the writer table. -/
inductive Stepped (s : System τ) : Action τ → System τ → Prop where
  | aside (a : Action τ) (s' : System τ) (same : Frame s s') (live : s'.live = s.live) :
      Stepped s a s'
  | managed (reply : Reply) (s' : System τ) (step : Local s s') : Stepped s (.manage reply) s'
  | locked (reply : Reply) (s' : System τ) (free : s.readers = ∅) (step : Exclusive s s') :
      Stepped s (.manage reply) s'
  | registered (plugin : OwnerId) (topicPrefix : Bytes) (pluginCtx entry : Nat)
      (live : plugin ∈ s.live) (free : s.readers = ∅) :
      Stepped s (.register plugin topicPrefix pluginCtx entry)
        { s with host := s.host.registerWriter topicPrefix pluginCtx ⟨plugin, entry⟩ }

theorem stepped_of_step {s s' : System τ} {a : Action τ} (h : s.step a = some s') :
    Stepped s a s' := by
  cases a with
  | write t tag =>
    obtain ⟨_, rfl⟩ := written_of_write h
    exact .aside _ _ ⟨rfl, rfl, rfl, rfl, rfl, rfl, rfl⟩ rfl
  | advance t accepted =>
    have moved := advanced_of_advance h
    exact .aside _ _ moved.frame moved.live
  | operation op =>
    obtain ⟨host, _, _, plugins, stage, quiesced⟩ := operation_same h
    have same : Frame s s' := by
      constructor <;> first | assumption | rw [host]
    exact .aside _ _ same (operation_live h)
  | manage reply =>
    rcases manage_cases h with step | ⟨free, step⟩
    · exact .managed reply s' step
    · exact .locked reply s' free step
  | register plugin topicPrefix pluginCtx entry =>
    obtain ⟨live, free, rfl⟩ := registered_of_register h
    exact .registered plugin topicPrefix pluginCtx entry live free

theorem Owners.step {s s' : System τ} {a : Action τ} (inv : Owners s)
    (h : s.step a = some s') : Owners s' := by
  cases stepped_of_step h with
  | aside _ _ same => exact inv.aside same
  | managed _ _ step => exact inv.local step
  | locked _ _ _ step => exact inv.exclusive step
  | registered plugin topicPrefix pluginCtx entry =>
    exact inv.register topicPrefix pluginCtx ⟨plugin, entry⟩

theorem GivenOut.step {s s' : System τ} {a : Action τ} (inv : GivenOut s) (owners : Owners s)
    (h : s.step a = some s') : GivenOut s' := by
  cases stepped_of_step h with
  | aside _ _ same => exact inv.aside same
  | managed _ _ step => exact inv.local step
  | locked _ _ _ step => exact inv.exclusive step
  | registered plugin topicPrefix pluginCtx entry =>
    exact inv.register owners topicPrefix pluginCtx ⟨plugin, entry⟩

theorem Kept.step {s s' : System τ} {a : Action τ} (inv : Kept s) (h : s.step a = some s') :
    Kept s' :=
  ⟨inv.threads.step h, inv.owners.step h, inv.givenOut.step inv.owners h⟩

theorem kept_of_run (as : List (Action τ)) (s : System τ) (run : (machine τ).run as = some s) :
    Kept s :=
  (machine τ).invariant Kept kept_initial (fun _ _ _ inv step => inv.step step) as s run

end System

end IndustrialRuntime.Core.PluginManager
