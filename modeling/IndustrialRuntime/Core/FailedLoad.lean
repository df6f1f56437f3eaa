import IndustrialRuntime.Core.RegistrationOwners

namespace IndustrialRuntime.Core.PluginManager

/-- A call of the library loader. -/
def Call.ofLoader : Call → Bool
  | .opened _ | .closed _ => true
  | _ => false

/-- `loadLocked` has returned, or is about to return true. -/
def Stage.returning : Stage → Bool
  | .ready | .pushBack .. => true
  | _ => false

/-- A load is inside the `createPlugin`, the `init` or the `destroy` of its plugin. -/
def Stage.calling : Stage → Bool
  | .createPlugin .. | .init .. | .destroy .rollback _ => true
  | _ => false

/-- The plugin whose `createPlugin` is executing. -/
def Stage.creating : Stage → Option OwnerId
  | .createPlugin p _ => some p.owner
  | _ => none

/-- `loadLocked` gives up because `createPlugin` failed, or has returned. -/
def Stage.abandoned : Stage → Bool
  | .ready => true
  | .deactivate exit _ | .removeOwner exit _ | .closeLibrary exit _ =>
    match exit with
    | .abandon => true
    | _ => false
  | _ => false

namespace System

variable {τ : Type*}

/-- A step of a call of `loadLocked` that returns false: it does not get to `push_back`.
Registrations are made while it is inside a function of its plugin, and writes go on. -/
def FailingLoad (s : System τ) : Action τ → Prop
  | .manage _ => s.stage.returning = false
  | .register .. => s.stage.calling = true
  | .operation _ => False
  | _ => True

instance decidableFailingLoad (s : System τ) (a : Action τ) : Decidable (s.FailingLoad a) :=
  match a with
  | .manage _ => inferInstanceAs (Decidable (s.stage.returning = false))
  | .register .. => inferInstanceAs (Decidable (s.stage.calling = true))
  | .operation _ => isFalse id
  | .write .. | .advance .. => isTrue trivial

/-- A `createPlugin` that fails has left no registration behind. -/
def AbandonsNothing (s : System τ) : Action τ → Prop
  | .manage reply =>
    reply.ok = true ∨ ∀ reg ∈ s.host.writers, s.stage.creating ≠ some reg.owner
  | _ => True

instance decidableAbandonsNothing (s : System τ) (a : Action τ) :
    Decidable (s.AbandonsNothing a) :=
  match a with
  | .manage reply => inferInstanceAs (Decidable
      (reply.ok = true ∨ ∀ reg ∈ s.host.writers, s.stage.creating ≠ some reg.owner))
  | .write .. | .advance .. | .operation _ | .register .. => isTrue trivial

/-- The state is as it was, but for the ids given out, and what was opened is closed once. -/
structure NoTrace (s u : System τ) : Prop where
  plugins : u.plugins = s.plugins
  writers : u.host.writers = s.host.writers
  owners : u.host.owners = s.host.owners
  activeOwner : u.host.activeOwner = s.host.activeOwner
  nextOwner : s.host.nextOwner ≤ u.host.nextOwner
  closed : ∃ calls, u.calls = s.calls ++ calls ∧
    (calls.filter Call.ofLoader = [] ∨
      calls.filter Call.ofLoader = [.opened s.nextHandle, .closed s.nextHandle])

/-- The part of the state that a load changes. -/
structure Footprint where
  plugins : List Loaded
  writers : List WriteReg
  owners : Finset OwnerId
  activeOwner : OwnerId
  nextOwner : OwnerId
  nextHandle : Nat
  calls : List Call

def footprint (s : System τ) : Footprint where
  plugins := s.plugins
  writers := s.host.writers
  owners := s.host.owners
  activeOwner := s.host.activeOwner
  nextOwner := s.host.nextOwner
  nextHandle := s.nextHandle
  calls := s.calls

/-- What a load has changed since it was called: the ids given out, the owners the host knows,
the active one, the calls of the loader, and the entries of the new owner. -/
structure Changed (s : System τ) (f : Footprint) (given : Nat) (owners : Finset OwnerId)
    (active : OwnerId) (loader : List Call) : Prop where
  plugins : f.plugins = s.plugins
  nextOwner : f.nextOwner = s.host.nextOwner + given
  owners : f.owners = owners
  activeOwner : f.activeOwner = active
  calls : ∃ calls, f.calls = s.calls ++ calls ∧ calls.filter Call.ofLoader = loader
  writers : ∃ own, f.writers = s.host.writers ++ own ∧ ∀ reg ∈ own, reg.owner = s.host.nextOwner

/-- No entry belongs to the owner that a load creates. -/
def Unregistered (s : System τ) (f : Footprint) : Prop :=
  ∀ reg ∈ f.writers, reg.owner ≠ s.host.nextOwner

/-- A plugin has the owner and the library that a load gives it. -/
def New (s : System τ) (p : Loaded) : Prop :=
  p.owner = s.host.nextOwner ∧ p.handle = s.nextHandle

/-- How far a load has come, by the stage it is in. -/
def Progress (s : System τ) (f : Footprint) : Stage → Prop
  | .ready => ∃ given loader, Changed s f given s.host.owners 0 loader ∧
      (loader = [] ∨ loader = [.opened s.nextHandle, .closed s.nextHandle])
  | .openLibrary .. => Changed s f 0 s.host.owners 0 [] ∧ f.nextHandle = s.nextHandle ∧
      Unregistered s f
  | .inspect handle .. | .skip handle | .createOwner handle .. =>
    Changed s f 0 s.host.owners 0 [.opened s.nextHandle] ∧ handle = s.nextHandle ∧
      Unregistered s f
  | .activateLoad p _ =>
    Changed s f 1 (insert s.host.nextOwner s.host.owners) 0 [.opened s.nextHandle] ∧ New s p ∧
      Unregistered s f
  | .createPlugin p _ | .init p _ | .destroy .rollback p | .deactivate .rollback p
  | .deactivate .abandon p =>
    Changed s f 1 (insert s.host.nextOwner s.host.owners) s.host.nextOwner
      [.opened s.nextHandle] ∧ New s p
  | .deactivateLoad .. | .pushBack .. => True
  | .retire .rollback p | .removeOwner .abandon p =>
    Changed s f 1 (insert s.host.nextOwner s.host.owners) 0 [.opened s.nextHandle] ∧ New s p
  | .wait .rollback p | .poll .rollback p | .removeOwner .rollback p =>
    Changed s f 1 (insert s.host.nextOwner s.host.owners) 0 [.opened s.nextHandle] ∧ New s p ∧
      Unregistered s f
  | .closeLibrary .rollback p =>
    Changed s f 1 s.host.owners 0 [.opened s.nextHandle] ∧ New s p ∧ Unregistered s f
  | .closeLibrary .abandon p =>
    Changed s f 1 s.host.owners 0 [.opened s.nextHandle] ∧ New s p
  | _ => False

section Step

variable {s v v' : System τ} {f : Footprint} {given : Nat} {owners : Finset OwnerId}
  {active : OwnerId} {loader : List Call}

theorem Changed.record (changed : Changed s f given owners active loader) (recorded : List Call) :
    Changed s { f with calls := f.calls ++ recorded } given owners active
      (loader ++ recorded.filter Call.ofLoader) := by
  obtain ⟨old, before, filtered⟩ := changed.calls
  refine ⟨changed.plugins, changed.nextOwner, changed.owners, changed.activeOwner,
    ⟨old ++ recorded, ?_, ?_⟩, changed.writers⟩
  · change f.calls ++ recorded = s.calls ++ (old ++ recorded)
    rw [before, List.append_assoc]
  · rw [List.filter_append, filtered]

/-- A step that calls into the plugin. -/
theorem Changed.call (changed : Changed s f given owners active loader) (c : Call)
    (other : c.ofLoader = false) :
    Changed s { f with calls := f.calls ++ [c] } given owners active loader := by
  have recorded := changed.record [c]
  have none : [c].filter Call.ofLoader = [] := by simp [other]
  rwa [none, List.append_nil] at recorded

theorem Changed.handle (changed : Changed s f given owners active loader) (nextHandle : Nat) :
    Changed s { f with nextHandle := nextHandle } given owners active loader :=
  ⟨changed.plugins, changed.nextOwner, changed.owners, changed.activeOwner, changed.calls,
    changed.writers⟩

theorem Changed.activate (changed : Changed s f given owners active loader) (owner : OwnerId) :
    Changed s { f with activeOwner := owner } given owners owner loader :=
  ⟨changed.plugins, changed.nextOwner, changed.owners, rfl, changed.calls, changed.writers⟩

/-- The entries that were there before the load do not belong to the new owner. -/
theorem unregistered_of_kept (kept : Kept s) : Unregistered s s.footprint :=
  fun reg found => Nat.ne_of_lt (kept.givenOut.regs reg found)

/-- With no entry of the new owner the writer table is as before. -/
theorem Changed.writers_iff (changed : Changed s f given owners active loader) (kept : Kept s) :
    f.writers = s.host.writers ↔ Unregistered s f := by
  obtain ⟨own, writers, mine⟩ := changed.writers
  constructor
  · intro same reg found
    rw [same] at found
    exact unregistered_of_kept kept reg found
  · intro clean
    cases own with
    | nil => rw [writers, List.append_nil]
    | cons reg rest =>
      have member : reg ∈ f.writers := by
        rw [writers]
        exact List.mem_append_right _ List.mem_cons_self
      exact absurd (mine reg List.mem_cons_self) (clean reg member)

/-- All but the writer table is as before when the load has returned. -/
theorem Changed.noTrace {u : System τ}
    (changed : Changed s u.footprint given s.host.owners 0 loader)
    (active : s.host.activeOwner = 0)
    (closed : loader = [] ∨ loader = [.opened s.nextHandle, .closed s.nextHandle])
    (writers : u.host.writers = s.host.writers) : NoTrace s u := by
  obtain ⟨calls, recorded, filtered⟩ := changed.calls
  have next : u.host.nextOwner = s.host.nextOwner + given := changed.nextOwner
  have advanced : s.host.nextOwner ≤ u.host.nextOwner := by
    rw [next]
    exact Nat.le_add_right _ _
  have once : calls.filter Call.ofLoader = [] ∨
      calls.filter Call.ofLoader = [.opened s.nextHandle, .closed s.nextHandle] := by
    rw [filtered]
    exact closed
  exact ⟨changed.plugins, writers, changed.owners, changed.activeOwner.trans active.symm, advanced,
    calls, recorded, once⟩

section Called

variable {path configPath : Bytes} {thenStart : Bool}

theorem inactive_of_called (kept : Kept s)
    (called : s.stage = .openLibrary path configPath thenStart) : s.host.activeOwner = 0 := by
  have outside : s.stage.bracket = none := by
    rw [called]
    rfl
  rw [kept.givenOut.active]
  exact s.bracketOwner_none outside

/-- A load has changed nothing when it is called. -/
theorem progress_of_called (kept : Kept s)
    (called : s.stage = .openLibrary path configPath thenStart) :
    Progress s s.footprint s.stage := by
  have unchanged : Changed s s.footprint 0 s.host.owners 0 [] :=
    ⟨rfl, rfl, rfl, inactive_of_called kept called, ⟨[], (List.append_nil _).symm, rfl⟩,
      ⟨[], (List.append_nil _).symm, fun reg found => absurd found List.not_mem_nil⟩⟩
  rw [called]
  exact ⟨unchanged, rfl, unregistered_of_kept kept⟩

end Called

/-- A step without the exclusive lock, up to the return. -/
theorem Progress.local (progress : Progress s v.footprint v.stage)
    (running : v.stage.returning = false) (h : Local v v') :
    Progress s v'.footprint v'.stage := by
  cases h with
  | taken _ before => simp [before, Stage.returning] at running
  | opened path configPath thenStart before =>
    rw [before] at progress
    obtain ⟨changed, handle, clean⟩ := progress
    have opened := (changed.record [.opened v.nextHandle]).handle (v.nextHandle + 1)
    refine ⟨?_, handle, clean⟩
    rw [← handle]
    exact opened
  | unopened path configPath thenStart before =>
    rw [before] at progress
    obtain ⟨changed, _, _⟩ := progress
    exact ⟨0, [], changed, .inl rfl⟩
  | inspected handle path configPath thenStart info before =>
    rw [before] at progress
    exact progress
  | rejected handle path configPath thenStart before =>
    rw [before] at progress
    exact progress
  | skipped handle before =>
    rw [before] at progress
    obtain ⟨changed, same, clean⟩ := progress
    refine ⟨0, _, changed.record [.closed handle], .inr ?_⟩
    rw [same]
    rfl
  | created p thenStart before =>
    rw [before] at progress
    obtain ⟨changed, new⟩ := progress
    exact ⟨changed.call (.created p.owner p.handle true) rfl, new⟩
  | uncreated p thenStart before =>
    rw [before] at progress
    obtain ⟨changed, new⟩ := progress
    exact ⟨changed.call (.created p.owner p.handle false) rfl, new⟩
  | initialized p thenStart before => trivial
  | uninitialized p thenStart before =>
    rw [before] at progress
    obtain ⟨changed, new⟩ := progress
    exact ⟨changed.call (.init p.owner false) rfl, new⟩
  | pushed p thenStart jobs before => simp [before, Stage.returning] at running
  | waiting exit p before =>
    rw [before] at progress
    cases exit with
    | rollback => exact progress
    | _ => exact progress.elim
  | unknown exit p before =>
    rw [before] at progress
    cases exit with
    | rollback => exact progress
    | _ => exact progress.elim
  | yielded exit p before => exact progress
  | drained exit p before =>
    rw [before] at progress
    cases exit with
    | rollback => exact progress
    | _ => exact progress.elim
  | rolledBack exit p ok before =>
    rw [before] at progress
    cases exit with
    | rollback =>
      obtain ⟨changed, new⟩ := progress
      exact ⟨changed.call (.destroy p.owner ok) rfl, new⟩
    | _ => exact progress.elim
  | dropped exit p before =>
    rw [before] at progress
    cases exit with
    | unload index => exact progress.elim
    | rollback =>
      obtain ⟨changed, new, clean⟩ := progress
      refine ⟨1, _, changed.record [.closed p.handle], .inr ?_⟩
      rw [new.2]
      rfl
    | abandon =>
      obtain ⟨changed, new⟩ := progress
      refine ⟨1, _, changed.record [.closed p.handle], .inr ?_⟩
      rw [new.2]
      rfl
  | _ =>
    rename_i before
    rw [before] at progress
    exact progress.elim

/-- The host forgets the owner that the load created. -/
theorem Changed.forget (kept : Kept s)
    (changed : Changed s v.footprint given (insert s.host.nextOwner s.host.owners) active loader)
    (stage : Stage) : Changed s (footprint { v with
      host := v.host.removeOwner s.host.nextOwner, stage := stage }) given s.host.owners active
      loader := by
  have positive : s.host.nextOwner ≠ 0 := Nat.ne_of_gt kept.owners.positive
  have fresh : s.host.nextOwner ∉ s.host.owners :=
    fun known => absurd (kept.givenOut.owners _ known) (Nat.lt_irrefl _)
  rw [PluginHost.removeOwner, if_neg positive]
  refine ⟨changed.plugins, changed.nextOwner, ?_, changed.activeOwner, changed.calls,
    changed.writers⟩
  have known : v.host.owners = insert s.host.nextOwner s.host.owners := changed.owners
  change v.host.owners.erase s.host.nextOwner = s.host.owners
  rw [known, Finset.erase_insert fresh]

/-- The entries of the owner that the load created are revoked, and no others. -/
theorem Changed.revoke (kept : Kept s)
    (changed : Changed s v.footprint given (insert s.host.nextOwner s.host.owners) active loader)
    (stage : Stage) :
    Changed s (footprint { v with
        host := v.host.retireOwner s.host.nextOwner, stage := stage }) given
      (insert s.host.nextOwner s.host.owners) active loader ∧
    Unregistered s (footprint { v with
      host := v.host.retireOwner s.host.nextOwner, stage := stage }) := by
  have positive : s.host.nextOwner ≠ 0 := Nat.ne_of_gt kept.owners.positive
  have known : s.host.nextOwner ∈ v.host.owners := by
    have owners : v.host.owners = insert s.host.nextOwner s.host.owners := changed.owners
    rw [owners]
    exact Finset.mem_insert_self _ _
  obtain ⟨own, writers, mine⟩ := changed.writers
  have old : s.host.writers.filter (fun reg => reg.owner ≠ s.host.nextOwner) =
      s.host.writers := by
    apply List.filter_eq_self.mpr
    intro reg found
    simpa using unregistered_of_kept kept reg found
  have new : own.filter (fun reg => reg.owner ≠ s.host.nextOwner) = [] := by
    apply List.filter_eq_nil_iff.mpr
    intro reg found
    simpa using mine reg found
  have revoked : v.host.writers.filter (fun reg => reg.owner ≠ s.host.nextOwner) =
      s.host.writers := by
    change v.footprint.writers.filter _ = s.host.writers
    rw [writers, List.filter_append, old, new, List.append_nil]
  rw [PluginHost.retireOwner, if_neg positive, if_neg (not_not_intro known), revoked]
  refine ⟨⟨changed.plugins, changed.nextOwner, changed.owners, changed.activeOwner, changed.calls,
    ⟨[], (List.append_nil _).symm, fun reg found => absurd found List.not_mem_nil⟩⟩, ?_⟩
  exact unregistered_of_kept kept

/-- A step under the exclusive lock, up to the return. -/
theorem Progress.exclusive (kept : Kept s) (progress : Progress s v.footprint v.stage)
    (h : Exclusive v v') : Progress s v'.footprint v'.stage := by
  cases h with
  | createOwner handle id path configPath thenStart before =>
    rw [before] at progress
    obtain ⟨changed, same, clean⟩ := progress
    have next : v.host.nextOwner = s.host.nextOwner := changed.nextOwner
    have known : v.host.owners = s.host.owners := changed.owners
    refine ⟨⟨changed.plugins, ?_, ?_, changed.activeOwner, changed.calls, changed.writers⟩,
      ⟨next, same⟩, clean⟩
    · change v.host.nextOwner + 1 = s.host.nextOwner + 1
      rw [next]
    · change insert v.host.nextOwner v.host.owners = insert s.host.nextOwner s.host.owners
      rw [next, known]
  | activateLoad p thenStart before =>
    rw [before] at progress
    obtain ⟨changed, new, clean⟩ := progress
    refine ⟨?_, new⟩
    rw [new.1]
    exact changed.activate s.host.nextOwner
  | deactivateLoad p thenStart before => trivial
  | rollback p before =>
    rw [before] at progress
    obtain ⟨changed, new⟩ := progress
    exact ⟨changed.activate 0, new⟩
  | abandon exit p before other =>
    rw [before] at progress
    cases exit with
    | rollback => exact absurd rfl other
    | abandon =>
      obtain ⟨changed, new⟩ := progress
      exact ⟨changed.activate 0, new⟩
    | unload index => exact progress.elim
  | retire exit p before =>
    rw [before] at progress
    cases exit with
    | rollback =>
      obtain ⟨changed, new⟩ := progress
      rw [new.1]
      obtain ⟨revoked, clean⟩ := changed.revoke kept (.wait .rollback p)
      exact ⟨revoked, new, clean⟩
    | _ => exact progress.elim
  | removeOwner exit p before =>
    rw [before] at progress
    cases exit with
    | rollback =>
      obtain ⟨changed, new, clean⟩ := progress
      rw [new.1]
      refine ⟨changed.forget kept (.closeLibrary .rollback p), new, fun reg found => ?_⟩
      apply clean reg
      change reg ∈ (v.host.removeOwner s.host.nextOwner).writers at found
      rwa [PluginHost.removeOwner_writers] at found
    | abandon =>
      obtain ⟨changed, new⟩ := progress
      rw [new.1]
      exact ⟨changed.forget kept (.closeLibrary .abandon p), new⟩
    | unload index => exact progress.elim
  | _ =>
    rename_i before
    rw [before] at progress
    exact progress.elim

/-- What is registered now is registered under the owner the load created. -/
theorem Changed.register (changed : Changed s v.footprint given owners active loader)
    (topicPrefix : Bytes) (pluginCtx : Nat) (handler : Handler)
    (registrant : v.host.registrant = s.host.nextOwner) :
    Changed s (footprint { v with
      host := v.host.registerWriter topicPrefix pluginCtx handler }) given owners active
      loader := by
  rw [PluginHost.registerWriter]
  split_ifs
  · exact changed
  · obtain ⟨own, writers, mine⟩ := changed.writers
    refine ⟨changed.plugins, changed.nextOwner, changed.owners, changed.activeOwner,
      changed.calls, own ++ [⟨topicPrefix, pluginCtx, handler, v.host.registrant⟩], ?_, ?_⟩
    · have before : v.host.writers = s.host.writers ++ own := writers
      rw [← List.append_assoc, ← before]
      rfl
    · intro reg found
      rcases List.mem_append.mp found with earlier | now
      · exact mine reg earlier
      · rw [List.mem_singleton.mp now]
        exact registrant

theorem Progress.register (kept : Kept v) (progress : Progress s v.footprint v.stage)
    (topicPrefix : Bytes) (pluginCtx : Nat) (handler : Handler)
    (inside : v.stage.calling = true) :
    Progress s (footprint { v with
      host := v.host.registerWriter topicPrefix pluginCtx handler }) v.stage := by
  have registrant : ∀ p, v.stage.bracket = some p → New s p →
      v.host.registrant = s.host.nextOwner := by
    intro p bracket new
    rw [kept.givenOut.registrant kept.owners, v.bracketOwner_some p bracket]
    exact new.1
  cases stage : v.stage with
  | createPlugin p thenStart =>
    rw [stage] at progress
    obtain ⟨changed, new⟩ := progress
    have own := registrant p (by rw [stage]; rfl) new
    exact ⟨changed.register topicPrefix pluginCtx handler own, new⟩
  | init p thenStart =>
    rw [stage] at progress
    obtain ⟨changed, new⟩ := progress
    have own := registrant p (by rw [stage]; rfl) new
    exact ⟨changed.register topicPrefix pluginCtx handler own, new⟩
  | destroy exit p =>
    rw [stage] at progress
    cases exit with
    | rollback =>
      obtain ⟨changed, new⟩ := progress
      have own := registrant p (by rw [stage]; rfl) new
      exact ⟨changed.register topicPrefix pluginCtx handler own, new⟩
    | _ => exact progress.elim
  | _ => simp [stage, Stage.calling] at inside

/-- A load that has given up on `createPlugin`, or has returned, leaves no entry. -/
def Clean (s v : System τ) : Prop := v.stage.abandoned = true → Unregistered s v.footprint

theorem clean_of_running (running : v.stage.abandoned = false) : Clean s v := by
  intro abandoned
  rw [running] at abandoned
  contradiction

/-- Nothing but the failure of `createPlugin` leaves an entry behind. -/
theorem clean_local (progress : Progress s v.footprint v.stage)
    (running : v.stage.returning = false)
    (other : ∀ p thenStart, v.stage ≠ .createPlugin p thenStart) (h : Local v v') :
    Clean s v' ↔ Clean s v := by
  have early : ∀ stage, v.stage = stage → stage.abandoned = false → Clean s v := by
    intro stage before running
    apply clean_of_running
    rw [before]
    exact running
  cases h with
  | taken _ before => simp [before, Stage.returning] at running
  | unopened path configPath thenStart before =>
    refine iff_of_true (fun _ => ?_) (early _ before rfl)
    rw [before] at progress
    exact progress.2.2
  | skipped handle before =>
    refine iff_of_true (fun _ => ?_) (early _ before rfl)
    rw [before] at progress
    exact progress.2.2
  | created p thenStart before => exact absurd before (other p thenStart)
  | uncreated p thenStart before => exact absurd before (other p thenStart)
  | pushed p thenStart jobs before => simp [before, Stage.returning] at running
  | stopped index p ok before =>
    rw [before] at progress
    exact progress.elim
  | waiting exit p before => exact iff_of_true (clean_of_running rfl) (early _ before rfl)
  | unknown exit p before =>
    rw [before] at progress
    cases exit with
    | rollback => exact iff_of_true (clean_of_running rfl) (early _ before rfl)
    | _ => exact progress.elim
  | yielded exit p before => rfl
  | drained exit p before =>
    rw [before] at progress
    cases exit with
    | rollback => exact iff_of_true (clean_of_running rfl) (early _ before rfl)
    | _ => exact progress.elim
  | destroyed index p ok before =>
    rw [before] at progress
    exact progress.elim
  | rolledBack exit p ok before =>
    rw [before] at progress
    cases exit with
    | rollback => exact iff_of_true (clean_of_running rfl) (early _ before rfl)
    | _ => exact progress.elim
  | closed index p before =>
    rw [before] at progress
    exact progress.elim
  | dropped exit p before =>
    rw [before] at progress
    cases exit with
    | unload index => exact progress.elim
    | rollback => exact iff_of_true (fun _ => progress.2.2) (early _ before rfl)
    | abandon => simp [Clean, before, Stage.abandoned, Unregistered, System.footprint]
  | _ =>
    rename_i before
    exact iff_of_true (clean_of_running rfl) (early _ before rfl)

theorem clean_exclusive (progress : Progress s v.footprint v.stage) (h : Exclusive v v') :
    Clean s v' ↔ Clean s v := by
  have early : ∀ stage, v.stage = stage → stage.abandoned = false → Clean s v := by
    intro stage before running
    apply clean_of_running
    rw [before]
    exact running
  cases h with
  | started index p before =>
    rw [before] at progress
    exact progress.elim
  | unstarted index p before =>
    rw [before] at progress
    exact progress.elim
  | rollback p before => exact iff_of_true (clean_of_running rfl) (early _ before rfl)
  | abandon exit p before other =>
    rw [before] at progress
    cases exit with
    | rollback => exact absurd rfl other
    | abandon => simp [Clean, before, Stage.abandoned, Unregistered, System.footprint]
    | unload index => exact progress.elim
  | removeOwner exit p before =>
    rw [before] at progress
    cases exit with
    | rollback => exact iff_of_true (clean_of_running rfl) (early _ before rfl)
    | abandon => simp [Clean, before, Stage.abandoned, Unregistered, System.footprint]
    | unload index => exact progress.elim
  | _ =>
    rename_i before
    exact iff_of_true (clean_of_running rfl) (early _ before rfl)

variable [DecidableEq τ]

theorem Advanced.footprint {t : τ} (h : Advanced v t v') : v'.footprint = v.footprint := by
  cases h <;> rfl

theorem Progress.step {a : Action τ} (kept : Kept s) (now : Kept v)
    (progress : Progress s v.footprint v.stage) (fails : v.FailingLoad a)
    (h : v.step a = some v') : Progress s v'.footprint v'.stage := by
  cases a with
  | write t tag =>
    obtain ⟨_, rfl⟩ := written_of_write h
    exact progress
  | advance t accepted =>
    have moved := advanced_of_advance h
    rw [moved.footprint, moved.frame.stage]
    exact progress
  | operation op => exact fails.elim
  | manage reply =>
    rcases manage_cases h with step | ⟨_, step⟩
    · exact progress.local fails step
    · exact progress.exclusive kept step
  | register plugin topicPrefix pluginCtx entry =>
    obtain ⟨_, _, rfl⟩ := registered_of_register h
    exact progress.register now topicPrefix pluginCtx ⟨plugin, entry⟩ fails

theorem clean_created {reply : Reply} {p : Loaded} {thenStart : Bool}
    (progress : Progress s v.footprint v.stage) (before : v.stage = .createPlugin p thenStart)
    (h : v.manage reply = some v') :
    Clean s v' ↔ Clean s v ∧ v.AbandonsNothing (.manage reply) := by
  have early : Clean s v := by
    intro yes
    rw [before] at yes
    cases yes
  rw [before] at progress
  obtain ⟨_, new⟩ := progress
  simp only [manage, before, locksHost, Bool.false_eq_true, if_false, localStep] at h
  cases ok : reply.ok with
  | true =>
    simp only [ok, if_true, Option.some.injEq] at h
    subst h
    have passed : v.AbandonsNothing (.manage reply) := by
      simp [AbandonsNothing, before, ok]
    refine iff_of_true (fun yes => ?_) ⟨early, passed⟩
    cases yes
  | false =>
    simp only [ok, Bool.false_eq_true, if_false, Option.some.injEq] at h
    subst h
    simp [Clean, AbandonsNothing, before, ok, Stage.abandoned, Stage.creating, Unregistered,
      System.footprint, new.1, eq_comm]

theorem clean_step {a : Action τ} (progress : Progress s v.footprint v.stage)
    (fails : v.FailingLoad a) (h : v.step a = some v') :
    Clean s v' ↔ Clean s v ∧ v.AbandonsNothing a := by
  cases a with
  | write t tag =>
    obtain ⟨_, rfl⟩ := written_of_write h
    exact (and_iff_left trivial).symm
  | advance t accepted =>
    have moved := advanced_of_advance h
    rw [Clean, moved.footprint, moved.frame.stage]
    exact (and_iff_left trivial).symm
  | operation op => exact fails.elim
  | manage reply =>
    by_cases creating : ∃ p thenStart, v.stage = .createPlugin p thenStart
    · obtain ⟨p, thenStart, before⟩ := creating
      exact clean_created progress before h
    · have nothing : v.AbandonsNothing (.manage reply) := by
        cases stage : v.stage with
        | createPlugin p thenStart => exact absurd ⟨p, thenStart, stage⟩ creating
        | _ => simp [AbandonsNothing, Stage.creating, stage]
      have same : Clean s v' ↔ Clean s v := by
        have elsewhere : ∀ p thenStart, v.stage ≠ .createPlugin p thenStart :=
          fun p thenStart before => creating ⟨p, thenStart, before⟩
        rcases manage_cases h with step | ⟨_, step⟩
        · exact clean_local progress fails elsewhere step
        · exact clean_exclusive progress step
      rw [same]
      exact (and_iff_left nothing).symm
  | register plugin topicPrefix pluginCtx entry =>
    obtain ⟨_, _, rfl⟩ := registered_of_register h
    have inside : v.stage.calling = true := fails
    have early : v.stage.abandoned = false := by
      cases stage : v.stage <;> simp_all [Stage.calling, Stage.abandoned]
    simp [Clean, early, AbandonsNothing]

/-- A call of `loadLocked` that returns false leaves the plugins, the writers, the owners and the
active owner as they were and closes the library once, whatever the library does, unless its
`createPlugin` fails after a registration; then, and only then, entries stay. -/
theorem noTrace_iff (before during : List (Action τ)) (s u : System τ) (path configPath : Bytes)
    (thenStart : Bool) (run : (machine τ).run before = some s)
    (called : s.stage = .openLibrary path configPath thenStart)
    (fails : (machine τ).Steps FailingLoad s during)
    (load : (machine τ).runFrom s during = some u) (returned : u.stage = .ready) :
    NoTrace s u ↔ (machine τ).Steps AbandonsNothing s during := by
  have kept : Kept s := kept_of_run before s run
  have active : s.host.activeOwner = 0 := inactive_of_called kept called
  have start : Progress s s.footprint s.stage := progress_of_called kept called
  have fresh : Clean s s := by
    apply clean_of_running
    rw [called]
    rfl
  obtain ⟨⟨_, progress⟩, clean⟩ := (machine τ).iff_of_steps AbandonsNothing FailingLoad
    (fun v => Kept v ∧ Progress s v.footprint v.stage) (Clean s)
    (fun v a v' inv ok step => ⟨⟨inv.1.step step, inv.2.step kept inv.1 ok step⟩,
      clean_step inv.2 ok step⟩) s during u ⟨kept, start⟩ fails load
  rw [returned] at progress
  obtain ⟨given, loader, changed, closed⟩ := progress
  have empty : NoTrace s u ↔ u.host.writers = s.host.writers := by
    constructor
    · exact NoTrace.writers
    · exact changed.noTrace active closed
  have returns : Clean s u ↔ Unregistered s u.footprint := by
    rw [Clean, returned]
    simp [Stage.abandoned]
  have exact_ : Clean s u ↔ (machine τ).Steps AbandonsNothing s during :=
    clean.trans (and_iff_right fresh)
  rw [empty, ← exact_, returns]
  exact changed.writers_iff kept

end Step

/-- A load is called. -/
def loadCalled : List (Action Unit) := [.operation (.load (ascii "p.so") []), .manage {}]

/-- The plugin registers in `createPlugin` and in `init`, `init` fails. -/
def initFails : List (Action Unit) :=
  [.manage {}, .manage { info := some ⟨3, some (ascii "p")⟩ }, .manage {}, .manage {},
    .register 1 (ascii "a/") 0 0, .manage {}, .register 1 (ascii "b/") 0 1,
    .manage { ok := false }, .manage {}, .manage {}, .manage {}, .manage {}, .manage {},
    .manage {}, .manage {}]

theorem noTrace_iff_initFails : ∃ s u : System Unit, (machine Unit).run loadCalled = some s ∧
    (machine Unit).runFrom s initFails = some u ∧ s.NoTrace u := by
  have ends : (((machine Unit).run loadCalled).bind fun s =>
      ((machine Unit).runFrom s initFails).map fun u => (s.stage, u.stage)) =
        some (.openLibrary (ascii "p.so") [] false, .ready) := by rfl
  obtain ⟨s, run, rest⟩ := Option.bind_eq_some_iff.mp ends
  obtain ⟨u, load, last⟩ := Option.map_eq_some_iff.mp rest
  injection last with called returned
  have fails : (machine Unit).Steps FailingLoad s initFails := by
    obtain rfl := Option.some.inj run
    decide
  have nothing : (machine Unit).Steps AbandonsNothing s initFails := by
    obtain rfl := Option.some.inj run
    decide
  have exact_ := noTrace_iff loadCalled initFails s u _ _ _ run called fails load returned
  exact ⟨s, u, run, load, exact_.mpr nothing⟩

/-- The plugin registers in `createPlugin`, which fails. -/
def createPluginFails : List (Action Unit) :=
  [.manage {}, .manage { info := some ⟨3, some (ascii "p")⟩ }, .manage {}, .manage {},
    .register 1 (ascii "a/") 0 0, .manage { ok := false }, .manage {}, .manage {}, .manage {}]

theorem not_noTrace : ¬ ∀ (before during : List (Action Unit)) (s u : System Unit)
    (path configPath : Bytes) (thenStart : Bool), (machine Unit).run before = some s →
      s.stage = .openLibrary path configPath thenStart →
      (machine Unit).Steps FailingLoad s during → (machine Unit).runFrom s during = some u →
      u.stage = .ready → s.NoTrace u := by
  intro traceless
  have ends : (((machine Unit).run loadCalled).bind fun s =>
      ((machine Unit).runFrom s createPluginFails).map fun u =>
        (s.stage, u.stage, s.host.writers, u.host.writers)) =
        some (.openLibrary (ascii "p.so") [] false, .ready, [],
          [⟨ascii "a/", 0, ⟨1, 0⟩, 1⟩]) := by rfl
  obtain ⟨s, run, rest⟩ := Option.bind_eq_some_iff.mp ends
  obtain ⟨u, load, last⟩ := Option.map_eq_some_iff.mp rest
  obtain ⟨called, returned, empty, left⟩ : s.stage = .openLibrary (ascii "p.so") [] false ∧
      u.stage = .ready ∧ s.host.writers = [] ∧
      u.host.writers = [⟨ascii "a/", 0, ⟨1, 0⟩, 1⟩] := by simpa using last
  have fails : (machine Unit).Steps FailingLoad s createPluginFails := by
    obtain rfl := Option.some.inj run
    decide
  have none := traceless loadCalled createPluginFails s u _ _ _ run called fails load returned
  have same : u.host.writers = s.host.writers := none.writers
  rw [left, empty] at same
  cases same

end System

end IndustrialRuntime.Core.PluginManager
