import IndustrialRuntime.Core.ManagerRuns

namespace IndustrialRuntime.Core

namespace PluginHost

/-- No registration has the prefix yet. -/
def Accepts (h : PluginHost) (topicPrefix : Bytes) : Prop :=
  ∀ reg ∈ h.writers, reg.topicPrefix ≠ topicPrefix

instance decidableAccepts (h : PluginHost) (topicPrefix : Bytes) :
    Decidable (h.Accepts topicPrefix) :=
  inferInstanceAs (Decidable (∀ reg ∈ h.writers, reg.topicPrefix ≠ topicPrefix))

variable (h : PluginHost) (topicPrefix : Bytes) (pluginCtx : Nat) (handler : Handler)

theorem registerWriter_refused (refused : ¬ h.Accepts topicPrefix) :
    h.registerWriter topicPrefix pluginCtx handler = h := by
  have present : h.writers.any (fun reg => reg.topicPrefix == topicPrefix) = true := by
    simpa [Accepts] using refused
  rw [registerWriter, if_pos present]

theorem registerWriter_accepted (accepted : h.Accepts topicPrefix) :
    (h.registerWriter topicPrefix pluginCtx handler).writers =
      h.writers ++ [⟨topicPrefix, pluginCtx, handler, h.registrant⟩] := by
  have absent : ¬ h.writers.any (fun reg => reg.topicPrefix == topicPrefix) = true := by
    simpa [Accepts] using accepted
  rw [registerWriter, if_neg absent]

end PluginHost

namespace PluginManager

/-- The plugin whose registrations have been revoked and whose library is still open. -/
def Stage.revoked : Stage → Option Loaded
  | .wait _ p | .poll _ p | .stopUnload _ p => some p
  | .destroy exit p | .deactivate exit p =>
    match exit with
    | .unload _ => some p
    | _ => none
  | .removeOwner exit p | .closeLibrary exit p =>
    match exit with
    | .abandon => none
    | _ => some p
  | _ => none

/-- The plugin that has returned from `destroy`, or from the `createPlugin` that failed. -/
def Stage.departed : Stage → Option Loaded
  | .deactivate _ p | .removeOwner _ p | .closeLibrary _ p => some p
  | .retire exit p | .wait exit p | .poll exit p =>
    match exit with
    | .unload _ => none
    | _ => some p
  | _ => none

theorem Stage.bracket_of_revoked {stage : Stage} {p : Loaded} (revoked : stage.revoked = some p) :
    stage.bracket = none := by
  cases stage with
  | destroy exit q => cases exit <;> simp_all [Stage.revoked, Stage.bracket]
  | deactivate exit q => cases exit <;> simp_all [Stage.revoked, Stage.bracket]
  | _ => simp_all [Stage.revoked, Stage.bracket]

namespace System

variable {τ : Type*}

/-- An accepted `register_writer` call is made by the plugin between whose
`setActiveOwner(owner)` and `setActiveOwner(0)` the managing thread is. -/
def RegistersBracketed (s : System τ) : Action τ → Prop
  | .register plugin topicPrefix _ _ =>
    s.host.Accepts topicPrefix → s.stage.bracket.map Loaded.owner = some plugin
  | _ => True

instance decidableRegistersBracketed (s : System τ) (a : Action τ) :
    Decidable (s.RegistersBracketed a) :=
  match a with
  | .register plugin topicPrefix _ _ => inferInstanceAs
      (Decidable (s.host.Accepts topicPrefix → s.stage.bracket.map Loaded.owner = some plugin))
  | .write .. | .advance .. | .operation _ | .manage _ => isTrue trivial

/-- Registrations belong to the plugin whose code they point into, and a plugin that has left
can register no more. -/
structure Attribution (s : System τ) : Prop where
  regs : ∀ reg ∈ s.host.writers, reg.owner = reg.handler.plugin
  revoked : ∀ p, s.stage.revoked = some p → ∀ reg ∈ s.host.writers, reg.owner ≠ p.owner
  departed : ∀ p, s.stage.departed = some p → p.owner < s.host.nextOwner ∧ p.owner ∉ s.live
  live : ∀ o ∈ s.live, 0 < o

theorem attribution_initial : Attribution (initial : System τ) where
  regs reg found := by simp [initial, PluginHost.initial] at found
  revoked p found := by simp [initial, Stage.revoked] at found
  departed p found := by simp [initial, Stage.departed] at found
  live o found := by simp [initial] at found

/-- A step that adds no registration and brings no plugin to life. -/
theorem Attribution.keep {s s' : System τ} (inv : Attribution s)
    (writers : s'.host.writers ⊆ s.host.writers) (live : s'.live ⊆ s.live)
    (nextOwner : s'.host.nextOwner = s.host.nextOwner)
    (revoked : ∀ p, s'.stage.revoked = some p → s.stage.revoked = some p ∨
      ∀ reg ∈ s'.host.writers, reg.owner ≠ p.owner)
    (departed : ∀ p, s'.stage.departed = some p → s.stage.departed = some p ∨
      (p.owner < s.host.nextOwner ∧ p.owner ∉ s'.live)) : Attribution s' where
  regs reg found := inv.regs reg (writers found)
  revoked p found reg registered := by
    rcases revoked p found with old | clear
    · exact inv.revoked p old reg (writers registered)
    · exact clear reg registered
  departed p found := by
    rw [nextOwner]
    rcases departed p found with old | now
    · obtain ⟨below, dead⟩ := inv.departed p old
      exact ⟨below, fun member => dead (live member)⟩
    · exact now
  live o found := inv.live o (live found)

/-- A step from one stage to the next of the same routine. -/
theorem Attribution.next {s s' : System τ} (inv : Attribution s) (host : s'.host = s.host)
    (live : s'.live = s.live)
    (revoked : s'.stage.revoked = none ∨ s'.stage.revoked = s.stage.revoked)
    (departed : s'.stage.departed = none ∨ s'.stage.departed = s.stage.departed) :
    Attribution s' := by
  refine inv.keep (by rw [host]; exact List.Subset.refl _) (by rw [live]; exact List.Subset.refl _)
    (by rw [host]) (fun p found => ?_) (fun p found => ?_)
  · rcases revoked with none | same
    · simp [none] at found
    · exact .inl (same ▸ found)
  · rcases departed with none | same
    · simp [none] at found
    · exact .inl (same ▸ found)

/-- The plugin returns from its last callback. -/
theorem Attribution.leave {s s' : System τ} (inv : Attribution s) (p : Loaded)
    (host : s'.host = s.host) (live : s'.live = s.live.filter (· ≠ p.owner))
    (below : p.owner < s.host.nextOwner)
    (revoked : s'.stage.revoked = none ∨ s'.stage.revoked = s.stage.revoked)
    (departed : s'.stage.departed = some p) : Attribution s' := by
  refine inv.keep (by rw [host]; exact List.Subset.refl _)
    (by rw [live]; exact List.filter_subset_self _) (by rw [host]) (fun q found => ?_)
    (fun q found => ?_)
  · rcases revoked with none | same
    · simp [none] at found
    · exact .inl (same ▸ found)
  · obtain rfl : p = q := Option.some.inj (departed.symm.trans found)
    refine .inr ⟨below, fun member => ?_⟩
    rw [live] at member
    simpa using (List.mem_filter.mp member).2

theorem Attribution.quiescent {s : System τ} (inv : Attribution s) (exit : Exit) (p : Loaded)
    (before : s.stage = .wait exit p ∨ s.stage = .poll exit p) :
    Attribution (s.quiescent exit p) := by
  have revoked : s.stage.revoked = some p := by
    rcases before with h | h <;> rw [h] <;> rfl
  cases exit with
  | unload index =>
    have still := s.quiescent_stage (.unload index) p Stage.revoked (some p)
      (fun _ _ => ⟨rfl, rfl⟩) (fun _ => rfl)
    have alive := s.quiescent_stage (.unload index) p Stage.departed none
      (fun _ _ => ⟨rfl, rfl⟩) (fun load => absurd rfl (load index))
    exact inv.next rfl rfl (.inr (still.trans revoked.symm)) (.inl alive)
  | abandon =>
    refine inv.next rfl rfl (.inl rfl) (.inr ?_)
    rcases before with h | h <;> rw [h] <;> rfl
  | rollback =>
    refine inv.next rfl rfl (.inr revoked.symm) (.inr ?_)
    rcases before with h | h <;> rw [h] <;> rfl

theorem Attribution.local {s s' : System τ} (inv : Attribution s) (owners : Owners s)
    (h : Local s s') : Attribution s' := by
  cases h with
  | taken s' before taken =>
    cases taken with
    | done jobs => exact inv.next rfl rfl (.inr rfl) (.inr rfl)
    | _ => exact inv.next rfl rfl (.inl rfl) (.inl rfl)
  | uncreated p thenStart before =>
    have below := (owners.loading p (by rw [before]; rfl)).2.1
    exact inv.leave p rfl rfl below (.inl rfl) rfl
  | waiting exit p before =>
    exact inv.next rfl rfl (.inr (by rw [before]; rfl)) (.inr (by rw [before]; rfl))
  | unknown exit p before => exact inv.quiescent exit p (.inl before)
  | yielded exit p before => exact inv
  | drained exit p before => exact inv.quiescent exit p (.inr before)
  | stoppedUnload index p ok before =>
    exact inv.next rfl rfl (.inr (by rw [before]; rfl)) (.inl rfl)
  | destroyed index p ok before =>
    have place := owners.entry index p.owner (by rw [before]; rfl)
    have below := (owners.given p.owner (List.mem_of_getElem? place)).2
    exact inv.leave p rfl rfl below (.inr (by rw [before]; rfl)) rfl
  | rolledBack exit p ok before loading =>
    cases exit with
    | unload index => exact absurd rfl (loading index)
    | _ =>
      have below := (owners.loading p (by rw [before]; rfl)).2.1
      exact inv.leave p rfl rfl below (.inl rfl) rfl
  | _ => exact inv.next rfl rfl (.inl rfl) (.inl rfl)

theorem Attribution.exclusive {s s' : System τ} (inv : Attribution s) (owners : Owners s)
    (h : Exclusive s s') : Attribution s' := by
  cases h with
  | createOwner handle id path configPath thenStart before =>
    refine ⟨inv.regs, by simp [Stage.revoked], by simp [Stage.departed], inv.live⟩
  | activateLoad p thenStart before =>
    have positive := (owners.loading p (by rw [before]; rfl)).1
    refine ⟨inv.regs, by simp [Stage.revoked], by simp [Stage.departed], fun o found => ?_⟩
    rcases List.mem_cons.mp found with rfl | old
    · exact positive
    · exact inv.live o old
  | rollback p before =>
    refine inv.keep (List.Subset.refl _) (List.Subset.refl _) rfl (by simp [Stage.revoked])
      (fun q found => .inl ?_)
    rw [before]
    exact found
  | abandon exit p before other =>
    refine inv.keep (List.Subset.refl _) (List.Subset.refl _) rfl (fun q found => ?_)
      (fun q found => .inl ?_)
    · rw [before]
      cases exit with
      | rollback => exact absurd rfl other
      | abandon => simp [Stage.revoked] at found
      | unload index => exact .inl found
    · rw [before]
      exact found
  | retire exit p before =>
    obtain ⟨nonzero, known⟩ := owners.retiring exit p (.inl before)
    refine inv.keep (PluginHost.retireOwner_subset _ _) (List.Subset.refl _)
      (PluginHost.retireOwner_nextOwner _ _) (fun q found => .inr ?_) (fun q found => .inl ?_)
    · obtain rfl : p = q := by simpa [Stage.revoked] using found
      exact PluginHost.retireOwner_clears s.host p.owner nonzero known
    · rw [before]
      exact found
  | removeOwner exit p before =>
    refine inv.keep (by simp) (List.Subset.refl _) (PluginHost.removeOwner_nextOwner _ _)
      (fun q found => .inl ?_) (fun q found => .inl ?_)
    · rw [before]
      exact found
    · rw [before]
      exact found
  | _ =>
    exact inv.keep (List.Subset.refl _) (List.Subset.refl _) rfl (by simp [Stage.revoked])
      (by simp [Stage.departed])

/-- The entry of an accepted call is the caller's own if and only if the caller is the plugin
between whose brackets the manager is. -/
theorem own_iff {s : System τ} (kept : Kept s) (positive : ∀ o ∈ s.live, 0 < o) (plugin : OwnerId)
    (live : plugin ∈ s.live) :
    s.host.registrant = plugin ↔ s.stage.bracket.map Loaded.owner = some plugin := by
  rw [kept.givenOut.registrant kept.owners]
  cases bracket : s.stage.bracket with
  | none =>
    rw [s.bracketOwner_none bracket]
    have nonzero : plugin ≠ 0 := Nat.ne_of_gt (positive plugin live)
    simp [nonzero.symm]
  | some p =>
    rw [s.bracketOwner_some p bracket]
    simp

theorem Attribution.register {s : System τ} {plugin : OwnerId} {topicPrefix : Bytes}
    {pluginCtx entry : Nat} (inv : Attribution s) (kept : Kept s) (live : plugin ∈ s.live)
    (bracketed : s.RegistersBracketed (.register plugin topicPrefix pluginCtx entry)) :
    Attribution { s with
      host := s.host.registerWriter topicPrefix pluginCtx ⟨plugin, entry⟩ } := by
  by_cases accepted : s.host.Accepts topicPrefix
  · have inside : s.stage.bracket.map Loaded.owner = some plugin := bracketed accepted
    have own : s.host.registrant = plugin := (own_iff kept inv.live plugin live).mpr inside
    have regs : ∀ reg ∈ (s.host.registerWriter topicPrefix pluginCtx ⟨plugin, entry⟩).writers,
        reg.owner = reg.handler.plugin := by
      intro reg found
      rcases PluginHost.mem_registerWriter s.host topicPrefix pluginCtx _ reg found with old | rfl
      · exact inv.regs reg old
      · exact own
    refine ⟨regs, fun p revoked => ?_, fun p departed => ?_, inv.live⟩
    · rw [Stage.bracket_of_revoked revoked] at inside
      simp at inside
    · rw [PluginHost.registerWriter_nextOwner]
      exact inv.departed p departed
  · rw [PluginHost.registerWriter_refused _ _ _ _ accepted]
    exact inv

theorem Attribution.aside {s s' : System τ} (inv : Attribution s) (same : Frame s s')
    (live : s'.live = s.live) : Attribution s' := by
  have writers : s'.host.writers ⊆ s.host.writers := by
    rw [same.writers]
    exact List.Subset.refl _
  have alive : s'.live ⊆ s.live := by
    rw [live]
    exact List.Subset.refl _
  apply inv.keep writers alive same.nextOwner
  · intro p found
    rw [same.stage] at found
    exact .inl found
  · intro p found
    rw [same.stage] at found
    exact .inl found

/-- A plugin that has left and into whose code no entry points. -/
structure Gone (s : System τ) (o : OwnerId) : Prop where
  below : o < s.host.nextOwner
  dead : o ∉ s.live
  elsewhere : ∀ p thenStart, s.stage = .activateLoad p thenStart → p.owner ≠ o
  regs : ∀ reg ∈ s.host.writers, reg.handler.plugin ≠ o

theorem Local.live {s s' : System τ} (h : Local s s') : s'.live ⊆ s.live := by
  cases h with
  | taken _ _ taken => cases taken <;> exact List.Subset.refl _
  | uncreated p thenStart => exact List.filter_subset_self _
  | unknown exit p => cases exit <;> exact List.Subset.refl _
  | drained exit p => cases exit <;> exact List.Subset.refl _
  | destroyed index p => exact List.filter_subset_self _
  | rolledBack exit p => exact List.filter_subset_self _
  | _ => exact List.Subset.refl _

/-- A plugin comes to life only as the owner that was just given out. -/
theorem Local.activateLoad {s s' : System τ} (h : Local s s') (p : Loaded) (thenStart : Bool)
    (after : s'.stage = .activateLoad p thenStart) : s.stage = .activateLoad p thenStart := by
  have joining : s'.stage.joining = some p := by rw [after]; rfl
  cases h with
  | taken _ before taken => cases taken <;> simp_all
  | unknown exit q => simp [s.quiescent_joining exit q] at joining
  | yielded exit q => exact after
  | drained exit q => simp [s.quiescent_joining exit q] at joining
  | rolledBack exit q ok before loading => cases after
  | _ => cases after

theorem Gone.local {s s' : System τ} {o : OwnerId} (gone : s.Gone o) (h : Local s s') :
    s'.Gone o := by
  obtain ⟨host, _, _⟩ := h.same
  have below : o < s'.host.nextOwner := by
    rw [host]
    exact gone.below
  have dead : o ∉ s'.live := fun member => gone.dead (h.live member)
  have elsewhere : ∀ p thenStart, s'.stage = .activateLoad p thenStart → p.owner ≠ o :=
    fun p thenStart after => gone.elsewhere p thenStart (h.activateLoad p thenStart after)
  have regs : ∀ reg ∈ s'.host.writers, reg.handler.plugin ≠ o := by
    rw [host]
    exact gone.regs
  exact ⟨below, dead, elsewhere, regs⟩

theorem Gone.exclusive {s s' : System τ} {o : OwnerId} (gone : s.Gone o) (h : Exclusive s s') :
    s'.Gone o := by
  have writers : s'.host.writers ⊆ s.host.writers := h.same.2.2.2
  have regs : ∀ reg ∈ s'.host.writers, reg.handler.plugin ≠ o :=
    fun reg found => gone.regs reg (writers found)
  cases h with
  | createOwner handle id path configPath thenStart before =>
    refine ⟨Nat.lt_succ_of_lt gone.below, gone.dead, fun p then_ after => ?_, regs⟩
    obtain ⟨rfl, _⟩ := Stage.activateLoad.inj after
    exact Nat.ne_of_gt gone.below
  | activateLoad p thenStart before =>
    have dead : o ∉ p.owner :: s.live := by
      intro member
      rcases List.mem_cons.mp member with own | old
      · exact gone.elsewhere p thenStart before own.symm
      · exact gone.dead old
    exact ⟨gone.below, dead, fun q then_ after => (by cases after), regs⟩
  | retire exit p before =>
    have below : o < (s.host.retireOwner p.owner).nextOwner := by
      rw [PluginHost.retireOwner_nextOwner]
      exact gone.below
    exact ⟨below, gone.dead, fun q then_ after => (by cases after), regs⟩
  | removeOwner exit p before =>
    have below : o < (s.host.removeOwner p.owner).nextOwner := by
      rw [PluginHost.removeOwner_nextOwner]
      exact gone.below
    exact ⟨below, gone.dead, fun q then_ after => (by cases after), regs⟩
  | _ => exact ⟨gone.below, gone.dead, fun q then_ after => (by cases after), regs⟩

variable [DecidableEq τ]

theorem Attribution.step {s s' : System τ} {a : Action τ} (inv : Attribution s) (kept : Kept s)
    (bracketed : s.RegistersBracketed a) (h : s.step a = some s') : Attribution s' := by
  cases stepped_of_step h with
  | aside _ _ same live => exact inv.aside same live
  | managed _ _ step => exact inv.local kept.owners step
  | locked _ _ _ step => exact inv.exclusive kept.owners step
  | registered plugin topicPrefix pluginCtx entry live =>
    exact inv.register kept live bracketed

/-- Nobody ever registers for a plugin that has left. -/
theorem Gone.step {s s' : System τ} {a : Action τ} {o : OwnerId} (gone : s.Gone o)
    (h : s.step a = some s') : s'.Gone o := by
  cases stepped_of_step h with
  | aside _ _ same live =>
    constructor
    · rw [same.nextOwner]
      exact gone.below
    · rw [live]
      exact gone.dead
    · rw [same.stage]
      exact gone.elsewhere
    · rw [same.writers]
      exact gone.regs
  | managed _ _ step => exact gone.local step
  | locked _ _ _ step => exact gone.exclusive step
  | registered plugin topicPrefix pluginCtx entry live =>
    have below : o < (s.host.registerWriter topicPrefix pluginCtx ⟨plugin, entry⟩).nextOwner := by
      rw [PluginHost.registerWriter_nextOwner]
      exact gone.below
    refine ⟨below, gone.dead, gone.elsewhere, fun reg found => ?_⟩
    rcases PluginHost.mem_registerWriter s.host topicPrefix pluginCtx _ reg found with old | rfl
    · exact gone.regs reg old
    · intro own
      exact gone.dead (own ▸ live)

theorem Gone.run {s u : System τ} {o : OwnerId} (gone : s.Gone o) (as : List (Action τ))
    (run : (machine τ).runFrom s as = some u) : u.Gone o :=
  (machine τ).invariant_of_steps (fun _ _ => True) (fun v => v.Gone o)
    (fun _ _ _ gone _ step => gone.step step) s as u gone
    ((machine τ).steps_of_forall _ (fun _ _ => trivial) _ _) run

/-- No entry of the writer table points into the plugin's code, now or later. -/
def NeverPointedInto (s : System τ) (o : OwnerId) : Prop :=
  ∀ (after : List (Action τ)) (u : System τ), (machine τ).runFrom s after = some u →
    ∀ reg ∈ u.host.writers, reg.handler.plugin ≠ o

/-- What ownership of the registrations is for: every entry belongs to the plugin that made it,
none is removed but by the retirement of that plugin, and none points into a library that is
closed. A library whose `createPlugin` failed counts if that call registered nothing. -/
structure WritersOwned (s : System τ) : Prop where
  owner : ∀ reg ∈ s.host.writers, reg.owner = reg.handler.plugin
  others : ∀ a s', s.step a = some s' → ∀ reg ∈ s.host.writers, reg ∉ s'.host.writers →
    ∃ exit p, s.stage = .retire exit p ∧ reg.handler.plugin = p.owner
  closed : ∀ exit p, s.stage = .closeLibrary exit p →
    exit ≠ .abandon ∨ (∀ reg ∈ s.host.writers, reg.owner ≠ p.owner) →
    s.NeverPointedInto p.owner

/-- A step that removes a registration retires the owner of the registration. -/
theorem removed_of_step {s s' : System τ} {a : Action τ} (h : s.step a = some s')
    (reg : WriteReg) (registered : reg ∈ s.host.writers) (removed : reg ∉ s'.host.writers) :
    ∃ exit p, s.stage = .retire exit p ∧ reg.owner = p.owner := by
  have unchanged : s'.host.writers = s.host.writers →
      ∃ exit p, s.stage = .retire exit p ∧ reg.owner = p.owner := by
    intro same
    rw [same] at removed
    exact absurd registered removed
  cases stepped_of_step h with
  | aside _ _ same => exact unchanged same.writers
  | managed _ _ step => exact unchanged (by rw [step.same.1])
  | locked _ _ _ step =>
    cases step with
    | retire exit p before =>
      refine ⟨exit, p, before, ?_⟩
      by_contra other
      have kept : reg ∈ (s.host.retireOwner p.owner).writers := by
        rw [PluginHost.retireOwner]
        split_ifs
        · exact registered
        · exact List.mem_filter.mpr ⟨registered, by simpa using other⟩
        · exact registered
      exact removed kept
    | removeOwner exit p before => exact unchanged (PluginHost.removeOwner_writers _ _)
    | _ => exact unchanged rfl
  | registered plugin topicPrefix pluginCtx entry =>
    by_cases accepted : s.host.Accepts topicPrefix
    · apply absurd _ removed
      rw [PluginHost.registerWriter_accepted _ _ _ _ accepted]
      exact List.mem_append_left _ registered
    · exact unchanged (by rw [PluginHost.registerWriter_refused _ _ _ _ accepted])

theorem Attribution.writersOwned {s : System τ} (inv : Attribution s) : s.WritersOwned where
  owner := inv.regs
  others a s' step reg registered removed := by
    obtain ⟨exit, p, stage, own⟩ := removed_of_step step reg registered removed
    exact ⟨exit, p, stage, (inv.regs reg registered).symm.trans own⟩
  closed exit p stage clean after u run := by
    obtain ⟨below, dead⟩ := inv.departed p (by rw [stage]; rfl)
    have clear : ∀ reg ∈ s.host.writers, reg.owner ≠ p.owner := by
      rcases clean with other | clear
      · apply inv.revoked p
        rw [stage]
        cases exit with
        | abandon => exact absurd rfl other
        | _ => rfl
      · exact clear
    have gone : s.Gone p.owner := by
      refine ⟨below, dead, fun q thenStart activating => ?_, fun reg found => ?_⟩
      · rw [stage] at activating
        cases activating
      · rw [← inv.regs reg found]
        exact clear reg found
    exact (gone.run after run).regs

/-- If every accepted `register_writer` call of a run is made by the plugin between whose
`setActiveOwner(owner)` and `setActiveOwner(0)` the manager is, ownership holds in the state
reached; and a further call keeps the entries with their makers only if it is made so too. -/
theorem writersOwned_of_bracketed (as : List (Action τ)) (s : System τ)
    (bracketed : (machine τ).Steps RegistersBracketed initial as)
    (run : (machine τ).run as = some s) :
    s.WritersOwned ∧
      ∀ plugin topicPrefix pluginCtx entry s',
        s.step (.register plugin topicPrefix pluginCtx entry) = some s' →
          ((∀ reg ∈ s'.host.writers, reg.owner = reg.handler.plugin) ↔
            s.RegistersBracketed (.register plugin topicPrefix pluginCtx entry)) := by
  have both : Kept s ∧ Attribution s := (machine τ).invariant_of_steps RegistersBracketed
    (fun v => Kept v ∧ Attribution v)
    (fun _ _ _ inv ok step => ⟨inv.1.step step, inv.2.step inv.1 ok step⟩) initial as s
    ⟨kept_initial, attribution_initial⟩ bracketed run
  obtain ⟨kept, inv⟩ := both
  refine ⟨inv.writersOwned, fun plugin topicPrefix pluginCtx entry s' step => ?_⟩
  constructor
  · intro owned accepted
    obtain ⟨live, _, rfl⟩ := registered_of_register step
    apply (own_iff kept inv.live plugin live).mp
    apply owned ⟨topicPrefix, pluginCtx, ⟨plugin, entry⟩, s.host.registrant⟩
    rw [PluginHost.registerWriter_accepted _ _ _ _ accepted]
    exact List.mem_append_right _ (List.mem_singleton_self _)
  · intro inside
    exact (inv.step kept inside step).regs

/-- A plugin registers in `init` and in `start`, offers a prefix again later, and is unloaded. -/
def registeredInCallbacks : List (Action Unit) :=
  [.operation (.load (ascii "p.so") []), .manage {}, .manage {},
    .manage { info := some ⟨3, some (ascii "p")⟩ }, .manage {}, .manage {}, .manage {},
    .register 1 (ascii "a/") 0 0, .manage {}, .manage {}, .manage {}, .operation .startAll,
    .manage {}, .manage {}, .register 1 (ascii "b/") 0 1, .manage {}, .manage {},
    .register 1 (ascii "a/") 0 2, .operation (.unload (ascii "p")), .manage {}, .manage {},
    .manage {}, .manage {}, .manage {}, .manage {}, .manage {}]

theorem writersOwned_of_bracketed_registeredInCallbacks : ∃ s : System Unit,
    (machine Unit).run registeredInCallbacks = some s ∧
      s.stage = .closeLibrary (.unload 0) ⟨0, some (ascii "p"), true, ascii "p.so", [], 1⟩ ∧
      s.WritersOwned := by
  have ends : ((machine Unit).run registeredInCallbacks).map System.stage =
      some (.closeLibrary (.unload 0) ⟨0, some (ascii "p"), true, ascii "p.so", [], 1⟩) := by rfl
  obtain ⟨s, run, stage⟩ := Option.map_eq_some_iff.mp ends
  have bracketed : (machine Unit).Steps RegistersBracketed initial registeredInCallbacks := by
    decide
  exact ⟨s, run, stage, (writersOwned_of_bracketed registeredInCallbacks s bracketed run).1⟩

/-- A plugin registers from a thread of its own after it was loaded, and is unloaded. -/
def registeredLater : List (Action Unit) :=
  [.operation (.load (ascii "p.so") []), .manage {}, .manage {},
    .manage { info := some ⟨3, some (ascii "p")⟩ }, .manage {}, .manage {}, .manage {},
    .manage {}, .manage {}, .manage {}, .register 1 (ascii "a/") 0 0,
    .operation (.unload (ascii "p")), .manage {}, .manage {}, .manage {}, .manage {}, .manage {},
    .manage {}]

theorem not_writersOwned :
    ¬ ∀ (as : List (Action Unit)) (s : System Unit), (machine Unit).run as = some s →
      s.WritersOwned := by
  intro owned
  have ends : (((machine Unit).run registeredLater).bind fun s =>
      ((machine Unit).runFrom s [.manage {}]).map fun u => (s.stage, u.host.writers)) =
        some (.closeLibrary (.unload 0) ⟨0, some (ascii "p"), false, ascii "p.so", [], 1⟩,
          [⟨ascii "a/", 0, ⟨1, 0⟩, 0⟩]) := by rfl
  obtain ⟨s, run, rest⟩ := Option.bind_eq_some_iff.mp ends
  obtain ⟨u, closing, last⟩ := Option.map_eq_some_iff.mp rest
  injection last with stage writers
  have never := (owned registeredLater s run).closed _ _ stage (.inl Exit.noConfusion)
  apply never [.manage {}] u closing ⟨ascii "a/", 0, ⟨1, 0⟩, 0⟩
  · rw [writers]
    exact List.mem_singleton_self _
  · rfl

end System

end PluginManager

end IndustrialRuntime.Core
