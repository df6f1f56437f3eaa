import IndustrialRuntime.Core.ManagerRuns

namespace IndustrialRuntime.Core.PluginManager

/-- The plugin whose `createPlugin`, `init` or `start` the managing thread is inside. -/
def Stage.runs : Stage → Option OwnerId
  | .createPlugin p _ | .init p _ | .start _ p => some p.owner
  | _ => none

/-- The owner that is retired and not yet drained. -/
def Stage.draining : Stage → Option OwnerId
  | .wait _ p | .poll _ p => some p.owner
  | _ => none

namespace System

variable {τ : Type*}

/-- Plugins call `register_writer` only on the managing thread, inside their own
`createPlugin`, `init` or `start`. -/
def RegistersInside (s : System τ) : Action τ → Prop
  | .register plugin _ _ _ => s.stage.runs = some plugin
  | _ => True

instance (s : System τ) (a : Action τ) : Decidable (s.RegistersInside a) :=
  match a with
  | .register plugin _ _ _ => inferInstanceAs (Decidable (s.stage.runs = some plugin))
  | .write .. | .advance .. | .operation _ | .manage _ => isTrue trivial

/-- No thread has selected a handler of the owner, or is inside one. -/
def Free (s : System τ) (o : OwnerId) : Prop :=
  ∀ t reg, (s.writer t).target = some reg → reg.owner ≠ o ∧ reg.handler.plugin ≠ o

/-- Registrations belong to the plugin whose code they point into, and nothing is left of a
retired owner. -/
structure Attributed (s : System τ) : Prop where
  active : ∀ o, s.stage.runs = some o → s.host.activeOwner = o
  regs : ∀ reg ∈ s.host.writers, reg.owner = reg.handler.plugin
  held : ∀ t reg, (s.writer t).target = some reg → reg.owner = reg.handler.plugin
  draining : ∀ o, s.stage.draining = some o → ∀ reg ∈ s.host.writers, reg.owner ≠ o
  unregistered : ∀ o ∈ s.quiesced, ∀ reg ∈ s.host.writers, reg.owner ≠ o
  unselected : ∀ o ∈ s.quiesced, ∀ t reg, (s.writer t).target = some reg → reg.owner ≠ o

theorem attributed_initial : Attributed (initial : System τ) where
  active o found := by simp [initial, Stage.runs] at found
  regs reg found := by simp [initial, PluginHost.initial] at found
  held t reg found := by simp [initial, WritePc.target] at found
  draining o found := by simp [initial, Stage.draining] at found
  unregistered o found := by simp [initial] at found
  unselected o found := by simp [initial] at found

theorem Attributed.free {s : System τ} (inv : Attributed s) (o : OwnerId) (found : o ∈ s.quiesced) :
    s.Free o := by
  intro t reg target
  have other : reg.owner ≠ o := inv.unselected o found t reg target
  rw [← inv.held t reg target]
  exact ⟨other, other⟩

/-- A plugin inside one of its callbacks is known to the host and not quiesced. -/
theorem Owners.runs {s : System τ} (inv : Owners s) (o : OwnerId) (runs : s.stage.runs = some o) :
    o ∈ s.host.owners ∧ o ∉ s.quiesced := by
  cases stage : s.stage with
  | createPlugin p thenStart =>
    obtain rfl : p.owner = o := by simpa [stage, Stage.runs] using runs
    obtain ⟨_, _, known, fresh, _⟩ := inv.loading p (by rw [stage]; rfl)
    exact ⟨known, fresh⟩
  | init p thenStart =>
    obtain rfl : p.owner = o := by simpa [stage, Stage.runs] using runs
    obtain ⟨_, _, known, fresh, _⟩ := inv.loading p (by rw [stage]; rfl)
    exact ⟨known, fresh⟩
  | start index p =>
    obtain rfl : p.owner = o := by simpa [stage, Stage.runs] using runs
    have place := inv.entry index p.owner (by rw [stage]; rfl)
    exact inv.table p.owner (List.mem_of_getElem? place) (by simp [stage, Stage.unloading])
  | _ => simp [stage, Stage.runs] at runs

/-- A step that adds no registration, selects none and quiesces no owner. -/
theorem Attributed.keep {s s' : System τ} (inv : Attributed s)
    (writers : s'.host.writers ⊆ s.host.writers)
    (target : ∀ t reg, (s'.writer t).target = some reg →
      (s.writer t).target = some reg ∨ reg ∈ s.host.writers)
    (quiesced : s'.quiesced = s.quiesced)
    (active : ∀ o, s'.stage.runs = some o → s'.host.activeOwner = o)
    (draining : ∀ o, s'.stage.draining = some o → ∀ reg ∈ s'.host.writers, reg.owner ≠ o) :
    Attributed s' where
  active := active
  regs reg found := inv.regs reg (writers found)
  held t reg found := by
    rcases target t reg found with held | registered
    · exact inv.held t reg held
    · exact inv.regs reg registered
  draining := draining
  unregistered o retired reg found := by
    rw [quiesced] at retired
    exact inv.unregistered o retired reg (writers found)
  unselected o retired t reg found := by
    rw [quiesced] at retired
    rcases target t reg found with held | registered
    · exact inv.unselected o retired t reg held
    · exact inv.unregistered o retired reg registered

/-- The end of `waitQuiescent` in `unloadLocked`: the owner counts no thread, and no thread
that holds the lock can have selected it. -/
theorem Attributed.quiesce {s s' : System τ} (inv : Attributed s) (threads : Threads s)
    (owner : OwnerId) (draining : s.stage.draining = some owner)
    (drained : ¬ 0 < s.host.inflight owner) (host : s'.host = s.host)
    (writer : s'.writer = s.writer) (runs : s'.stage.runs = none)
    (drains : s'.stage.draining = none) (quiesced : s'.quiesced = owner :: s.quiesced) :
    Attributed s' where
  active o found := by simp [runs] at found
  regs := by rw [host]; exact inv.regs
  held := by rw [writer]; exact inv.held
  draining o found := by simp [drains] at found
  unregistered o retired reg found := by
    rw [host] at found
    rw [quiesced] at retired
    rcases List.mem_cons.mp retired with rfl | old
    · exact inv.draining o draining reg found
    · exact inv.unregistered o old reg found
  unselected o retired t reg found := by
    rw [writer] at found
    rw [quiesced] at retired
    rcases List.mem_cons.mp retired with rfl | old
    · intro own
      have counted : (s.writer t).counted ≠ some o := (threads.counted o).drained drained t
      cases pc : s.writer t with
      | increment tag reg' =>
        obtain rfl : reg' = reg := by simpa [pc, WritePc.target] using found
        exact inv.draining o draining reg' (threads.selected t tag reg' pc) own
      | unlock tag selected =>
        obtain rfl : selected = some reg := by simpa [pc, WritePc.target] using found
        simp [pc, WritePc.counted, own] at counted
      | call tag reg' =>
        obtain rfl : reg' = reg := by simpa [pc, WritePc.target] using found
        simp [pc, WritePc.counted, own] at counted
      | handling tag reg' =>
        obtain rfl : reg' = reg := by simpa [pc, WritePc.target] using found
        simp [pc, WritePc.counted, own] at counted
      | _ => simp [pc, WritePc.target] at found
    · exact inv.unselected o old t reg found

theorem Attributed.quiescent {s : System τ} (inv : Attributed s) (threads : Threads s)
    (exit : Exit) (p : Loaded) (draining : s.stage.draining = some p.owner)
    (drained : ¬ 0 < s.host.inflight p.owner) : Attributed (s.quiescent exit p) := by
  cases exit with
  | unload index =>
    have runs := s.quiescent_stage (.unload index) p Stage.runs none (fun _ _ => ⟨rfl, rfl⟩)
      (fun _ => rfl)
    have drains := s.quiescent_stage (.unload index) p Stage.draining none
      (fun _ _ => ⟨rfl, rfl⟩) (fun _ => rfl)
    exact inv.quiesce threads p.owner draining drained rfl rfl runs drains rfl
  | _ =>
    exact inv.keep (List.Subset.refl _) (fun t reg found => .inl found) rfl
      (by simp [System.quiescent, Stage.runs]) (by simp [System.quiescent, Stage.draining])

/-- A step without the exclusive lock that enters no callback and no wait by itself. -/
theorem Attributed.next {s s' : System τ} (inv : Attributed s) (host : s'.host = s.host)
    (writer : s'.writer = s.writer) (quiesced : s'.quiesced = s.quiesced)
    (runs : s'.stage.runs = none ∨ s'.stage.runs = s.stage.runs)
    (draining : s'.stage.draining = none ∨ s'.stage.draining = s.stage.draining) :
    Attributed s' := by
  refine inv.keep (by rw [host]; exact List.Subset.refl _)
    (fun t reg found => .inl (by rwa [writer] at found)) quiesced (fun o found => ?_)
    (fun o found => ?_)
  · rw [host]
    rcases runs with none | same
    · simp [none] at found
    · exact inv.active o (same ▸ found)
  · rw [host]
    rcases draining with none | same
    · simp [none] at found
    · exact inv.draining o (same ▸ found)

theorem Attributed.local {s s' : System τ} (inv : Attributed s) (threads : Threads s)
    (owners : Owners s) (h : Local s s') : Attributed s' := by
  cases h with
  | taken s' before taken =>
    cases taken with
    | done jobs => exact inv.next rfl rfl rfl (.inr rfl) (.inr rfl)
    | _ => exact inv.next rfl rfl rfl (.inl rfl) (.inl rfl)
  | created p thenStart before =>
    exact inv.next rfl rfl rfl (.inr (by rw [before]; rfl)) (.inl rfl)
  | waiting exit p before =>
    exact inv.next rfl rfl rfl (.inl rfl) (.inr (by rw [before]; rfl))
  | unknown exit p before unknown =>
    exact absurd (owners.retiring exit p (.inr before)).2 unknown
  | yielded exit p before => exact inv
  | drained exit p before drained =>
    exact inv.quiescent threads exit p (by rw [before]; rfl) drained
  | _ => exact inv.next rfl rfl rfl (.inl rfl) (.inl rfl)

theorem Attributed.exclusive {s s' : System τ} (inv : Attributed s) (owners : Owners s)
    (h : Exclusive s s') : Attributed s' := by
  have writers : s'.host.writers ⊆ s.host.writers := h.same.2.2.2
  have target : ∀ t reg, (s'.writer t).target = some reg →
      (s.writer t).target = some reg ∨ reg ∈ s.host.writers := by
    intro t reg found
    rw [h.same.2.1] at found
    exact .inl found
  cases h with
  | activateLoad p thenStart before =>
    exact inv.keep writers target rfl (by simp [Stage.runs]) (by simp [Stage.draining])
  | activateStart index p before =>
    exact inv.keep writers target rfl (by simp [Stage.runs]) (by simp [Stage.draining])
  | retire exit p before =>
    refine inv.keep writers target rfl (by simp [Stage.runs]) (fun o found => ?_)
    obtain rfl : p.owner = o := by simpa [Stage.draining] using found
    obtain ⟨nonzero, known⟩ := owners.retiring exit p (.inl before)
    exact PluginHost.retireOwner_clears s.host p.owner nonzero known
  | _ => exact inv.keep writers target rfl (by simp [Stage.runs]) (by simp [Stage.draining])

/-- Everything the run keeps. -/
structure Inv (s : System τ) : Prop where
  threads : Threads s
  owners : Owners s
  attributed : Attributed s

theorem inv_initial : Inv (initial : System τ) :=
  ⟨threads_initial, owners_initial, attributed_initial⟩

variable [DecidableEq τ]

/-- What a thread has selected it had selected before, or it is registered. -/
theorem Advanced.target {s s' : System τ} {t : τ} (h : Advanced s t s') (u : τ) (reg : WriteReg)
    (found : (s'.writer u).target = some reg) :
    (s.writer u).target = some reg ∨ reg ∈ s.host.writers := by
  by_cases same : u = t
  · subst same
    cases h with
    | select tag reg' before selected =>
      obtain rfl : reg' = reg := by simpa [WritePc.target] using found
      exact .inr (PluginHost.mem_of_select s.host tag.name reg' selected)
    | increment tag reg' before => exact .inl (by simpa [before, WritePc.target] using found)
    | unlock tag reg' before => exact .inl (by simpa [before, WritePc.target] using found)
    | call tag reg' before => exact .inl (by simpa [before, WritePc.target] using found)
    | _ => simp [WritePc.target] at found
  · rw [h.others u same] at found
    exact .inl found

theorem Attributed.advance {s s' : System τ} {t : τ} (inv : Attributed s)
    (h : Advanced s t s') : Attributed s' := by
  have same := h.frame
  refine inv.keep (by rw [same.writers]; exact List.Subset.refl _) h.target same.quiesced
    (fun o found => ?_) (fun o found => ?_)
  · rw [same.stage] at found
    rw [same.activeOwner]
    exact inv.active o found
  · rw [same.stage] at found
    rw [same.writers]
    exact inv.draining o found

theorem Attributed.write {s : System τ} (inv : Attributed s) (t : τ) (tag : TagValue) :
    Attributed (s.setWriter t (.lock tag)) := by
  refine inv.keep (List.Subset.refl _) (fun u reg found => ?_) rfl inv.active inv.draining
  by_cases same : u = t
  · simp [same, WritePc.target] at found
  · rw [setWriter_ne _ _ _ _ same] at found
    exact .inl found

/-- A plugin registers inside its own callback: the entry is attributed to it. -/
theorem Attributed.register {s s' : System τ} {plugin : OwnerId} {topicPrefix : Bytes}
    {pluginCtx entry : Nat} (inv : Attributed s) (owners : Owners s)
    (inside : s.stage.runs = some plugin)
    (h : s.register plugin topicPrefix pluginCtx entry = some s') : Attributed s' := by
  obtain ⟨_, _, rfl⟩ := registered_of_register h
  obtain ⟨known, fresh⟩ := owners.runs plugin inside
  have active : s.host.activeOwner = plugin := inv.active plugin inside
  have own : s.host.registrant = plugin := by
    rw [PluginHost.registrant, active, if_pos known]
  have entries : ∀ reg ∈ (s.host.registerWriter topicPrefix pluginCtx ⟨plugin, entry⟩).writers,
      reg ∈ s.host.writers ∨ (reg.owner = plugin ∧ reg.handler.plugin = plugin) := by
    intro reg found
    rcases PluginHost.mem_registerWriter s.host topicPrefix pluginCtx _ reg found with old | rfl
    · exact .inl old
    · exact .inr ⟨own, rfl⟩
  refine ⟨?_, ?_, inv.held, ?_, ?_, inv.unselected⟩
  · intro o runs
    rw [PluginHost.registerWriter_activeOwner]
    exact inv.active o runs
  · intro reg found
    rcases entries reg found with old | ⟨owner, code⟩
    · exact inv.regs reg old
    · rw [owner, code]
  · intro o draining
    cases stage : s.stage <;> simp [stage, Stage.runs, Stage.draining] at inside draining
  · intro o retired reg found
    rcases entries reg found with old | ⟨owner, _⟩
    · exact inv.unregistered o retired reg old
    · rw [owner]
      exact fun same => fresh (same ▸ retired)

theorem Inv.step {s s' : System τ} {a : Action τ} (inv : Inv s) (inside : s.RegistersInside a)
    (h : s.step a = some s') : Inv s' := by
  refine ⟨inv.threads.step h, inv.owners.step h, ?_⟩
  cases a with
  | write t tag =>
    obtain ⟨_, rfl⟩ := written_of_write h
    exact inv.attributed.write t tag
  | advance t accepted => exact inv.attributed.advance (advanced_of_advance h)
  | operation op =>
    obtain ⟨host, _, writer, _, stage, quiesced⟩ := operation_same h
    exact inv.attributed.next host writer quiesced (.inr (by rw [stage])) (.inr (by rw [stage]))
  | manage reply =>
    rcases manage_cases h with step | ⟨_, step⟩
    · exact inv.attributed.local inv.threads inv.owners step
    · exact inv.attributed.exclusive inv.owners step
  | register plugin topicPrefix pluginCtx entry =>
    exact inv.attributed.register inv.owners inside h

/-- Once `waitQuiescent` has returned for an owner, it has returned for good. -/
theorem quiesced_step {s s' : System τ} {a : Action τ} (o : OwnerId) (retired : o ∈ s.quiesced)
    (h : s.step a = some s') : o ∈ s'.quiesced := by
  cases stepped_of_step h with
  | aside _ _ same =>
    rw [same.quiesced]
    exact retired
  | managed _ _ step =>
    cases step with
    | taken _ _ taken => cases taken <;> exact retired
    | unknown exit p =>
      cases exit <;> first | exact retired | exact List.mem_cons_of_mem _ retired
    | drained exit p =>
      cases exit <;> first | exact retired | exact List.mem_cons_of_mem _ retired
    | _ => exact retired
  | locked _ _ _ step => cases step <;> exact retired
  | registered => exact retired

/-- Hot unload: from the return of `waitQuiescent` inside `unloadLocked` on, no call of
`write` is inside a handler of the owner or will enter one; so none overlaps the `stop`, the
`destroy` and the `closeLibrary` that follow. -/
theorem free_of_quiesced (before after : List (Action τ)) (s u : System τ)
    (inside : (machine τ).Steps RegistersInside initial before)
    (run : (machine τ).run before = some s)
    (insideAfter : (machine τ).Steps RegistersInside s after)
    (later : (machine τ).runFrom s after = some u) :
    (∀ o ∈ s.quiesced, u.Free o) ∧ ∀ o, u.stage.unloading = some o → u.Free o := by
  have now : Inv s := (machine τ).invariant_of_steps RegistersInside Inv
    (fun _ _ _ inv ok step => inv.step ok step) initial before s inv_initial inside run
  have then_ : Inv u := (machine τ).invariant_of_steps RegistersInside Inv
    (fun _ _ _ inv ok step => inv.step ok step) s after u now insideAfter later
  refine ⟨fun o retired => then_.attributed.free o ?_, fun o unloading => ?_⟩
  · exact (machine τ).invariant_of_steps RegistersInside (fun v => o ∈ v.quiesced)
      (fun _ _ _ kept _ step => quiesced_step o kept step) s after u retired insideAfter later
  · exact then_.attributed.free o (then_.owners.unloading o unloading)

/-- A plugin registers in `init`; it is unloaded while a write is inside its handler. -/
def unloadDuringWrite : List (Action Unit) :=
  [.operation (.load (ascii "p.so") []), .manage {}, .manage {},
    .manage { info := some ⟨3, some (ascii "p")⟩ }, .manage {}, .manage {}, .manage {},
    .register 1 (ascii "a/") 0 0, .manage {}, .manage {}, .manage {},
    .write () (.of (ascii "a/x") .null 0), .advance () true, .advance () true,
    .advance () true, .advance () true, .advance () true, .operation (.unload (ascii "p")),
    .manage {}, .manage {}, .manage {}, .manage {}, .advance () true, .advance () true,
    .manage {}]

/-- Another write arrives while the plugin is destroyed and closed. -/
def writeDuringClose : List (Action Unit) :=
  [.write () (.of (ascii "a/x") .null 0), .advance () true, .advance () true, .manage {},
    .advance () true, .manage {}]

theorem free_of_quiesced_unloadDuringWrite : ∃ s u : System Unit,
    (machine Unit).run unloadDuringWrite = some s ∧
      (machine Unit).runFrom s writeDuringClose = some u ∧ s.quiesced = [1] ∧
      u.stage.unloading = some 1 ∧ u.Free 1 := by
  have ends : (((machine Unit).run unloadDuringWrite).bind fun s =>
      ((machine Unit).runFrom s writeDuringClose).map fun u =>
        (s.quiesced, u.stage.unloading)) = some ([1], some 1) := by rfl
  obtain ⟨s, run, rest⟩ := Option.bind_eq_some_iff.mp ends
  obtain ⟨u, later, last⟩ := Option.map_eq_some_iff.mp rest
  injection last with quiesced unloading
  have inside : (machine Unit).Steps RegistersInside initial (unloadDuringWrite) := by decide
  have insideAfter : (machine Unit).Steps RegistersInside s writeDuringClose := by
    obtain rfl := Option.some.inj run
    decide
  have free := free_of_quiesced unloadDuringWrite writeDuringClose s u inside run insideAfter later
  exact ⟨s, u, run, later, quiesced, unloading,
    free.1 1 (by rw [quiesced]; exact List.mem_singleton_self 1)⟩

end System

end IndustrialRuntime.Core.PluginManager
