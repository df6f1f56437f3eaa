import IndustrialRuntime.Core.ManagerRuns
import IndustrialRuntime.Core.PluginAbi

namespace IndustrialRuntime.Core

/-- A registration for another name is not selected. -/
theorem PluginHost.select_registerWriter {h : PluginHost} {topicPrefix name : Bytes}
    (away : ¬topicPrefix <+: name) (pluginCtx : Nat) (handler : Handler) :
    (h.registerWriter topicPrefix pluginCtx handler).select name = h.select name := by
  have skipped : topicPrefix.isPrefixOf name = false := by
    rw [Bool.eq_false_iff, ne_eq, List.isPrefixOf_iff_prefix]
    exact away
  unfold registerWriter
  split_ifs
  · rfl
  · simp [select, List.foldl_append, better, skipped]

/-- Only what is attributed to the owner goes. -/
theorem PluginHost.mem_retireOwner {h : PluginHost} {owner : OwnerId} {reg : WriteReg}
    (registered : reg ∈ h.writers) (other : reg.owner ≠ owner) :
    reg ∈ (h.retireOwner owner).writers := by
  unfold retireOwner
  split_ifs
  · exact registered
  · exact List.mem_filter.mpr ⟨registered, by simpa using other⟩
  · exact registered

namespace PluginManager

/-- The name that a thread writes and the registration it has selected for it, until the handler
has returned. -/
def WritePc.routed : WritePc → Option (Bytes × WriteReg)
  | .increment tag reg | .call tag reg | .handling tag reg => some (tag.name, reg)
  | .unlock tag found => found.map fun reg => (tag.name, reg)
  | _ => none

/-- The steps of `write` that are left, at most. -/
def WritePc.remaining : WritePc → Nat
  | .idle => 0
  | .decrement .. => 1
  | .handling .. => 2
  | .call .. => 3
  | .unlock .. => 4
  | .increment .. => 5
  | .select _ => 6
  | .lock _ => 7

namespace System

variable {τ : Type*}

/-- The threads that hold the shared lock are at its steps. -/
def Reading (s : System τ) : Prop := ∀ t ∈ s.readers, (s.writer t).reading = true

/-- A management operation is in progress. -/
def InOperation (s : System τ) : Prop := s.stage ≠ .ready ∨ s.jobs ≠ []

instance decidableInOperation (s : System τ) : Decidable s.InOperation :=
  inferInstanceAs (Decidable (s.stage ≠ .ready ∨ s.jobs ≠ []))

/-- The unload in progress has not come to its `retireOwner`. -/
def Unretired (s : System τ) (owner : OwnerId) : Prop :=
  ∃ index p, p.owner = owner ∧
    (s.stage = .ready ∧ s.plugins[index]? = some p ∧ (∃ rest, s.jobs = .unload index :: rest) ∨
      s.stage = .retire (.unload index) p)

/-- Every write of the name that has selected a handler, or is inside it, has the plugin's code. -/
def Routed (s : System τ) (name : Bytes) (plugin : OwnerId) : Prop :=
  ∀ t, ∀ found ∈ (s.writer t).routed, found.1 = name → found.2.handler.plugin = plugin

instance decidableRouted [Fintype τ] (s : System τ) (name : Bytes) (plugin : OwnerId) :
    Decidable (s.Routed name plugin) :=
  inferInstanceAs (Decidable
    (∀ t, ∀ found ∈ (s.writer t).routed, found.1 = name → found.2.handler.plugin = plugin))

/-- A write of the name is about to select a handler. -/
def Selects (s : System τ) (name : Bytes) : Prop :=
  (∃ t tag, s.writer t = .select tag ∧ tag.name = name) ∧ s.host.select name ≠ none

/-- The writes of the name run the plugin's code, selected before the retirement, or nothing. -/
structure Undiverted (s : System τ) (plugin : OwnerId) (name : Bytes) : Prop where
  home : s.Routed name plugin
  early : s.Selects name → s.Unretired plugin

/-- All that is registered for the name goes with the plugin, and the longest prefix and the
writes underway have its code. -/
structure Home (s : System τ) (plugin : OwnerId) (name : Bytes) : Prop where
  attributed : ∀ reg ∈ s.host.writers, reg.topicPrefix <+: name → reg.owner = plugin
  longest : ∀ reg ∈ s.host.select name, reg.handler.plugin = plugin
  routed : s.Routed name plugin

/-- A step of an operation that enters no handler for the name in the table. -/
def Within (name : Bytes) (s : System τ) : Action τ → Prop
  | .register _ topicPrefix _ _ => s.InOperation ∧
    (topicPrefix <+: name → ∃ reg ∈ s.host.writers, reg.topicPrefix = topicPrefix)
  | _ => s.InOperation

instance decidableWithin (name : Bytes) (s : System τ) (a : Action τ) :
    Decidable (s.Within name a) :=
  match a with
  | .register _ topicPrefix _ _ => inferInstanceAs (Decidable ((s.stage ≠ .ready ∨ s.jobs ≠ []) ∧
      (topicPrefix <+: name → ∃ reg ∈ s.host.writers, reg.topicPrefix = topicPrefix)))
  | .write .. | .advance .. | .operation _ | .manage _ =>
    inferInstanceAs (Decidable (s.stage ≠ .ready ∨ s.jobs ≠ []))

/-- Where nothing is registered for a name, nothing is selected. -/
theorem select_eq_none {s : System τ} {name : Bytes}
    (cleared : ∀ reg ∈ s.host.writers, ¬reg.topicPrefix <+: name) : s.host.select name = none := by
  cases selected : s.host.select name with
  | none => rfl
  | some reg =>
    have responsible := PluginHost.responsible_of_select selected
    exact absurd responsible.matching (cleared reg responsible.registered)

theorem select_ne_none {s : System τ} {name : Bytes} {reg : WriteReg}
    (registered : reg ∈ s.host.writers) (held : reg.topicPrefix <+: name) :
    s.host.select name ≠ none :=
  fun none => PluginHost.not_matching_of_select none reg registered held

theorem Unretired.same {s s' : System τ} {owner : OwnerId} (unretired : s.Unretired owner)
    (stage : s'.stage = s.stage) (plugins : s'.plugins = s.plugins) (jobs : s'.jobs = s.jobs) :
    s'.Unretired owner := by
  rw [Unretired, stage, plugins, jobs]
  exact unretired

theorem Unretired.inOperation {s : System τ} {owner : OwnerId} (unretired : s.Unretired owner) :
    s.InOperation := by
  obtain ⟨index, p, -, ⟨-, -, rest, jobs⟩ | stage⟩ := unretired
  · exact .inr (by simp [jobs])
  · exact .inl (by simp [stage])

/-- No bracket is open before the retirement. -/
theorem Unretired.bracketOwner {s : System τ} {owner : OwnerId} (unretired : s.Unretired owner) :
    s.bracketOwner = 0 := by
  obtain ⟨index, p, -, ⟨stage, -⟩ | stage⟩ := unretired
  · exact s.bracketOwner_none (by rw [stage]; rfl)
  · exact s.bracketOwner_none (by rw [stage]; rfl)

theorem ready_of_operation {s s' : System τ} {op : Operation} (begun : s.operation op = some s') :
    s.stage = .ready := by
  unfold System.operation at begun
  split_ifs at begun with enabled
  exact enabled.1

/-- `unload` and `reload` begin by unloading the entry. -/
theorem unretired_of_operation {s s' : System τ} {op : Operation} {id : Bytes} {index : Nat}
    {p : Loaded} (kind : op = .unload id ∨ op = .reload id)
    (found : s.findIndexLocked id = some index) (entry : s.plugins[index]? = some p)
    (begun : s.operation op = some s') : s'.Unretired p.owner := by
  obtain ⟨-, -, -, plugins, stage, -⟩ := operation_same begun
  unfold System.operation at begun
  split_ifs at begun with enabled
  obtain rfl := Option.some.inj begun
  refine ⟨index, p, rfl, .inl ⟨stage.trans enabled.1, plugins ▸ entry, ?_⟩⟩
  rcases kind with rfl | rfl
  · exact ⟨[], by simp only [begin, found]⟩
  · exact ⟨[.load p.path p.configPath p.started], by simp only [begin, found, entry]⟩

theorem home_congr {s t : System τ} (host : t.host = s.host) (writer : t.writer = s.writer)
    (plugin : OwnerId) (name : Bytes) : t.Home plugin name ↔ s.Home plugin name := by
  have routed : t.Routed name plugin ↔ s.Routed name plugin := by rw [Routed, Routed, writer]
  constructor
  · intro home
    exact ⟨host ▸ home.attributed, host ▸ home.longest, routed.mp home.routed⟩
  · intro home
    exact ⟨host ▸ home.attributed, host ▸ home.longest, routed.mpr home.routed⟩

theorem Frame.trans {s u s' : System τ} (first : Frame s u) (rest : Frame u s') : Frame s s' where
  writers := rest.writers.trans first.writers
  owners := rest.owners.trans first.owners
  activeOwner := rest.activeOwner.trans first.activeOwner
  nextOwner := rest.nextOwner.trans first.nextOwner
  plugins := rest.plugins.trans first.plugins
  stage := rest.stage.trans first.stage
  quiesced := rest.quiesced.trans first.quiesced

variable [DecidableEq τ]

theorem Advanced.reading {s s' : System τ} {t : τ} (h : Advanced s t s') (inv : s.Reading) :
    s'.Reading := by
  intro u held
  by_cases same : u = t
  · subst same
    have outside : ∀ pc, s.writer u = pc → pc.reading = false → u ∉ s.readers := by
      intro pc before out held
      have reading := inv u held
      rw [before, out] at reading
      cases reading
    cases h with
    | lock tag before => simp [WritePc.reading]
    | unmatched tag before => simp [WritePc.reading]
    | select tag reg before => simp [WritePc.reading]
    | increment tag reg before => simp [WritePc.reading]
    | refused tag before => simp at held
    | unlock tag reg before => simp at held
    | call tag reg before => exact absurd held (outside _ before rfl)
    | handled accepted tag reg before => exact absurd held (outside _ before rfl)
    | decrement reg accepted before => exact absurd held (outside _ before rfl)
  · rw [h.others u same]
    apply inv u
    cases h with
    | lock tag before => exact Finset.mem_of_mem_insert_of_ne held same
    | refused tag before => exact Finset.mem_of_mem_erase held
    | unlock tag reg before => exact Finset.mem_of_mem_erase held
    | _ => exact held

/-- What a thread has selected it had selected before for the same name, or its step selects
it now. -/
theorem Advanced.routed {s s' : System τ} {t : τ} (h : Advanced s t s') (u : τ)
    (found : Bytes × WriteReg) (routed : found ∈ (s'.writer u).routed) :
    found ∈ (s.writer u).routed ∨ s.host.select found.1 = some found.2 := by
  by_cases same : u = t
  · subst same
    cases h with
    | select tag reg before selected =>
      obtain rfl : (tag.name, reg) = found := by simpa [WritePc.routed] using routed
      exact .inr selected
    | increment tag reg before => exact .inl (by simpa [before, WritePc.routed] using routed)
    | unlock tag reg before => exact .inl (by simpa [before, WritePc.routed] using routed)
    | call tag reg before => exact .inl (by simpa [before, WritePc.routed] using routed)
    | _ => simp [WritePc.routed] at routed
  · rw [h.others u same] at routed
    exact .inl routed

/-- A thread inside `write` is never held up by another. -/
theorem advance_enabled (s : System τ) (t : τ) (busy : s.writer t ≠ .idle) :
    ∃ s', s.advance t true = some s' := by
  unfold advance
  cases pc : s.writer t with
  | idle => exact absurd pc busy
  | select tag =>
    cases selected : s.host.select tag.name with
    | none => exact ⟨s.setWriter t (.unlock tag none), by simp only [selected]⟩
    | some reg => exact ⟨s.setWriter t (.increment tag reg), by simp only [selected]⟩
  | unlock tag found => cases found <;> exact ⟨_, rfl⟩
  | _ => exact ⟨_, rfl⟩

theorem Advanced.remaining {s s' : System τ} {t : τ} (h : Advanced s t s') :
    (s'.writer t).remaining < (s.writer t).remaining := by
  cases h <;> rename_i before <;> simp_all [WritePc.remaining]

theorem Advanced.readers {s s' : System τ} {t : τ} (h : Advanced s t s') :
    s'.readers.erase t = s.readers.erase t := by
  cases h with
  | lock tag before => exact Finset.erase_insert_eq_erase s.readers t
  | refused tag before => exact Finset.erase_idem
  | unlock tag reg before => exact Finset.erase_idem
  | _ => rfl

theorem Advanced.jobs {s s' : System τ} {t : τ} (h : Advanced s t s') : s'.jobs = s.jobs := by
  cases h <;> rfl

/-- The threads of a set have returned from `write`, and nothing else has happened. -/
structure Settled (F : Finset τ) (s s' : System τ) : Prop where
  frame : Frame s s'
  jobs : s'.jobs = s.jobs
  reading : s'.Reading
  readers : s'.readers = s.readers \ F
  idle : ∀ t ∈ F, s'.writer t = .idle
  others : ∀ t ∉ F, s'.writer t = s.writer t

theorem Settled.operation {F : Finset τ} {s s' : System τ} (settled : Settled F s s')
    (operation : s.InOperation) : s'.InOperation := by
  rw [InOperation, settled.frame.stage, settled.jobs]
  exact operation

theorem Settled.trans {F G : Finset τ} {s u s' : System τ} (first : Settled F s u)
    (rest : Settled G u s') : Settled (F ∪ G) s s' where
  frame := first.frame.trans rest.frame
  jobs := rest.jobs.trans first.jobs
  reading := rest.reading
  readers := by rw [rest.readers, first.readers, sdiff_sdiff_left, Finset.sup_eq_union]
  idle t found := by
    by_cases again : t ∈ G
    · exact rest.idle t again
    · rw [rest.others t again]
      exact first.idle t ((Finset.mem_union.mp found).resolve_right again)
  others t outside := by
    obtain ⟨before, later⟩ := Finset.notMem_union.mp outside
    exact (rest.others t later).trans (first.others t before)

/-- The operation goes on while a thread finishes its call of `write`. -/
theorem settle (name : Bytes) (n : Nat) (s : System τ) (t : τ)
    (left : (s.writer t).remaining ≤ n) (operation : s.InOperation) (reading : s.Reading) :
    ∃ s', (machine τ).Reaches (Within name) s s' ∧ Settled {t} s s' := by
  by_cases idle : s.writer t = .idle
  · have outside : t ∉ s.readers := by
      intro held
      have inside := reading t held
      simp [idle, WritePc.reading] at inside
    refine ⟨s, .refl _ _ s, ⟨rfl, rfl, rfl, rfl, rfl, rfl, rfl⟩, rfl, reading, ?_, ?_, ?_⟩
    · rw [Finset.sdiff_singleton_eq_erase, Finset.erase_eq_of_notMem outside]
    · intro u same
      rw [Finset.mem_singleton.mp same]
      exact idle
    · exact fun _ _ => rfl
  · obtain ⟨v, step⟩ := s.advance_enabled t idle
    have moved := advanced_of_advance step
    have fewer := moved.remaining
    have frame := moved.frame
    have going : v.InOperation := by
      rw [InOperation, frame.stage, moved.jobs]
      exact operation
    cases n with
    | zero => omega
    | succ n =>
      obtain ⟨s', rest, settled⟩ := settle name n v t (by omega) going (moved.reading reading)
      refine ⟨s', .head _ (.advance t true) operation step rest, ?_⟩
      refine ⟨frame.trans settled.frame, settled.jobs.trans moved.jobs, settled.reading, ?_,
        settled.idle, fun u other => ?_⟩
      · rw [settled.readers, Finset.sdiff_singleton_eq_erase, moved.readers,
          Finset.sdiff_singleton_eq_erase]
      · rw [settled.others u other]
        exact moved.others u (by simpa using other)

/-- The operation goes on while the threads of a set finish their calls of `write`. -/
theorem drain (name : Bytes) (F : Finset τ) (s : System τ) (operation : s.InOperation)
    (reading : s.Reading) :
    ∃ s', (machine τ).Reaches (Within name) s s' ∧ Settled F s s' := by
  induction F using Finset.induction_on with
  | empty =>
    refine ⟨s, .refl _ _ s, ⟨rfl, rfl, rfl, rfl, rfl, rfl, rfl⟩, rfl, reading, ?_, ?_, ?_⟩
    · exact (Finset.sdiff_empty).symm
    · exact fun t none => absurd none (Finset.notMem_empty t)
    · exact fun _ _ => rfl
  | insert t F fresh ih =>
    obtain ⟨u, start, settled⟩ := ih
    obtain ⟨s', rest, last⟩ := settle name (u.writer t).remaining u t (Nat.le_refl _)
      (settled.operation operation) settled.reading
    refine ⟨s', start.trans _ rest, ?_⟩
    rw [Finset.insert_eq, Finset.union_comm]
    exact settled.trans last

theorem reading_step {s s' : System τ} {a : Action τ} (inv : s.Reading)
    (h : s.step a = some s') : s'.Reading := by
  have same (readers : s'.readers = s.readers) (writer : s'.writer = s.writer) : s'.Reading := by
    rw [Reading, readers, writer]
    exact inv
  cases a with
  | write t tag =>
    obtain ⟨idle, rfl⟩ := written_of_write h
    intro u held
    by_cases other : u = t
    · subst other
      have reading := inv u held
      simp [idle, WritePc.reading] at reading
    · rw [setWriter_ne _ _ _ _ other]
      exact inv u held
  | advance t accepted => exact (advanced_of_advance h).reading inv
  | operation op =>
    obtain ⟨-, readers, writer, -⟩ := operation_same h
    exact same readers writer
  | manage reply =>
    rcases manage_cases h with step | ⟨-, step⟩
    · obtain ⟨-, readers, writer⟩ := step.same
      exact same readers writer
    · obtain ⟨readers, writer, -⟩ := step.same
      exact same readers writer
  | register plugin topicPrefix pluginCtx entry =>
    obtain ⟨-, -, rfl⟩ := registered_of_register h
    exact same rfl rfl

theorem reading_of_run (as : List (Action τ)) (s : System τ) (run : (machine τ).run as = some s) :
    s.Reading :=
  (machine τ).invariant Reading (fun t held => by simp [machine, initial] at held)
    (fun _ _ _ inv step => reading_step inv step) as s run

/-! ### What a step of the operation keeps -/

/-- What such a step leaves registered for the name was registered before. -/
theorem registered_before {name : Bytes} {s s' : System τ} {a : Action τ}
    (within : s.Within name a) (h : s.step a = some s') (reg : WriteReg)
    (registered : reg ∈ s'.host.writers) (held : reg.topicPrefix <+: name) :
    reg ∈ s.host.writers := by
  cases a with
  | write t tag =>
    obtain ⟨-, rfl⟩ := written_of_write h
    exact registered
  | advance t accepted =>
    rw [(advanced_of_advance h).frame.writers] at registered
    exact registered
  | operation op =>
    obtain ⟨host, -⟩ := operation_same h
    rw [host] at registered
    exact registered
  | manage reply =>
    rcases manage_cases h with step | ⟨-, step⟩
    · rw [step.same.1] at registered
      exact registered
    · exact step.same.2.2.2 registered
  | register plugin topicPrefix pluginCtx entry =>
    obtain ⟨-, -, rfl⟩ := registered_of_register h
    by_cases matching : topicPrefix <+: name
    · have taken : s.host.writers.any (fun reg => reg.topicPrefix == topicPrefix) := by
        simpa using within.2 matching
      simpa [PluginHost.registerWriter, taken] using registered
    · rcases PluginHost.mem_registerWriter s.host topicPrefix pluginCtx _ reg registered
        with old | rfl
      · exact old
      · exact absurd held matching

/-- While only the plugin's handlers can be selected, no write of the name has another's. -/
theorem Routed.step {plugin : OwnerId} {name : Bytes} {s s' : System τ} {a : Action τ}
    (routed : s.Routed name plugin)
    (longest : ∀ reg ∈ s.host.select name, reg.handler.plugin = plugin)
    (h : s.step a = some s') : s'.Routed name plugin := by
  have same (writer : s'.writer = s.writer) : s'.Routed name plugin := by
    rw [Routed, writer]
    exact routed
  cases a with
  | write t tag =>
    obtain ⟨-, rfl⟩ := written_of_write h
    intro u found now
    by_cases other : u = t
    · simp [other, WritePc.routed] at now
    · rw [setWriter_ne _ _ _ _ other] at now
      exact routed u found now
  | advance t accepted =>
    intro u found now named
    rcases (advanced_of_advance h).routed u found now with before | selected
    · exact routed u found before named
    · exact longest found.2 (named ▸ selected)
  | operation op =>
    obtain ⟨-, -, writer, -⟩ := operation_same h
    exact same writer
  | manage reply =>
    rcases manage_cases h with step | ⟨-, step⟩
    · exact same step.same.2.2
    · exact same step.same.2.1
  | register plugin topicPrefix pluginCtx entry =>
    obtain ⟨-, -, rfl⟩ := registered_of_register h
    exact routed

/-- Before the retirement all is as the operation found it. -/
structure Intact (s : System τ) (plugin : OwnerId) (name : Bytes) : Prop where
  unretired : s.Unretired plugin
  known : plugin ∈ s.host.owners
  home : s.Home plugin name

/-- From the retirement on nothing is registered for the name. -/
structure Cleared (s : System τ) (plugin : OwnerId) (name : Bytes) : Prop where
  cleared : ∀ reg ∈ s.host.writers, ¬reg.topicPrefix <+: name
  routed : s.Routed name plugin

theorem Cleared.step {plugin : OwnerId} {name : Bytes} {s s' : System τ} {a : Action τ}
    (inv : s.Cleared plugin name) (within : s.Within name a) (h : s.step a = some s') :
    s'.Cleared plugin name where
  cleared reg registered held :=
    inv.cleared reg (registered_before within h reg registered held) held
  routed := inv.routed.step (by simp [select_eq_none inv.cleared]) h

theorem Intact.step {plugin : OwnerId} {name : Bytes} {s s' : System τ} {a : Action τ}
    (inv : s.Intact plugin name) (nonzero : plugin ≠ 0) (within : s.Within name a)
    (h : s.step a = some s') : s'.Intact plugin name ∨ s'.Cleared plugin name := by
  obtain ⟨unretired, known, home⟩ := inv
  have before := registered_before within h
  have routed := home.routed.step home.longest h
  have keep (unretired : s'.Unretired plugin) (owners : s'.host.owners = s.host.owners)
      (select : s'.host.select name = s.host.select name) : s'.Intact plugin name := by
    refine ⟨unretired, by rw [owners]; exact known, ?_, ?_, routed⟩
    · exact fun reg registered held => home.attributed reg (before reg registered held) held
    · rw [select]
      exact home.longest
  cases a with
  | write t tag =>
    obtain ⟨-, rfl⟩ := written_of_write h
    exact .inl (keep unretired rfl rfl)
  | advance t accepted =>
    have moved := advanced_of_advance h
    have frame := moved.frame
    refine .inl (keep (unretired.same frame.stage frame.plugins moved.jobs) frame.owners ?_)
    rw [PluginHost.select, frame.writers]
    rfl
  | operation op =>
    exfalso
    unfold System.step operation at h
    obtain ⟨index, p, -, ⟨-, -, rest, jobs⟩ | stage⟩ := unretired
    · simp [jobs] at h
    · simp [stage] at h
  | manage reply =>
    obtain ⟨index, p, rfl, ⟨stage, entry, rest, jobs⟩ | stage⟩ := unretired
    · obtain rfl : { s with jobs := rest, stage := .retire (.unload index) p } = s' := by
        simpa [System.step, manage, stage, locksHost, localStep, takeJob, jobs, entry] using h
      exact .inl (keep ⟨index, p, rfl, .inr rfl⟩ rfl rfl)
    · obtain ⟨-, rfl⟩ : s.readers = ∅ ∧ { s with
          host := s.host.retireOwner p.owner
          stage := .wait (.unload index) p } = s' := by
        simpa [System.step, manage, stage, locksHost, exclusiveStep] using h
      refine .inr ⟨fun reg registered held => ?_, routed⟩
      exact PluginHost.retireOwner_clears s.host p.owner nonzero known reg registered
        (home.attributed reg (before reg registered held) held)
  | register other topicPrefix pluginCtx entry =>
    obtain ⟨-, -, rfl⟩ := registered_of_register h
    refine .inl (keep unretired (PluginHost.registerWriter_owners _ _ _ _) ?_)
    by_cases matching : topicPrefix <+: name
    · have taken : s.host.writers.any (fun reg => reg.topicPrefix == topicPrefix) := by
        simpa using within.2 matching
      simp [PluginHost.registerWriter, taken]
    · exact PluginHost.select_registerWriter matching pluginCtx _

/-- All that is selected within the operation is the plugin's, before its retirement. -/
theorem undiverted_of_home {plugin : OwnerId} {name : Bytes} {s u : System τ}
    {during : List (Action τ)} (intact : s.Intact plugin name) (nonzero : plugin ≠ 0)
    (within : (machine τ).Steps (Within name) s during)
    (run : (machine τ).runFrom s during = some u) : u.Undiverted plugin name := by
  have inside : u.Intact plugin name ∨ u.Cleared plugin name := by
    apply (machine τ).invariant_of_steps (Within name)
      (fun v => v.Intact plugin name ∨ v.Cleared plugin name) _ s during u (.inl intact) within run
    rintro v a w (before | after) ok next
    · exact before.step nonzero ok next
    · exact .inr (after.step ok next)
  rcases inside with before | after
  · exact ⟨before.home.routed, fun _ => before.unretired⟩
  · exact ⟨after.routed, fun selects => absurd (select_eq_none after.cleared) selects.2⟩

/-! ### How a write goes astray -/

/-- A write of the name arrives and looks for its handler. -/
theorem arrives (name : Bytes) {s : System τ} (t : τ) (operation : s.InOperation)
    (reading : s.Reading) :
    ∃ v tag, (machine τ).Reaches (Within name) s v ∧ v.InOperation ∧ v.writer t = .select tag ∧
      tag.name = name ∧ v.host.writers = s.host.writers ∧
      ∀ owner, v.Unretired owner → s.Unretired owner := by
  obtain ⟨u, finished, settled⟩ :=
    settle name (s.writer t).remaining s t (Nat.le_refl _) operation reading
  have frame := settled.frame
  have idle : u.writer t = .idle := settled.idle t (Finset.mem_singleton_self t)
  have going := settled.operation operation
  let tag : TagValue := .of name .null 0
  let locked := { (u.setWriter t (.lock tag)).setWriter t (.select tag) with
    readers := insert t u.readers }
  have write : u.write t tag = some (u.setWriter t (.lock tag)) := by
    simp [System.write, idle]
  have lock : (u.setWriter t (.lock tag)).advance t true = some locked := by
    simp [advance, locked, setWriter]
  have last : (machine τ).Reaches (Within name) u locked :=
    .head _ (.write t tag) going write (.head _ (.advance t true) going lock (.refl _ _ _))
  refine ⟨locked, tag, finished.trans _ last, going, by simp [locked], rfl, frame.writers, ?_⟩
  intro owner unretired
  exact unretired.same frame.stage.symm frame.plugins.symm settled.jobs.symm

/-- The operation goes on to the retirement, and what is others' stays registered. -/
theorem retires {plugin : OwnerId} (name : Bytes) {s : System τ}
    (unretired : s.Unretired plugin) (reading : s.Reading) :
    ∃ v, (machine τ).Reaches (Within name) s v ∧ v.InOperation ∧ v.Reading ∧
      ¬v.Unretired plugin ∧
      ∀ reg ∈ s.host.writers, reg.owner ≠ plugin → reg ∈ v.host.writers := by
  obtain ⟨u, drained, settled⟩ := drain name s.readers s unretired.inOperation reading
  have frame := settled.frame
  have free : u.readers = ∅ := by
    rw [settled.readers]
    exact Finset.sdiff_self s.readers
  have retire (w : System τ) (index : Nat) (p : Loaded)
      (stage : w.stage = .retire (.unload index) p) (host : w.host = u.host)
      (readers : w.readers = ∅) (same : p.owner = plugin) :
      ∃ v, (machine τ).Reaches (Within name) w v ∧ v.InOperation ∧ v.Reading ∧
        ¬v.Unretired plugin ∧
        ∀ reg ∈ s.host.writers, reg.owner ≠ plugin → reg ∈ v.host.writers := by
    let retired := { w with
      host := w.host.retireOwner p.owner
      stage := .wait (.unload index) p }
    have next : w.manage {} = some retired := by
      simp [manage, stage, locksHost, exclusiveStep, readers, retired]
    refine ⟨retired, .head _ (.manage {}) (.inl (by simp [stage])) next (.refl _ _ _),
      .inl (by simp [retired]), fun t held => ?_, ?_, fun reg registered other => ?_⟩
    · exact absurd held (by simp [retired, readers])
    · rintro ⟨_, _, _, ⟨early, -⟩ | early⟩
      · cases early
      · cases early
    · show reg ∈ (w.host.retireOwner p.owner).writers
      rw [host, same]
      exact PluginHost.mem_retireOwner (by rw [frame.writers]; exact registered) other
  obtain ⟨index, p, same, ⟨stage, entry, rest, jobs⟩ | stage⟩ :=
    unretired.same frame.stage frame.plugins settled.jobs
  · let taken := { u with jobs := rest, stage := .retire (.unload index) p }
    have take : u.manage {} = some taken := by
      simp [manage, stage, locksHost, localStep, takeJob, jobs, entry, taken]
    obtain ⟨v, last, facts⟩ := retire taken index p rfl rfl free same
    have busy : u.InOperation := .inr (by simp [jobs])
    exact ⟨v, drained.trans _ (.head _ (.manage {}) busy take last), facts⟩
  · obtain ⟨v, last, facts⟩ := retire u index p stage rfl free same
    exact ⟨v, drained.trans _ last, facts⟩

/-- What outlives the retirement makes a write of the name go astray. -/
theorem strays {plugin : OwnerId} {name : Bytes} {s : System τ} {reg : WriteReg} (t : τ)
    (operation : s.InOperation) (reading : s.Reading) (registered : reg ∈ s.host.writers)
    (held : reg.topicPrefix <+: name) (outlives : s.Unretired plugin → reg.owner ≠ plugin) :
    ∃ v, (machine τ).Reaches (Within name) s v ∧ v.InOperation ∧ ¬v.Undiverted plugin name := by
  obtain ⟨u, reached, going, inv, late, remains⟩ : ∃ u, (machine τ).Reaches (Within name) s u ∧
      u.InOperation ∧ u.Reading ∧ ¬u.Unretired plugin ∧ reg ∈ u.host.writers := by
    by_cases unretired : s.Unretired plugin
    · obtain ⟨u, reached, going, inv, late, kept⟩ := retires name unretired reading
      exact ⟨u, reached, going, inv, late, kept reg registered (outlives unretired)⟩
    · exact ⟨s, .refl _ _ s, operation, reading, unretired, registered⟩
  obtain ⟨v, tag, arrived, busy, selecting, named, writers, early⟩ :=
    arrives name t going inv
  refine ⟨v, reached.trans _ arrived, busy, fun undiverted => late (early plugin ?_)⟩
  apply undiverted.early
  exact ⟨⟨t, tag, selecting, named⟩, select_ne_none (by rw [writers]; exact remains) held⟩

/-- A handler of another's code under the longest prefix is what a write of the name selects. -/
theorem misled {plugin : OwnerId} {name : Bytes} {s : System τ} {reg : WriteReg} (t : τ)
    (operation : s.InOperation) (reading : s.Reading) (selected : s.host.select name = some reg)
    (foreign : reg.handler.plugin ≠ plugin) :
    ∃ v, (machine τ).Reaches (Within name) s v ∧ v.InOperation ∧ ¬v.Undiverted plugin name := by
  obtain ⟨u, tag, arrived, busy, selecting, rfl, writers, -⟩ :=
    arrives name t operation reading
  have found : u.host.select tag.name = some reg := by
    rw [← selected, PluginHost.select, writers]
    rfl
  have step : u.advance t true = some (u.setWriter t (.increment tag reg)) := by
    simp [advance, selecting, found]
  refine ⟨u.setWriter t (.increment tag reg),
    arrived.trans _ (.head _ (.advance t true) busy step (.refl _ _ _)), busy, ?_⟩
  intro undiverted
  exact foreign (undiverted.home t (tag.name, reg) (by simp [WritePc.routed]) rfl)

/-! ### Exactly when writes stay -/

/-- Before the retirement: the writes stay the plugin's through the operation just when they
and the table are its own now. -/
theorem undiverted_iff_home {plugin : OwnerId} {name : Bytes} {s : System τ} (t : τ)
    (unretired : s.Unretired plugin) (reading : s.Reading) (nonzero : plugin ≠ 0)
    (known : plugin ∈ s.host.owners) :
    (∀ during u, (machine τ).Steps (Within name) s during →
      (machine τ).runFrom s during = some u → u.InOperation → u.Undiverted plugin name) ↔
      s.Home plugin name := by
  have busy := unretired.inOperation
  constructor
  · intro stays
    have astray {v : System τ} (reached : (machine τ).Reaches (Within name) s v)
        (going : v.InOperation) (diverted : ¬v.Undiverted plugin name) : False := by
      obtain ⟨during, within, lasts⟩ := reached
      exact diverted (stays during v within lasts going)
    constructor
    · intro reg registered held
      by_contra other
      obtain ⟨v, reached, going, diverted⟩ := strays t busy reading registered held fun _ => other
      exact astray reached going diverted
    · intro reg selected
      by_contra foreign
      obtain ⟨v, reached, going, diverted⟩ := misled t busy reading selected foreign
      exact astray reached going diverted
    · exact (stays [] s trivial rfl busy).home
  · intro home during u within lasts _
    exact undiverted_of_home ⟨unretired, known, home⟩ nonzero within lasts

/-- A registration for the name that enters the table during the operation, whosever it is, leads
to a write that goes astray. -/
theorem strays_of_entered {plugin : OwnerId} {name : Bytes} {s s' : System τ} {a : Action τ}
    (t : τ) (going : s.InOperation) (reading : s.Reading) (kept : s.Kept) (nonzero : plugin ≠ 0)
    (next : s.step a = some s') (breaks : ¬s.Within name a) :
    ∃ v, (machine τ).Reaches (Within name) s' v ∧ v.InOperation ∧ ¬v.Undiverted plugin name := by
  cases a with
  | register other topicPrefix pluginCtx handler =>
    obtain ⟨-, -, rfl⟩ := registered_of_register next
    obtain ⟨held, fresh⟩ : topicPrefix <+: name ∧
        ∀ reg ∈ s.host.writers, reg.topicPrefix ≠ topicPrefix := by
      simpa [Within, going] using breaks
    have entered : (⟨topicPrefix, pluginCtx, ⟨other, handler⟩, s.host.registrant⟩ : WriteReg) ∈
        (s.host.registerWriter topicPrefix pluginCtx ⟨other, handler⟩).writers := by
      have untaken : s.host.writers.any (fun reg => reg.topicPrefix == topicPrefix) = false := by
        simpa using fresh
      simp [PluginHost.registerWriter, untaken]
    refine strays t going reading entered held fun early => ?_
    -- before the retirement no bracket is open, so the entry is attributed to nobody
    have unbracketed : s.Unretired plugin := early
    rw [kept.givenOut.registrant kept.owners, unbracketed.bracketOwner]
    exact nonzero.symm
  | _ => exact absurd going breaks

/-- While a plugin is unloaded or reloaded, each write of a name runs a handler of its code that
was selected before the retirement, or none, whatever the interleaving, just when all that is
registered for the name goes with the plugin, and the longest prefix and the writes underway are
its code's. And whatever enters a handler for the name during the operation lets a write go
astray. -/
theorem routed_iff [Nonempty τ] (before : List (Action τ)) (s t : System τ) (op : Operation)
    (id : Bytes) (index : Nat) (p : Loaded) (name : Bytes)
    (run : (machine τ).run before = some s) (kind : op = .unload id ∨ op = .reload id)
    (found : s.findIndexLocked id = some index) (entry : s.plugins[index]? = some p)
    (begun : s.operation op = some t) :
    ((∀ during u, (machine τ).Steps (Within name) t during →
        (machine τ).runFrom t during = some u → u.InOperation → u.Undiverted p.owner name) ↔
      s.Home p.owner name) ∧
    ∀ during u a u', (machine τ).Steps (fun v _ => v.InOperation) t during →
      (machine τ).runFrom t during = some u → u.InOperation → u.step a = some u' →
      ¬u.Within name a → ∃ v, (machine τ).Reaches (Within name) u' v ∧ v.InOperation ∧
        ¬v.Undiverted p.owner name := by
  obtain ⟨someone⟩ := ‹Nonempty τ›
  obtain ⟨host, -, writer, -⟩ := operation_same begun
  have unretired := unretired_of_operation kind found entry begun
  have ready := ready_of_operation begun
  have kept := kept_of_run before s run
  have place : p.owner ∈ s.ids := List.mem_of_getElem? (ids_of_getElem? s index p entry)
  have nonzero : p.owner ≠ 0 := Nat.ne_of_gt (kept.owners.given p.owner place).1
  have known := (kept.owners.table p.owner place (by simp [ready, Stage.unloading])).1
  have here : (machine τ).run (before ++ [.operation op]) = some t := by
    rw [Machine.run, Machine.runFrom_snoc]
    exact Option.bind_eq_some_iff.mpr ⟨s, run, begun⟩
  constructor
  · rw [← home_congr host writer]
    exact undiverted_iff_home someone unretired (reading_of_run _ t here) nonzero (host ▸ known)
  · intro during u a u' _ lasts going next breaks
    have later : (machine τ).run (before ++ [.operation op] ++ during) = some u := by
      rw [Machine.run, Machine.runFrom_append]
      exact Option.bind_eq_some_iff.mpr ⟨t, here, lasts⟩
    exact strays_of_entered someone going (reading_of_run _ u later) (kept_of_run _ u later)
      nonzero next breaks

/-- A plugin is loaded and registers one handler in `init`. -/
def loading (path id topicPrefix : Bytes) (owner : OwnerId) : List (Action Unit) :=
  [.operation (.load path []), .manage {}, .manage {}, .manage { info := some ⟨3, some id⟩ },
    .manage {}, .manage {}, .manage {}, .register owner topicPrefix 0 0, .manage {}, .manage {},
    .manage {}]

/-- Two plugins, and a write of `a/x` inside the handler of the first. -/
def handling : List (Action Unit) :=
  loading (ascii "p.so") (ascii "p") (ascii "a/") 1 ++
    loading (ascii "q.so") (ascii "q") (ascii "b/") 2 ++
    [.write () (.of (ascii "a/x") .null 0), .advance () true, .advance () true, .advance () true,
      .advance () true, .advance () true]

/-- The reload of the first one, the return of its handler, and its new instance in `init`. -/
def renewing : List (Action Unit) :=
  [.manage {}, .manage {}, .manage {}, .manage {}, .advance () true, .advance () true, .manage {},
    .manage {}, .manage {}, .manage {}, .manage {}, .manage {},
    .manage { info := some ⟨3, some (ascii "p")⟩ }, .manage {}, .manage {}, .manage {}]

/-- The write that is underway has the plugin's handler, and the new instance that registers the
prefix again lets another in before the reload is over. -/
theorem routed_iff_handling : ∃ s t u u' : System Unit,
    (machine Unit).run handling = some s ∧ s.operation (.reload (ascii "p")) = some t ∧
      (machine Unit).runFrom t renewing = some u ∧
      u.step (.register 3 (ascii "a/") 0 0) = some u' ∧
      (∀ during v, (machine Unit).Steps (Within (ascii "a/x")) t during →
        (machine Unit).runFrom t during = some v → v.InOperation →
          v.Undiverted 1 (ascii "a/x")) ∧
      ∃ v, (machine Unit).Reaches (Within (ascii "a/x")) u' v ∧ v.InOperation ∧
        ¬v.Undiverted 1 (ascii "a/x") := by
  let entry : Loaded := ⟨0, some (ascii "p"), false, ascii "p.so", [], 1⟩
  have ends : ((machine Unit).run handling).any fun s =>
      decide (s.findIndexLocked (ascii "p") = some 0 ∧ s.plugins[0]? = some entry ∧
        (∀ reg ∈ s.host.writers, reg.topicPrefix <+: ascii "a/x" → reg.owner = 1) ∧
        (∀ reg ∈ s.host.select (ascii "a/x"), reg.handler.plugin = 1) ∧
        s.Routed (ascii "a/x") 1) &&
      (s.operation (.reload (ascii "p"))).any fun t =>
        decide ((machine Unit).Steps (fun v _ => v.InOperation) t renewing) &&
        ((machine Unit).runFrom t renewing).any fun u =>
          decide (u.InOperation ∧ ¬u.Within (ascii "a/x") (.register 3 (ascii "a/") 0 0)) &&
          (u.step (.register 3 (ascii "a/") 0 0)).isSome := by decide +kernel
  obtain ⟨s, run, rest⟩ := (Option.any_eq_true _ _).mp ends
  rw [Bool.and_eq_true, decide_eq_true_eq] at rest
  obtain ⟨⟨found, place, attributed, longest, routed⟩, rest⟩ := rest
  obtain ⟨t, begun, rest⟩ := (Option.any_eq_true _ _).mp rest
  rw [Bool.and_eq_true, decide_eq_true_eq] at rest
  obtain ⟨steps, rest⟩ := rest
  obtain ⟨u, lasts, rest⟩ := (Option.any_eq_true _ _).mp rest
  rw [Bool.and_eq_true, decide_eq_true_eq, Option.isSome_iff_exists] at rest
  obtain ⟨⟨going, breaks⟩, u', next⟩ := rest
  obtain ⟨stays, strays⟩ := routed_iff handling s t (.reload (ascii "p")) (ascii "p") 0 entry
    (ascii "a/x") run (.inr rfl) found place begun
  exact ⟨s, t, u, u', run, begun, lasts, next, stays.mpr ⟨attributed, longest, routed⟩,
    strays renewing u _ u' steps lasts going next breaks⟩

/-- The owner of `a/b/` is unloaded, and a write of `a/b/x` arrives after the retirement. -/
def writeDuringUnload : List (Action Unit) :=
  [.manage {}, .manage {}, .write () (.of (ascii "a/b/x") .null 0), .advance () true,
    .advance () true]

theorem not_routed : ¬ ∀ (before : List (Action Unit)) (s t : System Unit) (op : Operation)
    (id : Bytes) (index : Nat) (p : Loaded) (name : Bytes) (reg : WriteReg),
    (machine Unit).run before = some s → (op = .unload id ∨ op = .reload id) →
      s.findIndexLocked id = some index → s.plugins[index]? = some p →
      s.operation op = some t → s.host.select name = some reg → reg.owner = p.owner →
      reg.handler.plugin = p.owner →
      ∀ during u, (machine Unit).Steps (Within name) t during →
        (machine Unit).runFrom t during = some u → u.InOperation → u.Undiverted p.owner name := by
  intro claim
  let before := loading (ascii "p.so") (ascii "p") (ascii "a/") 1 ++
    loading (ascii "q.so") (ascii "q") (ascii "a/b/") 2
  have ends : (((machine Unit).run before).bind fun s =>
      (s.operation (.unload (ascii "q"))).bind fun t =>
        ((machine Unit).runFrom t writeDuringUnload).map fun u =>
          (u.writer ()).routed.map fun found => found.2.handler.plugin) = some (some 1) := by rfl
  obtain ⟨s, run, rest⟩ := Option.bind_eq_some_iff.mp ends
  obtain ⟨t, begun, later⟩ := Option.bind_eq_some_iff.mp rest
  obtain ⟨u, arrives, -⟩ := Option.map_eq_some_iff.mp later
  obtain rfl := Option.some.inj run
  obtain rfl := Option.some.inj begun
  obtain rfl := Option.some.inj arrives
  have undiverted := claim before _ _ (.unload (ascii "q")) (ascii "q") 1
    ⟨1, some (ascii "q"), false, ascii "q.so", [], 2⟩ (ascii "a/b/x")
    ⟨ascii "a/b/", 0, ⟨2, 0⟩, 2⟩ run (.inl rfl) (by decide) (by decide) begun (by decide) rfl rfl
    writeDuringUnload _ (by decide) arrives (by decide)
  have home := undiverted.home
  revert home
  decide

end System

end PluginManager

end IndustrialRuntime.Core
