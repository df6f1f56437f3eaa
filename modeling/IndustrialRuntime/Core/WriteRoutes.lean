import IndustrialRuntime.Core.PluginAbi

namespace IndustrialRuntime.Core

/-- What the write-back table is for: at most one registration for each prefix. -/
abbrev Routes := Bytes → Option WriteReg

namespace Routes

/-- The first registration of a prefix stays. -/
def add (routes : Routes) (reg : WriteReg) : Routes :=
  match routes reg.topicPrefix with
  | some _ => routes
  | none => Function.update routes reg.topicPrefix (some reg)

/-- All registrations of one owner go. -/
def drop (routes : Routes) (owner : OwnerId) : Routes :=
  fun topicPrefix => (routes topicPrefix).filter fun reg => reg.owner ≠ owner

/-- No registered prefix is one of the name. -/
def Unmatched (routes : Routes) (name : Bytes) : Prop :=
  ∀ topicPrefix, topicPrefix <+: name → routes topicPrefix = none

/-- The registration is the one under the longest registered prefix of the name. -/
structure Longest (routes : Routes) (name : Bytes) (reg : WriteReg) : Prop where
  live : routes reg.topicPrefix = some reg
  matching : reg.topicPrefix <+: name
  longest : ∀ topicPrefix other, routes topicPrefix = some other → topicPrefix <+: name →
    topicPrefix ≠ reg.topicPrefix → topicPrefix.length < reg.topicPrefix.length

theorem Longest.unique {routes : Routes} {name : Bytes} {reg other : WriteReg}
    (here : routes.Longest name reg) (there : routes.Longest name other) : reg = other := by
  by_cases same : reg.topicPrefix = other.topicPrefix
  · have live := here.live
    rw [same, there.live] at live
    exact (Option.some.inj live).symm
  · have shorter := here.longest _ other there.live there.matching (Ne.symm same)
    have longer := there.longest _ reg here.live here.matching same
    omega

end Routes

namespace PluginHost

/-- `PluginHost::registerWriterThunk`; a null pointer is `none`. -/
def registerWriterThunk (h : PluginHost) (topicPrefix : Option Bytes) (pluginCtx : Nat)
    (handler : Option Handler) : PluginHost :=
  match topicPrefix, handler with
  | some topicPrefix, some handler => h.registerWriter topicPrefix pluginCtx handler
  | _, _ => h

/-- The calls that reach the host; `addInflight` is a write that begins or ends. -/
inductive Call where
  | registerWriter (topicPrefix : Option Bytes) (pluginCtx : Nat) (handler : Option Handler)
  | createOwner
  | setActiveOwner (owner : OwnerId)
  | retireOwner (owner : OwnerId)
  | removeOwner (owner : OwnerId)
  | addInflight (owner : OwnerId) (amount : Int)
  deriving DecidableEq, Repr

def perform (h : PluginHost) : Call → PluginHost
  | .registerWriter topicPrefix pluginCtx handler =>
    h.registerWriterThunk topicPrefix pluginCtx handler
  | .createOwner => h.createOwner.2
  | .setActiveOwner owner => h.setActiveOwner owner
  | .retireOwner owner => h.retireOwner owner
  | .removeOwner owner => h.removeOwner owner
  | .addInflight owner amount => h.addInflight owner amount

/-- The host after a history of calls. -/
def after (calls : List Call) : PluginHost := calls.foldl perform initial

/-- A registration made while `reg.owner` is the active owner, as the manager has it during
`init` and `start` of a plugin. -/
def registerAs (h : PluginHost) (reg : WriteReg) : PluginHost :=
  ((h.setActiveOwner reg.owner).registerWriter reg.topicPrefix reg.pluginCtx
    reg.handler).setActiveOwner h.activeOwner

/-- The table as a map from prefixes. -/
def routes (h : PluginHost) : Routes :=
  fun topicPrefix => h.writers.find? fun reg => reg.topicPrefix == topicPrefix

theorem distinct_perform {h : PluginHost} (distinct : h.Distinct) (call : Call) :
    (h.perform call).Distinct := by
  cases call with
  | registerWriter topicPrefix pluginCtx handler =>
    cases topicPrefix with
    | none => exact distinct
    | some topicPrefix =>
      cases handler with
      | none => exact distinct
      | some handler => exact distinct_registerWriter distinct topicPrefix pluginCtx handler
  | retireOwner owner => exact distinct_retireOwner distinct owner
  | removeOwner owner =>
    rw [perform, Distinct, removeOwner_writers]
    exact distinct
  | _ => exact distinct

theorem distinct_foldl {h : PluginHost} (distinct : h.Distinct) (calls : List Call) :
    (calls.foldl perform h).Distinct := by
  induction calls generalizing h with
  | nil => exact distinct
  | cons call calls ih => exact ih (distinct_perform distinct call)

theorem distinct_foldl_registerAs {h : PluginHost} (distinct : h.Distinct) (regs : List WriteReg) :
    (regs.foldl registerAs h).Distinct := by
  induction regs generalizing h with
  | nil => exact distinct
  | cons reg regs ih =>
    have active : (h.setActiveOwner reg.owner).Distinct := distinct
    exact ih (distinct_registerWriter active reg.topicPrefix reg.pluginCtx reg.handler)

theorem distinct_after (calls : List Call) : (after calls).Distinct :=
  distinct_foldl distinct_initial calls

/-! ### The table refines the map -/

theorem mem_of_routes {h : PluginHost} {topicPrefix : Bytes} {reg : WriteReg}
    (found : h.routes topicPrefix = some reg) : reg ∈ h.writers ∧ reg.topicPrefix = topicPrefix :=
  ⟨List.mem_of_find?_eq_some found, by simpa using List.find?_some found⟩

theorem routes_of_mem {h : PluginHost} (distinct : h.Distinct) {reg : WriteReg}
    (registered : reg ∈ h.writers) : h.routes reg.topicPrefix = some reg := by
  cases found : h.routes reg.topicPrefix with
  | none =>
    have absent := List.find?_eq_none.mp found reg registered
    simp at absent
  | some other =>
    obtain ⟨held, same⟩ := mem_of_routes found
    rw [List.inj_on_of_nodup_map distinct held registered same]

theorem routes_eq_some_iff {h : PluginHost} (distinct : h.Distinct) (topicPrefix : Bytes)
    (reg : WriteReg) :
    h.routes topicPrefix = some reg ↔ reg ∈ h.writers ∧ reg.topicPrefix = topicPrefix := by
  constructor
  · exact mem_of_routes
  · rintro ⟨registered, rfl⟩
    exact routes_of_mem distinct registered

theorem routes_registerWriter (h : PluginHost) (topicPrefix : Bytes) (pluginCtx : Nat)
    (handler : Handler) :
    (h.registerWriter topicPrefix pluginCtx handler).routes =
      h.routes.add ⟨topicPrefix, pluginCtx, handler, h.registrant⟩ := by
  funext p
  cases found : h.routes topicPrefix with
  | some reg =>
    obtain ⟨registered, same⟩ := mem_of_routes found
    have taken : h.writers.any (fun reg => reg.topicPrefix == topicPrefix) = true :=
      List.any_eq_true.mpr ⟨reg, registered, by simpa using same⟩
    rw [registerWriter, if_pos taken, Routes.add, found]
  | none =>
    have free : ¬h.writers.any (fun reg => reg.topicPrefix == topicPrefix) = true := by
      intro taken
      obtain ⟨reg, registered, same⟩ := List.any_eq_true.mp taken
      exact List.find?_eq_none.mp found reg registered same
    rw [registerWriter, if_neg free, Routes.add, found]
    by_cases same : p = topicPrefix
    · subst same
      have before : h.writers.find? (fun reg => reg.topicPrefix == p) = none := found
      simp [routes, List.find?_append, before]
    · have other : (topicPrefix == p) = false := by simpa using Ne.symm same
      simp [routes, List.find?_append, other, same]

theorem routes_retireOwner {h : PluginHost} (distinct : h.Distinct) {owner : OwnerId}
    (nonzero : owner ≠ 0) (known : owner ∈ h.owners) :
    (h.retireOwner owner).routes = h.routes.drop owner := by
  funext p
  apply Option.ext
  intro reg
  rw [routes_eq_some_iff (distinct_retireOwner distinct owner), Routes.drop,
    Option.filter_eq_some_iff, routes_eq_some_iff distinct]
  simp only [retireOwner, nonzero, known, if_false, not_true_eq_false, List.mem_filter]
  tauto

theorem longest_of_responsible {h : PluginHost} (distinct : h.Distinct) {name : Bytes}
    {reg : WriteReg} (responsible : h.Responsible name reg) : h.routes.Longest name reg where
  live := routes_of_mem distinct responsible.registered
  matching := responsible.matching
  longest := by
    intro p other live matching different
    obtain ⟨registered, rfl⟩ := mem_of_routes live
    apply lt_of_le_of_ne (responsible.longest other registered matching)
    intro same_length
    have nested := List.prefix_of_prefix_length_le matching responsible.matching same_length.le
    exact different (nested.eq_of_length same_length)

theorem unmatched_of_select {h : PluginHost} {name : Bytes} (selected : h.select name = none) :
    h.routes.Unmatched name := by
  intro p matching
  cases found : h.routes p with
  | none => rfl
  | some reg =>
    obtain ⟨registered, rfl⟩ := mem_of_routes found
    exact absurd matching (not_matching_of_select selected reg registered)

theorem subset_registerWriter (h : PluginHost) (topicPrefix : Bytes) (pluginCtx : Nat)
    (handler : Handler) : h.writers ⊆ (h.registerWriter topicPrefix pluginCtx handler).writers := by
  unfold registerWriter
  split_ifs
  · exact List.Subset.refl _
  · exact List.subset_append_left _ _

/-- A prefix that is registered is held, by this registrant or by an earlier one. -/
theorem held_registerWriter (h : PluginHost) (topicPrefix : Bytes) (pluginCtx : Nat)
    (handler : Handler) :
    ∃ reg ∈ (h.registerWriter topicPrefix pluginCtx handler).writers,
      reg.topicPrefix = topicPrefix := by
  unfold registerWriter
  split_ifs with taken
  · obtain ⟨reg, held, same⟩ := List.any_eq_true.mp taken
    exact ⟨reg, held, by simpa using same⟩
  · exact ⟨_, List.mem_append_right _ (List.mem_singleton_self _), rfl⟩

/-! ### The order of registrations -/

/-- The same table up to the order of its registrations. -/
structure Permuted (h h' : PluginHost) : Prop where
  writers : h.writers.Perm h'.writers
  owners : h.owners = h'.owners
  inflight : h.inflight = h'.inflight
  activeOwner : h.activeOwner = h'.activeOwner
  nextOwner : h.nextOwner = h'.nextOwner

theorem Permuted.refl (h : PluginHost) : Permuted h h :=
  ⟨List.Perm.refl _, rfl, rfl, rfl, rfl⟩

theorem Permuted.trans {h h' h'' : PluginHost} (first : Permuted h h') (second : Permuted h' h'') :
    Permuted h h'' where
  writers := first.writers.trans second.writers
  owners := first.owners.trans second.owners
  inflight := first.inflight.trans second.inflight
  activeOwner := first.activeOwner.trans second.activeOwner
  nextOwner := first.nextOwner.trans second.nextOwner

theorem Permuted.registrant {h h' : PluginHost} (permuted : Permuted h h') :
    h.registrant = h'.registrant := by
  rw [PluginHost.registrant, PluginHost.registrant, permuted.owners, permuted.activeOwner]

theorem Permuted.setActiveOwner {h h' : PluginHost} (permuted : Permuted h h') (owner : OwnerId) :
    Permuted (h.setActiveOwner owner) (h'.setActiveOwner owner) :=
  ⟨permuted.writers, permuted.owners, permuted.inflight, rfl, permuted.nextOwner⟩

theorem Permuted.registerWriter {h h' : PluginHost} (permuted : Permuted h h')
    (topicPrefix : Bytes) (pluginCtx : Nat) (handler : Handler) :
    Permuted (h.registerWriter topicPrefix pluginCtx handler)
      (h'.registerWriter topicPrefix pluginCtx handler) := by
  have same : h.writers.any (fun reg => reg.topicPrefix == topicPrefix) =
      h'.writers.any (fun reg => reg.topicPrefix == topicPrefix) :=
    permuted.writers.any_eq
  unfold PluginHost.registerWriter
  rw [same, permuted.registrant]
  split_ifs
  · exact permuted
  · exact ⟨permuted.writers.append_right _, permuted.owners, permuted.inflight,
      permuted.activeOwner, permuted.nextOwner⟩

theorem Permuted.retireOwner {h h' : PluginHost} (permuted : Permuted h h') (owner : OwnerId) :
    Permuted (h.retireOwner owner) (h'.retireOwner owner) := by
  unfold PluginHost.retireOwner
  rw [permuted.owners]
  split_ifs
  · exact permuted
  · exact ⟨permuted.writers.filter _, rfl, permuted.inflight, permuted.activeOwner,
      permuted.nextOwner⟩
  · exact permuted

theorem Permuted.removeOwner {h h' : PluginHost} (permuted : Permuted h h') (owner : OwnerId) :
    Permuted (h.removeOwner owner) (h'.removeOwner owner) := by
  unfold PluginHost.removeOwner
  split_ifs
  · exact permuted
  · exact ⟨permuted.writers, by rw [permuted.owners], permuted.inflight, permuted.activeOwner,
      permuted.nextOwner⟩

theorem Permuted.perform {h h' : PluginHost} (permuted : Permuted h h') (call : Call) :
    Permuted (h.perform call) (h'.perform call) := by
  cases call with
  | registerWriter topicPrefix pluginCtx handler =>
    cases topicPrefix with
    | none => exact permuted
    | some topicPrefix =>
      cases handler with
      | none => exact permuted
      | some handler => exact permuted.registerWriter topicPrefix pluginCtx handler
  | createOwner =>
    refine ⟨permuted.writers, ?_, permuted.inflight, permuted.activeOwner, ?_⟩
    · simp only [PluginHost.perform, createOwner_owners, permuted.owners, permuted.nextOwner]
    · simp only [PluginHost.perform, createOwner_nextOwner, permuted.nextOwner]
  | setActiveOwner owner => exact permuted.setActiveOwner owner
  | retireOwner owner => exact permuted.retireOwner owner
  | removeOwner owner => exact permuted.removeOwner owner
  | addInflight owner amount =>
    refine ⟨permuted.writers, permuted.owners, ?_, permuted.activeOwner, permuted.nextOwner⟩
    simp only [PluginHost.perform, addInflight, permuted.inflight]

theorem Permuted.foldl {h h' : PluginHost} (permuted : Permuted h h') (calls : List Call) :
    Permuted (calls.foldl PluginHost.perform h) (calls.foldl PluginHost.perform h') := by
  induction calls generalizing h h' with
  | nil => exact permuted
  | cons call calls ih => exact ih (permuted.perform call)

theorem Permuted.registerAs {h h' : PluginHost} (permuted : Permuted h h') (reg : WriteReg) :
    Permuted (h.registerAs reg) (h'.registerAs reg) := by
  unfold PluginHost.registerAs
  rw [permuted.activeOwner]
  exact ((permuted.setActiveOwner reg.owner).registerWriter _ _ _).setActiveOwner _

theorem Permuted.foldl_registerAs {h h' : PluginHost} (permuted : Permuted h h')
    (regs : List WriteReg) :
    Permuted (regs.foldl PluginHost.registerAs h) (regs.foldl PluginHost.registerAs h') := by
  induction regs generalizing h h' with
  | nil => exact permuted
  | cons reg regs ih => exact ih (permuted.registerAs reg)

/-- The owner that the registration is attributed to. -/
theorem registerAs_eq (h : PluginHost) (reg : WriteReg) :
    h.registerAs reg =
      if h.writers.any (fun held => held.topicPrefix == reg.topicPrefix) then h
      else { h with writers := h.writers ++ [⟨reg.topicPrefix, reg.pluginCtx, reg.handler,
        if reg.owner ∈ h.owners then reg.owner else 0⟩] } := by
  by_cases taken : h.writers.any (fun held => held.topicPrefix == reg.topicPrefix) = true
  · rw [registerAs, registerWriter, setActiveOwner_writers, if_pos taken, if_pos taken]
    rfl
  · rw [registerAs, registerWriter, setActiveOwner_writers, if_neg taken, if_neg taken]
    rfl

/-- Two registrations of different prefixes commute. -/
theorem permuted_swap (h : PluginHost) {first second : WriteReg}
    (different : first.topicPrefix ≠ second.topicPrefix) :
    Permuted ((h.registerAs first).registerAs second) ((h.registerAs second).registerAs first) := by
  have other : (first.topicPrefix == second.topicPrefix) = false := by simpa using different
  have other' : (second.topicPrefix == first.topicPrefix) = false := by
    simpa using different.symm
  by_cases held : h.writers.any (fun held => held.topicPrefix == first.topicPrefix) = true
  · by_cases held' : h.writers.any (fun held => held.topicPrefix == second.topicPrefix) = true
    · simp only [registerAs_eq, held, held', if_true]
      exact Permuted.refl h
    · simp only [registerAs_eq, held, held', if_true, Bool.false_eq_true, if_false,
        List.any_append, Bool.true_or]
      exact Permuted.refl _
  · by_cases held' : h.writers.any (fun held => held.topicPrefix == second.topicPrefix) = true
    · simp only [registerAs_eq, held, held', if_true, Bool.false_eq_true, if_false,
        List.any_append, Bool.true_or]
      exact Permuted.refl _
    · simp only [registerAs_eq, held, held', other, other', Bool.false_eq_true, if_false,
        List.any_append, List.any_cons, List.any_nil, Bool.or_false]
      refine ⟨?_, rfl, rfl, rfl, rfl⟩
      simp only [List.append_assoc, List.singleton_append]
      exact (List.Perm.swap _ _ []).append_left h.writers

/-- Registrations of pairwise different prefixes give the same table in every order. -/
theorem permuted_registrations {regs regs' : List WriteReg} (reordered : regs.Perm regs')
    (different : (regs.map WriteReg.topicPrefix).Nodup) (h : PluginHost) :
    Permuted (regs.foldl registerAs h) (regs'.foldl registerAs h) := by
  induction reordered generalizing h with
  | nil => exact Permuted.refl h
  | cons reg _ ih => exact ih (List.nodup_cons.mp different).2 (h.registerAs reg)
  | swap first second regs =>
    have apart : second.topicPrefix ≠ first.topicPrefix := by
      have fresh := (List.nodup_cons.mp different).1
      simp only [List.map_cons, List.mem_cons, not_or] at fresh
      exact fresh.1
    exact (permuted_swap h apart).foldl_registerAs regs
  | trans head _ ih ih' =>
    have different' := (head.map WriteReg.topicPrefix).nodup_iff.mp different
    exact (ih different h).trans (ih' different' h)

/-- The order of the table does not matter to a write. -/
theorem Permuted.select {h h' : PluginHost} (permuted : Permuted h h') (distinct : h.Distinct)
    (name : Bytes) : h.select name = h'.select name := by
  cases chosen : h.select name with
  | none =>
    cases chosen' : h'.select name with
    | none => rfl
    | some reg =>
      have responsible := responsible_of_select chosen'
      have unmatched := not_matching_of_select chosen reg
        (permuted.writers.mem_iff.mpr responsible.registered)
      exact absurd responsible.matching unmatched
  | some reg =>
    have responsible := responsible_of_select chosen
    cases chosen' : h'.select name with
    | none =>
      have unmatched := not_matching_of_select chosen' reg
        (permuted.writers.mem_iff.mp responsible.registered)
      exact absurd responsible.matching unmatched
    | some reg' =>
      have responsible' := responsible_of_select chosen'
      have here : h.Responsible name reg' :=
        ⟨permuted.writers.mem_iff.mpr responsible'.registered, responsible'.matching,
          fun other held => responsible'.longest other (permuted.writers.mem_iff.mp held)⟩
      rw [responsible.unique distinct here]

end PluginHost

end IndustrialRuntime.Core
