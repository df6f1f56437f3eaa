import IndustrialRuntime.Core.Lifecycle

namespace IndustrialRuntime.Core.PluginManager

/-! ### Every instance keeps to the protocol -/

/-- The plugin whose instance exists and that is not, or no longer to be, in the table. -/
def Stage.nascent : Stage → Option Loaded
  | .init p _ | .deactivateLoad p _ | .pushBack p _ | .destroy .rollback p
  | .deactivate .rollback p | .retire .rollback p | .wait .rollback p | .poll .rollback p
  | .removeOwner .rollback p | .closeLibrary .rollback p => some p
  | _ => none

/-- The plugin that `createPlugin` is still to be called for. -/
def Stage.unborn : Stage → Option Loaded
  | .activateLoad p _ | .createPlugin p _ => some p
  | _ => none

/-- The call makes no instance and concerns none. -/
def Call.quiet : Call → Bool
  | .opened _ | .closed _ => true
  | .created _ _ ok => !ok
  | _ => false

def Loaded.source (p : Loaded) : OwnerId × Nat := (p.owner, p.handle)

theorem instanceCalls_append (o : OwnerId) (calls new : List Call) :
    instanceCalls o (calls ++ new) = instanceCalls o calls ++ instanceCalls o new :=
  List.filterMap_append ..

theorem instanceCalls_quiet (o : OwnerId) {new : List Call} (quiet : ∀ c ∈ new, c.quiet) :
    instanceCalls o new = [] := by
  rw [instanceCalls, List.filterMap_eq_nil_iff]
  intro c found
  have silent := quiet c found
  cases c with
  | opened | created | closed => rfl
  | _ => cases silent

/-- A call concerns the instance of one owner. -/
theorem Call.toInstance_other {c : Call} {o i : OwnerId} {call : InstanceCall}
    (own : c.toInstance o = some call) (other : i ≠ o) : c.toInstance i = none := by
  cases c with
  | opened | created | closed => rfl
  | init owner ok | start owner ok | stop owner ok | destroy owner ok =>
    by_cases same : owner = o
    · rw [Call.toInstance, if_neg (fun again => other (again.symm.trans same))]
    · rw [Call.toInstance, if_neg same] at own
      cases own

namespace System

variable {τ : Type*}

/-- The instances that exist, each with its library. -/
def instances (s : System τ) : List (OwnerId × Nat) :=
  s.plugins.map Loaded.source ++ (s.stage.nascent.map Loaded.source).toList

theorem setStarted_sources (s : System τ) (index : Nat) (started : Bool) :
    (s.setStarted index started).plugins.map Loaded.source = s.plugins.map Loaded.source := by
  apply List.ext_getElem?
  intro i
  simp only [setStarted, List.getElem?_map, List.getElem?_modify]
  by_cases same : index = i
  · cases s.plugins[i]? <;> simp [same, Loaded.source]
  · cases s.plugins[i]? <;> simp [same]

/-- The calls on each created instance are in order, up to its phase. -/
structure Phased (s : System τ) : Prop where
  ordered : ∀ o, s.Created o → Phase.after (instanceCalls o s.calls) = some (s.phase o)
  silent : ∀ o, ¬s.Created o → instanceCalls o s.calls = []
  made : ∀ x ∈ s.instances, .created x.1 x.2 true ∈ s.calls
  given : ∀ o, s.Created o → o < s.host.nextOwner
  unborn : ∀ p, s.stage.unborn = some p → ¬s.Created p.owner

theorem phased_initial : Phased (initial : System τ) where
  ordered o created := by simp [Created, initial] at created
  silent o _ := rfl
  made x found := by simp [instances, initial, Stage.nascent] at found
  given o created := by simp [Created, initial] at created
  unborn p found := by simp [initial, Stage.unborn] at found

theorem created_append {s s' : System τ} {new : List Call} (calls : s'.calls = s.calls ++ new)
    (quiet : ∀ o handle, .created o handle true ∉ new) (o : OwnerId) :
    s'.Created o ↔ s.Created o := by
  simp only [Created, calls, List.mem_append, quiet, or_false]

theorem not_created_quiet {new : List Call} (quiet : ∀ c ∈ new, c.quiet) (o : OwnerId)
    (handle : Nat) : .created o handle true ∉ new := by
  intro found
  cases quiet _ found

/-- A step that calls no instance and leaves every instance in its phase. -/
theorem Phased.keep {s s' : System τ} (inv : Phased s) (new : List Call)
    (calls : s'.calls = s.calls ++ new) (quiet : ∀ c ∈ new, c.quiet)
    (phase : ∀ o, s.Created o → s'.phase o = s.phase o)
    (instances : s'.instances ⊆ s.instances)
    (nextOwner : s'.host.nextOwner = s.host.nextOwner)
    (unborn : s'.stage.unborn = none ∨ s'.stage.unborn = s.stage.unborn) : Phased s' := by
  have created := created_append calls (not_created_quiet quiet)
  have same (o : OwnerId) : instanceCalls o s'.calls = instanceCalls o s.calls := by
    rw [calls, instanceCalls_append, instanceCalls_quiet o quiet, List.append_nil]
  constructor
  · intro o made
    have before := (created o).mp made
    rw [same, phase o before]
    exact inv.ordered o before
  · intro o absent
    rw [same]
    exact inv.silent o (fun made => absent ((created o).mpr made))
  · intro x found
    rw [calls]
    exact List.mem_append_left _ (inv.made x (instances found))
  · intro o made
    rw [nextOwner]
    exact inv.given o ((created o).mp made)
  · intro p found made
    rcases unborn with none | same
    · simp [none] at found
    · exact inv.unborn p (same ▸ found) ((created p.owner).mp made)

/-- A call of a function of an instance. -/
theorem Phased.called {s s' : System τ} (inv : Phased s) (c : Call) {o : OwnerId}
    {call : InstanceCall} (calls : s'.calls = s.calls ++ [c]) (own : c.toInstance o = some call)
    (created : s.Created o) (step : (s.phase o).next call = some (s'.phase o))
    (others : ∀ i ≠ o, s'.phase i = s.phase i) (instances : s'.instances ⊆ s.instances)
    (nextOwner : s'.host.nextOwner = s.host.nextOwner)
    (unborn : s'.stage.unborn = none) : Phased s' := by
  have made_before (i : OwnerId) : s'.Created i ↔ s.Created i := by
    apply created_append calls
    intro i handle found
    rw [← List.mem_singleton.mp found] at own
    cases own
  constructor
  · intro i made
    have before := (made_before i).mp made
    by_cases same : i = o
    · subst same
      have one : instanceCalls i [c] = [call] := by simp [instanceCalls, own]
      rw [calls, instanceCalls_append, one, Phase.after_snoc (inv.ordered i before)]
      exact step
    · have none : instanceCalls i [c] = [] := by
        simp [instanceCalls, Call.toInstance_other own same]
      rw [calls, instanceCalls_append, none, List.append_nil, others i same]
      exact inv.ordered i before
  · intro i absent
    have before : ¬s.Created i := fun made => absent ((made_before i).mpr made)
    have other : i ≠ o := by
      rintro rfl
      exact before created
    have none : instanceCalls i [c] = [] := by
      simp [instanceCalls, Call.toInstance_other own other]
    rw [calls, instanceCalls_append, none, List.append_nil]
    exact inv.silent i before
  · intro x found
    rw [calls]
    exact List.mem_append_left _ (inv.made x (instances found))
  · intro i made
    rw [nextOwner]
    exact inv.given i ((made_before i).mp made)
  · intro p found
    simp [unborn] at found

/-- The phase that a stage without a say leaves to the table. -/
theorem phase_congr {s s' : System τ} {o : OwnerId} (stage : s'.stage.phase o = s.stage.phase o)
    (table : s'.started? o = s.started? o) : s'.phase o = s.phase o := by
  rw [phase, phase, stage, table]

theorem phase_of_stage {s : System τ} {o : OwnerId} {ph : Phase} (h : s.stage.phase o = some ph) :
    s.phase o = ph := by
  rw [phase, h]

theorem phase_of_table {s : System τ} {o : OwnerId} {started : Bool}
    (free : s.stage.phase o = none) (table : s.started? o = some started) :
    s.phase o = if started then .running else .stopped := by
  rw [phase, free, table]
  cases started <;> rfl

theorem phase_of_absent {s : System τ} {o : OwnerId} (free : s.stage.phase o = none)
    (table : s.started? o = none) : s.phase o = .gone := by
  rw [phase, free, table]

/-- One instance stays in its phase, and nothing changes for the others. -/
theorem phase_handed {s s' : System τ} (owner : OwnerId) (here : s'.phase owner = s.phase owner)
    (stage : ∀ o ≠ owner, s'.stage.phase o = s.stage.phase o)
    (table : ∀ o ≠ owner, s'.started? o = s.started? o) (o : OwnerId) :
    s'.phase o = s.phase o := by
  by_cases own : o = owner
  · rw [own]
    exact here
  · exact phase_congr (stage o own) (table o own)

theorem quiescent_phase (s : System τ) {exit : Exit} {p : Loaded}
    (before : s.stage = .wait exit p ∨ s.stage = .poll exit p) (o : OwnerId) :
    (s.quiescent exit p).phase o = s.phase o := by
  have free : s.stage.phase o = none := by
    rcases before with h | h <;> rw [h] <;> rfl
  apply phase_congr
  · rw [free]
    cases exit with
    | unload index =>
      simp only [System.quiescent]
      split <;> rfl
    | _ => rfl
  · cases exit <;> rfl

theorem quiescent_instances (s : System τ) {exit : Exit} {p : Loaded}
    (before : s.stage = .wait exit p ∨ s.stage = .poll exit p) :
    (s.quiescent exit p).instances = s.instances := by
  have nascent : (s.quiescent exit p).stage.nascent = s.stage.nascent := by
    cases exit with
    | unload index =>
      simp only [System.quiescent]
      rcases before with h | h <;> rw [h] <;> split <;> rfl
    | _ => rcases before with h | h <;> rw [h] <;> rfl
  have plugins : (s.quiescent exit p).plugins = s.plugins := by cases exit <;> rfl
  rw [instances, instances, nascent, plugins]

/-- A step that moves from stage to stage without a call, and leaves the table alone. -/
theorem Phased.move {s s' : System τ} (inv : Phased s) (new : List Call)
    (calls : s'.calls = s.calls ++ new) (quiet : ∀ c ∈ new, c.quiet)
    (plugins : s'.plugins = s.plugins) (nextOwner : s'.host.nextOwner = s.host.nextOwner)
    (phase : ∀ o, s'.stage.phase o = s.stage.phase o)
    (nascent : s'.stage.nascent = none ∨ s'.stage.nascent = s.stage.nascent)
    (unborn : s'.stage.unborn = none ∨ s'.stage.unborn = s.stage.unborn) : Phased s' := by
  refine inv.keep new calls quiet (fun o _ => phase_congr (phase o) ?_) ?_ nextOwner unborn
  · rw [started?, started?, plugins]
  · rw [instances, instances, plugins]
    rcases nascent with none | same
    · simp [none]
    · rw [same]
      exact List.Subset.refl _

theorem Phased.quiescent {s : System τ} (inv : Phased s) (exit : Exit) (p : Loaded)
    (before : s.stage = .wait exit p ∨ s.stage = .poll exit p) : Phased (s.quiescent exit p) := by
  refine inv.keep [] ?_ (by simp) (fun o _ => s.quiescent_phase before o) ?_ ?_ ?_
  · cases exit <;> exact (List.append_nil _).symm
  · rw [s.quiescent_instances before]
    exact List.Subset.refl _
  · cases exit <;> rfl
  · cases exit with
    | unload index =>
      simp only [System.quiescent]
      split <;> exact .inl rfl
    | _ => exact .inl rfl

/-- The plugin that the stage copied from the table, by its owner. -/
theorem Owners.flag {s : System τ} (owners : Owners s) (copies : s.Copies) {index : Nat}
    {p : Loaded} (copied : s.stage.copied = some (index, p)) :
    s.ids[index]? = some p.owner ∧ s.started? p.owner = some p.started := by
  have found := copies index p copied
  exact ⟨ids_of_getElem? s index p found, started?_eq owners.distinct found⟩

/-- A created instance is born: its first phase begins. -/
theorem Phased.created {s : System τ} (inv : Phased s) (owners : Owners s) (p : Loaded)
    (thenStart : Bool) (before : s.stage = .createPlugin p thenStart) :
    Phased { s with
      stage := .init p thenStart
      calls := s.calls ++ [.created p.owner p.handle true] } := by
  have new := inv.unborn p (by rw [before]; rfl)
  have given := (owners.loading p (by rw [before]; rfl)).2.1
  have same (o : OwnerId) : instanceCalls o (s.calls ++ [.created p.owner p.handle true]) =
      instanceCalls o s.calls := by
    rw [instanceCalls_append]
    exact List.append_nil _
  have made_before (o : OwnerId) (other : o ≠ p.owner)
      (made : Created { s with
        stage := .init p thenStart
        calls := s.calls ++ [.created p.owner p.handle true] } o) : s.Created o := by
    obtain ⟨handle, found⟩ := made
    rcases List.mem_append.mp found with old | last
    · exact ⟨handle, old⟩
    · have own : o = p.owner := by
        have equal := List.mem_singleton.mp last
        injection equal
      exact absurd own other
  constructor
  · intro o made
    dsimp only
    rw [same]
    by_cases own : o = p.owner
    · subst own
      have born : (Stage.init p thenStart).phase p.owner = some .created := by
        simp [Stage.phase]
      rw [inv.silent _ new, phase_of_stage born]
      rfl
    · have before_made := made_before o own made
      have other : ¬p.owner = o := fun again => own again.symm
      rw [inv.ordered o before_made]
      apply congrArg some
      symm
      apply phase_congr
      · simp [Stage.phase, before, other]
      · rfl
  · intro o absent
    dsimp only
    rw [same]
    apply inv.silent
    rintro ⟨handle, found⟩
    exact absent ⟨handle, List.mem_append_left _ found⟩
  · intro x found
    have split : x ∈ s.plugins.map Loaded.source ∨ x = p.source := by
      simpa [instances, Stage.nascent] using found
    rcases split with old | rfl
    · exact List.mem_append_left _ (inv.made x (List.mem_append_left _ old))
    · exact List.mem_append_right _ (List.mem_singleton.mpr rfl)
  · intro o made
    by_cases own : o = p.owner
    · rw [own]
      exact given
    · exact inv.given o (made_before o own made)
  · intro q found
    simp [Stage.unborn] at found

/-- The plugin whose instance exists was created. -/
theorem Phased.created_nascent {s : System τ} (inv : Phased s) {p : Loaded}
    (nascent : s.stage.nascent = some p) : s.Created p.owner := by
  have found : p.source ∈ s.instances := by simp [instances, nascent]
  exact ⟨p.handle, inv.made p.source found⟩

theorem Phased.created_copied {s : System τ} (inv : Phased s) (copies : s.Copies) {index : Nat}
    {p : Loaded} (copied : s.stage.copied = some (index, p)) : s.Created p.owner := by
  have member : p ∈ s.plugins := List.mem_of_getElem? (copies index p copied)
  have found : p.source ∈ s.instances :=
    List.mem_append_left _ (List.mem_map.mpr ⟨p, member, rfl⟩)
  exact ⟨p.handle, inv.made p.source found⟩

/-- The phase of a plugin that the stage works with is its flag. -/
theorem Owners.phase_copied {s : System τ} (owners : Owners s) (copies : s.Copies) {index : Nat}
    {p : Loaded} (copied : s.stage.copied = some (index, p))
    (free : s.stage.phase p.owner = none) :
    s.phase p.owner = if p.started then .running else .stopped :=
  phase_of_table free (owners.flag copies copied).2

/-- `init` returns. -/
theorem Phased.inited {s : System τ} (inv : Phased s) {p : Loaded} {thenStart : Bool}
    (before : s.stage = .init p thenStart) (ok : Bool) (stage : Stage)
    (phase : stage.phase p.owner = some (if ok then .stopped else .refused))
    (nascent : stage.nascent = some p) (unborn : stage.unborn = none)
    (others : ∀ i ≠ p.owner, stage.phase i = none) :
    Phased { s with stage := stage, calls := s.calls ++ [.init p.owner ok] } := by
  have now : s.phase p.owner = .created := phase_of_stage (by simp [before, Stage.phase])
  have made := inv.created_nascent (p := p) (by rw [before]; rfl)
  refine inv.called (.init p.owner ok) rfl (by simp [Call.toInstance]; rfl) made ?_
    (fun i other => ?_) ?_ rfl unborn
  · rw [now, phase_of_stage phase]
    cases ok <;> rfl
  · apply phase_congr
    · rw [others i other, before]
      simp [Stage.phase, other.symm]
    · rfl
  · have kept : stage.nascent = s.stage.nascent := by
      rw [nascent, before]
      rfl
    simp [instances, kept]

/-- `stop` returns, and the flag is reset. -/
theorem Phased.halted {s : System τ} (inv : Phased s) (owners : Owners s) (copies : s.Copies)
    {index : Nat} {p : Loaded} (copied : s.stage.copied = some (index, p))
    (on : p.started = true) (free : ∀ o, s.stage.phase o = none) (ok : Bool) (stage : Stage)
    (phase : ∀ o, stage.phase o = none) (nascent : stage.nascent = none)
    (unborn : stage.unborn = none) :
    Phased { s.setStarted index false with
      stage := stage
      calls := s.calls ++ [.stop p.owner ok] } := by
  have place := (owners.flag copies copied).1
  have now : s.phase p.owner = .running := by
    rw [owners.phase_copied copies copied (free _), on]
    rfl
  have made := inv.created_copied copies copied
  have turned (i : OwnerId) := started?_setStarted owners.distinct place false i
  refine inv.called (.stop p.owner ok) rfl (by simp [Call.toInstance]; rfl) made ?_
    (fun i other => ?_) ?_ rfl unborn
  · have off := (turned p.owner).trans (if_pos rfl)
    have after := phase_of_table (s := { s.setStarted index false with
      stage := stage, calls := s.calls ++ [.stop p.owner ok] }) (phase p.owner) off
    rw [now, after]
    rfl
  · apply phase_congr
    · rw [phase, free]
    · exact (turned i).trans (if_neg other)
  · simp [instances, nascent, setStarted_sources]

/-- The plugin goes into the table. -/
theorem Phased.pushed {s : System τ} (inv : Phased s) (owners : Owners s) {p : Loaded}
    {thenStart : Bool} (before : s.stage = .pushBack p thenStart) (flag : p.started = false)
    (jobs : List Job) :
    Phased { s with plugins := s.plugins ++ [p], stage := .ready, jobs := jobs } := by
  have absent := (owners.loading p (by rw [before]; rfl)).2.2.2.2
  have table (o : OwnerId) := started?_append (s := s) (t := { s with
    plugins := s.plugins ++ [p], stage := .ready, jobs := jobs }) rfl absent o
  refine inv.keep [] (List.append_nil _).symm (by simp) (fun o _ => ?_) ?_ rfl (.inl rfl)
  · refine phase_handed p.owner ?_ (fun i other => ?_) (fun i other => ?_) o
    · rw [phase_of_table rfl ((table p.owner).trans (if_pos rfl)), flag]
      exact (phase_of_stage (by simp [before, Stage.phase])).symm
    · simp [before, Stage.phase, other.symm]
    · exact (table i).trans (if_neg other)
  · simp [instances, before, Stage.nascent]

/-- `start` returns. -/
theorem Phased.begun {s : System τ} (inv : Phased s) (owners : Owners s) (copies : s.Copies)
    {index : Nat} {p : Loaded} (before : s.stage = .start index p) (flag : p.started = false)
    (ok : Bool) :
    Phased { s with
      stage := .deactivateStart index p ok
      calls := s.calls ++ [.start p.owner ok] } := by
  have table := (owners.flag copies (p := p) (by rw [before]; rfl)).2
  have now : s.phase p.owner = .stopped := by
    rw [owners.phase_copied copies (p := p) (by rw [before]; rfl) (by rw [before]; rfl), flag]
    rfl
  have made := inv.created_copied copies (p := p) (by rw [before]; rfl)
  refine inv.called (.start p.owner ok) rfl (by simp [Call.toInstance]; rfl) made ?_
    (fun i other => ?_) ?_ rfl rfl
  · rw [now]
    cases ok with
    | true => exact congrArg some (phase_of_stage (by simp [Stage.phase])).symm
    | false =>
      apply congrArg some
      symm
      have same : started? { s with
          stage := .deactivateStart index p false
          calls := s.calls ++ [.start p.owner false] } p.owner = some p.started := table
      rw [phase_of_table rfl same, flag]
      rfl
  · apply phase_congr
    · cases ok <;> simp [before, Stage.phase, other.symm]
    · rfl
  · simp [instances, before, Stage.nascent]

/-- `destroy` returns, for an instance in the table. -/
theorem Phased.finished {s : System τ} (inv : Phased s) (owners : Owners s) (copies : s.Copies)
    {index : Nat} {p : Loaded} (before : s.stage = .destroy (.unload index) p) (ok : Bool) :
    Phased { s with
      stage := .removeOwner (.unload index) p
      live := s.live.filter (· ≠ p.owner)
      calls := s.calls ++ [.destroy p.owner ok] } := by
  have now : s.phase p.owner = .stopped :=
    owners.phase_copied copies (p := { p with started := false }) (by rw [before]; rfl)
      (by rw [before]; rfl)
  have made : s.Created p.owner :=
    inv.created_copied copies (p := { p with started := false }) (by rw [before]; rfl)
  refine inv.called (.destroy p.owner ok) rfl (by simp [Call.toInstance]; rfl) made ?_
    (fun i other => ?_) ?_ rfl rfl
  · rw [now]
    exact congrArg some (phase_of_stage (by simp [Stage.phase])).symm
  · apply phase_congr
    · simp [before, Stage.phase, other.symm]
    · rfl
  · simp [instances, before, Stage.nascent]

/-- `destroy` returns, for an instance whose `init` failed. -/
theorem Phased.undone {s : System τ} (inv : Phased s) (owners : Owners s) {p : Loaded}
    (before : s.stage = .destroy .rollback p) (ok : Bool) :
    Phased { s with
      stage := .deactivate .rollback p
      live := s.live.filter (· ≠ p.owner)
      calls := s.calls ++ [.destroy p.owner ok] } := by
  have absent := (owners.loading p (by rw [before]; rfl)).2.2.2.2
  have now : s.phase p.owner = .refused := phase_of_stage (by simp [before, Stage.phase])
  have made := inv.created_nascent (p := p) (by rw [before]; rfl)
  refine inv.called (.destroy p.owner ok) rfl (by simp [Call.toInstance]; rfl) made ?_
    (fun i other => ?_) ?_ rfl rfl
  · have left : started? { s with
        stage := .deactivate .rollback p
        live := s.live.filter (· ≠ p.owner)
        calls := s.calls ++ [.destroy p.owner ok] } p.owner = none := started?_none absent
    rw [now]
    exact congrArg some (phase_of_absent rfl left).symm
  · apply phase_congr
    · simp [before, Stage.phase, other.symm]
    · rfl
  · simp [instances, before, Stage.nascent]

/-- The plugin leaves the table. -/
theorem Phased.erased {s : System τ} (inv : Phased s) (owners : Owners s) (copies : s.Copies)
    {index : Nat} {p : Loaded} (before : s.stage = .closeLibrary (.unload index) p) :
    Phased { s with
      plugins := s.plugins.eraseIdx index
      stage := .ready
      calls := s.calls ++ [.closed p.handle] } := by
  have place := (owners.flag copies (p := { p with started := false }) (by rw [before]; rfl)).1
  have table (o : OwnerId) := started?_erase (t := { s with
    plugins := s.plugins.eraseIdx index
    stage := .ready
    calls := s.calls ++ [.closed p.handle] }) owners.distinct place rfl o
  refine inv.keep [_] rfl (by simp [Call.quiet]) (fun o _ => ?_) ?_ rfl (.inl rfl)
  · refine phase_handed p.owner ?_ (fun i other => ?_) (fun i other => ?_) o
    · rw [phase_of_absent rfl ((table p.owner).trans (if_pos rfl))]
      exact (phase_of_stage (by simp [before, Stage.phase])).symm
    · simp [before, Stage.phase, other.symm]
    · exact (table i).trans (if_neg other)
  · intro x found
    have kept : x ∈ (s.plugins.map Loaded.source).eraseIdx index := by
      simpa [instances, Stage.nascent, List.eraseIdx_map] using found
    exact List.mem_append_left _ ((List.eraseIdx_sublist _ _).subset kept)

/-- The flag is set, after the call of `start`. -/
theorem Phased.flagged {s : System τ} (inv : Phased s) (owners : Owners s) (copies : s.Copies)
    {index : Nat} {p : Loaded} (before : s.stage = .deactivateStart index p true) :
    Phased { s.setStarted index true with
      host := s.host.setActiveOwner 0
      stage := .ready } := by
  have place := (owners.flag copies (p := p) (by rw [before]; rfl)).1
  have turned (o : OwnerId) := started?_setStarted owners.distinct place true o
  refine inv.keep [] (List.append_nil _).symm (by simp) (fun o _ => ?_) ?_ rfl (.inl rfl)
  · refine phase_handed p.owner ?_ (fun i other => ?_) (fun i other => ?_) o
    · have on := (turned p.owner).trans (if_pos rfl)
      have after := phase_of_table (s := { s.setStarted index true with
        host := s.host.setActiveOwner 0, stage := .ready }) rfl on
      rw [after]
      exact (phase_of_stage (by simp [before, Stage.phase])).symm
    · simp [before, Stage.phase, other.symm]
    · exact (turned i).trans (if_neg other)
  · simp [instances, before, Stage.nascent, setStarted_sources]

theorem Phased.local {s s' : System τ} (inv : Phased s) (owners : Owners s) (copies : s.Copies)
    (flagged : s.stage.Flagged) (h : Local s s') : Phased s' := by
  have silent : s.calls = s.calls ++ [] := (List.append_nil _).symm
  cases h with
  | taken _ before taken =>
    cases taken with
    | done jobs => exact inv.move [] silent (by simp) rfl rfl (fun _ => rfl) (.inr rfl) (.inr rfl)
    | _ =>
      refine inv.move [] silent (by simp) rfl rfl (fun o => ?_) (.inl rfl) (.inl rfl)
      rw [before]
      rfl
  | opened path configPath thenStart before =>
    refine inv.move [_] rfl (by simp [Call.quiet]) rfl rfl (fun o => ?_) (.inl rfl) (.inl rfl)
    rw [before]
    rfl
  | unopened path configPath thenStart before =>
    refine inv.move [] silent (by simp) rfl rfl (fun o => ?_) (.inl rfl) (.inl rfl)
    rw [before]
    rfl
  | inspected handle path configPath thenStart info before =>
    refine inv.move [] silent (by simp) rfl rfl (fun o => ?_) (.inl rfl) (.inl rfl)
    rw [before]
    rfl
  | rejected handle path configPath thenStart before =>
    refine inv.move [] silent (by simp) rfl rfl (fun o => ?_) (.inl rfl) (.inl rfl)
    rw [before]
    rfl
  | skipped handle before =>
    refine inv.move [_] rfl (by simp [Call.quiet]) rfl rfl (fun o => ?_) (.inl rfl) (.inl rfl)
    rw [before]
    rfl
  | created p thenStart before => exact inv.created owners p thenStart before
  | uncreated p thenStart before =>
    refine inv.move [_] rfl (by simp [Call.quiet]) rfl rfl (fun o => ?_) (.inl rfl) (.inl rfl)
    rw [before]
    rfl
  | initialized p thenStart before =>
    exact inv.inited before true (.deactivateLoad p thenStart) (by simp [Stage.phase]) rfl rfl
      (fun i other => by simp [Stage.phase, other.symm])
  | uninitialized p thenStart before =>
    exact inv.inited before false (.destroy .rollback p) (by simp [Stage.phase]) rfl rfl
      (fun i other => by simp [Stage.phase, other.symm])
  | pushed p thenStart jobs before =>
    rw [before] at flagged
    exact inv.pushed owners before flagged jobs
  | started index p ok before =>
    rw [before] at flagged
    exact inv.begun owners copies before flagged ok
  | stopped index p ok before =>
    have on : p.started = true := by
      rw [before] at flagged
      exact flagged
    exact inv.halted owners copies (by rw [before]; rfl) on (fun o => by rw [before]; rfl) ok .ready
      (fun _ => rfl) rfl rfl
  | waiting exit p before =>
    refine inv.move [] silent (by simp) rfl rfl (fun o => ?_) (.inr ?_) (.inl rfl)
    · rw [before]
      rfl
    · rw [before]
      cases exit <;> rfl
  | unknown exit p before => exact inv.quiescent exit p (.inl before)
  | yielded exit p before => exact inv
  | drained exit p before => exact inv.quiescent exit p (.inr before)
  | stoppedUnload index p ok before =>
    have on : p.started = true := by
      rw [before] at flagged
      exact flagged
    exact inv.halted owners copies (by rw [before]; rfl) on (fun o => by rw [before]; rfl) ok
      (.destroy (.unload index) p) (fun _ => rfl) rfl rfl
  | destroyed index p ok before => exact inv.finished owners copies before ok
  | rolledBack exit p ok before loading =>
    cases exit with
    | unload index => exact absurd rfl (loading index)
    | abandon =>
      rw [before] at flagged
      exact flagged.elim
    | rollback => exact inv.undone owners before ok
  | closed index p before => exact inv.erased owners copies before
  | dropped exit p before loading =>
    cases exit with
    | unload index => exact absurd rfl (loading index)
    | _ =>
      refine inv.move [_] rfl (by simp [Call.quiet]) rfl rfl (fun o => ?_) (.inl rfl) (.inl rfl)
      rw [before]
      rfl

theorem Phased.exclusive {s s' : System τ} (inv : Phased s) (owners : Owners s)
    (copies : s.Copies) (flagged : s.stage.Flagged) (h : Exclusive s s') : Phased s' := by
  have silent : s.calls = s.calls ++ [] := (List.append_nil _).symm
  cases h with
  | createOwner handle id path configPath thenStart before =>
    have above (o : OwnerId) (made : s.Created o) : o < s.host.createOwner.2.nextOwner := by
      rw [PluginHost.createOwner_nextOwner]
      exact Nat.lt_succ_of_lt (inv.given o made)
    have phases (o : OwnerId) : phase { s with
        host := s.host.createOwner.2
        stage := .activateLoad ⟨handle, id, false, path, configPath, s.host.nextOwner⟩
          thenStart } o = s.phase o := by
      apply phase_congr
      · rw [before]
        rfl
      · rfl
    refine ⟨fun o made => ?_, inv.silent, fun x found => ?_, above, fun p found => ?_⟩
    · rw [phases]
      exact inv.ordered o made
    · apply inv.made x
      simpa [instances, before, Stage.nascent] using found
    · have fresh : s.host.nextOwner = p.owner := by
        have equal := Option.some.inj found
        rw [← equal]
      rw [← fresh]
      exact fun made => absurd (inv.given _ made) (Nat.lt_irrefl _)
  | activateLoad p thenStart before =>
    refine inv.move [] silent (by simp) rfl rfl (fun o => ?_) (.inl rfl) (.inr ?_)
    · rw [before]
      rfl
    · rw [before]
      rfl
  | deactivateLoad p thenStart before =>
    refine inv.move [] silent (by simp) rfl rfl (fun o => ?_) (.inr ?_) (.inl rfl)
    · rw [before]
      rfl
    · rw [before]
      rfl
  | activateStart index p before =>
    refine inv.move [] silent (by simp) rfl rfl (fun o => ?_) (.inl rfl) (.inl rfl)
    rw [before]
    rfl
  | started index p before => exact inv.flagged owners copies before
  | unstarted index p before =>
    refine inv.move [] silent (by simp) rfl rfl (fun o => ?_) (.inl rfl) (.inl rfl)
    rw [before]
    rfl
  | rollback p before =>
    refine inv.move [] silent (by simp) rfl rfl (fun o => ?_) (.inr ?_) (.inl rfl)
    · rw [before]
      rfl
    · rw [before]
      rfl
  | abandon exit p before other =>
    cases exit with
    | unload index =>
      rw [before] at flagged
      exact flagged.elim
    | abandon =>
      refine inv.move [] silent (by simp) rfl rfl (fun o => ?_) (.inl rfl) (.inl rfl)
      rw [before]
      rfl
    | rollback => exact absurd rfl other
  | retire exit p before =>
    refine inv.move [] silent (by simp) rfl (PluginHost.retireOwner_nextOwner _ _) (fun o => ?_)
      (.inr ?_) (.inl rfl)
    · rw [before]
      rfl
    · rw [before]
      cases exit <;> rfl
  | removeOwner exit p before =>
    refine inv.move [] silent (by simp) rfl (PluginHost.removeOwner_nextOwner _ _) (fun o => ?_)
      (.inr ?_) (.inl rfl)
    · rw [before]
      cases exit <;> rfl
    · rw [before]
      cases exit <;> rfl

end System

end IndustrialRuntime.Core.PluginManager
