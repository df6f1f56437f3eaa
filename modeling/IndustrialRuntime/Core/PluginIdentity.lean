import IndustrialRuntime.Core.RegistrationOwners
import IndustrialRuntime.Core.Reroute

namespace IndustrialRuntime.Core.PluginManager

/-- The path of the library that joins the table if the load in progress succeeds. -/
def Stage.incoming : Stage → Option Bytes
  | .openLibrary path _ _ | .inspect _ path _ _ | .createOwner _ _ path _ _ => some path
  | .activateLoad p _ | .createPlugin p _ | .init p _ | .deactivateLoad p _ | .pushBack p _ =>
    some p.path
  | _ => none

/-- The index of the entry that leaves the table. -/
def Stage.leaving : Stage → Option Nat
  | .stopUnload index _ => some index
  | .deactivate exit _ | .retire exit _ | .wait exit _ | .poll exit _ | .destroy exit _
  | .removeOwner exit _ | .closeLibrary exit _ =>
    match exit with
    | .unload index => some index
    | _ => none
  | _ => none

def Job.isLoad : Job → Bool
  | .load .. => true
  | _ => false

namespace System

variable {τ : Type*}

def paths (s : System τ) : List Bytes := s.plugins.map Loaded.path

/-- A `reload` between its first step and the opening of the library. -/
inductive Reloading (s : System τ) : Prop where
  | queued (index : Nat) (path configPath : Bytes) (thenStart : Bool) (stage : s.stage = .ready)
      (jobs : s.jobs = [.unload index, .load path configPath thenStart])
      (place : s.paths[index]? = some path)
  | unloading (index : Nat) (path configPath : Bytes) (thenStart : Bool)
      (stage : s.stage.leaving = some index) (jobs : s.jobs = [.load path configPath thenStart])
      (place : s.paths[index]? = some path)
  | unloaded (path configPath : Bytes) (thenStart : Bool) (stage : s.stage = .ready)
      (jobs : s.jobs = [.load path configPath thenStart]) (gone : path ∉ s.paths)

/-- The loaded plugins have different paths, and a path that is being loaded is not loaded: it
was looked up before, or it is the path of the entry that a `reload` has just unloaded. -/
structure PathsDistinct (s : System τ) : Prop where
  paths : s.paths.Nodup
  incoming : ∀ path, s.stage.incoming = some path → path ∉ s.paths
  jobs : (∀ job ∈ s.jobs, ¬job.isLoad) ∨ s.Reloading

theorem pathsDistinct_initial : PathsDistinct (initial : System τ) where
  paths := List.nodup_nil
  incoming path found := by simp [initial, Stage.incoming] at found
  jobs := .inl (by simp [initial])

@[simp] theorem setStarted_paths (s : System τ) (index : Nat) (started : Bool) :
    (s.setStarted index started).paths = s.paths := by
  apply List.ext_getElem?
  intro i
  simp only [paths, setStarted, List.getElem?_map, List.getElem?_modify]
  by_cases same : index = i
  · cases s.plugins[i]? <;> simp [same]
  · cases s.plugins[i]? <;> simp [same]

theorem isLoadedPathLocked_iff (s : System τ) (path : Bytes) :
    s.isLoadedPathLocked path ↔ path ∈ s.paths := by
  rw [isLoadedPathLocked, paths, List.any_eq_true, List.mem_map]
  simp

/-- A step from one stage to the next of the same routine. -/
theorem PathsDistinct.next {s s' : System τ} (inv : PathsDistinct s) (busy : s.stage ≠ .ready)
    (paths : s'.paths = s.paths) (jobs : s'.jobs = s.jobs)
    (incoming : s'.stage.incoming = none ∨ s'.stage.incoming = s.stage.incoming)
    (leaving : s'.stage.leaving = s.stage.leaving) : PathsDistinct s' where
  paths := by
    rw [paths]
    exact inv.paths
  incoming path found := by
    rw [paths]
    rcases incoming with none | same
    · simp [none] at found
    · exact inv.incoming path (same ▸ found)
  jobs := by
    rcases inv.jobs with calm | reloading
    · rw [jobs]
      exact .inl calm
    · cases reloading with
      | queued _ _ _ _ stage => exact absurd stage busy
      | unloaded _ _ _ stage => exact absurd stage busy
      | unloading index path configPath thenStart stage queue place =>
        exact .inr (.unloading index path configPath thenStart (leaving.trans stage)
          (jobs.trans queue) (paths ▸ place))

/-- No load is queued while something is loaded or started. -/
theorem PathsDistinct.calm {s : System τ} (inv : PathsDistinct s) (busy : s.stage ≠ .ready)
    (staying : s.stage.leaving = none) : ∀ job ∈ s.jobs, ¬job.isLoad := by
  rcases inv.jobs with calm | reloading
  · exact calm
  · cases reloading with
    | queued _ _ _ _ stage => exact absurd stage busy
    | unloaded _ _ _ stage => exact absurd stage busy
    | unloading _ _ _ _ stage =>
      rw [staying] at stage
      contradiction

theorem PathsDistinct.takeJob {s s' : System τ} (inv : PathsDistinct s) (ready : s.stage = .ready)
    (h : s.takeJob = some s') : PathsDistinct s' := by
  have idle {path : Bytes} (found : Stage.incoming .ready = some path) : path ∉ s.paths := by
    simp [Stage.incoming] at found
  rcases inv.jobs with calm | reloading
  · unfold System.takeJob at h
    cases jobs : s.jobs with
    | nil => simp [jobs] at h
    | cons job rest =>
      have later : ∀ job ∈ rest, ¬job.isLoad := by
        rw [jobs] at calm
        exact fun job found => calm job (List.mem_cons_of_mem _ found)
      cases job with
      | load path configPath thenStart =>
        exact absurd rfl (calm (.load path configPath thenStart) (by simp [jobs]))
      | discover path configPath thenStart =>
        simp only [jobs] at h
        split_ifs at h with loaded
        · obtain rfl := Option.some.inj h
          exact ⟨inv.paths, inv.incoming, .inl later⟩
        · obtain rfl := Option.some.inj h
          refine ⟨inv.paths, fun other found => ?_, .inl later⟩
          obtain rfl : path = other := by simpa [Stage.incoming] using found
          exact fun present => loaded ((s.isLoadedPathLocked_iff path).mpr present)
      | start index =>
        simp only [jobs] at h
        obtain ⟨p, found, rfl⟩ := Option.map_eq_some_iff.mp h
        split_ifs
        · exact ⟨inv.paths, inv.incoming, .inl later⟩
        · exact ⟨inv.paths, by simp [Stage.incoming], .inl later⟩
      | stop index =>
        simp only [jobs] at h
        obtain ⟨p, found, rfl⟩ := Option.map_eq_some_iff.mp h
        split_ifs
        · exact ⟨inv.paths, by simp [Stage.incoming], .inl later⟩
        · exact ⟨inv.paths, inv.incoming, .inl later⟩
      | unload index =>
        simp only [jobs] at h
        obtain ⟨p, found, rfl⟩ := Option.map_eq_some_iff.mp h
        exact ⟨inv.paths, by simp [Stage.incoming], .inl later⟩
      | unloadAll =>
        simp only [jobs] at h
        split_ifs at h
        · obtain rfl := Option.some.inj h
          exact ⟨inv.paths, inv.incoming, .inl later⟩
        · obtain rfl := Option.some.inj h
          refine ⟨inv.paths, inv.incoming, .inl fun job found => ?_⟩
          rcases List.mem_cons.mp found with rfl | found
          · simp [Job.isLoad]
          · rcases List.mem_cons.mp found with rfl | found
            · simp [Job.isLoad]
            · exact later job found
  · cases reloading with
    | queued index path configPath thenStart _ jobs place =>
      simp only [System.takeJob, jobs] at h
      obtain ⟨p, found, rfl⟩ := Option.map_eq_some_iff.mp h
      exact ⟨inv.paths, by simp [Stage.incoming],
        .inr (.unloading index path configPath thenStart rfl rfl place)⟩
    | unloading index _ _ _ stage =>
      rw [ready] at stage
      contradiction
    | unloaded path configPath thenStart _ jobs gone =>
      simp only [System.takeJob, jobs] at h
      obtain rfl := Option.some.inj h
      refine ⟨inv.paths, fun other found => ?_, .inl (by simp)⟩
      obtain rfl : path = other := by simpa [Stage.incoming] using found
      exact gone

/-- The plugin joins the table, and is started if it was found by `scan` or reloaded. -/
theorem PathsDistinct.pushed {s : System τ} (inv : PathsDistinct s) {p : Loaded} {thenStart : Bool}
    (before : s.stage = .pushBack p thenStart) {jobs : List Job}
    (more : ∀ job ∈ jobs, job ∈ s.jobs ∨ ¬job.isLoad) :
    PathsDistinct { s with plugins := s.plugins ++ [p], stage := .ready, jobs := jobs } := by
  have new : p.path ∉ s.paths := inv.incoming p.path (by rw [before]; rfl)
  have calm := inv.calm (by rw [before]; exact Stage.noConfusion) (by rw [before]; rfl)
  refine ⟨?_, by simp [Stage.incoming], .inl fun job found => ?_⟩
  · change ((s.plugins ++ [p]).map Loaded.path).Nodup
    rw [List.map_append, List.map_singleton, ← List.concat_eq_append, List.nodup_concat]
    exact ⟨new, inv.paths⟩
  · rcases more job found with old | other
    · exact calm job old
    · exact other

/-- The unloaded plugin leaves the table, and its path is free again. -/
theorem PathsDistinct.closed {s : System τ} (inv : PathsDistinct s) {index : Nat} {p : Loaded}
    (before : s.stage = .closeLibrary (.unload index) p) (calls : List Call) :
    PathsDistinct { s with
      plugins := s.plugins.eraseIdx index, stage := .ready, calls := calls } := by
  have fewer : System.paths { s with
      plugins := s.plugins.eraseIdx index, stage := .ready, calls := calls } =
      s.paths.eraseIdx index := by
    simp [System.paths, List.eraseIdx_map]
  refine ⟨?_, by simp [Stage.incoming], ?_⟩
  · rw [fewer]
    exact inv.paths.sublist (List.eraseIdx_sublist _ _)
  · rcases inv.jobs with calm | reloading
    · exact .inl calm
    · cases reloading with
      | queued _ _ _ _ stage => simp [before] at stage
      | unloaded _ _ _ stage => simp [before] at stage
      | unloading i path configPath thenStart stage jobs place =>
        obtain rfl : index = i := by simpa [before, Stage.leaving] using stage
        refine .inr (.unloaded path configPath thenStart rfl jobs ?_)
        rw [fewer]
        exact not_mem_eraseIdx inv.paths place

theorem PathsDistinct.quiescent {s : System τ} (inv : PathsDistinct s) (exit : Exit) (p : Loaded)
    (before : s.stage = .wait exit p ∨ s.stage = .poll exit p) :
    PathsDistinct (s.quiescent exit p) := by
  have busy : s.stage ≠ .ready := by
    rcases before with h | h <;> rw [h] <;> exact Stage.noConfusion
  have incoming := s.quiescent_stage exit p Stage.incoming none (fun _ _ => ⟨rfl, rfl⟩)
    (fun _ => rfl)
  have leaving : (s.quiescent exit p).stage.leaving = s.stage.leaving := by
    apply s.quiescent_stage exit p Stage.leaving s.stage.leaving
    · intro index unload
      subst unload
      rcases before with h | h <;> rw [h] <;> exact ⟨rfl, rfl⟩
    · intro _
      rcases before with h | h <;> rw [h] <;> rfl
  cases exit <;> exact inv.next busy rfl rfl (.inl incoming) leaving

theorem PathsDistinct.local {s s' : System τ} (inv : PathsDistinct s) (h : Local s s')
    (busy : s.stage ≠ .ready) (other : ∀ p thenStart, s.stage ≠ .pushBack p thenStart) :
    PathsDistinct s' := by
  cases h with
  | taken _ before => exact absurd before busy
  | pushed p thenStart jobs before => exact absurd before (other p thenStart)
  | stopped index p ok before =>
    exact inv.next busy (setStarted_paths s index false) rfl (.inl rfl) (by rw [before]; rfl)
  | unknown exit p before => exact inv.quiescent exit p (.inl before)
  | yielded => exact inv
  | drained exit p before => exact inv.quiescent exit p (.inr before)
  | stoppedUnload index p ok before =>
    exact inv.next busy (setStarted_paths s index false) rfl (.inl rfl) (by rw [before]; rfl)
  | waiting exit p before => exact inv.next busy rfl rfl (.inl rfl) (by rw [before]; rfl)
  | rolledBack exit p ok before => exact inv.next busy rfl rfl (.inl rfl) (by rw [before]; rfl)
  | closed index p before => exact inv.closed before _
  | dropped exit p before loading =>
    refine inv.next busy rfl rfl (.inl rfl) ?_
    rw [before]
    cases exit with
    | unload index => exact absurd rfl (loading index)
    | _ => rfl
  | opened | inspected | created | initialized =>
    rename_i before
    exact inv.next busy rfl rfl (.inr (by rw [before]; rfl)) (by rw [before]; rfl)
  | _ =>
    rename_i before
    exact inv.next busy rfl rfl (.inl rfl) (by rw [before]; rfl)

theorem PathsDistinct.exclusive {s s' : System τ} (inv : PathsDistinct s) (h : Exclusive s s') :
    PathsDistinct s' := by
  have busy : s.stage ≠ .ready := by
    cases h <;> rename_i before <;> intro ready <;> simp_all
  cases h with
  | createOwner | activateLoad | deactivateLoad =>
    rename_i before
    exact inv.next busy rfl rfl (.inr (by rw [before]; rfl)) (by rw [before]; rfl)
  | started index p before =>
    exact inv.next busy (setStarted_paths s index true) rfl (.inl rfl) (by rw [before]; rfl)
  | abandon exit p before => exact inv.next busy rfl rfl (.inl rfl) (by rw [before]; rfl)
  | _ =>
    rename_i before
    exact inv.next busy rfl rfl (.inl rfl) (by rw [before]; rfl)

/-- The step is no call of `load`, which takes any path. -/
def Discovers : Action τ → Prop
  | .operation (.load _ _) => False
  | _ => True

instance decidableDiscovers : DecidablePred (Discovers : Action τ → Prop) := fun a =>
  match a with
  | .operation op =>
    match op with
    | .load .. => isFalse id
    | .loadDirectory .. | .scan _ | .startAll | .stopAll | .unload _ | .reload _ | .destructor =>
      isTrue trivial
  | .write .. | .advance .. | .manage _ | .register .. => isTrue trivial

theorem PathsDistinct.operation {s s' : System τ} {op : Operation} (inv : PathsDistinct s)
    (discovers : Discovers (.operation op : Action τ)) (h : s.operation op = some s') :
    PathsDistinct s' := by
  obtain ⟨-, -, -, plugins, stage, -⟩ := operation_same h
  have paths : s'.paths = s.paths := by rw [System.paths, plugins, System.paths]
  have table : s'.paths.Nodup ∧ ∀ path, s'.stage.incoming = some path → path ∉ s'.paths := by
    rw [paths, stage]
    exact ⟨inv.paths, inv.incoming⟩
  refine ⟨table.1, table.2, ?_⟩
  unfold System.operation at h
  split_ifs at h with enabled
  obtain ⟨ready, idle, -⟩ := enabled
  obtain rfl := Option.some.inj h
  cases op with
  | load path configPath => exact absurd discovers id
  | loadDirectory pluginDir configDir entries =>
    refine .inl fun job found => ?_
    obtain ⟨e, -, rfl⟩ := List.mem_map.mp found
    simp [Job.isLoad]
  | scan entries =>
    refine .inl fun job found => ?_
    simp only [begin] at found
    split_ifs at found
    · rw [idle] at found
      contradiction
    · obtain ⟨e, -, rfl⟩ := List.mem_map.mp found
      simp [Job.isLoad]
  | startAll | stopAll =>
    refine .inl fun job found => ?_
    obtain ⟨i, -, rfl⟩ := List.mem_map.mp found
    simp [Job.isLoad]
  | destructor =>
    refine .inl fun job found => ?_
    rw [List.mem_singleton.mp found]
    simp [Job.isLoad]
  | unload id =>
    refine .inl fun job found => ?_
    simp only [begin] at found
    split at found
    · rw [idle] at found
      contradiction
    · rw [List.mem_singleton.mp found]
      simp [Job.isLoad]
  | reload id =>
    simp only [begin]
    cases place : s.findIndexLocked id with
    | none =>
      refine .inl fun job found => ?_
      rw [idle] at found
      contradiction
    | some index =>
      simp only
      cases entry : s.plugins[index]? with
      | none =>
        refine .inl fun job found => ?_
        rw [idle] at found
        contradiction
      | some p =>
        refine .inr (.queued index p.path p.configPath p.started ready rfl ?_)
        simp [System.paths, entry]

section Runs

variable [DecidableEq τ]

theorem takeJob_of_manage {s s' : System τ} {reply : Reply} (ready : s.stage = .ready)
    (h : s.manage reply = some s') : s.takeJob = some s' := by
  simpa [System.manage, ready, locksHost, localStep] using h

theorem PathsDistinct.manage {s s' : System τ} {reply : Reply} (inv : PathsDistinct s)
    (h : s.manage reply = some s') : PathsDistinct s' := by
  by_cases ready : s.stage = .ready
  · exact inv.takeJob ready (takeJob_of_manage ready h)
  · by_cases joins : ∃ p thenStart, s.stage = .pushBack p thenStart
    · obtain ⟨p, thenStart, before⟩ := joins
      simp only [System.manage, before, locksHost, localStep, Bool.false_eq_true, if_false,
        Option.some.injEq] at h
      obtain rfl := h
      refine inv.pushed before fun job found => ?_
      split_ifs at found
      · rcases List.mem_cons.mp found with rfl | old
        · exact .inr (by simp [Job.isLoad])
        · exact .inl old
      · exact .inl found
    · rcases manage_cases h with step | ⟨-, step⟩
      · exact inv.local step ready fun p thenStart before => joins ⟨p, thenStart, before⟩
      · exact inv.exclusive step

theorem PathsDistinct.step {s s' : System τ} {a : Action τ} (inv : PathsDistinct s)
    (discovers : Discovers a) (h : s.step a = some s') : PathsDistinct s' := by
  have aside (plugins : s'.plugins = s.plugins) (stage : s'.stage = s.stage)
      (jobs : s'.jobs = s.jobs) : PathsDistinct s' := by
    have paths : s'.paths = s.paths := by rw [System.paths, plugins, System.paths]
    refine ⟨paths ▸ inv.paths, ?_, ?_⟩
    · rw [stage, paths]
      exact inv.incoming
    · rw [jobs]
      rcases inv.jobs with calm | reloading
      · exact .inl calm
      · refine .inr ?_
        cases reloading with
        | queued index path configPath thenStart before queue place =>
          exact .queued index path configPath thenStart (stage.trans before) (jobs.trans queue)
            (paths ▸ place)
        | unloading index path configPath thenStart before queue place =>
          exact .unloading index path configPath thenStart (stage ▸ before) (jobs.trans queue)
            (paths ▸ place)
        | unloaded path configPath thenStart before queue gone =>
          exact .unloaded path configPath thenStart (stage.trans before) (jobs.trans queue)
            (paths ▸ gone)
  cases a with
  | write t tag =>
    obtain ⟨_, rfl⟩ := written_of_write h
    exact aside rfl rfl rfl
  | advance t accepted =>
    have moved := advanced_of_advance h
    exact aside moved.frame.plugins moved.frame.stage moved.jobs
  | operation op => exact inv.operation discovers h
  | manage reply => exact inv.manage h
  | register plugin topicPrefix pluginCtx entry =>
    obtain ⟨_, _, rfl⟩ := registered_of_register h
    exact aside rfl rfl rfl

theorem pathsDistinct_of_run {as : List (Action τ)} {s : System τ}
    (discovers : (machine τ).Steps (fun _ a => Discovers a) initial as)
    (run : (machine τ).run as = some s) : PathsDistinct s :=
  (machine τ).invariant_of_steps (fun _ a => Discovers a) PathsDistinct
    (fun _ _ _ inv ok step => inv.step ok step) initial as s pathsDistinct_initial discovers run

end Runs

/-! ### An `unload` call -/

/-- How far the call has come that unloads an entry of the state `s`. -/
inductive UnloadPhase (s : System τ) (index : Nat) (p : Loaded) (u : System τ) : Prop where
  | queued (stage : u.stage = .ready) (jobs : u.jobs = [.unload index])
      (plugins : u.plugins = s.plugins)
  | leaving (stage : u.stage.leaving = some index)
      (entry : u.stage.entry = some (index, p.owner)) (jobs : u.jobs = [])
      (plugins : u.plugins.eraseIdx index = s.plugins.eraseIdx index)
      (revoked : u.stage.revoked.isSome → ∀ reg ∈ u.host.writers, reg.owner ≠ p.owner)
  | left (stage : u.stage = .ready) (jobs : u.jobs = [])
      (plugins : u.plugins = s.plugins.eraseIdx index)
      (revoked : ∀ reg ∈ u.host.writers, reg.owner ≠ p.owner)

theorem UnloadPhase.bracket {s u : System τ} {index : Nat} {p : Loaded}
    (phase : UnloadPhase s index p u) : u.stage.bracket = none := by
  cases phase with
  | queued stage => rw [stage]; rfl
  | left stage => rw [stage]; rfl
  | leaving stage =>
    cases at_stage : u.stage with
    | deactivate exit q => cases exit <;> simp_all [Stage.leaving, Stage.bracket]
    | destroy exit q => cases exit <;> simp_all [Stage.leaving, Stage.bracket]
    | _ => simp_all [Stage.leaving, Stage.bracket]

/-- Registrations that other threads make now are not attributed to the plugin. -/
theorem UnloadPhase.register {s u : System τ} {index : Nat} {p : Loaded}
    (phase : UnloadPhase s index p u) (kept : Kept u) (positive : 0 < p.owner)
    (topicPrefix : Bytes) (pluginCtx : Nat) (handler : Handler) :
    UnloadPhase s index p { u with
      host := u.host.registerWriter topicPrefix pluginCtx handler } := by
  have nobody : u.host.registrant = 0 := by
    rw [kept.givenOut.registrant kept.owners, u.bracketOwner_none phase.bracket]
  have others (clear : ∀ reg ∈ u.host.writers, reg.owner ≠ p.owner) :
      ∀ reg ∈ (u.host.registerWriter topicPrefix pluginCtx handler).writers,
        reg.owner ≠ p.owner := by
    intro reg found
    rcases PluginHost.mem_registerWriter u.host topicPrefix pluginCtx _ reg found with old | rfl
    · exact clear reg old
    · rw [nobody]
      exact Nat.ne_of_lt positive
  cases phase with
  | queued stage jobs plugins => exact .queued stage jobs plugins
  | leaving stage entry jobs plugins revoked =>
    exact .leaving stage entry jobs plugins fun now => others (revoked now)
  | left stage jobs plugins revoked => exact .left stage jobs plugins (others revoked)

theorem eraseIdx_setStarted (u : System τ) (index : Nat) (started : Bool) :
    (u.setStarted index started).plugins.eraseIdx index = u.plugins.eraseIdx index := by
  apply List.ext_getElem?
  intro i
  simp only [setStarted, List.getElem?_eraseIdx, List.getElem?_modify]
  by_cases low : i < index
  · have other : index ≠ i := by omega
    rw [if_pos low, if_pos low]
    cases u.plugins[i]? <;> simp [other]
  · have other : index ≠ i + 1 := by omega
    rw [if_neg low, if_neg low]
    cases u.plugins[i + 1]? <;> simp [other]

theorem UnloadPhase.quiescent {s u : System τ} {index : Nat} {p : Loaded} (exit : Exit) (q : Loaded)
    (before : u.stage = .wait exit q ∨ u.stage = .poll exit q)
    (phase : UnloadPhase s index p u) : UnloadPhase s index p (u.quiescent exit q) := by
  cases phase with
  | queued stage => rcases before with h | h <;> rw [h] at stage <;> contradiction
  | left stage => rcases before with h | h <;> rw [h] at stage <;> contradiction
  | leaving stage entry jobs plugins revoked =>
    have unloads : exit = .unload index ∧ q.owner = p.owner := by
      rcases before with h | h
      all_goals
        rw [h] at entry
        cases exit <;> simp_all [Stage.entry]
    obtain ⟨rfl, own⟩ := unloads
    have clear : ∀ reg ∈ u.host.writers, reg.owner ≠ p.owner := by
      apply revoked
      rcases before with h | h <;> rw [h] <;> rfl
    have leaving := u.quiescent_stage (.unload index) q Stage.leaving (some index)
      (fun i same => by cases same; exact ⟨rfl, rfl⟩) (fun load => absurd rfl (load index))
    have place := u.quiescent_stage (.unload index) q Stage.entry (some (index, p.owner))
      (fun i same => by cases same; exact ⟨by rw [← own]; rfl, by rw [← own]; rfl⟩)
      (fun load => absurd rfl (load index))
    exact .leaving leaving place jobs plugins fun _ => clear

/-- One step of the managing thread without the exclusive lock. -/
theorem UnloadPhase.local {s u u' : System τ} {index : Nat} {p : Loaded}
    (phase : UnloadPhase s index p u) (busy : u.stage ≠ .ready) (h : Local u u') :
    UnloadPhase s index p u' := by
  obtain ⟨host, -, -⟩ := h.same
  cases id phase with
  | queued stage => exact absurd stage busy
  | left stage => exact absurd stage busy
  | leaving stage entry jobs plugins revoked =>
    cases h with
    | taken _ before => exact absurd before busy
    | waiting exit q before =>
      rw [before] at stage entry revoked
      exact .leaving stage entry jobs plugins revoked
    | unknown exit q before => exact phase.quiescent exit q (.inl before)
    | yielded => exact phase
    | drained exit q before => exact phase.quiescent exit q (.inr before)
    | stoppedUnload i q ok before =>
      rw [before] at stage entry revoked
      obtain rfl : i = index := by simpa [Stage.leaving] using stage
      exact .leaving stage entry jobs ((eraseIdx_setStarted u i false).trans plugins) revoked
    | destroyed i q ok before =>
      rw [before] at stage entry revoked
      exact .leaving stage entry jobs plugins revoked
    | rolledBack exit q ok before loading =>
      rw [before] at stage
      cases exit with
      | unload i => exact absurd rfl (loading i)
      | _ => simp [Stage.leaving] at stage
    | closed i q before =>
      rw [before] at stage revoked
      obtain rfl : i = index := by simpa [Stage.leaving] using stage
      exact .left rfl jobs plugins (revoked rfl)
    | dropped exit q before loading =>
      rw [before] at stage
      cases exit with
      | unload i => exact absurd rfl (loading i)
      | _ => simp [Stage.leaving] at stage
    | _ =>
      rename_i before
      rw [before] at stage
      simp [Stage.leaving] at stage

/-- One step of the managing thread under the exclusive lock. -/
theorem UnloadPhase.exclusive {s u u' : System τ} {index : Nat} {p : Loaded}
    (phase : UnloadPhase s index p u) (owners : Owners u) (h : Exclusive u u') :
    UnloadPhase s index p u' := by
  cases id phase with
  | queued stage => cases h <;> simp_all
  | left stage => cases h <;> simp_all
  | leaving stage entry jobs plugins revoked =>
    cases h with
    | rollback q before => simp [before, Stage.leaving] at stage
    | abandon exit q before other =>
      rw [before] at stage entry revoked
      cases exit with
      | unload i => exact .leaving stage entry jobs plugins revoked
      | _ => simp [Stage.leaving] at stage
    | retire exit q before =>
      have known := owners.retiring exit q (.inl before)
      rw [before] at stage entry
      cases exit with
      | unload i =>
        obtain ⟨rfl, own⟩ : i = index ∧ q.owner = p.owner := by simpa [Stage.entry] using entry
        refine .leaving stage entry jobs plugins fun _ => ?_
        rw [← own]
        exact PluginHost.retireOwner_clears u.host q.owner known.1 known.2
      | _ => simp [Stage.leaving] at stage
    | removeOwner exit q before =>
      rw [before] at stage entry revoked
      cases exit with
      | unload i =>
        refine .leaving stage entry jobs plugins fun _ => ?_
        change ∀ reg ∈ (u.host.removeOwner q.owner).writers, reg.owner ≠ p.owner
        rw [PluginHost.removeOwner_writers]
        exact revoked rfl
      | _ => simp [Stage.leaving] at stage
    | _ =>
      rename_i before
      simp [before, Stage.leaving] at stage


section Unload

variable [DecidableEq τ]

/-- No operation begins. -/
def Continues : Action τ → Prop
  | .operation _ => False
  | _ => True

instance decidableContinues : DecidablePred (Continues : Action τ → Prop) := fun a =>
  match a with
  | .operation _ => isFalse id
  | .write .. | .advance .. | .manage _ | .register .. => isTrue trivial

theorem UnloadPhase.manage {s u u' : System τ} {index : Nat} {p : Loaded} {reply : Reply}
    (found : s.plugins[index]? = some p) (phase : UnloadPhase s index p u) (owners : Owners u)
    (h : u.manage reply = some u') : UnloadPhase s index p u' := by
  by_cases ready : u.stage = .ready
  · have taken := takeJob_of_manage ready h
    cases phase with
    | queued stage jobs plugins =>
      simp only [System.takeJob, jobs, plugins, found, Option.map_some, Option.some.injEq] at taken
      obtain rfl := taken
      refine .leaving rfl rfl rfl rfl fun revoked => ?_
      simp [Stage.revoked] at revoked
    | leaving stage =>
      rw [ready] at stage
      contradiction
    | left stage jobs =>
      simp [System.takeJob, jobs] at taken
  · rcases manage_cases h with step | ⟨-, step⟩
    · exact phase.local ready step
    · exact phase.exclusive owners step

theorem UnloadPhase.step {s u u' : System τ} {index : Nat} {p : Loaded} {a : Action τ}
    (found : s.plugins[index]? = some p) (positive : 0 < p.owner) (kept : Kept u)
    (phase : UnloadPhase s index p u) (continues : Continues a) (h : u.step a = some u') :
    UnloadPhase s index p u' := by
  have aside (same : Frame u u') (jobs : u'.jobs = u.jobs) : UnloadPhase s index p u' := by
    cases phase with
    | queued stage queue plugins =>
      exact .queued (same.stage.trans stage) (jobs.trans queue) (same.plugins.trans plugins)
    | leaving stage entry queue plugins revoked =>
      refine .leaving ?_ ?_ (jobs.trans queue) ?_ ?_
      · rw [same.stage, stage]
      · rw [same.stage, entry]
      · rw [same.plugins, plugins]
      · rw [same.stage, same.writers]
        exact revoked
    | left stage queue plugins revoked =>
      refine .left (same.stage.trans stage) (jobs.trans queue) (same.plugins.trans plugins) ?_
      rw [same.writers]
      exact revoked
  cases a with
  | write t tag =>
    obtain ⟨_, rfl⟩ := written_of_write h
    exact aside ⟨rfl, rfl, rfl, rfl, rfl, rfl, rfl⟩ rfl
  | advance t accepted =>
    have moved := advanced_of_advance h
    exact aside moved.frame moved.jobs
  | operation op => exact absurd continues id
  | manage reply => exact phase.manage found kept.owners h
  | register plugin topicPrefix pluginCtx entry =>
    obtain ⟨_, _, rfl⟩ := registered_of_register h
    exact phase.register kept positive topicPrefix pluginCtx _

/-- The call takes no registration of another owner away. -/
theorem UnloadPhase.spares {s u u' : System τ} {index : Nat} {p : Loaded} {a : Action τ}
    (phase : UnloadPhase s index p u) (h : u.step a = some u') {reg : WriteReg}
    (other : reg.owner ≠ p.owner) (registered : reg ∈ u.host.writers) :
    reg ∈ u'.host.writers := by
  by_contra removed
  obtain ⟨exit, q, retiring, own⟩ := removed_of_step h reg registered removed
  cases phase with
  | queued stage => simp [retiring] at stage
  | left stage => simp [retiring] at stage
  | leaving stage entry =>
    rw [retiring] at entry
    cases exit with
    | unload i =>
      obtain ⟨-, same⟩ : i = index ∧ q.owner = p.owner := by simpa [Stage.entry] using entry
      exact other (own.trans same)
    | _ => simp [Stage.entry] at entry

/-- What `unload` has done when it returns: the entry is gone, with its path and the
registrations of its owner; the other entries and registrations are as they were. The id is
gone too if no other plugin reports it. -/
structure Unloaded (s : System τ) (id : Bytes) (index : Nat) (p : Loaded) (u : System τ) :
    Prop where
  plugins : u.plugins = s.plugins.eraseIdx index
  path : p.path ∉ u.paths
  revoked : ∀ reg ∈ u.host.writers, reg.owner ≠ p.owner
  others : ∀ reg ∈ s.host.writers, reg.owner ≠ p.owner → reg ∈ u.host.writers
  id : u.findIndexLocked id = none ↔
    ∀ j q, s.plugins[j]? = some q → q.id = some id → j = index

theorem unloadPhase_of_run {as during : List (Action τ)} {s t u : System τ} {id : Bytes}
    {index : Nat} {p : Loaded} (run : (machine τ).run as = some s)
    (found : s.findIndexLocked id = some index) (entry : s.plugins[index]? = some p)
    (begun : s.operation (.unload id) = some t)
    (continues : (machine τ).Steps (fun _ a => Continues a) t during)
    (later : (machine τ).runFrom t during = some u) :
    UnloadPhase s index p u ∧
      ∀ reg ∈ s.host.writers, reg.owner ≠ p.owner → reg ∈ u.host.writers := by
  have kept : Kept s := kept_of_run as s run
  have positive : 0 < p.owner := by
    have place := List.mem_of_getElem? (ids_of_getElem? s index p entry)
    exact (kept.owners.given p.owner place).1
  obtain ⟨host, -, -, plugins, stage, -⟩ := operation_same begun
  have first : UnloadPhase s index p t := by
    unfold System.operation at begun
    split_ifs at begun with enabled
    obtain rfl := Option.some.inj begun
    simp only [begin, found]
    exact .queued enabled.1 rfl rfl
  have keptNow : Kept t := kept.step (a := .operation (.unload id)) begun
  have all : Kept u ∧ UnloadPhase s index p u ∧
      ∀ reg ∈ s.host.writers, reg.owner ≠ p.owner → reg ∈ u.host.writers := by
    refine (machine τ).invariant_of_steps (fun _ a => Continues a) (fun v => Kept v ∧
      UnloadPhase s index p v ∧
        ∀ reg ∈ s.host.writers, reg.owner ≠ p.owner → reg ∈ v.host.writers) ?_ t during u
      ⟨keptNow, first, ?_⟩ continues later
    · intro v a v' inv continues step
      obtain ⟨kept, phase, spared⟩ := inv
      refine ⟨kept.step step, phase.step entry positive kept continues step, ?_⟩
      intro reg registered other
      exact phase.spares step other (spared reg registered other)
    · rw [host]
      exact fun reg registered _ => registered
  exact all.2

/-- In every run of discoveries, starts, stops, unloads and reloads the loaded plugins have
different paths, and `unload` of an id removes the first plugin that reports it, and only that
one. -/
theorem unload_final {as : List (Action τ)} {s : System τ}
    (discovers : (machine τ).Steps (fun _ a => Discovers a) initial as)
    (run : (machine τ).run as = some s) :
    s.paths.Nodup ∧ ∀ id index p t during u, s.findIndexLocked id = some index →
      s.plugins[index]? = some p → s.operation (.unload id) = some t →
      (machine τ).Steps (fun _ a => Continues a) t during →
      (machine τ).runFrom t during = some u → ¬u.InOperation → Unloaded s id index p u := by
  have distinct : s.paths.Nodup := (pathsDistinct_of_run discovers run).paths
  refine ⟨distinct, fun id index p t during u found entry begun continues later returned => ?_⟩
  obtain ⟨phase, others⟩ := unloadPhase_of_run run found entry begun continues later
  rw [InOperation, not_or, not_not, not_not] at returned
  cases phase with
  | queued stage jobs =>
    rw [returned.2] at jobs
    contradiction
  | leaving stage =>
    rw [returned.1] at stage
    contradiction
  | left stage jobs plugins revoked =>
    have place : s.paths[index]? = some p.path := by simp [paths, entry]
    refine ⟨plugins, ?_, revoked, others, ?_⟩
    · rw [paths, plugins, ← List.eraseIdx_map]
      exact not_mem_eraseIdx distinct place
    · rw [findIndexLocked, plugins, List.findIdx?_eq_none_iff]
      constructor
      · intro none j q at_j reports
        by_contra other
        have remains : q ∈ s.plugins.eraseIdx index :=
          List.mem_eraseIdx_iff_getElem?.mpr ⟨j, other, at_j⟩
        simpa [reports] using none q remains
      · intro only q remains
        obtain ⟨j, other, at_j⟩ := List.mem_eraseIdx_iff_getElem?.mp remains
        simpa using fun reports => other (only j q at_j reports)

end Unload

/-- Two libraries of a directory are loaded. -/
def discovering (first second : Bytes) : List (Action Unit) :=
  .operation (.loadDirectory (ascii "plugins") (ascii "config")
    [(ascii "plugins/p.so", ascii "config/p.json"), (ascii "plugins/q.so", ascii "config/q.json")])
    :: (List.replicate 9 (.manage { info := some ⟨3, some first⟩ }) ++
      List.replicate 9 (.manage { info := some ⟨3, some second⟩ }))

def firstLoaded (id : Bytes) : Loaded :=
  ⟨0, some id, false, ascii "plugins/p.so", ascii "config/p.json", 1⟩

def secondLoaded (id : Bytes) : Loaded :=
  ⟨1, some id, false, ascii "plugins/q.so", ascii "config/q.json", 2⟩

/-- The steps of an `unload` call that meets no write. -/
def unloading : List (Action Unit) := List.replicate 7 (.manage {})

theorem unload_final_two : ∃ s t u : System Unit,
    (machine Unit).run (discovering (ascii "p") (ascii "q")) = some s ∧
    s.operation (.unload (ascii "p")) = some t ∧
    (machine Unit).runFrom t unloading = some u ∧
    Unloaded s (ascii "p") 0 (firstLoaded (ascii "p")) u := by
  have ends : ((machine Unit).run (discovering (ascii "p") (ascii "q"))).bind (fun s =>
      (s.operation (.unload (ascii "p"))).bind fun t =>
        ((machine Unit).runFrom t unloading).map fun u =>
          (s.plugins, decide (u.stage = .ready ∧ u.jobs = []))) =
      some ([firstLoaded (ascii "p"), secondLoaded (ascii "q")], true) := by
    decide +kernel
  obtain ⟨s, run, rest⟩ := Option.bind_eq_some_iff.mp ends
  obtain ⟨t, begun, rest⟩ := Option.bind_eq_some_iff.mp rest
  obtain ⟨u, later, last⟩ := Option.map_eq_some_iff.mp rest
  injection last with plugins returned
  obtain ⟨ready, idle⟩ := of_decide_eq_true returned
  have discovers := (machine Unit).steps_of_mem Discovers initial
    (discovering (ascii "p") (ascii "q")) (by decide)
  have continues := (machine Unit).steps_of_mem Continues t unloading (by decide)
  have entry : s.plugins[0]? = some (firstLoaded (ascii "p")) := by rw [plugins]; rfl
  have found : s.findIndexLocked (ascii "p") = some 0 := by
    rw [findIndexLocked, plugins]
    decide
  have idleNow : ¬u.InOperation := by simp [InOperation, ready, idle]
  exact ⟨s, t, u, run, begun, later, (unload_final discovers run).2 (ascii "p") 0 _ t unloading u
    found entry begun continues later idleNow⟩

/-- Two libraries of the directory report the same id; one of them is still loaded after
`unload` of that id. -/
theorem not_unload_final : ∃ s t u : System Unit,
    (machine Unit).run (discovering (ascii "p") (ascii "p")) = some s ∧
    (machine Unit).Steps (fun _ a => Discovers a) initial (discovering (ascii "p") (ascii "p")) ∧
    s.plugins = [firstLoaded (ascii "p"), secondLoaded (ascii "p")] ∧
    s.operation (.unload (ascii "p")) = some t ∧
    (machine Unit).runFrom t unloading = some u ∧ ¬u.InOperation ∧
    u.plugins = [secondLoaded (ascii "p")] := by
  have ends : ((machine Unit).run (discovering (ascii "p") (ascii "p"))).bind (fun s =>
      (s.operation (.unload (ascii "p"))).bind fun t =>
        ((machine Unit).runFrom t unloading).map fun u =>
          (s.plugins, decide (u.stage = .ready ∧ u.jobs = []), u.plugins)) =
      some ([firstLoaded (ascii "p"), secondLoaded (ascii "p")], true,
        [secondLoaded (ascii "p")]) := by
    decide +kernel
  obtain ⟨s, run, rest⟩ := Option.bind_eq_some_iff.mp ends
  obtain ⟨t, begun, rest⟩ := Option.bind_eq_some_iff.mp rest
  obtain ⟨u, later, last⟩ := Option.map_eq_some_iff.mp rest
  injection last with plugins last
  injection last with returned still
  obtain ⟨ready, idle⟩ := of_decide_eq_true returned
  have discovers := (machine Unit).steps_of_mem Discovers initial
    (discovering (ascii "p") (ascii "p")) (by decide)
  exact ⟨s, t, u, run, discovers, plugins, begun, later, by simp [InOperation, ready, idle], still⟩

end System

end IndustrialRuntime.Core.PluginManager
