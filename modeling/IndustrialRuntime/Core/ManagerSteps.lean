import IndustrialRuntime.Core.PluginManager

namespace IndustrialRuntime.Core.PluginManager.System

variable {τ : Type*}

/-- What taking up a job can do. -/
inductive Taken (s : System τ) : System τ → Prop where
  | load (path configPath : Bytes) (thenStart : Bool) (jobs : List Job) :
      Taken s { s with jobs := jobs, stage := .openLibrary path configPath thenStart }
  | done (jobs : List Job) : Taken s { s with jobs := jobs }
  | start (index : Nat) (p : Loaded) (jobs : List Job) (found : s.plugins[index]? = some p) :
      Taken s { s with jobs := jobs, stage := .activateStart index p }
  | stop (index : Nat) (p : Loaded) (jobs : List Job) (found : s.plugins[index]? = some p) :
      Taken s { s with jobs := jobs, stage := .stop index p }
  | unload (index : Nat) (p : Loaded) (jobs : List Job) (found : s.plugins[index]? = some p) :
      Taken s { s with jobs := jobs, stage := .retire (.unload index) p }

theorem taken_of_takeJob {s s' : System τ} (h : s.takeJob = some s') : Taken s s' := by
  unfold takeJob at h
  cases jobs : s.jobs with
  | nil => simp [jobs] at h
  | cons job rest =>
    cases job with
    | load path configPath thenStart =>
      obtain rfl := by simpa [jobs] using h
      exact .load path configPath thenStart rest
    | discover path configPath thenStart =>
      simp only [jobs] at h
      split at h
      · obtain rfl := Option.some.inj h
        exact .done rest
      · obtain rfl := Option.some.inj h
        exact .load path configPath thenStart rest
    | start index =>
      simp only [jobs] at h
      obtain ⟨p, found, rfl⟩ := Option.map_eq_some_iff.mp h
      split
      · exact .done rest
      · exact .start index p rest found
    | stop index =>
      simp only [jobs] at h
      obtain ⟨p, found, rfl⟩ := Option.map_eq_some_iff.mp h
      split
      · exact .stop index p rest found
      · exact .done rest
    | unload index =>
      simp only [jobs] at h
      obtain ⟨p, found, rfl⟩ := Option.map_eq_some_iff.mp h
      exact .unload index p rest found
    | unloadAll =>
      simp only [jobs] at h
      split at h
      · obtain rfl := Option.some.inj h
        exact .done rest
      · obtain rfl := Option.some.inj h
        exact .done _

/-- What the stages that can follow the return of `waitQuiescent` have in common. -/
theorem quiescent_stage {α : Type*} (s : System τ) (exit : Exit) (p : Loaded) (f : Stage → α)
    (value : α)
    (unload : ∀ index, exit = .unload index →
      f (.stopUnload index p) = value ∧ f (.destroy (.unload index) p) = value)
    (load : (∀ index, exit ≠ .unload index) → f (.removeOwner exit p) = value) :
    f (s.quiescent exit p).stage = value := by
  cases exit with
  | unload index =>
    obtain ⟨stop, destroy⟩ := unload index rfl
    simp only [quiescent]
    split
    · exact stop
    · exact destroy
  | abandon => exact load (fun _ => Exit.noConfusion)
  | rollback => exact load (fun _ => Exit.noConfusion)

/-- What a step of the managing thread can do without the exclusive lock. -/
inductive Local (s : System τ) : System τ → Prop where
  | taken (s' : System τ) (before : s.stage = .ready) (taken : Taken s s') : Local s s'
  | opened (path configPath : Bytes) (thenStart : Bool)
      (before : s.stage = .openLibrary path configPath thenStart) :
      Local s { s with
        stage := .inspect s.nextHandle path configPath thenStart
        nextHandle := s.nextHandle + 1
        calls := s.calls ++ [.opened s.nextHandle] }
  | unopened (path configPath : Bytes) (thenStart : Bool)
      (before : s.stage = .openLibrary path configPath thenStart) :
      Local s { s with stage := .ready }
  | inspected (handle : Nat) (path configPath : Bytes) (thenStart : Bool) (info : PluginInfo)
      (before : s.stage = .inspect handle path configPath thenStart) :
      Local s { s with stage := .createOwner handle info.id path configPath thenStart }
  | rejected (handle : Nat) (path configPath : Bytes) (thenStart : Bool)
      (before : s.stage = .inspect handle path configPath thenStart) :
      Local s { s with stage := .skip handle }
  | skipped (handle : Nat) (before : s.stage = .skip handle) :
      Local s { s with stage := .ready, calls := s.calls ++ [.closed handle] }
  | created (p : Loaded) (thenStart : Bool) (before : s.stage = .createPlugin p thenStart) :
      Local s { s with
        stage := .init p thenStart
        calls := s.calls ++ [.created p.owner p.handle true] }
  | uncreated (p : Loaded) (thenStart : Bool) (before : s.stage = .createPlugin p thenStart) :
      Local s { s with
        stage := .deactivate .abandon p
        live := s.live.filter (· ≠ p.owner)
        calls := s.calls ++ [.created p.owner p.handle false] }
  | initialized (p : Loaded) (thenStart : Bool) (before : s.stage = .init p thenStart) :
      Local s { s with
        stage := .deactivateLoad p thenStart
        calls := s.calls ++ [.init p.owner true] }
  | uninitialized (p : Loaded) (thenStart : Bool) (before : s.stage = .init p thenStart) :
      Local s { s with
        stage := .destroy .rollback p
        calls := s.calls ++ [.init p.owner false] }
  | pushed (p : Loaded) (thenStart : Bool) (jobs : List Job)
      (before : s.stage = .pushBack p thenStart) :
      Local s { s with plugins := s.plugins ++ [p], stage := .ready, jobs := jobs }
  | started (index : Nat) (p : Loaded) (ok : Bool) (before : s.stage = .start index p) :
      Local s { s with
        stage := .deactivateStart index p ok
        calls := s.calls ++ [.start p.owner ok] }
  | stopped (index : Nat) (p : Loaded) (ok : Bool) (before : s.stage = .stop index p) :
      Local s { s.setStarted index false with
        stage := .ready
        calls := s.calls ++ [.stop p.owner ok] }
  | waiting (exit : Exit) (p : Loaded) (before : s.stage = .wait exit p)
      (known : p.owner ∈ s.host.owners) : Local s { s with stage := .poll exit p }
  | unknown (exit : Exit) (p : Loaded) (before : s.stage = .wait exit p)
      (unknown : p.owner ∉ s.host.owners) : Local s (s.quiescent exit p)
  | yielded (exit : Exit) (p : Loaded) (before : s.stage = .poll exit p) : Local s s
  | drained (exit : Exit) (p : Loaded) (before : s.stage = .poll exit p)
      (drained : ¬ 0 < s.host.inflight p.owner) : Local s (s.quiescent exit p)
  | stoppedUnload (index : Nat) (p : Loaded) (ok : Bool) (before : s.stage = .stopUnload index p) :
      Local s { s.setStarted index false with
        stage := .destroy (.unload index) p
        calls := s.calls ++ [.stop p.owner ok] }
  | destroyed (index : Nat) (p : Loaded) (ok : Bool)
      (before : s.stage = .destroy (.unload index) p) :
      Local s { s with
        stage := .removeOwner (.unload index) p
        live := s.live.filter (· ≠ p.owner)
        calls := s.calls ++ [.destroy p.owner ok] }
  | rolledBack (exit : Exit) (p : Loaded) (ok : Bool) (before : s.stage = .destroy exit p)
      (loading : ∀ index, exit ≠ .unload index) :
      Local s { s with
        stage := .deactivate exit p
        live := s.live.filter (· ≠ p.owner)
        calls := s.calls ++ [.destroy p.owner ok] }
  | closed (index : Nat) (p : Loaded) (before : s.stage = .closeLibrary (.unload index) p) :
      Local s { s with
        plugins := s.plugins.eraseIdx index
        stage := .ready
        calls := s.calls ++ [.closed p.handle] }
  | dropped (exit : Exit) (p : Loaded) (before : s.stage = .closeLibrary exit p)
      (loading : ∀ index, exit ≠ .unload index) :
      Local s { s with stage := .ready, calls := s.calls ++ [.closed p.handle] }

theorem local_of_localStep {s s' : System τ} {reply : Reply}
    (h : s.localStep reply s.stage = some s') : Local s s' := by
  cases stage : s.stage with
  | ready =>
    rw [stage] at h
    exact .taken s' stage (taken_of_takeJob h)
  | openLibrary path configPath thenStart =>
    simp only [stage, localStep] at h
    split at h
    · obtain rfl := Option.some.inj h
      exact .opened path configPath thenStart stage
    · obtain rfl := Option.some.inj h
      exact .unopened path configPath thenStart stage
  | inspect handle path configPath thenStart =>
    simp only [stage, localStep] at h
    split at h
    · split at h
      · obtain rfl := Option.some.inj h
        exact .rejected handle path configPath thenStart stage
      · split at h
        · obtain rfl := Option.some.inj h
          exact .rejected handle path configPath thenStart stage
        · obtain rfl := Option.some.inj h
          exact .inspected handle path configPath thenStart _ stage
    · obtain rfl := Option.some.inj h
      exact .rejected handle path configPath thenStart stage
  | skip handle =>
    obtain rfl := by simpa [stage, localStep] using h
    exact .skipped handle stage
  | createPlugin p thenStart =>
    simp only [stage, localStep] at h
    cases ok : reply.ok with
    | true =>
      obtain rfl := by simpa [ok] using h
      exact .created p thenStart stage
    | false =>
      obtain rfl := by simpa only [ok, Bool.false_eq_true, if_false, Option.some.injEq] using h
      exact .uncreated p thenStart stage
  | init p thenStart =>
    simp only [stage, localStep] at h
    cases ok : reply.ok with
    | true =>
      obtain rfl := by simpa [ok] using h
      exact .initialized p thenStart stage
    | false =>
      obtain rfl := by simpa [ok] using h
      exact .uninitialized p thenStart stage
  | pushBack p thenStart =>
    simp only [stage, localStep, Option.some.injEq] at h
    obtain rfl := h
    exact .pushed p thenStart _ stage
  | start index p =>
    simp only [stage, localStep, Option.some.injEq] at h
    obtain rfl := h
    exact .started index p reply.ok stage
  | stop index p =>
    simp only [stage, localStep, Option.some.injEq] at h
    obtain rfl := h
    exact .stopped index p reply.ok stage
  | wait exit p =>
    simp only [stage, localStep] at h
    split at h
    · obtain rfl := Option.some.inj h
      exact .waiting exit p stage ‹_›
    · obtain rfl := Option.some.inj h
      exact .unknown exit p stage ‹_›
  | poll exit p =>
    simp only [stage, localStep] at h
    split at h
    · obtain rfl := Option.some.inj h
      exact .yielded exit p stage
    · obtain rfl := Option.some.inj h
      exact .drained exit p stage ‹_›
  | stopUnload index p =>
    simp only [stage, localStep, Option.some.injEq] at h
    obtain rfl := h
    exact .stoppedUnload index p reply.ok stage
  | destroy exit p =>
    simp only [stage, localStep, Option.some.injEq] at h
    obtain rfl := h
    cases exit with
    | abandon => exact .rolledBack .abandon p reply.ok stage (fun _ => Exit.noConfusion)
    | rollback => exact .rolledBack .rollback p reply.ok stage (fun _ => Exit.noConfusion)
    | unload index => exact .destroyed index p reply.ok stage
  | closeLibrary exit p =>
    simp only [stage, localStep, Option.some.injEq] at h
    obtain rfl := h
    cases exit with
    | abandon => exact .dropped .abandon p stage (fun _ => Exit.noConfusion)
    | rollback => exact .dropped .rollback p stage (fun _ => Exit.noConfusion)
    | unload index => exact .closed index p stage
  | _ => simp [stage, localStep] at h

/-- What a step of the managing thread can do under the exclusive lock. -/
inductive Exclusive (s : System τ) : System τ → Prop where
  | createOwner (handle : Nat) (id : Option Bytes) (path configPath : Bytes) (thenStart : Bool)
      (before : s.stage = .createOwner handle id path configPath thenStart) :
      Exclusive s { s with
        host := s.host.createOwner.2
        stage := .activateLoad ⟨handle, id, false, path, configPath, s.host.nextOwner⟩ thenStart }
  | activateLoad (p : Loaded) (thenStart : Bool) (before : s.stage = .activateLoad p thenStart) :
      Exclusive s { s with
        host := s.host.setActiveOwner p.owner
        stage := .createPlugin p thenStart
        live := p.owner :: s.live }
  | deactivateLoad (p : Loaded) (thenStart : Bool)
      (before : s.stage = .deactivateLoad p thenStart) :
      Exclusive s { s with host := s.host.setActiveOwner 0, stage := .pushBack p thenStart }
  | activateStart (index : Nat) (p : Loaded) (before : s.stage = .activateStart index p) :
      Exclusive s { s with host := s.host.setActiveOwner p.owner, stage := .start index p }
  | started (index : Nat) (p : Loaded) (before : s.stage = .deactivateStart index p true) :
      Exclusive s { s.setStarted index true with
        host := s.host.setActiveOwner 0
        stage := .ready }
  | unstarted (index : Nat) (p : Loaded) (before : s.stage = .deactivateStart index p false) :
      Exclusive s { s with host := s.host.setActiveOwner 0, stage := .ready }
  | rollback (p : Loaded) (before : s.stage = .deactivate .rollback p) :
      Exclusive s { s with host := s.host.setActiveOwner 0, stage := .retire .rollback p }
  | abandon (exit : Exit) (p : Loaded) (before : s.stage = .deactivate exit p)
      (other : exit ≠ .rollback) :
      Exclusive s { s with host := s.host.setActiveOwner 0, stage := .removeOwner exit p }
  | retire (exit : Exit) (p : Loaded) (before : s.stage = .retire exit p) :
      Exclusive s { s with host := s.host.retireOwner p.owner, stage := .wait exit p }
  | removeOwner (exit : Exit) (p : Loaded) (before : s.stage = .removeOwner exit p) :
      Exclusive s { s with host := s.host.removeOwner p.owner, stage := .closeLibrary exit p }

theorem exclusive_of_exclusiveStep {s s' : System τ} (h : s.exclusiveStep s.stage = some s') :
    Exclusive s s' := by
  cases stage : s.stage with
  | createOwner handle id path configPath thenStart =>
    simp only [stage, exclusiveStep, Option.some.injEq] at h
    obtain rfl := h
    exact .createOwner handle id path configPath thenStart stage
  | activateLoad p thenStart =>
    simp only [stage, exclusiveStep, Option.some.injEq] at h
    obtain rfl := h
    exact .activateLoad p thenStart stage
  | deactivateLoad p thenStart =>
    simp only [stage, exclusiveStep, Option.some.injEq] at h
    obtain rfl := h
    exact .deactivateLoad p thenStart stage
  | activateStart index p =>
    simp only [stage, exclusiveStep, Option.some.injEq] at h
    obtain rfl := h
    exact .activateStart index p stage
  | deactivateStart index p ok =>
    simp only [stage, exclusiveStep] at h
    cases ok with
    | true =>
      obtain rfl := Option.some.inj h
      exact .started index p stage
    | false =>
      obtain rfl := Option.some.inj h
      exact .unstarted index p stage
  | deactivate exit p =>
    simp only [stage, exclusiveStep, Option.some.injEq] at h
    obtain rfl := h
    cases exit with
    | abandon => exact .abandon .abandon p stage Exit.noConfusion
    | rollback => exact .rollback p stage
    | unload index => exact .abandon (.unload index) p stage Exit.noConfusion
  | retire exit p =>
    simp only [stage, exclusiveStep, Option.some.injEq] at h
    obtain rfl := h
    exact .retire exit p stage
  | removeOwner exit p =>
    simp only [stage, exclusiveStep, Option.some.injEq] at h
    obtain rfl := h
    exact .removeOwner exit p stage
  | _ => simp [stage, exclusiveStep] at h

/-- An operation begins by laying out its jobs. -/
theorem begin_same (s : System τ) (op : Operation) :
    (s.begin op).host = s.host ∧ (s.begin op).readers = s.readers ∧
      (s.begin op).writer = s.writer ∧ (s.begin op).plugins = s.plugins ∧
      (s.begin op).stage = s.stage ∧ (s.begin op).quiesced = s.quiesced := by
  cases op with
  | scan entries =>
    simp only [begin]
    split <;> exact ⟨rfl, rfl, rfl, rfl, rfl, rfl⟩
  | unload id =>
    simp only [begin]
    split <;> exact ⟨rfl, rfl, rfl, rfl, rfl, rfl⟩
  | reload id =>
    simp only [begin]
    split
    · exact ⟨rfl, rfl, rfl, rfl, rfl, rfl⟩
    · split <;> exact ⟨rfl, rfl, rfl, rfl, rfl, rfl⟩
  | _ => exact ⟨rfl, rfl, rfl, rfl, rfl, rfl⟩

theorem operation_same {s s' : System τ} {op : Operation} (h : s.operation op = some s') :
    s'.host = s.host ∧ s'.readers = s.readers ∧ s'.writer = s.writer ∧ s'.plugins = s.plugins ∧
      s'.stage = s.stage ∧ s'.quiesced = s.quiesced := by
  unfold operation at h
  split_ifs at h
  obtain rfl := Option.some.inj h
  exact begin_same s op

/-- A step without the exclusive lock leaves the host and its threads alone. -/
theorem Local.same {s s' : System τ} (h : Local s s') :
    s'.host = s.host ∧ s'.readers = s.readers ∧ s'.writer = s.writer := by
  cases h with
  | taken _ _ taken => cases taken <;> exact ⟨rfl, rfl, rfl⟩
  | unknown exit => cases exit <;> exact ⟨rfl, rfl, rfl⟩
  | drained exit => cases exit <;> exact ⟨rfl, rfl, rfl⟩
  | _ => exact ⟨rfl, rfl, rfl⟩

theorem Exclusive.same {s s' : System τ} (h : Exclusive s s') :
    s'.readers = s.readers ∧ s'.writer = s.writer ∧ s'.host.inflight = s.host.inflight ∧
      s'.host.writers ⊆ s.host.writers := by
  cases h with
  | retire exit p before =>
    exact ⟨rfl, rfl, PluginHost.retireOwner_inflight _ _, PluginHost.retireOwner_subset _ _⟩
  | removeOwner exit p before =>
    refine ⟨rfl, rfl, PluginHost.removeOwner_inflight _ _, ?_⟩
    simp
  | _ => exact ⟨rfl, rfl, rfl, List.Subset.refl _⟩

variable [DecidableEq τ]

theorem manage_cases {s s' : System τ} {reply : Reply} (h : s.manage reply = some s') :
    Local s s' ∨ (s.readers = ∅ ∧ Exclusive s s') := by
  unfold manage at h
  split_ifs at h with locks free
  · exact .inr ⟨free, exclusive_of_exclusiveStep h⟩
  · exact .inl (local_of_localStep h)

end IndustrialRuntime.Core.PluginManager.System
