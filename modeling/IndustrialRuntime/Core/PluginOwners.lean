import Mathlib.Data.List.Nodup
import IndustrialRuntime.Core.ManagerSteps

namespace IndustrialRuntime.Core.PluginManager

/-- The plugin being loaded: it has an owner and is not in the table. -/
def Stage.loading : Stage → Option Loaded
  | .activateLoad p _ | .createPlugin p _ | .init p _ | .deactivateLoad p _ | .pushBack p _ =>
    some p
  | .deactivate exit p | .retire exit p | .wait exit p | .poll exit p | .destroy exit p
  | .removeOwner exit p =>
    match exit with
    | .unload _ => none
    | _ => some p
  | _ => none

/-- The entry of the table that is worked on. -/
def Stage.entry : Stage → Option (Nat × OwnerId)
  | .activateStart index p | .start index p | .deactivateStart index p _ | .stop index p
  | .stopUnload index p => some (index, p.owner)
  | .deactivate exit p | .retire exit p | .wait exit p | .poll exit p | .destroy exit p
  | .removeOwner exit p | .closeLibrary exit p =>
    match exit with
    | .unload index => some (index, p.owner)
    | _ => none
  | _ => none

/-- The plugin that `unloadLocked` works on after `waitQuiescent`. -/
def Stage.unloading : Stage → Option OwnerId
  | .stopUnload _ p => some p.owner
  | .deactivate exit p | .destroy exit p | .removeOwner exit p | .closeLibrary exit p =>
    match exit with
    | .unload _ => some p.owner
    | _ => none
  | _ => none

/-- An element that occurs once is gone once it is erased. -/
theorem not_mem_eraseIdx {α : Type*} {l : List α} (distinct : l.Nodup) {index : Nat} {a : α}
    (place : l[index]? = some a) : a ∉ l.eraseIdx index := by
  intro present
  obtain ⟨j, other, elsewhere⟩ := List.mem_eraseIdx_iff_getElem?.mp present
  have bound : index < l.length := (List.getElem?_eq_some_iff.mp place).1
  exact other ((List.getElem?_inj bound distinct).mp (place.trans elsewhere.symm)).symm

namespace System

variable {τ : Type*}

def ids (s : System τ) : List OwnerId := s.plugins.map Loaded.owner

/-- Whose owner an id is, and whether it is still known to the host. -/
structure Owners (s : System τ) : Prop where
  positive : 0 < s.host.nextOwner
  distinct : s.ids.Nodup
  given : ∀ o ∈ s.ids, 0 < o ∧ o < s.host.nextOwner
  retired : ∀ o ∈ s.quiesced, o < s.host.nextOwner
  table : ∀ o ∈ s.ids, s.stage.unloading ≠ some o → o ∈ s.host.owners ∧ o ∉ s.quiesced
  loading : ∀ p, s.stage.loading = some p → 0 < p.owner ∧ p.owner < s.host.nextOwner ∧
    p.owner ∈ s.host.owners ∧ p.owner ∉ s.quiesced ∧ p.owner ∉ s.ids
  entry : ∀ index o, s.stage.entry = some (index, o) → s.ids[index]? = some o
  unloading : ∀ o, s.stage.unloading = some o → o ∈ s.quiesced

theorem owners_initial : Owners (initial : System τ) where
  positive := Nat.one_pos
  distinct := List.nodup_nil
  given o found := by simp [initial, ids] at found
  retired o found := by simp [initial] at found
  table o found := by simp [initial, ids] at found
  loading p found := by simp [initial, Stage.loading] at found
  entry index o found := by simp [initial, Stage.entry] at found
  unloading o found := by simp [initial, Stage.unloading] at found

/-- A step that neither changes whose owner an id is nor begins an entry of its own. -/
theorem Owners.keep {s s' : System τ} (inv : Owners s)
    (nextOwner : s'.host.nextOwner = s.host.nextOwner) (owners : s'.host.owners = s.host.owners)
    (ids : s'.ids = s.ids) (quiesced : s'.quiesced = s.quiesced)
    (loading : ∀ p, s'.stage.loading = some p → s.stage.loading = some p)
    (entry : ∀ index o, s'.stage.entry = some (index, o) → s.ids[index]? = some o)
    (unloading : s'.stage.unloading = s.stage.unloading) : Owners s' where
  positive := by rw [nextOwner]; exact inv.positive
  distinct := by rw [ids]; exact inv.distinct
  given := by rw [nextOwner, ids]; exact inv.given
  retired := by rw [nextOwner, quiesced]; exact inv.retired
  table := by rw [owners, ids, quiesced, unloading]; exact inv.table
  loading p found := by
    rw [nextOwner, owners, ids, quiesced]
    exact inv.loading p (loading p found)
  entry := by rw [ids]; exact entry
  unloading := by rw [quiesced, unloading]; exact inv.unloading

@[simp] theorem setStarted_ids (s : System τ) (index : Nat) (started : Bool) :
    (s.setStarted index started).ids = s.ids := by
  apply List.ext_getElem?
  intro i
  simp only [ids, setStarted, List.getElem?_map, List.getElem?_modify]
  by_cases same : index = i
  · cases s.plugins[i]? <;> simp [same]
  · cases s.plugins[i]? <;> simp [same]

theorem ids_of_getElem? (s : System τ) (index : Nat) (p : Loaded)
    (found : s.plugins[index]? = some p) : s.ids[index]? = some p.owner := by
  simp [ids, found]

theorem Owners.taken {s s' : System τ} (inv : Owners s) (before : s.stage = .ready)
    (h : Taken s s') : Owners s' := by
  cases h with
  | load path configPath thenStart jobs =>
    exact inv.keep rfl rfl rfl rfl (by simp [Stage.loading]) (by simp [Stage.entry])
      (by rw [before]; rfl)
  | done jobs => exact inv.keep rfl rfl rfl rfl (fun p found => found) inv.entry rfl
  | start index p jobs found =>
    refine inv.keep rfl rfl rfl rfl (by simp [Stage.loading]) (fun i o same => ?_)
      (by rw [before]; rfl)
    obtain ⟨rfl, rfl⟩ : index = i ∧ p.owner = o := by simpa [Stage.entry] using same
    exact ids_of_getElem? s index p found
  | stop index p jobs found =>
    refine inv.keep rfl rfl rfl rfl (by simp [Stage.loading]) (fun i o same => ?_)
      (by rw [before]; rfl)
    obtain ⟨rfl, rfl⟩ : index = i ∧ p.owner = o := by simpa [Stage.entry] using same
    exact ids_of_getElem? s index p found
  | unload index p jobs found =>
    refine inv.keep rfl rfl rfl rfl (by simp [Stage.loading]) (fun i o same => ?_)
      (by rw [before]; rfl)
    obtain ⟨rfl, rfl⟩ : index = i ∧ p.owner = o := by simpa [Stage.entry] using same
    exact ids_of_getElem? s index p found

/-- A step from one stage to the next of the same routine. -/
theorem Owners.next {s s' : System τ} (inv : Owners s)
    (nextOwner : s'.host.nextOwner = s.host.nextOwner) (owners : s'.host.owners = s.host.owners)
    (ids : s'.ids = s.ids) (quiesced : s'.quiesced = s.quiesced)
    (loading : s'.stage.loading = none ∨ s'.stage.loading = s.stage.loading)
    (entry : s'.stage.entry = none ∨ s'.stage.entry = s.stage.entry)
    (unloading : s'.stage.unloading = s.stage.unloading) : Owners s' := by
  refine inv.keep nextOwner owners ids quiesced (fun p found => ?_) (fun i o found => ?_) unloading
  · rcases loading with none | same
    · simp [none] at found
    · rwa [same] at found
  · rcases entry with none | same
    · simp [none] at found
    · rw [same] at found
      exact inv.entry i o found

/-- The plugin joins the table with the owner it was given. -/
theorem Owners.pushed {s : System τ} (inv : Owners s) (p : Loaded) (thenStart : Bool)
    (jobs : List Job) (before : s.stage = .pushBack p thenStart) :
    Owners { s with plugins := s.plugins ++ [p], stage := .ready, jobs := jobs } := by
  obtain ⟨positive, below, known, fresh, absent⟩ := inv.loading p (by rw [before]; rfl)
  have ids : System.ids { s with plugins := s.plugins ++ [p], stage := .ready, jobs := jobs } =
      s.ids ++ [p.owner] := by simp [System.ids]
  refine ⟨inv.positive, ?_, ?_, inv.retired, ?_, by simp [Stage.loading], by simp [Stage.entry],
    by simp [Stage.unloading]⟩
  · rw [ids]
    apply List.nodup_append.mpr
    refine ⟨inv.distinct, List.nodup_singleton _, fun a found b own => ?_⟩
    rw [List.mem_singleton.mp own]
    exact fun same => absent (same ▸ found)
  · intro o found
    rw [ids, List.mem_append, List.mem_singleton] at found
    rcases found with old | rfl
    · exact inv.given o old
    · exact ⟨positive, below⟩
  · intro o found _
    rw [ids, List.mem_append, List.mem_singleton] at found
    rcases found with old | rfl
    · exact inv.table o old (by simp [before, Stage.unloading])
    · exact ⟨known, fresh⟩

/-- `waitQuiescent` returns inside `unloadLocked`. -/
theorem Owners.sealed {s : System τ} (inv : Owners s) (index : Nat) (p : Loaded) (stage : Stage)
    (before : s.stage.entry = some (index, p.owner)) (running : s.stage.unloading = none)
    (loading : stage.loading = none) (entry : stage.entry = some (index, p.owner))
    (unloading : stage.unloading = some p.owner) :
    Owners { s with stage := stage, quiesced := p.owner :: s.quiesced } := by
  have place := inv.entry index p.owner before
  have found : p.owner ∈ s.ids := List.mem_of_getElem? place
  refine ⟨inv.positive, inv.distinct, inv.given, ?_, ?_, by simp [loading], ?_, ?_⟩
  · intro o retired
    rcases List.mem_cons.mp retired with rfl | old
    · exact (inv.given p.owner found).2
    · exact inv.retired o old
  · intro o member other
    obtain ⟨known, fresh⟩ := inv.table o member (by simp [running])
    refine ⟨known, fun retired => ?_⟩
    rcases List.mem_cons.mp retired with rfl | old
    · exact other unloading
    · exact fresh old
  · intro i o same
    rw [entry] at same
    obtain ⟨rfl, rfl⟩ : index = i ∧ p.owner = o := by simpa using same
    exact place
  · intro o same
    rw [unloading] at same
    obtain rfl := Option.some.inj same
    exact List.mem_cons_self

theorem Owners.quiescent {s : System τ} (inv : Owners s) (exit : Exit) (p : Loaded)
    (before : s.stage = .wait exit p ∨ s.stage = .poll exit p) : Owners (s.quiescent exit p) := by
  cases exit with
  | unload index =>
    have entry : s.stage.entry = some (index, p.owner) := by
      rcases before with h | h <;> rw [h] <;> rfl
    have running : s.stage.unloading = none := by
      rcases before with h | h <;> rw [h] <;> rfl
    have loading := s.quiescent_stage (.unload index) p Stage.loading none
      (fun _ _ => ⟨rfl, rfl⟩) (fun _ => rfl)
    have place := s.quiescent_stage (.unload index) p Stage.entry (some (index, p.owner))
      (fun i same => by cases same; exact ⟨rfl, rfl⟩) (fun _ => rfl)
    have unloading := s.quiescent_stage (.unload index) p Stage.unloading (some p.owner)
      (fun _ _ => ⟨rfl, rfl⟩) (fun _ => rfl)
    exact inv.sealed index p _ entry running loading place unloading
  | abandon =>
    refine inv.next rfl rfl rfl rfl (.inr ?_) (.inl rfl) ?_
    · rcases before with h | h <;> rw [h] <;> rfl
    · rcases before with h | h <;> rw [h] <;> rfl
  | rollback =>
    refine inv.next rfl rfl rfl rfl (.inr ?_) (.inl rfl) ?_
    · rcases before with h | h <;> rw [h] <;> rfl
    · rcases before with h | h <;> rw [h] <;> rfl

/-- The unloaded plugin leaves the table. -/
theorem Owners.closed {s : System τ} (inv : Owners s) (index : Nat) (p : Loaded)
    (calls : List Call) (before : s.stage = .closeLibrary (.unload index) p) :
    Owners { s with plugins := s.plugins.eraseIdx index, stage := .ready, calls := calls } := by
  have place := inv.entry index p.owner (by rw [before]; rfl)
  have ids : System.ids { s with
      plugins := s.plugins.eraseIdx index, stage := .ready, calls := calls } =
      s.ids.eraseIdx index := by
    simp [System.ids, List.eraseIdx_map]
  refine ⟨inv.positive, ?_, ?_, inv.retired, ?_, by simp [Stage.loading], by simp [Stage.entry],
    by simp [Stage.unloading]⟩
  · rw [ids]
    exact inv.distinct.sublist (List.eraseIdx_sublist _ _)
  · rw [ids]
    exact fun o found => inv.given o ((List.eraseIdx_sublist _ _).subset found)
  · intro o found _
    rw [ids] at found
    apply inv.table o ((List.eraseIdx_sublist _ _).subset found)
    rw [before]
    intro same
    obtain rfl : p.owner = o := by simpa [Stage.unloading] using same
    exact not_mem_eraseIdx inv.distinct place found

theorem Owners.local {s s' : System τ} (inv : Owners s) (h : Local s s') : Owners s' := by
  cases h with
  | taken s' before taken => exact inv.taken before taken
  | opened path configPath thenStart before =>
    exact inv.next rfl rfl rfl rfl (.inl rfl) (.inl rfl) (by rw [before]; rfl)
  | unopened path configPath thenStart before =>
    exact inv.next rfl rfl rfl rfl (.inl rfl) (.inl rfl) (by rw [before]; rfl)
  | inspected handle path configPath thenStart info before =>
    exact inv.next rfl rfl rfl rfl (.inl rfl) (.inl rfl) (by rw [before]; rfl)
  | rejected handle path configPath thenStart before =>
    exact inv.next rfl rfl rfl rfl (.inl rfl) (.inl rfl) (by rw [before]; rfl)
  | skipped handle before =>
    exact inv.next rfl rfl rfl rfl (.inl rfl) (.inl rfl) (by rw [before]; rfl)
  | created p thenStart before =>
    exact inv.next rfl rfl rfl rfl (.inr (by rw [before]; rfl)) (.inl rfl) (by rw [before]; rfl)
  | uncreated p thenStart before =>
    exact inv.next rfl rfl rfl rfl (.inr (by rw [before]; rfl)) (.inl rfl) (by rw [before]; rfl)
  | initialized p thenStart before =>
    exact inv.next rfl rfl rfl rfl (.inr (by rw [before]; rfl)) (.inl rfl) (by rw [before]; rfl)
  | uninitialized p thenStart before =>
    exact inv.next rfl rfl rfl rfl (.inr (by rw [before]; rfl)) (.inl rfl) (by rw [before]; rfl)
  | pushed p thenStart jobs before => exact inv.pushed p thenStart jobs before
  | started index p ok before =>
    exact inv.next rfl rfl rfl rfl (.inl rfl) (.inr (by rw [before]; rfl)) (by rw [before]; rfl)
  | stopped index p ok before =>
    exact inv.next rfl rfl (setStarted_ids s index false) rfl (.inl rfl) (.inl rfl)
      (by rw [before]; rfl)
  | waiting exit p before =>
    cases exit with
    | unload index =>
      exact inv.next rfl rfl rfl rfl (.inl rfl) (.inr (by rw [before]; rfl)) (by rw [before]; rfl)
    | _ =>
      exact inv.next rfl rfl rfl rfl (.inr (by rw [before]; rfl)) (.inl rfl) (by rw [before]; rfl)
  | unknown exit p before => exact inv.quiescent exit p (.inl before)
  | yielded exit p before => exact inv
  | drained exit p before => exact inv.quiescent exit p (.inr before)
  | stoppedUnload index p ok before =>
    exact inv.next rfl rfl (setStarted_ids s index false) rfl (.inl rfl)
      (.inr (by rw [before]; rfl)) (by rw [before]; rfl)
  | destroyed index p ok before =>
    exact inv.next rfl rfl rfl rfl (.inl rfl) (.inr (by rw [before]; rfl)) (by rw [before]; rfl)
  | rolledBack exit p ok before loading =>
    cases exit with
    | unload index => exact absurd rfl (loading index)
    | _ =>
      exact inv.next rfl rfl rfl rfl (.inr (by rw [before]; rfl)) (.inl rfl) (by rw [before]; rfl)
  | closed index p before => exact inv.closed index p _ before
  | dropped exit p before loading =>
    cases exit with
    | unload index => exact absurd rfl (loading index)
    | _ => exact inv.next rfl rfl rfl rfl (.inl rfl) (.inl rfl) (by rw [before]; rfl)

/-- A new owner is nobody's yet. -/
theorem Owners.createOwner {s : System τ} (inv : Owners s) (p : Loaded) (thenStart : Bool)
    (own : p.owner = s.host.nextOwner) (running : s.stage.unloading = none) :
    Owners { s with host := s.host.createOwner.2, stage := .activateLoad p thenStart } := by
  have later : ∀ o, o < s.host.nextOwner → o < s.host.createOwner.2.nextOwner := by
    intro o below
    rw [PluginHost.createOwner_nextOwner]
    exact Nat.lt_succ_of_lt below
  refine ⟨?_, inv.distinct, fun o found => ?_, fun o found => later o (inv.retired o found),
    fun o found _ => ?_, fun q same => ?_, by simp [Stage.entry], by simp [Stage.unloading]⟩
  · exact later 0 inv.positive
  · obtain ⟨positive, below⟩ := inv.given o found
    exact ⟨positive, later o below⟩
  · obtain ⟨known, fresh⟩ := inv.table o found (by simp [running])
    exact ⟨Finset.mem_insert_of_mem known, fresh⟩
  · obtain rfl : p = q := by simpa [Stage.loading] using same
    rw [own]
    refine ⟨inv.positive, Nat.lt_succ_self _, Finset.mem_insert_self _ _, fun retired => ?_,
      fun found => ?_⟩
    · exact absurd (inv.retired _ retired) (Nat.lt_irrefl _)
    · exact absurd (inv.given _ found).2 (Nat.lt_irrefl _)

/-- The host forgets the owner of a plugin that is no longer loading, or is being unloaded. -/
theorem Owners.removeOwner {s : System τ} (inv : Owners s) (exit : Exit) (p : Loaded)
    (before : s.stage = .removeOwner exit p) :
    Owners { s with host := s.host.removeOwner p.owner, stage := .closeLibrary exit p } := by
  have stage : (Stage.closeLibrary exit p).unloading = s.stage.unloading := by rw [before]; rfl
  refine ⟨?_, inv.distinct, ?_, ?_, fun o found other => ?_, by simp [Stage.loading],
    fun index o same => inv.entry index o ?_, fun o same => inv.unloading o ?_⟩
  · simpa using inv.positive
  · rw [PluginHost.removeOwner_nextOwner]
    exact inv.given
  · simpa using inv.retired
  · change (Stage.closeLibrary exit p).unloading ≠ some o at other
    rw [stage] at other
    obtain ⟨known, fresh⟩ := inv.table o found other
    refine ⟨PluginHost.mem_removeOwner _ _ _ (fun own => ?_) known, fresh⟩
    subst own
    cases exit with
    | unload index => exact other (by rw [before]; rfl)
    | abandon => exact (inv.loading p (by rw [before]; rfl)).2.2.2.2 found
    | rollback => exact (inv.loading p (by rw [before]; rfl)).2.2.2.2 found
  · rw [before]
    exact same
  · rw [← stage]
    exact same

theorem Owners.exclusive {s s' : System τ} (inv : Owners s) (h : Exclusive s s') : Owners s' := by
  cases h with
  | createOwner handle id path configPath thenStart before =>
    exact inv.createOwner ⟨handle, id, false, path, configPath, s.host.nextOwner⟩ thenStart rfl
      (by rw [before]; rfl)
  | activateLoad p thenStart before =>
    exact inv.next rfl rfl rfl rfl (.inr (by rw [before]; rfl)) (.inl rfl) (by rw [before]; rfl)
  | deactivateLoad p thenStart before =>
    exact inv.next rfl rfl rfl rfl (.inr (by rw [before]; rfl)) (.inl rfl) (by rw [before]; rfl)
  | activateStart index p before =>
    exact inv.next rfl rfl rfl rfl (.inl rfl) (.inr (by rw [before]; rfl)) (by rw [before]; rfl)
  | started index p before =>
    exact inv.next rfl rfl (setStarted_ids s index true) rfl (.inl rfl) (.inl rfl)
      (by rw [before]; rfl)
  | unstarted index p before =>
    exact inv.next rfl rfl rfl rfl (.inl rfl) (.inl rfl) (by rw [before]; rfl)
  | rollback p before =>
    exact inv.next rfl rfl rfl rfl (.inr (by rw [before]; rfl)) (.inl rfl) (by rw [before]; rfl)
  | abandon exit p before =>
    exact inv.next rfl rfl rfl rfl (.inr (by rw [before]; rfl)) (.inr (by rw [before]; rfl))
      (by rw [before]; rfl)
  | retire exit p before =>
    exact inv.next (PluginHost.retireOwner_nextOwner _ _) (PluginHost.retireOwner_owners _ _) rfl
      rfl (.inr (by rw [before]; rfl)) (.inr (by rw [before]; rfl)) (by rw [before]; rfl)
  | removeOwner exit p before => exact inv.removeOwner exit p before

theorem Owners.operation {s s' : System τ} {op : Operation} (inv : Owners s)
    (h : s.operation op = some s') : Owners s' := by
  obtain ⟨host, _, _, plugins, stage, quiesced⟩ := operation_same h
  refine inv.next (by rw [host]) (by rw [host]) ?_ quiesced (.inr (by rw [stage]))
    (.inr (by rw [stage])) (by rw [stage])
  rw [ids, ids, plugins]

/-- An owner about to be retired is a known one, and not 0. -/
theorem Owners.retiring {s : System τ} (inv : Owners s) (exit : Exit) (p : Loaded)
    (before : s.stage = .retire exit p ∨ s.stage = .wait exit p) :
    p.owner ≠ 0 ∧ p.owner ∈ s.host.owners := by
  cases exit with
  | unload index =>
    have place := inv.entry index p.owner (by rcases before with h | h <;> rw [h] <;> rfl)
    have found := List.mem_of_getElem? place
    have known := inv.table p.owner found
      (by rcases before with h | h <;> rw [h] <;> simp [Stage.unloading])
    exact ⟨Nat.ne_of_gt (inv.given p.owner found).1, known.1⟩
  | abandon =>
    obtain ⟨positive, _, known, _⟩ := inv.loading p (by rcases before with h | h <;> rw [h] <;> rfl)
    exact ⟨Nat.ne_of_gt positive, known⟩
  | rollback =>
    obtain ⟨positive, _, known, _⟩ := inv.loading p (by rcases before with h | h <;> rw [h] <;> rfl)
    exact ⟨Nat.ne_of_gt positive, known⟩

end System

end IndustrialRuntime.Core.PluginManager
