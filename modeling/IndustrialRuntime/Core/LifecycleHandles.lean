import Mathlib.Data.List.Perm.Basic
import IndustrialRuntime.Core.LifecyclePhases

namespace IndustrialRuntime.Core.PluginManager

/-! ### Which libraries are open -/

/-- The library of a load in progress. -/
def Stage.handle : Stage → Option Nat
  | .inspect handle .. | .skip handle | .createOwner handle .. => some handle
  | .activateLoad p _ | .createPlugin p _ | .init p _ | .deactivateLoad p _ | .pushBack p _ =>
    some p.handle
  | .deactivate exit p | .retire exit p | .wait exit p | .poll exit p | .destroy exit p
  | .removeOwner exit p | .closeLibrary exit p =>
    match exit with
    | .unload _ => none
    | _ => some p.handle
  | _ => none

theorem Stage.handle_of_nascent {stage : Stage} {p : Loaded} (nascent : stage.nascent = some p) :
    stage.handle = some p.handle := by
  cases stage with
  | init | deactivateLoad | pushBack =>
    obtain rfl := Option.some.inj nascent
    rfl
  | deactivate exit | retire exit | wait exit | poll exit | destroy exit | removeOwner exit
  | closeLibrary exit =>
    cases exit with
    | rollback =>
      obtain rfl := Option.some.inj nascent
      rfl
    | _ => cases nascent
  | _ => cases nascent

/-- An element of a list that has grown was there before, or is new. -/
theorem exists_split_of_append {α : Type*} {l new pre post : List α} {x : α}
    (h : l ++ new = pre ++ x :: post) (old : x ∉ new) : ∃ rest, l = pre ++ x :: rest := by
  rcases List.append_eq_append_iff.mp h with ⟨tail, rfl, inside⟩ | ⟨tail, rfl, inside⟩
  · rw [inside] at old
    simp at old
  · cases tail with
    | nil =>
      rw [List.nil_append] at inside
      rw [← inside] at old
      simp at old
    | cons y tail =>
      injection inside with same
      exact ⟨tail, by rw [same]⟩

theorem split_snoc {α : Type*} {l pre post : List α} {x y : α} (h : l ++ [y] = pre ++ x :: post) :
    (l = pre ∧ x = y) ∨ ∃ rest, l = pre ++ x :: rest := by
  rcases List.eq_nil_or_concat post with rfl | ⟨rest, last, rfl⟩
  · obtain ⟨same, ends⟩ := List.append_inj' h rfl
    injection ends with ends
    exact .inl ⟨same, ends.symm⟩
  · rw [List.concat_eq_append, ← List.cons_append, ← List.append_assoc] at h
    exact .inr ⟨rest, (List.append_inj' h rfl).1⟩

namespace System

variable {τ : Type*}

/-- The libraries that are open. -/
def held (s : System τ) : List Nat := s.plugins.map Loaded.handle ++ s.stage.handle.toList

theorem instances_held (s : System τ) : (s.instances.map Prod.snd).Sublist s.held := by
  have table : (s.plugins.map Loaded.source).map Prod.snd = s.plugins.map Loaded.handle := by
    rw [List.map_map]
    rfl
  rw [instances, held, List.map_append, table]
  apply List.Sublist.append_left
  cases nascent : s.stage.nascent with
  | none => exact List.nil_sublist _
  | some p =>
    rw [Stage.handle_of_nascent nascent]
    exact List.Sublist.refl _

/-- Every library that was opened is open or was closed, once; and the library of an instance is
closed after its `destroy`. -/
structure Handles (s : System τ) : Prop where
  balance : ∀ h, s.calls.count (.closed h) + s.held.count h = s.calls.count (.opened h)
  once : ∀ h, s.calls.count (.opened h) ≤ 1
  below : ∀ h, .opened h ∈ s.calls → h < s.nextHandle
  accounted : ∀ o h, .created o h true ∈ s.calls → .closed h ∈ s.calls ∨ (o, h) ∈ s.instances
  after : ∀ o h pre post, s.calls = pre ++ .closed h :: post → .created o h true ∈ s.calls →
    ∃ ok, .destroy o ok ∈ pre

theorem handles_initial : Handles (initial : System τ) where
  balance h := by simp [initial, held, Stage.handle]
  once h := by simp [initial]
  below h found := by simp [initial] at found
  accounted o h found := by simp [initial] at found
  after o h pre post split := by simp [initial] at split

/-- An open library is held once and has not been closed. -/
theorem Handles.open {s : System τ} (inv : Handles s) {h : Nat} (holds : h ∈ s.held) :
    s.held.count h = 1 ∧ .closed h ∉ s.calls := by
  have balance := inv.balance h
  have once := inv.once h
  have some_held : 0 < s.held.count h := List.count_pos_iff.mpr holds
  refine ⟨by omega, fun closed => ?_⟩
  have some_closed : 0 < s.calls.count (.closed h) := List.count_pos_iff.mpr closed
  omega

theorem Handles.nodup {s : System τ} (inv : Handles s) : s.held.Nodup := by
  rw [List.nodup_iff_count_le_one]
  intro h
  have balance := inv.balance h
  have once := inv.once h
  omega

/-- Two instances have two libraries. -/
theorem Handles.unique {s : System τ} (inv : Handles s) {o o' : OwnerId} {h : Nat}
    (first : (o, h) ∈ s.instances) (second : (o', h) ∈ s.instances) : o = o' := by
  have distinct := inv.nodup.sublist s.instances_held
  have same := List.inj_on_of_nodup_map distinct first second rfl
  injection same

/-- A step that opens and closes no library and makes no instance. -/
theorem Handles.keep {s s' : System τ} (inv : Handles s) (new : List Call)
    (calls : s'.calls = s.calls ++ new) (opens : ∀ h, .opened h ∉ new)
    (closes : ∀ h, .closed h ∉ new) (creates : ∀ o h, .created o h true ∉ new)
    (held : s'.held = s.held) (instances : s'.instances = s.instances)
    (nextHandle : s'.nextHandle = s.nextHandle) : Handles s' := by
  have made (o : OwnerId) (h : Nat) :
      .created o h true ∈ s'.calls ↔ .created o h true ∈ s.calls := by
    simp [calls, creates]
  constructor
  · intro h
    rw [calls, held, List.count_append, List.count_append, List.count_eq_zero.mpr (opens h),
      List.count_eq_zero.mpr (closes h)]
    exact inv.balance h
  · intro h
    rw [calls, List.count_append, List.count_eq_zero.mpr (opens h)]
    exact inv.once h
  · intro h found
    rw [nextHandle]
    apply inv.below h
    simpa [calls, opens] using found
  · intro o h found
    rw [instances]
    exact (inv.accounted o h ((made o h).mp found)).imp_left
      (fun closed => calls ▸ List.mem_append_left _ closed)
  · intro o h pre post split found
    rw [calls] at split
    obtain ⟨rest, before⟩ := exists_split_of_append split (closes h)
    exact inv.after o h pre rest before ((made o h).mp found)

/-- A library is closed whose instance, if it has one, is destroyed. -/
theorem Handles.close {s s' : System τ} (inv : Handles s) (h : Nat)
    (calls : s'.calls = s.calls ++ [.closed h]) (held : s.held.Perm (h :: s'.held))
    (instances : ∀ x ∈ s.instances, x.2 ≠ h → x ∈ s'.instances)
    (destroyed : ∀ o, (o, h) ∈ s.instances → ∃ ok, .destroy o ok ∈ s.calls)
    (nextHandle : s'.nextHandle = s.nextHandle) : Handles s' := by
  have opened (k : Nat) : s'.calls.count (.opened k) = s.calls.count (.opened k) := by
    simp [calls]
  have made (o : OwnerId) (k : Nat) :
      .created o k true ∈ s'.calls ↔ .created o k true ∈ s.calls := by
    simp [calls]
  constructor
  · intro k
    have balance := inv.balance k
    have one : s.held.count k = (h :: s'.held).count k := held.count_eq k
    rw [List.count_cons] at one
    rw [opened, calls, List.count_append]
    by_cases same : h = k
    · subst same
      simp only [beq_self_eq_true, if_true] at one
      simp only [List.count_singleton_self]
      omega
    · have other : (Call.closed h == Call.closed k) = false := by simpa using same
      have apart : (h == k) = false := by simpa using same
      simp only [apart, Bool.false_eq_true, if_false] at one
      simp only [List.count_singleton, other, Bool.false_eq_true, if_false]
      omega
  · intro k
    rw [opened]
    exact inv.once k
  · intro k found
    rw [nextHandle]
    apply inv.below k
    simpa [calls] using found
  · intro o k found
    by_cases same : k = h
    · rw [same, calls]
      exact .inl (List.mem_append_right _ (List.mem_singleton.mpr rfl))
    · rcases inv.accounted o k ((made o k).mp found) with closed | there
      · exact .inl (calls ▸ List.mem_append_left _ closed)
      · exact .inr (instances _ there same)
  · intro o k pre post split found
    have before := (made o k).mp found
    rw [calls] at split
    rcases split_snoc split with ⟨rfl, same⟩ | ⟨rest, earlier⟩
    · injection same with same
      subst same
      apply destroyed o
      apply (inv.accounted o k before).resolve_left
      apply (inv.open _).2
      exact held.mem_iff.mpr List.mem_cons_self
    · exact inv.after o k pre rest earlier before

/-- A step that leaves the table alone and the load in progress with its library. -/
theorem Handles.move {s s' : System τ} (inv : Handles s) (new : List Call)
    (calls : s'.calls = s.calls ++ new) (opens : ∀ h, .opened h ∉ new)
    (closes : ∀ h, .closed h ∉ new) (creates : ∀ o h, .created o h true ∉ new)
    (plugins : s'.plugins.map Loaded.source = s.plugins.map Loaded.source)
    (handle : s'.stage.handle = s.stage.handle) (nascent : s'.stage.nascent = s.stage.nascent)
    (nextHandle : s'.nextHandle = s.nextHandle) : Handles s' := by
  have handles : s'.plugins.map Loaded.handle = s.plugins.map Loaded.handle := by
    have second : Loaded.handle = Prod.snd ∘ Loaded.source := rfl
    rw [second, ← List.map_map, ← List.map_map, plugins]
  apply inv.keep new calls opens closes creates _ _ nextHandle
  · rw [held, held, handles, handle]
  · rw [instances, instances, plugins, nascent]

theorem Handles.opened {s : System τ} (inv : Handles s) (path configPath : Bytes)
    (thenStart : Bool) (before : s.stage = .openLibrary path configPath thenStart) :
    Handles { s with
      stage := .inspect s.nextHandle path configPath thenStart
      nextHandle := s.nextHandle + 1
      calls := s.calls ++ [.opened s.nextHandle] } := by
  have fresh : s.calls.count (.opened s.nextHandle) = 0 := by
    rw [List.count_eq_zero]
    exact fun found => absurd (inv.below _ found) (Nat.lt_irrefl _)
  have now (h : Nat) : (s.calls ++ [Call.opened s.nextHandle]).count (.opened h) =
      s.calls.count (.opened h) + if s.nextHandle = h then 1 else 0 := by
    rw [List.count_append, List.count_singleton]
    by_cases same : s.nextHandle = h <;> simp [same]
  constructor
  · intro h
    have balance := inv.balance h
    have more : held { s with
        stage := .inspect s.nextHandle path configPath thenStart
        nextHandle := s.nextHandle + 1
        calls := s.calls ++ [.opened s.nextHandle] } = s.held ++ [s.nextHandle] := by
      simp [held, before, Stage.handle]
    have unclosed : [Call.opened s.nextHandle].count (.closed h) = 0 := rfl
    rw [more, now, List.count_append, List.count_append, unclosed, List.count_singleton]
    by_cases same : s.nextHandle = h
    · simp only [same, beq_self_eq_true, if_true]
      omega
    · simp only [same, beq_iff_eq, if_false]
      omega
  · intro h
    have once := inv.once h
    rw [now]
    by_cases same : s.nextHandle = h
    · subst same
      rw [if_pos rfl, fresh]
    · rw [if_neg same]
      exact once
  · intro h found
    rcases List.mem_append.mp found with old | last
    · exact Nat.lt_succ_of_lt (inv.below h old)
    · have same : h = s.nextHandle := by simpa using last
      rw [same]
      exact Nat.lt_succ_self _
  · intro o h found
    have made : .created o h true ∈ s.calls := by simpa using found
    have there : instances { s with
        stage := .inspect s.nextHandle path configPath thenStart
        nextHandle := s.nextHandle + 1
        calls := s.calls ++ [.opened s.nextHandle] } = s.instances := by
      simp [instances, before, Stage.nascent]
    rw [there]
    exact (inv.accounted o h made).imp_left (List.mem_append_left _)
  · intro o h pre post split found
    have made : .created o h true ∈ s.calls := by simpa using found
    rcases split_snoc split with ⟨_, same⟩ | ⟨rest, earlier⟩
    · cases same
    · exact inv.after o h pre rest earlier made

theorem Handles.created {s : System τ} (inv : Handles s) (p : Loaded) (thenStart : Bool)
    (before : s.stage = .createPlugin p thenStart) :
    Handles { s with
      stage := .init p thenStart
      calls := s.calls ++ [.created p.owner p.handle true] } := by
  have holds : p.handle ∈ s.held := by simp [held, before, Stage.handle]
  constructor
  · intro h
    have same : held { s with
        stage := .init p thenStart
        calls := s.calls ++ [.created p.owner p.handle true] } = s.held := by
      simp [held, before, Stage.handle]
    have balance := inv.balance h
    rw [same]
    simpa using balance
  · intro h
    simpa using inv.once h
  · intro h found
    apply inv.below h
    simpa using found
  · intro o h found
    have more : instances { s with
        stage := .init p thenStart
        calls := s.calls ++ [.created p.owner p.handle true] } = s.instances ++ [p.source] := by
      simp [instances, before, Stage.nascent]
    rw [more]
    rcases List.mem_append.mp found with old | last
    · exact (inv.accounted o h old).imp (List.mem_append_left _) (List.mem_append_left _)
    · injection List.mem_singleton.mp last with owner handle
      rw [owner, handle]
      exact .inr (List.mem_append_right _ (List.mem_singleton.mpr rfl))
  · intro o h pre post split found
    rcases split_snoc split with ⟨_, same⟩ | ⟨rest, earlier⟩
    · cases same
    · rcases List.mem_append.mp found with old | last
      · exact inv.after o h pre rest earlier old
      · -- the library of the new instance is open
        injection List.mem_singleton.mp last with owner handle
        rw [handle] at earlier
        apply absurd _ (inv.open holds).2
        rw [earlier]
        exact List.mem_append_right _ List.mem_cons_self

/-- An instance that is gone was destroyed. -/
theorem Phased.destroyed {s : System τ} (inv : Phased s) {o : OwnerId} (made : s.Created o)
    (gone : s.phase o = .gone) : ∃ ok, .destroy o ok ∈ s.calls := by
  have whole := Phase.leads_of_after (inv.ordered o made)
  rw [gone] at whole
  obtain ⟨v, ok, split, -⟩ := Life.destroys whole
  have found : InstanceCall.destroy ok ∈ instanceCalls o s.calls := by
    rw [split]
    exact List.mem_append_right _ (List.mem_singleton.mpr rfl)
  obtain ⟨c, member, own⟩ := List.mem_filterMap.mp found
  refine ⟨ok, ?_⟩
  cases c with
  | destroy owner done =>
    have same : owner = o ∧ done = ok := by simpa [Call.toInstance] using own
    rw [← same.1, ← same.2]
    exact member
  | opened | created | closed => cases own
  | init owner | start owner | stop owner => simp [Call.toInstance] at own

/-- `closeLibrary` at the end of `unloadLocked`. -/
theorem Handles.closed {s : System τ} (inv : Handles s) (phased : Phased s) (copies : s.Copies)
    (index : Nat) (p : Loaded) (before : s.stage = .closeLibrary (.unload index) p) :
    Handles { s with
      plugins := s.plugins.eraseIdx index
      stage := .ready
      calls := s.calls ++ [.closed p.handle] } := by
  have place : s.plugins[index]? = some { p with started := false } :=
    copies index _ (by rw [before]; rfl)
  have perm : s.plugins.Perm ({ p with started := false } :: s.plugins.eraseIdx index) := by
    obtain ⟨bound, there⟩ := List.getElem?_eq_some_iff.mp place
    rw [← there]
    exact (List.getElem_cons_eraseIdx_perm bound).symm
  have own : (p.owner, p.handle) ∈ s.instances := by
    apply List.mem_append_left
    exact List.mem_map.mpr ⟨_, List.mem_of_getElem? place, rfl⟩
  apply inv.close p.handle rfl
  · simpa [held, before, Stage.handle] using perm.map Loaded.handle
  · intro x found other
    have one : x ∈ s.plugins.map Loaded.source := by
      simpa [instances, before, Stage.nascent] using found
    have split := (perm.map Loaded.source).mem_iff.mp one
    rcases List.mem_cons.mp split with rfl | kept
    · exact absurd rfl other
    · exact List.mem_append_left _ kept
  · intro o there
    obtain rfl := inv.unique there own
    apply phased.destroyed ⟨p.handle, phased.made _ own⟩
    exact phase_of_stage (by simp [before, Stage.phase])
  · rfl

/-- `closeLibrary` at the end of a load that failed. -/
theorem Handles.dropped {s : System τ} (inv : Handles s) (h : Nat)
    (handle : s.stage.handle = some h)
    (gone : ∀ p, s.stage.nascent = some p → ∃ ok, .destroy p.owner ok ∈ s.calls) :
    Handles { s with stage := .ready, calls := s.calls ++ [.closed h] } := by
  have held_eq : s.held = s.plugins.map Loaded.handle ++ [h] := by simp [held, handle]
  have distinct := inv.nodup
  rw [held_eq] at distinct
  have absent : h ∉ s.plugins.map Loaded.handle := fun found =>
    (List.nodup_append.mp distinct).2.2 h found h (List.mem_singleton.mpr rfl) rfl
  apply inv.close h rfl
  · rw [held_eq]
    simp [held, Stage.handle]
  · intro x found other
    rcases List.mem_append.mp found with table | nascent
    · exact List.mem_append_left _ table
    · obtain ⟨p, there, rfl⟩ : ∃ p, s.stage.nascent = some p ∧ p.source = x := by
        simpa using nascent
      have same := Stage.handle_of_nascent there
      rw [handle] at same
      exact absurd (Option.some.inj same).symm other
  · intro o found
    rcases List.mem_append.mp found with table | nascent
    · obtain ⟨p, member, same⟩ := List.mem_map.mp table
      injection same with _ same
      exact absurd (List.mem_map.mpr ⟨p, member, same⟩) absent
    · obtain ⟨p, there, same⟩ : ∃ p, s.stage.nascent = some p ∧ p.source = (o, h) := by
        simpa using nascent
      injection same with owner _
      rw [← owner]
      exact gone p there
  · rfl

theorem quiescent_handle (s : System τ) {exit : Exit} {p : Loaded}
    (before : s.stage = .wait exit p ∨ s.stage = .poll exit p) :
    (s.quiescent exit p).stage.handle = s.stage.handle := by
  cases exit with
  | unload index =>
    simp only [System.quiescent]
    rcases before with h | h <;> rw [h] <;> split <;> rfl
  | _ => rcases before with h | h <;> rw [h] <;> rfl

theorem Handles.quiescent {s : System τ} (inv : Handles s) (exit : Exit) (p : Loaded)
    (before : s.stage = .wait exit p ∨ s.stage = .poll exit p) :
    Handles (s.quiescent exit p) := by
  apply inv.keep [] _ (by simp) (by simp) (by simp) _ (s.quiescent_instances before)
  · cases exit <;> rfl
  · cases exit <;> exact (List.append_nil _).symm
  · have plugins : (s.quiescent exit p).plugins = s.plugins := by cases exit <;> rfl
    rw [held, held, plugins, s.quiescent_handle before]

/-- The plugin whose instance is not in the table has an owner of its own. -/
def Apart (s : System τ) : Prop := ∀ p, s.stage.nascent = some p → p.owner ∉ s.ids

theorem loading_of_nascent {s : System τ} {p : Loaded} (nascent : s.stage.nascent = some p)
    (closing : s.stage ≠ .closeLibrary .rollback p) : s.stage.loading = some p := by
  cases stage : s.stage with
  | closeLibrary exit q =>
    rw [stage] at nascent closing
    cases exit with
    | rollback =>
      obtain rfl := Option.some.inj nascent
      exact absurd rfl closing
    | _ => cases nascent
  | init | deactivateLoad | pushBack =>
    rw [stage] at nascent
    exact nascent
  | deactivate exit | retire exit | wait exit | poll exit | destroy exit | removeOwner exit =>
    rw [stage] at nascent
    cases exit with
    | rollback => exact nascent
    | _ => cases nascent
  | _ =>
    rw [stage] at nascent
    cases nascent

theorem Apart.of_owners {s : System τ} (owners : Owners s)
    (closing : ∀ p, s.stage ≠ .closeLibrary .rollback p) : s.Apart := by
  intro p nascent
  exact (owners.loading p (loading_of_nascent nascent (closing p))).2.2.2.2

theorem Apart.local {s s' : System τ} (owners : Owners s') (h : Local s s') : s'.Apart := by
  apply Apart.of_owners owners
  intro p
  cases h with
  | taken _ ready taken =>
    cases taken with
    | done =>
      rw [ready]
      exact Stage.noConfusion
    | _ => exact Stage.noConfusion
  | yielded exit q before =>
    rw [before]
    exact Stage.noConfusion
  | unknown exit q | drained exit q =>
    cases exit with
    | unload index =>
      simp only [System.quiescent]
      split <;> exact Stage.noConfusion
    | _ => exact Stage.noConfusion
  | _ => exact Stage.noConfusion

theorem Apart.exclusive {s s' : System τ} (before : Owners s) (owners : Owners s')
    (h : Exclusive s s') : s'.Apart := by
  cases h with
  | removeOwner exit p stage =>
    cases exit with
    | rollback =>
      intro q nascent
      obtain rfl := Option.some.inj nascent
      exact (before.loading _ (by rw [stage]; rfl)).2.2.2.2
    | _ => exact Apart.of_owners owners (fun _ same => by cases same)
  | _ => exact Apart.of_owners owners (fun _ => Stage.noConfusion)

theorem Handles.local {s s' : System τ} (inv : Handles s) (apart : s.Apart) (phased : Phased s)
    (copies : s.Copies) (h : Local s s') : Handles s' := by
  have silent : s.calls = s.calls ++ [] := (List.append_nil _).symm
  have quiet (calls : s'.calls = s.calls)
      (plugins : s'.plugins.map Loaded.source = s.plugins.map Loaded.source)
      (handle : s'.stage.handle = s.stage.handle) (nascent : s'.stage.nascent = s.stage.nascent)
      (nextHandle : s'.nextHandle = s.nextHandle) : Handles s' :=
    inv.move [] (calls.trans silent) (by simp) (by simp) (by simp) plugins handle nascent nextHandle
  cases h with
  | taken _ before taken =>
    cases taken with
    | done jobs => exact quiet rfl rfl rfl rfl rfl
    | _ => exact quiet rfl rfl (by rw [before]; rfl) (by rw [before]; rfl) rfl
  | opened path configPath thenStart before => exact inv.opened path configPath thenStart before
  | unopened path configPath thenStart before =>
    exact quiet rfl rfl (by rw [before]; rfl) (by rw [before]; rfl) rfl
  | inspected handle path configPath thenStart info before =>
    exact quiet rfl rfl (by rw [before]; rfl) (by rw [before]; rfl) rfl
  | rejected handle path configPath thenStart before =>
    exact quiet rfl rfl (by rw [before]; rfl) (by rw [before]; rfl) rfl
  | skipped handle before =>
    apply inv.dropped handle (by rw [before]; rfl)
    intro p nascent
    simp [before, Stage.nascent] at nascent
  | created p thenStart before => exact inv.created p thenStart before
  | uncreated p thenStart before =>
    exact inv.move [.created p.owner p.handle false] rfl (by simp) (by simp) (by simp) rfl
      (by rw [before]; rfl) (by rw [before]; rfl) rfl
  | initialized p thenStart before =>
    exact inv.move [.init p.owner true] rfl (by simp) (by simp) (by simp) rfl
      (by rw [before]; rfl) (by rw [before]; rfl) rfl
  | uninitialized p thenStart before =>
    exact inv.move [.init p.owner false] rfl (by simp) (by simp) (by simp) rfl
      (by rw [before]; rfl) (by rw [before]; rfl) rfl
  | pushed p thenStart jobs before =>
    refine inv.keep [] silent (by simp) (by simp) (by simp) ?_ ?_ rfl
    · simp [held, before, Stage.handle]
    · simp [instances, before, Stage.nascent, Loaded.source]
  | started index p ok before =>
    exact inv.move [.start p.owner ok] rfl (by simp) (by simp) (by simp) rfl
      (by rw [before]; rfl) (by rw [before]; rfl) rfl
  | stopped index p ok before =>
    exact inv.move [.stop p.owner ok] rfl (by simp) (by simp) (by simp)
      (s.setStarted_sources index false) (by rw [before]; rfl) (by rw [before]; rfl) rfl
  | waiting exit p before =>
    exact quiet rfl rfl (by rw [before]; cases exit <;> rfl) (by rw [before]; cases exit <;> rfl)
      rfl
  | unknown exit p before => exact inv.quiescent exit p (.inl before)
  | yielded exit p before => exact inv
  | drained exit p before => exact inv.quiescent exit p (.inr before)
  | stoppedUnload index p ok before =>
    exact inv.move [.stop p.owner ok] rfl (by simp) (by simp) (by simp)
      (s.setStarted_sources index false) (by rw [before]; rfl) (by rw [before]; rfl) rfl
  | destroyed index p ok before =>
    exact inv.move [.destroy p.owner ok] rfl (by simp) (by simp) (by simp) rfl
      (by rw [before]; rfl) (by rw [before]; rfl) rfl
  | rolledBack exit p ok before loading =>
    cases exit with
    | unload index => exact absurd rfl (loading index)
    | _ =>
      exact inv.move [.destroy p.owner ok] rfl (by simp) (by simp) (by simp) rfl
        (by rw [before]; rfl) (by rw [before]; rfl) rfl
  | closed index p before => exact inv.closed phased copies index p before
  | dropped exit p before loading =>
    cases exit with
    | unload index => exact absurd rfl (loading index)
    | abandon =>
      apply inv.dropped p.handle (by rw [before]; rfl)
      intro q nascent
      simp [before, Stage.nascent] at nascent
    | rollback =>
      apply inv.dropped p.handle (by rw [before]; rfl)
      intro q nascent
      obtain rfl : p = q := by simpa [before, Stage.nascent] using nascent
      apply phased.destroyed (phased.created_nascent nascent)
      exact phase_of_absent (by rw [before]; rfl) (started?_none (apart p nascent))

theorem Handles.exclusive {s s' : System τ} (inv : Handles s) (flagged : s.stage.Flagged)
    (h : Exclusive s s') : Handles s' := by
  have quiet (calls : s'.calls = s.calls)
      (plugins : s'.plugins.map Loaded.source = s.plugins.map Loaded.source)
      (handle : s'.stage.handle = s.stage.handle) (nascent : s'.stage.nascent = s.stage.nascent)
      (nextHandle : s'.nextHandle = s.nextHandle) : Handles s' :=
    inv.move [] (calls.trans (List.append_nil _).symm) (by simp) (by simp) (by simp) plugins handle
      nascent nextHandle
  cases h with
  | createOwner handle id path configPath thenStart before =>
    exact quiet rfl rfl (by rw [before]; rfl) (by rw [before]; rfl) rfl
  | activateLoad p thenStart before =>
    exact quiet rfl rfl (by rw [before]; rfl) (by rw [before]; rfl) rfl
  | deactivateLoad p thenStart before =>
    exact quiet rfl rfl (by rw [before]; rfl) (by rw [before]; rfl) rfl
  | activateStart index p before =>
    exact quiet rfl rfl (by rw [before]; rfl) (by rw [before]; rfl) rfl
  | started index p before =>
    exact quiet rfl (s.setStarted_sources index true) (by rw [before]; rfl) (by rw [before]; rfl)
      rfl
  | unstarted index p before =>
    exact quiet rfl rfl (by rw [before]; rfl) (by rw [before]; rfl) rfl
  | rollback p before => exact quiet rfl rfl (by rw [before]; rfl) (by rw [before]; rfl) rfl
  | abandon exit p before other =>
    cases exit with
    | unload index =>
      rw [before] at flagged
      exact flagged.elim
    | abandon => exact quiet rfl rfl (by rw [before]; rfl) (by rw [before]; rfl) rfl
    | rollback => exact absurd rfl other
  | retire exit p before =>
    exact quiet rfl rfl (by rw [before]; cases exit <;> rfl) (by rw [before]; cases exit <;> rfl)
      rfl
  | removeOwner exit p before =>
    exact quiet rfl rfl (by rw [before]; cases exit <;> rfl) (by rw [before]; cases exit <;> rfl)
      rfl

/-! ### The destructor empties the table -/

/-- A destructor in progress comes back to its loop, and ends it with an empty table. -/
def Winding (s : System τ) : Prop :=
  s.destroyed = true → s.jobs.getLast? = some .unloadAll ∨
    (s.jobs = [] ∧ s.plugins = [] ∧ s.stage = .ready)

theorem getLast?_cons_of_ne_nil {α : Type*} {x : α} {l : List α} (more : l ≠ []) :
    (x :: l).getLast? = l.getLast? := by
  obtain ⟨y, l, rfl⟩ := List.exists_cons_of_ne_nil more
  rw [List.getLast?_cons_cons]

theorem Winding.takeJob {s s' : System τ} (inv : s.Winding) (ready : s.stage = .ready)
    (h : s.takeJob = some s') : s'.Winding := by
  unfold System.takeJob at h
  cases jobs : s.jobs with
  | nil => simp [jobs] at h
  | cons job rest =>
    have pending (gone : s.destroyed = true) : (job :: rest).getLast? = some .unloadAll := by
      have wound := inv gone
      rw [jobs] at wound
      exact wound.resolve_right (fun idle => by cases idle.1)
    -- the loop of the destructor is the last job, so another job has it behind itself
    have behind (gone : s.destroyed = true) (other : job ≠ .unloadAll) :
        rest.getLast? = some .unloadAll := by
      have last := pending gone
      cases rest with
      | nil => exact absurd (Option.some.inj last) other
      | cons next rest => rwa [getLast?_cons_of_ne_nil (List.cons_ne_nil _ _)] at last
    cases job with
    | load path configPath thenStart =>
      obtain rfl := by simpa [jobs] using h
      exact fun gone => .inl (behind gone Job.noConfusion)
    | discover path configPath thenStart =>
      simp only [jobs] at h
      split at h <;>
      · obtain rfl := Option.some.inj h
        exact fun gone => .inl (behind gone Job.noConfusion)
    | start index =>
      simp only [jobs] at h
      obtain ⟨p, found, rfl⟩ := Option.map_eq_some_iff.mp h
      split <;> exact fun gone => .inl (behind gone Job.noConfusion)
    | stop index =>
      simp only [jobs] at h
      obtain ⟨p, found, rfl⟩ := Option.map_eq_some_iff.mp h
      split <;> exact fun gone => .inl (behind gone Job.noConfusion)
    | unload index =>
      simp only [jobs] at h
      obtain ⟨p, found, rfl⟩ := Option.map_eq_some_iff.mp h
      exact fun gone => .inl (behind gone Job.noConfusion)
    | unloadAll =>
      simp only [jobs] at h
      split at h
      · rename_i empty
        obtain rfl := Option.some.inj h
        intro gone
        cases rest with
        | nil => exact .inr ⟨rfl, List.isEmpty_iff.mp empty, ready⟩
        | cons next rest =>
          have last := pending gone
          rw [getLast?_cons_of_ne_nil (List.cons_ne_nil _ _)] at last
          exact .inl last
      · obtain rfl := Option.some.inj h
        intro gone
        exact .inl (pending gone)

/-- Away from `ready`, jobs are only put in front of the others. -/
theorem Winding.busy {s s' : System τ} (inv : s.Winding) (busy : s.stage ≠ .ready)
    (destroyed : s'.destroyed = s.destroyed)
    (jobs : s'.jobs = s.jobs ∨ ∃ job, s'.jobs = job :: s.jobs) : s'.Winding := by
  intro gone
  rw [destroyed] at gone
  have last := (inv gone).resolve_right (fun idle => busy idle.2.2)
  rcases jobs with same | ⟨job, more⟩
  · rw [same]
    exact .inl last
  · have some_job : s.jobs ≠ [] := by
      intro none
      simp [none] at last
    rw [more, getLast?_cons_of_ne_nil some_job]
    exact .inl last

theorem Winding.local {s s' : System τ} {reply : Reply} (inv : s.Winding)
    (h : s.localStep reply s.stage = some s') : s'.Winding := by
  by_cases ready : s.stage = .ready
  · rw [ready] at h
    exact inv.takeJob ready h
  · cases local_of_localStep h with
    | taken _ before => exact absurd before ready
    | pushed p thenStart jobs before =>
      rw [before] at h
      simp only [localStep, Option.some.injEq] at h
      rw [← h]
      refine inv.busy ready rfl ?_
      dsimp only
      split
      · exact .inr ⟨_, rfl⟩
      · exact .inl rfl
    | unknown exit | drained exit =>
      cases exit <;> exact inv.busy ready rfl (.inl rfl)
    | _ => exact inv.busy ready rfl (.inl rfl)

theorem Winding.exclusive {s s' : System τ} (inv : s.Winding) (h : Exclusive s s') :
    s'.Winding := by
  have busy {stage : Stage} (before : s.stage = stage) (other : stage ≠ .ready) :
      s.stage ≠ .ready := before ▸ other
  cases h with
  | createOwner _ _ _ _ _ before | activateLoad _ _ before | deactivateLoad _ _ before
  | activateStart _ _ before | started _ _ before | unstarted _ _ before | rollback _ before
  | abandon _ _ before | retire _ _ before | removeOwner _ _ before =>
    exact inv.busy (busy before Stage.noConfusion) rfl (.inl rfl)

/-! ### Every run -/

/-- A step of another thread, or the begin of an operation. -/
structure Beside (s s' : System τ) : Prop where
  plugins : s'.plugins = s.plugins
  stage : s'.stage = s.stage
  calls : s'.calls = s.calls
  nextHandle : s'.nextHandle = s.nextHandle
  nextOwner : s'.host.nextOwner = s.host.nextOwner

/-- What every run keeps of the table, the calls and the libraries. -/
structure Managed (s : System τ) : Prop where
  flagged : s.stage.Flagged
  copies : s.Copies
  apart : s.Apart
  phased : Phased s
  handles : Handles s
  winding : s.Winding

theorem managed_initial : Managed (initial : System τ) where
  flagged := trivial
  copies index p found := by simp [initial, Stage.copied] at found
  apart p found := by simp [initial, Stage.nascent] at found
  phased := phased_initial
  handles := handles_initial
  winding gone := by simp [initial] at gone

theorem Managed.beside {s s' : System τ} (inv : Managed s) (same : Beside s s')
    (winding : s'.Winding) : Managed s' := by
  have stage := same.stage
  have silent : s'.calls = s.calls ++ [] := by rw [same.calls, List.append_nil]
  refine ⟨stage ▸ inv.flagged, ?_, ?_, ?_, ?_, winding⟩
  · exact inv.copies.keep same.plugins (.inr (by rw [stage]))
  · intro p nascent
    rw [ids, same.plugins]
    exact inv.apart p (stage ▸ nascent)
  · exact inv.phased.move [] silent (by simp) same.plugins same.nextOwner (fun o => by rw [stage])
      (.inr (by rw [stage])) (.inr (by rw [stage]))
  · exact inv.handles.move [] silent (by simp) (by simp) (by simp) (by rw [same.plugins])
      (by rw [stage]) (by rw [stage]) same.nextHandle

theorem begin_beside (s : System τ) (op : Operation) : Beside s (s.begin op) := by
  cases op with
  | scan entries =>
    simp only [begin]
    split <;> exact ⟨rfl, rfl, rfl, rfl, rfl⟩
  | unload id =>
    simp only [begin]
    split <;> exact ⟨rfl, rfl, rfl, rfl, rfl⟩
  | reload id =>
    simp only [begin]
    split
    · exact ⟨rfl, rfl, rfl, rfl, rfl⟩
    · split <;> exact ⟨rfl, rfl, rfl, rfl, rfl⟩
  | _ => exact ⟨rfl, rfl, rfl, rfl, rfl⟩

theorem begin_winding {s : System τ} (alive : s.destroyed = false) (op : Operation) :
    (s.begin op).Winding := by
  intro gone
  cases op with
  | destructor => exact .inl rfl
  | scan entries =>
    simp only [begin] at gone
    split at gone <;> simp [alive] at gone
  | unload id =>
    simp only [begin] at gone
    split at gone <;> simp [alive] at gone
  | reload id =>
    simp only [begin] at gone
    split at gone
    · simp [alive] at gone
    · split at gone <;> simp [alive] at gone
  | _ => simp [begin, alive] at gone

/-! ### The lifecycle protocol -/

/-- The destructor has returned. -/
def Ended (s : System τ) : Prop := s.destroyed = true ∧ s.stage = .ready ∧ s.jobs = []

instance decidableEnded (s : System τ) : Decidable s.Ended := inferInstanceAs (Decidable (_ ∧ _))

/-- What a plugin and a library can rely on. -/
structure Protocol (s : System τ) : Prop where
  /-- The calls on an instance are the beginning of a life. -/
  ordered : ∀ o, s.Created o → ∃ life, Life life ∧ instanceCalls o s.calls <+: life
  /-- An instance is destroyed once, at the latest by the destructor. -/
  destroyed : s.Ended → ∀ o, s.Created o →
    (instanceCalls o s.calls).countP InstanceCall.destroys = 1
  /-- No function of an instance is called after its `destroy`. -/
  last : ∀ o ok pre post, s.Created o → s.calls = pre ++ .destroy o ok :: post →
    instanceCalls o post = []
  /-- A library is opened once under its handle, and closed once, at the latest by the
  destructor. -/
  closed : ∀ h, .opened h ∈ s.calls → s.calls.count (.opened h) = 1 ∧
    s.calls.count (.closed h) ≤ 1 ∧ (s.Ended → s.calls.count (.closed h) = 1)
  /-- The library of an instance is closed after the `destroy`. -/
  after : ∀ o h pre post, .created o h true ∈ s.calls → s.calls = pre ++ .closed h :: post →
    ∃ ok, .destroy o ok ∈ pre

theorem Managed.empty {s : System τ} (inv : Managed s) (ended : s.Ended) : s.plugins = [] := by
  obtain ⟨gone, _, idle⟩ := ended
  rcases inv.winding gone with pending | ⟨_, empty, _⟩
  · simp [idle] at pending
  · exact empty

theorem Managed.protocol {s : System τ} (inv : Managed s) : s.Protocol where
  ordered o made := Phase.exists_life (inv.phased.ordered o made)
  destroyed ended o made := by
    have absent : o ∉ s.ids := by simp [ids, inv.empty ended]
    have gone : s.phase o = .gone :=
      phase_of_absent (by rw [ended.2.1]; rfl) (started?_none absent)
    have whole := Phase.leads_of_after (inv.phased.ordered o made)
    rw [gone] at whole
    exact Life.countP_destroys whole
  last o ok pre post made split := by
    obtain ⟨life, lived, part⟩ := Phase.exists_life (inv.phased.ordered o made)
    have calls : instanceCalls o s.calls =
        instanceCalls o pre ++ .destroy ok :: instanceCalls o post := by
      rw [split, instanceCalls_append]
      simp [instanceCalls, Call.toInstance]
    rw [calls] at part
    exact lived.last part
  closed h opened := by
    have some_opened : 0 < s.calls.count (.opened h) := List.count_pos_iff.mpr opened
    have once := inv.handles.once h
    have balance := inv.handles.balance h
    refine ⟨by omega, by omega, fun ended => ?_⟩
    have none : s.held.count h = 0 := by
      simp [held, inv.empty ended, ended.2.1, Stage.handle]
    omega
  after o h pre post made split := inv.handles.after o h pre post split made

variable [DecidableEq τ]

theorem Managed.step {s s' : System τ} {a : Action τ} (inv : Managed s) (owners : Owners s)
    (h : s.step a = some s') : Managed s' := by
  have after := owners.step h
  cases a with
  | write t tag =>
    obtain ⟨_, rfl⟩ := written_of_write h
    exact inv.beside ⟨rfl, rfl, rfl, rfl, rfl⟩ inv.winding
  | advance t accepted =>
    have moved := advanced_of_advance h
    cases moved <;> exact inv.beside ⟨rfl, rfl, rfl, rfl, rfl⟩ inv.winding
  | operation op =>
    simp only [System.step, operation] at h
    split_ifs at h with free
    obtain rfl := Option.some.inj h
    exact inv.beside (s.begin_beside op) (begin_winding free.2.2 op)
  | register plugin topicPrefix pluginCtx entry =>
    obtain ⟨_, _, rfl⟩ := registered_of_register h
    exact inv.beside ⟨rfl, rfl, rfl, rfl, PluginHost.registerWriter_nextOwner _ _ _ _⟩ inv.winding
  | manage reply =>
    simp only [System.step, manage] at h
    split_ifs at h with locks free
    · have exclusive := exclusive_of_exclusiveStep h
      exact ⟨exclusive.flagged inv.flagged, inv.copies.exclusive inv.flagged exclusive,
        Apart.exclusive owners after exclusive,
        inv.phased.exclusive owners inv.copies inv.flagged exclusive,
        inv.handles.exclusive inv.flagged exclusive, inv.winding.exclusive exclusive⟩
    · have moved := local_of_localStep h
      have taken (ready : s.stage = .ready) : s'.stage.Flagged := by
        rw [ready] at h
        exact flagged_of_takeJob ready h
      exact ⟨moved.flagged inv.flagged taken, inv.copies.local moved, Apart.local after moved,
        inv.phased.local owners inv.copies inv.flagged moved,
        inv.handles.local inv.apart inv.phased inv.copies moved, inv.winding.local h⟩

theorem managed_of_run (as : List (Action τ)) (s : System τ)
    (run : (machine τ).run as = some s) : Managed s := by
  have both := (machine τ).invariant (fun s => Owners s ∧ Managed s)
    ⟨owners_initial, managed_initial⟩
    (fun _ _ _ inv step => ⟨inv.1.step step, inv.2.step inv.1 step⟩) as s run
  exact both.2

/-- In every run of operations on the manager, whatever each call of a plugin returns or throws,
every instance goes through one life and every library is opened and closed once. -/
theorem lifecycle_protocol (as : List (Action τ)) (s : System τ)
    (run : (machine τ).run as = some s) : s.Protocol :=
  (managed_of_run as s run).protocol

/-- A plugin is loaded and started, a second one fails in `init`, and the manager is destroyed. -/
def loadedAndDestroyed : List (Action Unit) :=
  let load (path : String) (init : Bool) : List (Action Unit) :=
    [.operation (.load (ascii path) []), .manage {}, .manage {},
      .manage { info := some ⟨3, some (ascii path)⟩ }, .manage {}, .manage {}, .manage {},
      .manage { ok := init }]
  load "a" true ++ List.replicate 2 (.manage {}) ++
    .operation .startAll :: List.replicate 4 (.manage {}) ++
    load "b" false ++ List.replicate 7 (.manage {}) ++
    .operation .destructor :: List.replicate 10 (.manage {})

theorem lifecycle_protocol_destroyed : ∃ s : System Unit,
    (machine Unit).run loadedAndDestroyed = some s ∧ s.Protocol ∧ s.Ended ∧
      s.calls.countP (fun c => c matches .created _ _ true) = 2 := by
  obtain ⟨s, run⟩ : ∃ s, (machine Unit).run loadedAndDestroyed = some s := ⟨_, rfl⟩
  refine ⟨s, run, lifecycle_protocol loadedAndDestroyed s run, ?_, ?_⟩
  · have ended : ∀ t ∈ (machine Unit).run loadedAndDestroyed, t.Ended := by decide
    exact ended s run
  · have two : ∀ t ∈ (machine Unit).run loadedAndDestroyed,
        t.calls.countP (fun c => c matches .created _ _ true) = 2 := by decide
    exact two s run

end System

end IndustrialRuntime.Core.PluginManager
