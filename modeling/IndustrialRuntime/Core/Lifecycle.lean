import IndustrialRuntime.Core.ManagerRuns

namespace IndustrialRuntime.Core.PluginManager

/-! ### The protocol of one instance -/

/-- A call of a function of an instance, with its outcome. -/
inductive InstanceCall where
  | init (ok : Bool)
  | start (ok : Bool)
  | stop (ok : Bool)
  | destroy (ok : Bool)
  deriving DecidableEq

/-- Starts and stops in turn, where a start that fails leaves the instance stopped. -/
inductive Cycles : List InstanceCall → Prop where
  | nil : Cycles []
  | failed {w : List InstanceCall} : Cycles w → Cycles (w ++ [.start false])
  | cycle {w : List InstanceCall} (ok : Bool) :
      Cycles w → Cycles (w ++ [.start true] ++ [.stop ok])

/-- The whole life of an instance. -/
inductive Life : List InstanceCall → Prop where
  | served {w : List InstanceCall} (ok : Bool) :
      Cycles w → Life (.init true :: w ++ [.destroy ok])
  | refused (ok : Bool) : Life ([.init false] ++ [.destroy ok])

/-- Where an instance is in its life. -/
inductive Phase where
  | created
  | refused
  | stopped
  | running
  | gone
  deriving DecidableEq

namespace Phase

def next : Phase → InstanceCall → Option Phase
  | .created, .init true => some .stopped
  | .created, .init false => some .refused
  | .stopped, .start true => some .running
  | .stopped, .start false => some .stopped
  | .running, .stop _ => some .stopped
  | .stopped, .destroy _ | .refused, .destroy _ => some .gone
  | _, _ => none

/-- The phase after some calls, if each was in order. -/
def after (w : List InstanceCall) : Option Phase := w.foldlM next .created

theorem after_snoc {w : List InstanceCall} {phase : Phase} (h : after w = some phase)
    (c : InstanceCall) : after (w ++ [c]) = phase.next c := by
  rw [after] at h
  simp [after, List.foldlM_append, h]

/-- What calls lead to a phase. -/
def Leads (w : List InstanceCall) : Phase → Prop
  | .created => w = []
  | .refused => w = [.init false]
  | .stopped => ∃ cycles, Cycles cycles ∧ w = .init true :: cycles
  | .running => ∃ cycles, Cycles cycles ∧ w = .init true :: cycles ++ [.start true]
  | .gone => Life w

theorem leads_next {w : List InstanceCall} {phase phase' : Phase} {c : InstanceCall}
    (h : Leads w phase) (step : phase.next c = some phase') : Leads (w ++ [c]) phase' := by
  cases phase with
  | created =>
    obtain rfl : w = [] := h
    cases c with
    | init ok =>
      cases ok with
      | true =>
        obtain rfl := Option.some.inj step
        exact ⟨[], .nil, rfl⟩
      | false =>
        obtain rfl := Option.some.inj step
        rfl
    | _ => cases step
  | refused =>
    obtain rfl : w = [.init false] := h
    cases c with
    | destroy ok =>
      obtain rfl := Option.some.inj step
      exact .refused ok
    | _ => cases step
  | stopped =>
    obtain ⟨cycles, turns, rfl⟩ := h
    cases c with
    | start ok =>
      cases ok with
      | true =>
        obtain rfl := Option.some.inj step
        exact ⟨cycles, turns, rfl⟩
      | false =>
        obtain rfl := Option.some.inj step
        exact ⟨_, turns.failed, rfl⟩
    | destroy ok =>
      obtain rfl := Option.some.inj step
      exact .served ok turns
    | _ => cases step
  | running =>
    obtain ⟨cycles, turns, rfl⟩ := h
    cases c with
    | stop ok =>
      obtain rfl := Option.some.inj step
      exact ⟨_, turns.cycle ok, by simp⟩
    | _ => cases step
  | gone => cases c <;> cases step

theorem leads_of_after {w : List InstanceCall} {phase : Phase} (h : after w = some phase) :
    Leads w phase := by
  induction w using List.reverseRecOn generalizing phase with
  | nil =>
    obtain rfl := Option.some.inj h
    rfl
  | append_singleton w c ih =>
    cases before : after w with
    | none =>
      rw [after] at before
      simp [after, List.foldlM_append, before] at h
    | some previous =>
      rw [after_snoc before] at h
      exact leads_next (ih before) h

/-- Every phase can be carried on to the end of a life. -/
theorem exists_life {w : List InstanceCall} {phase : Phase} (h : after w = some phase) :
    ∃ life, Life life ∧ w <+: life := by
  have leads := leads_of_after h
  cases phase with
  | created =>
    obtain rfl : w = [] := leads
    exact ⟨_, .refused true, List.nil_prefix⟩
  | refused =>
    obtain rfl : w = [.init false] := leads
    exact ⟨_, .refused true, List.prefix_append _ _⟩
  | stopped =>
    obtain ⟨cycles, turns, rfl⟩ := leads
    exact ⟨_, .served true turns, List.prefix_append _ _⟩
  | running =>
    obtain ⟨cycles, turns, rfl⟩ := leads
    refine ⟨_, .served true (turns.cycle true), [.stop true, .destroy true], by simp⟩
  | gone => exact ⟨w, leads, List.prefix_rfl⟩

end Phase

/-- The call is a `destroy`. -/
def InstanceCall.destroys : InstanceCall → Bool
  | .destroy _ => true
  | _ => false

theorem Cycles.not_destroys {w : List InstanceCall} (h : Cycles w) : ∀ c ∈ w, ¬c.destroys := by
  induction h with
  | nil => simp
  | failed _ ih =>
    intro c found
    rcases List.mem_append.mp found with before | last
    · exact ih c before
    · rw [List.mem_singleton.mp last]
      exact Bool.false_ne_true
  | cycle ok _ ih =>
    intro c found
    rw [List.append_assoc] at found
    rcases List.mem_append.mp found with before | last
    · exact ih c before
    · have one : c = .start true ∨ c = .stop ok := by simpa using last
      rcases one with rfl | rfl <;> exact Bool.false_ne_true

/-- A life has one `destroy`, its last call. -/
theorem Life.destroys {w : List InstanceCall} (h : Life w) :
    ∃ v ok, w = v ++ [.destroy ok] ∧ ∀ c ∈ v, ¬c.destroys := by
  cases h with
  | @served cycles ok turns =>
    refine ⟨.init true :: cycles, ok, rfl, fun c found => ?_⟩
    rcases List.mem_cons.mp found with rfl | inside
    · exact Bool.false_ne_true
    · exact turns.not_destroys c inside
  | refused ok =>
    refine ⟨[.init false], ok, rfl, fun c found => ?_⟩
    rw [List.mem_singleton.mp found]
    exact Bool.false_ne_true

theorem Life.countP_destroys {w : List InstanceCall} (h : Life w) :
    w.countP InstanceCall.destroys = 1 := by
  obtain ⟨v, ok, rfl, none⟩ := h.destroys
  have zero : v.countP InstanceCall.destroys = 0 := List.countP_eq_zero.mpr none
  rw [List.countP_append, zero]
  rfl

/-- Nothing follows a `destroy` in what may become a life. -/
theorem Life.last {life before after : List InstanceCall} {ok : Bool} (h : Life life)
    (part : before ++ .destroy ok :: after <+: life) : after = [] := by
  obtain ⟨v, ok', rfl, none⟩ := h.destroys
  obtain ⟨rest, whole⟩ := part
  by_contra more
  obtain ⟨c, tail, rfl⟩ := List.exists_cons_of_ne_nil more
  -- the destroy is not the last call of the life, so it is one of those before
  have length := congrArg List.length whole
  have inside : v[before.length]? = some (.destroy ok) := by
    have at_place : (v ++ [.destroy ok'])[before.length]? = some (.destroy ok) := by
      rw [← whole]
      simp
    have early : before.length < v.length := by
      simp only [List.length_append, List.length_cons, List.length_nil] at length
      omega
    rwa [List.getElem?_append_left early] at at_place
  exact none _ (List.mem_of_getElem? inside) rfl

/-! ### The table and the stage of the manager -/

/-- The part of a call that concerns the instance of an owner. -/
def Call.toInstance (o : OwnerId) : Call → Option InstanceCall
  | .init owner ok => if owner = o then some (.init ok) else none
  | .start owner ok => if owner = o then some (.start ok) else none
  | .stop owner ok => if owner = o then some (.stop ok) else none
  | .destroy owner ok => if owner = o then some (.destroy ok) else none
  | .opened _ | .created .. | .closed _ => none

def instanceCalls (o : OwnerId) (calls : List Call) : List InstanceCall :=
  calls.filterMap (Call.toInstance o)

/-- The phase of an instance that the stage alone knows. -/
def Stage.phase (o : OwnerId) : Stage → Option Phase
  | .init p _ => if p.owner = o then some .created else none
  | .deactivateLoad p _ | .pushBack p _ => if p.owner = o then some .stopped else none
  | .deactivateStart _ p true => if p.owner = o then some .running else none
  | .destroy .rollback p => if p.owner = o then some .refused else none
  | .removeOwner (.unload _) p | .closeLibrary (.unload _) p =>
    if p.owner = o then some .gone else none
  | _ => none

/-- The entry of the table that the stage works with, as it is there. -/
def Stage.copied : Stage → Option (Nat × Loaded)
  | .activateStart index p | .start index p | .deactivateStart index p _ | .stop index p
  | .stopUnload index p | .retire (.unload index) p | .wait (.unload index) p
  | .poll (.unload index) p => some (index, p)
  | .destroy (.unload index) p | .removeOwner (.unload index) p | .closeLibrary (.unload index) p =>
    some (index, { p with started := false })
  | _ => none

/-- The stage agrees with the `started` flag of its plugin, and is one that the code reaches. -/
def Stage.Flagged : Stage → Prop
  | .activateLoad p _ | .createPlugin p _ | .init p _ | .deactivateLoad p _ | .pushBack p _
  | .activateStart _ p | .start _ p | .deactivateStart _ p _ => p.started = false
  | .stop _ p | .stopUnload _ p => p.started = true
  | .destroy .abandon _ | .deactivate (.unload _) _ => False
  | _ => True

namespace System

variable {τ : Type*}

/-- The flag of the plugin of an owner. -/
def started? (s : System τ) (o : OwnerId) : Option Bool :=
  (s.plugins.find? (fun p => p.owner == o)).map Loaded.started

/-- Where the instance of an owner is in its life, if it was created. -/
def phase (s : System τ) (o : OwnerId) : Phase :=
  match s.stage.phase o with
  | some phase => phase
  | none =>
    match s.started? o with
    | some true => .running
    | some false => .stopped
    | none => .gone

def Created (s : System τ) (o : OwnerId) : Prop := ∃ handle, .created o handle true ∈ s.calls

theorem started?_eq {s : System τ} (distinct : s.ids.Nodup) {index : Nat} {p : Loaded}
    (found : s.plugins[index]? = some p) : s.started? p.owner = some p.started := by
  have member : p ∈ s.plugins := List.mem_of_getElem? found
  cases search : s.plugins.find? (fun q => q.owner == p.owner) with
  | none => simpa using List.find?_eq_none.mp search p member
  | some q =>
    have same : q.owner = p.owner := by simpa using List.find?_some search
    have one := List.inj_on_of_nodup_map distinct (List.mem_of_find?_eq_some search) member same
    rw [started?, search, one]
    rfl

theorem started?_none {s : System τ} {o : OwnerId} (absent : o ∉ s.ids) : s.started? o = none := by
  rw [started?, Option.map_eq_none_iff, List.find?_eq_none]
  intro p member same
  exact absent (List.mem_map.mpr ⟨p, member, by simpa using same⟩)

theorem started?_append {s t : System τ} {p : Loaded} (plugins : t.plugins = s.plugins ++ [p])
    (absent : p.owner ∉ s.ids) (o : OwnerId) :
    t.started? o = if o = p.owner then some p.started else s.started? o := by
  have search : t.started? o =
      ((s.plugins.find? (fun q => q.owner == o)).or
        (if p.owner = o then some p else none)).map Loaded.started := by
    rw [started?, plugins, List.find?_append]
    by_cases same : p.owner = o <;> simp [same]
  rw [search]
  by_cases own : o = p.owner
  · subst own
    have none := started?_none absent
    rw [started?, Option.map_eq_none_iff] at none
    simp [none]
  · have other : ¬p.owner = o := fun same => own same.symm
    simp [own, other, started?]

theorem started?_setStarted {s : System τ} (distinct : s.ids.Nodup) {index : Nat} {o : OwnerId}
    (place : s.ids[index]? = some o) (started : Bool) (i : OwnerId) :
    (s.setStarted index started).started? i = if i = o then some started else s.started? i := by
  have nodup : (s.setStarted index started).ids.Nodup := by
    rw [setStarted_ids]
    exact distinct
  obtain ⟨p, found, rfl⟩ : ∃ p, s.plugins[index]? = some p ∧ p.owner = o := by
    simpa [ids] using place
  by_cases own : i = p.owner
  · rw [if_pos own, own]
    have changed : (s.setStarted index started).plugins[index]? =
        some { p with started := started } := by simp [setStarted, found]
    exact started?_eq nodup changed
  · rw [if_neg own]
    by_cases known : i ∈ s.ids
    · obtain ⟨q, member, rfl⟩ := List.mem_map.mp known
      obtain ⟨j, other⟩ := List.mem_iff_getElem?.mp member
      have apart : index ≠ j := by
        rintro rfl
        obtain rfl := Option.some.inj (found.symm.trans other)
        exact own rfl
      have kept : (s.setStarted index started).plugins[j]? = some q := by
        simp [setStarted, other, apart]
      rw [started?_eq nodup kept, started?_eq distinct other]
    · have unknown : i ∉ (s.setStarted index started).ids := by rwa [setStarted_ids]
      rw [started?_none known, started?_none unknown]

theorem started?_erase {s t : System τ} (distinct : s.ids.Nodup) {index : Nat} {o : OwnerId}
    (place : s.ids[index]? = some o) (plugins : t.plugins = s.plugins.eraseIdx index)
    (i : OwnerId) : t.started? i = if i = o then none else s.started? i := by
  have members : t.ids = s.ids.eraseIdx index := by simp [ids, plugins, List.eraseIdx_map]
  have nodup : t.ids.Nodup := by
    rw [members]
    exact distinct.sublist (List.eraseIdx_sublist _ _)
  by_cases own : i = o
  · rw [if_pos own, own]
    apply started?_none
    rw [members]
    exact not_mem_eraseIdx distinct place
  · rw [if_neg own]
    by_cases known : i ∈ s.ids
    · obtain ⟨q, member, rfl⟩ := List.mem_map.mp known
      obtain ⟨j, other⟩ := List.mem_iff_getElem?.mp member
      have apart : j ≠ index := by
        rintro rfl
        have same : s.ids[j]? = some q.owner := ids_of_getElem? s j q other
        exact own (Option.some.inj (same.symm.trans place))
      have kept : q ∈ t.plugins := by
        rw [plugins]
        exact List.mem_eraseIdx_iff_getElem?.mpr ⟨j, apart, other⟩
      obtain ⟨k, there⟩ := List.mem_iff_getElem?.mp kept
      rw [started?_eq nodup there, started?_eq distinct other]
    · have unknown : i ∉ t.ids := by
        rw [members]
        exact fun found => known ((List.eraseIdx_sublist _ _).subset found)
      rw [started?_none known, started?_none unknown]

/-! ### The stages keep to the flags -/

theorem flagged_of_takeJob {s s' : System τ} (ready : s.stage = .ready)
    (h : s.takeJob = some s') : s'.stage.Flagged := by
  unfold takeJob at h
  cases jobs : s.jobs with
  | nil => simp [jobs] at h
  | cons job rest =>
    cases job with
    | load path configPath thenStart =>
      obtain rfl := by simpa [jobs] using h
      trivial
    | discover path configPath thenStart =>
      simp only [jobs] at h
      split at h
      · obtain rfl := Option.some.inj h
        rw [ready]
        trivial
      · obtain rfl := Option.some.inj h
        trivial
    | start index =>
      simp only [jobs] at h
      obtain ⟨p, found, rfl⟩ := Option.map_eq_some_iff.mp h
      split
      · rw [ready]
        trivial
      · rename_i off
        simpa [Stage.Flagged] using off
    | stop index =>
      simp only [jobs] at h
      obtain ⟨p, found, rfl⟩ := Option.map_eq_some_iff.mp h
      split
      · rename_i on
        exact on
      · rw [ready]
        trivial
    | unload index =>
      simp only [jobs] at h
      obtain ⟨p, found, rfl⟩ := Option.map_eq_some_iff.mp h
      trivial
    | unloadAll =>
      simp only [jobs] at h
      split at h <;>
      · obtain rfl := Option.some.inj h
        rw [ready]
        trivial

theorem flagged_quiescent (s : System τ) (exit : Exit) (p : Loaded) :
    (s.quiescent exit p).stage.Flagged := by
  cases exit with
  | unload index =>
    simp only [quiescent]
    split
    · rename_i on
      exact on
    · trivial
  | _ => trivial

theorem Local.flagged {s s' : System τ} (h : Local s s') (flagged : s.stage.Flagged)
    (taken : s.stage = .ready → s'.stage.Flagged) : s'.stage.Flagged := by
  cases h with
  | taken _ before _ => exact taken before
  | created p thenStart before =>
    rw [before] at flagged
    exact flagged
  | initialized p thenStart before =>
    rw [before] at flagged
    exact flagged
  | started index p ok before =>
    rw [before] at flagged
    exact flagged
  | unknown exit p before => exact flagged_quiescent s exit p
  | drained exit p before => exact flagged_quiescent s exit p
  | yielded exit p before => exact flagged
  | uncreated p thenStart before => trivial
  | rolledBack exit p ok before loading =>
    cases exit with
    | abandon =>
      rw [before] at flagged
      exact flagged.elim
    | rollback => trivial
    | unload index => exact absurd rfl (loading index)
  | _ => trivial

theorem Exclusive.flagged {s s' : System τ} (h : Exclusive s s') (flagged : s.stage.Flagged) :
    s'.stage.Flagged := by
  cases h with
  | createOwner handle id path configPath thenStart before => rfl
  | activateLoad p thenStart before =>
    rw [before] at flagged
    exact flagged
  | deactivateLoad p thenStart before =>
    rw [before] at flagged
    exact flagged
  | activateStart index p before =>
    rw [before] at flagged
    exact flagged
  | _ => trivial

/-- The stage works with an entry of the table as it is there. -/
def Copies (s : System τ) : Prop :=
  ∀ index p, s.stage.copied = some (index, p) → s.plugins[index]? = some p

theorem Copies.keep {s s' : System τ} (inv : s.Copies) (plugins : s'.plugins = s.plugins)
    (copied : s'.stage.copied = none ∨ s'.stage.copied = s.stage.copied) : s'.Copies := by
  intro index p found
  rw [plugins]
  rcases copied with none | same
  · simp [none] at found
  · exact inv index p (same ▸ found)

theorem Copies.quiescent {s : System τ} (inv : s.Copies) (exit : Exit) (p : Loaded)
    (before : s.stage = .wait exit p ∨ s.stage = .poll exit p) : (s.quiescent exit p).Copies := by
  cases exit with
  | unload index =>
    have found : s.plugins[index]? = some p := by
      apply inv index p
      rcases before with h | h <;> rw [h] <;> rfl
    intro i q copied
    simp only [System.quiescent] at copied ⊢
    split at copied
    · obtain ⟨rfl, rfl⟩ : index = i ∧ p = q := by simpa [Stage.copied] using copied
      exact found
    · rename_i off
      obtain ⟨rfl, rfl⟩ : index = i ∧ { p with started := false } = q := by
        simpa [Stage.copied] using copied
      have same : { p with started := false } = p := by
        have flag : p.started = false := by simpa using off
        rw [← flag]
      rw [same]
      exact found
  | abandon => exact inv.keep rfl (.inl rfl)
  | rollback => exact inv.keep rfl (.inl rfl)

theorem Copies.local {s s' : System τ} (inv : s.Copies) (h : Local s s') : s'.Copies := by
  cases h with
  | taken _ before taken =>
    have copies (index : Nat) (p : Loaded) (stage : Stage) (jobs : List Job)
        (found : s.plugins[index]? = some p) (copied : stage.copied = some (index, p)) :
        Copies { s with jobs := jobs, stage := stage } := by
      intro i q other
      obtain ⟨rfl, rfl⟩ : index = i ∧ p = q := by simpa [copied] using other
      exact found
    cases taken with
    | load => exact inv.keep rfl (.inl rfl)
    | done => exact inv.keep rfl (.inr rfl)
    | start index p jobs found => exact copies index p _ jobs found rfl
    | stop index p jobs found => exact copies index p _ jobs found rfl
    | unload index p jobs found => exact copies index p _ jobs found rfl
  | started index p ok before => exact inv.keep rfl (.inr (by rw [before]; rfl))
  | waiting exit p before => exact inv.keep rfl (.inr (by rw [before]; cases exit <;> rfl))
  | unknown exit p before => exact inv.quiescent exit p (.inl before)
  | drained exit p before => exact inv.quiescent exit p (.inr before)
  | yielded exit p before => exact inv
  | stoppedUnload index p ok before =>
    have found : s.plugins[index]? = some p := inv index p (by rw [before]; rfl)
    intro i q copied
    obtain ⟨rfl, rfl⟩ : index = i ∧ { p with started := false } = q := by
      simpa [Stage.copied] using copied
    simp [setStarted, found]
  | destroyed index p ok before => exact inv.keep rfl (.inr (by rw [before]; rfl))
  | rolledBack exit p ok before loading =>
    cases exit with
    | unload index => exact absurd rfl (loading index)
    | _ => exact inv.keep rfl (.inl rfl)
  | closed | stopped | pushed =>
    intro i q copied
    simp [Stage.copied] at copied
  | _ => exact inv.keep rfl (.inl rfl)

theorem Copies.exclusive {s s' : System τ} (inv : s.Copies) (flagged : s.stage.Flagged)
    (h : Exclusive s s') : s'.Copies := by
  cases h with
  | activateStart index p before => exact inv.keep rfl (.inr (by rw [before]; rfl))
  | started index p before =>
    intro i q copied
    simp [Stage.copied] at copied
  | retire exit p before => exact inv.keep rfl (.inr (by rw [before]; cases exit <;> rfl))
  | removeOwner exit p before => exact inv.keep rfl (.inr (by rw [before]; cases exit <;> rfl))
  | abandon exit p before other =>
    cases exit with
    | unload index =>
      rw [before] at flagged
      exact flagged.elim
    | _ => exact inv.keep rfl (.inl rfl)
  | _ => exact inv.keep rfl (.inl rfl)

end System

end IndustrialRuntime.Core.PluginManager
