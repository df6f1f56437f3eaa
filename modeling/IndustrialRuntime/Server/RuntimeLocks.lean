import IndustrialRuntime.Server.RuntimeSteps

namespace IndustrialRuntime.Irsp.Runtime

open IndustrialRuntime.Core

variable {τ : Type*} {hash : Bytes → UInt64}

theorem Push.held_granted {push : Push} {l : Lock} {m : LockMode}
    (waits : push.wants hash = some (l, m)) :
    push.granted.held hash = (l, m) :: push.held hash := by
  cases push with
  | shardLock tag | callbackLock ticket name | routeLock ticket name | readLock ticket name ids =>
    obtain ⟨rfl, rfl⟩ := by simpa [Push.wants] using waits
    rfl
  | _ => simp [Push.wants] at waits

theorem Code.held_granted {code : Code} {l : Lock} {m : LockMode}
    (outside : code.activity = .locking → code.holds = false)
    (waits : code.wants hash = some (l, m)) :
    code.granted.held hash = (l, m) :: code.held hash := by
  obtain ⟨plugin, holds, activity⟩ := code
  cases activity with
  | running => simp [Code.wants] at waits
  | locking =>
    obtain rfl : holds = false := outside rfl
    obtain ⟨rfl, rfl⟩ := by simpa [Code.wants] using waits
    rfl
  | pushing push =>
    have granted : push.granted.held hash = (l, m) :: push.held hash := Push.held_granted waits
    change push.granted.held hash ++ _ = _
    rw [granted]
    rfl

theorem Code.held_pushing {code : Code} {push : Push} (pushing : code.activity = .pushing push) :
    code.held hash =
      push.held hash ++ if code.holds then [(.plugin code.plugin, .exclusive)] else [] := by
  rw [Code.held, pushing, Activity.held]

/-- What a granted lock adds to the locks of a thread. -/
theorem Pc.held_granted {pc : Pc} {l : Lock} {m : LockMode}
    (outside : ∀ code, pc.code = some code → code.activity = .locking → code.holds = false)
    (waits : pc.wants hash = some (l, m)) : pc.granted.held hash = (l, m) :: pc.held hash := by
  cases pc with
  | enter cb | copyLock call | selectLock call =>
    obtain ⟨rfl, rfl⟩ := by simpa [Pc.wants] using waits
    rfl
  | handler call code =>
    simp [Pc.held, Pc.granted, Code.held_granted (outside code rfl) waits]
  | plugin code =>
    simp [Pc.held, Pc.granted, Code.held_granted (outside code rfl) waits]
  | _ => simp [Pc.wants] at waits

/-- The locks below those of the plugin code. -/
def Pc.base : Pc → List (Lock × LockMode)
  | .handler .. => [(.server, .exclusive)]
  | _ => []

theorem Pc.held_code {pc : Pc} {code : Code} (h : pc.code = some code) :
    pc.held hash = code.held hash ++ pc.base := by
  cases pc with
  | handler call code' | plugin code' =>
    obtain rfl : code' = code := by simpa [Pc.code] using h
    simp [Pc.held, Pc.base]
  | _ => simp [Pc.code] at h

theorem Pc.held_withCode {pc : Pc} {code : Code} (h : pc.code = some code) (code' : Code) :
    (pc.withCode code').held hash = code'.held hash ++ pc.base := by
  cases pc with
  | handler call code | plugin code => simp [Pc.held, Pc.base, Pc.withCode]
  | _ => simp [Pc.code] at h

@[simp] theorem Pc.code_withCode {pc : Pc} {code : Code} (h : pc.code = some code) (code' : Code) :
    (pc.withCode code').code = some code' := by
  cases pc with
  | handler call code | plugin code => rfl
  | _ => simp [Pc.code] at h

theorem Served.held {setup : Setup τ} {s : Runtime τ hash} {cb : Callback} {server : IrspServer}
    {pc : Pc} (h : Served setup s cb server pc) :
    pc.held hash = [(.server, .exclusive)] ∧ pc.code = none := by
  cases h <;> exact ⟨rfl, rfl⟩

variable [DecidableEq τ]

/-- The lock table and the places of the threads agree, and plugins take their mutex once. -/
structure Locked (s : Runtime τ hash) : Prop where
  consistent : s.locks.Consistent (fun t => (s.pc t).held hash)
  outside : ∀ t code, (s.pc t).code = some code → code.activity = .locking → code.holds = false

theorem locked_initial (setup : Setup τ) : Locked (initial setup : Runtime τ hash) where
  consistent := by
    have nothing : (fun t => ((initial setup : Runtime τ hash).pc t).held hash) = fun _ => [] := by
      funext t
      cases t <;> rfl
    rw [nothing]
    exact LockTable.consistent_nil
  outside t code found locking := by
    cases t with
    | none => simp [initial, Pc.code] at found
    | some t =>
      obtain rfl := by simpa [initial, Pc.code] using found
      contradiction

section Update

variable {s s' : Runtime τ hash} (t : Option τ) (pc : Pc)

theorem Locked.outside_update (inv : Locked s) (moved : s'.pc = Function.update s.pc t pc)
    (own : ∀ code, pc.code = some code → code.activity = .locking → code.holds = false)
    (u : Option τ) (code : Code) (found : (s'.pc u).code = some code)
    (locking : code.activity = .locking) : code.holds = false := by
  rw [moved] at found
  by_cases same : u = t
  · subst same
    rw [Function.update_self] at found
    exact own code found locking
  · rw [Function.update_of_ne same] at found
    exact inv.outside u code found locking

/-- A step that takes and gives back no lock. -/
theorem Locked.keep (inv : Locked s) (moved : s'.pc = Function.update s.pc t pc)
    (locks : s'.locks = s.locks) (held : pc.held hash = (s.pc t).held hash)
    (own : ∀ code, pc.code = some code → code.activity = .locking → code.holds = false) :
    Locked s' where
  consistent := by
    rw [locks]
    refine inv.consistent.keep (fun u l m => ?_)
    rw [moved]
    by_cases same : u = t
    · rw [same, Function.update_self, held]
    · rw [Function.update_of_ne same]
  outside := inv.outside_update t pc moved own

theorem Locked.take (inv : Locked s) (l : Lock) (m : LockMode) (free : s.locks.free t l m = true)
    (moved : s'.pc = Function.update s.pc t pc) (locks : s'.locks = s.locks.acquire t l m)
    (held : pc.held hash = (l, m) :: (s.pc t).held hash)
    (own : ∀ code, pc.code = some code → code.activity = .locking → code.holds = false) :
    Locked s' where
  consistent := by
    rw [locks]
    refine inv.consistent.acquire t l m free (fun l' m' => ?_) (fun u other => ?_)
    · rw [moved, Function.update_self, held]
    · rw [moved, Function.update_of_ne other]
  outside := inv.outside_update t pc moved own

theorem Locked.give (inv : Locked s) (l : Lock) (m : LockMode)
    (moved : s'.pc = Function.update s.pc t pc) (locks : s'.locks = s.locks.release t l m)
    (held : ((s.pc t).held hash).Perm ((l, m) :: pc.held hash))
    (own : ∀ code, pc.code = some code → code.activity = .locking → code.holds = false) :
    Locked s' where
  consistent := by
    rw [locks]
    refine inv.consistent.release t l m (fun l' m' => ?_) (fun u other => ?_)
    · rw [moved, Function.update_self]
      exact held.count_eq _
    · rw [moved, Function.update_of_ne other]
  outside := inv.outside_update t pc moved own

end Update

/-- What a step of `push_tag` does to the locks of its thread. -/
theorem pushStep_locks (s : Runtime τ hash) (t : Option τ) (push : Push)
    (waits : push.wants hash = none) :
    (s.pushStep t push).1.pc = s.pc ∧
      (((s.pushStep t push).1.locks = s.locks ∧
        (Activity.after (s.pushStep t push).2).held hash = push.held hash) ∨
      ∃ l m, (s.pushStep t push).1.locks = s.locks.release t l m ∧
        push.held hash = (l, m) :: (Activity.after (s.pushStep t push).2).held hash) := by
  cases push with
  | store tag =>
    refine ⟨rfl, .inr ⟨tagLock hash tag.name, .exclusive, rfl, ?_⟩⟩
    simp only [pushStep]
    split <;> rfl
  | collect ticket name =>
    simp only [pushStep]
    split
    · exact ⟨rfl, .inl ⟨rfl, rfl⟩⟩
    · exact ⟨rfl, .inl ⟨rfl, rfl⟩⟩
  | read ticket name ids =>
    simp only [pushStep]
    split
    · exact ⟨rfl, .inr ⟨tagLock hash name, .shared, rfl, rfl⟩⟩
    · exact ⟨rfl, .inr ⟨tagLock hash name, .shared, rfl, rfl⟩⟩
  | enqueue ticket name ids record => exact ⟨rfl, .inl ⟨rfl, rfl⟩⟩
  | routeUnlock => exact ⟨rfl, .inr ⟨.server, .exclusive, rfl, rfl⟩⟩
  | callbackUnlock => exact ⟨rfl, .inr ⟨.callback, .shared, rfl, rfl⟩⟩
  | _ => simp [Push.wants] at waits

theorem Locked.pushed {s : Runtime τ hash} (inv : Locked s) (t : Option τ) (code : Code)
    (push : Push) (before : (s.pc t).code = some code) (pushing : code.activity = .pushing push)
    (waits : push.wants hash = none) :
    Locked ((s.pushStep t push).1.setPc t
      ((s.pc t).withCode { code with activity := .after (s.pushStep t push).2 })) := by
  have own : ∀ code', ((s.pc t).withCode { code with
      activity := .after (s.pushStep t push).2 }).code = some code' →
      code'.activity = .locking → code'.holds = false := by
    intro code' found locking
    rw [Pc.code_withCode before] at found
    obtain rfl := Option.some.inj found
    cases after : (s.pushStep t push).2 <;> simp [after, Activity.after] at locking
  obtain ⟨pcs, ⟨locks, held⟩ | ⟨l, m, locks, held⟩⟩ := pushStep_locks s t push waits
  · refine inv.keep t _ (by rw [setPc, pcs]) locks ?_ own
    rw [Pc.held_withCode before, Pc.held_code before, Code.held_pushing pushing, Code.held, held]
  · refine inv.give t _ l m (by rw [setPc, pcs]) locks ?_ own
    rw [Pc.held_withCode before, Pc.held_code before, Code.held_pushing pushing, Code.held, held]
    exact .refl _

theorem Locked.step {setup : Setup τ} {s s' : Runtime τ hash} {a : Action τ} (inv : Locked s)
    (h : Moved setup s a s') : Locked s' := by
  cases h with
  | called cb before =>
    exact inv.keep none _ rfl rfl (by rw [before]; rfl) (fun code found => by contradiction)
  | granted t timestamp l m waits free =>
    refine inv.take t _ l m free rfl rfl (Pc.held_granted (inv.outside t) waits) ?_
    intro code found locking
    cases pc : s.pc t with
    | handler call code' | plugin code' =>
      obtain rfl := by simpa [pc, Pc.granted, Pc.code] using found
      cases activity : code'.activity <;> simp [Code.granted, activity] at locking
    | _ => simp [pc, Pc.granted, Pc.code] at found
  | pushed t timestamp code push before pushing waits =>
    exact inv.pushed t code push before pushing waits
  | served t timestamp cb server pc before served =>
    obtain ⟨held, none⟩ := served.held
    refine inv.keep t pc rfl rfl ?_ (fun code found => ?_)
    · rw [held, before]
      rfl
    · rw [none] at found
      contradiction
  | copied t timestamp call before =>
    refine inv.give t _ _ _ rfl rfl ?_ (fun code found => by contradiction)
    rw [before]
    exact .refl _
  | unmatched t timestamp call before =>
    refine inv.give t _ _ _ rfl rfl ?_ (fun code found => by contradiction)
    rw [before]
    exact .refl _
  | selected t timestamp call reg before found =>
    refine inv.give t _ _ _ rfl rfl ?_ (fun code found locking => ?_)
    · rw [before]
      exact .refl _
    · obtain rfl := by simpa [Pc.code] using found
      contradiction
  | replied t timestamp conn request result before =>
    exact inv.keep t _ rfl rfl (by rw [before]; rfl) (fun code found => by contradiction)
  | left t timestamp before =>
    refine inv.give t _ _ _ rfl rfl ?_ (fun code found => by contradiction)
    rw [before]
    exact .refl _
  | locking t code before running outside =>
    refine inv.keep t _ rfl rfl ?_ (fun code' found _ => ?_)
    · rw [Pc.held_withCode before, Pc.held_code before]
      simp [Code.held, running, Activity.held]
    · rw [Pc.code_withCode before] at found
      obtain rfl := Option.some.inj found
      exact outside
  | unlocked t code before running inside =>
    refine inv.give t _ _ _ rfl rfl ?_ (fun code' found locking => ?_)
    · rw [Pc.held_withCode before, Pc.held_code before]
      simp [Code.held, running, Activity.held, inside]
    · rw [Pc.code_withCode before] at found
      obtain rfl := Option.some.inj found
      simp [running] at locking
  | pushes t code tag before running =>
    refine inv.keep t _ rfl rfl ?_ (fun code' found locking => ?_)
    · rw [Pc.held_withCode before, Pc.held_code before]
      simp [Code.held, running, Activity.held, Push.held]
    · rw [Pc.code_withCode before] at found
      obtain rfl := Option.some.inj found
      contradiction
  | finished t call code accepted before running outside =>
    refine inv.keep t _ rfl rfl ?_ (fun code found => by contradiction)
    rw [before]
    simp [Pc.held, Code.held, running, Activity.held, outside]
  | removed name => exact ⟨inv.consistent, inv.outside⟩

end IndustrialRuntime.Irsp.Runtime
