import IndustrialRuntime.Server.RuntimeLocks

namespace IndustrialRuntime.Irsp.Runtime

open IndustrialRuntime.Core

/-- What the plugins do with their own mutexes: whose write handler takes it, and whose
acquisition threads call `push_tag` while they hold it. -/
structure Conduct where
  handlerLocks : OwnerId → Prop
  pushesHeld : OwnerId → Prop

variable {τ : Type*} {hash : Bytes → UInt64}

/-- The plugins of a run keep to their conduct. -/
def Obeys (c : Conduct) (s : Runtime τ hash) : Action τ → Prop
  | .plugin none .lock => ∀ code, (s.pc none).code = some code → c.handlerLocks code.plugin
  | .plugin (some t) (.push _) =>
    ∀ code, (s.pc (some t)).code = some code → code.holds = true → c.pushesHeld code.plugin
  | _ => True

/-- Some `SET` frame writes the topic. -/
def Settable (setup : Setup τ) (topic : Bytes) : Prop :=
  ∃ bytes value type written variant,
    IrspServer.parseFrame setup.limits bytes = .ok (.request value) ∧
      setArguments ⟨0, true⟩ value = some (topic, type, written) ∧
      CoreTagWriter.toVariant type written = some variant

/-- Some `SET` frame is routed to a handler of the plugin. -/
def Routable (setup : Setup τ) (plugin : OwnerId) : Prop :=
  ∃ topic reg, Settable setup topic ∧ setup.host.select topic = some reg ∧
    reg.handler.plugin = plugin

/-- A cycle of threads each of which waits for a lock that the next one holds. -/
def Stuck (s : Runtime τ hash) : Prop := Deadlocked s.locks (fun t => (s.pc t).wants hash)

theorem setArguments_hello {session : Session} {value : IrspValue} {r : Bytes × Bytes × Bytes}
    (h : setArguments session value = some r) (session' : Session)
    (hello : session'.hello = true) : setArguments session' value = some r := by
  cases value with
  | array items =>
    simp only [setArguments] at h ⊢
    split at h
    · split at h
      · rename_i set
        simp only [set.1, hello, and_self, if_true]
        exact h
      · contradiction
    · contradiction
  | _ => simp [setArguments] at h

/-- What the place of a thread says about the plugins. -/
def Fits (setup : Setup τ) (c : Conduct) : Option τ → Pc → Prop
  | none, .copyLock call | none, .copy call | none, .selectLock call | none, .select call =>
    Settable setup call.tag.name
  | none, .handler _ code =>
    Routable setup code.plugin ∧ (code.activity = .locking → c.handlerLocks code.plugin)
  | none, .plugin _ => False
  | none, _ => True
  | some t, .plugin code => code.plugin = setup.plugin t ∧
    ∀ push, code.activity = .pushing push → code.holds = true → c.pushesHeld code.plugin
  | some _, _ => False

def Conducted (setup : Setup τ) (c : Conduct) (s : Runtime τ hash) : Prop :=
  ∀ t, Fits setup c t (s.pc t)

theorem conducted_initial (setup : Setup τ) (c : Conduct) :
    Conducted setup c (initial setup : Runtime τ hash) := by
  intro t
  cases t with
  | none => trivial
  | some t => exact ⟨rfl, fun push pushing => by contradiction⟩

/-- A thread keeps its place when the code of its plugin moves on in an allowed way. -/
theorem Fits.withCode {setup : Setup τ} {c : Conduct} {t : Option τ} {pc : Pc} {code : Code}
    (fits : Fits setup c t pc) (before : pc.code = some code) (activity : Activity) (holds : Bool)
    (locking : t = none → activity = .locking → c.handlerLocks code.plugin)
    (pushing : ∀ push, t ≠ none → activity = .pushing push → holds = true →
      c.pushesHeld code.plugin) :
    Fits setup c t (pc.withCode ⟨code.plugin, holds, activity⟩) := by
  cases pc with
  | handler call code' =>
    obtain rfl : code' = code := by simpa [Pc.code] using before
    cases t with
    | none => exact ⟨fits.1, locking rfl⟩
    | some t => exact fits
  | plugin code' =>
    obtain rfl : code' = code := by simpa [Pc.code] using before
    cases t with
    | none => exact fits
    | some t => exact ⟨fits.1, fun push => pushing push (Option.some_ne_none t)⟩
  | _ => simp [Pc.code] at before

theorem Fits.granted {setup : Setup τ} {c : Conduct} {t : Option τ} {pc : Pc}
    (fits : Fits setup c t pc) : Fits setup c t pc.granted := by
  cases t with
  | none =>
    cases pc with
    | handler call code =>
      obtain ⟨plugin, holds, activity⟩ := code
      refine ⟨?_, fun locking => ?_⟩
      · cases activity <;> exact fits.1
      · cases activity <;> simp [Code.granted] at locking
    | _ => exact fits
  | some t =>
    cases pc with
    | plugin code =>
      obtain ⟨plugin, holds, activity⟩ := code
      cases activity with
      | running => exact fits
      | locking => exact ⟨fits.1, fun push pushing => by contradiction⟩
      | pushing push => exact ⟨fits.1, fun _ _ => fits.2 push rfl⟩
    | _ => exact fits

/-- A step outside plugin code is one of the service thread. -/
theorem Conducted.service {setup : Setup τ} {c : Conduct} {s : Runtime τ hash}
    (inv : Conducted setup c s) (t : Option τ) (other : ∀ code, s.pc t ≠ .plugin code) :
    t = none := by
  cases t with
  | none => rfl
  | some t =>
    have fits := inv (some t)
    cases pc : s.pc (some t) with
    | plugin code => exact absurd pc (other code)
    | _ => simp [pc, Fits] at fits

theorem Served.fits {setup : Setup τ} {s : Runtime τ hash} {cb : Callback} {server : IrspServer}
    {pc : Pc} (h : Served setup s cb server pc) (c : Conduct) : Fits setup c none pc := by
  cases h with
  | routed id data final conn bytes value topic type written variant timestamp complete parsed set
      converted =>
    exact ⟨bytes, value, type, written, variant, parsed, setArguments_hello set _ rfl, converted⟩
  | _ => trivial

/-! ### The order in which locks are waited for -/

/-- No plugin that a `SET` reaches and whose handler takes the plugin's mutex has an acquisition
thread that calls `push_tag` under that mutex. -/
def Apart (setup : Setup τ) (c : Conduct) : Prop :=
  ∀ t, c.pushesHeld (setup.plugin t) → c.handlerLocks (setup.plugin t) →
    ¬Routable setup (setup.plugin t)

/-- Waiting goes down in this order. -/
def rank : Option τ → Option (Lock × LockMode) → Nat
  | _, some (.shard _, _) => 1
  | none, some (.server, _) => 2
  | none, some (.plugin _, _) => 2
  | some _, some (.server, _) => 3
  | some _, some (.plugin _, _) => 4
  | _, _ => 0

theorem rank_service (wanted : Option (Lock × LockMode)) : rank (none : Option τ) wanted ≤ 2 := by
  cases wanted with
  | none => simp [rank]
  | some lm =>
    obtain ⟨l, m⟩ := lm
    cases l <;> simp [rank]

theorem Push.held_cases {push : Push} {l : Lock} {m : LockMode} (held : (l, m) ∈ push.held hash) :
    (l = .server ∧ m = .exclusive ∧
      (push.wants hash = none ∨ ∃ i n, push.wants hash = some (.shard i, n))) ∨
    (l = .callback ∧ m = .shared) ∨ ∃ i, l = .shard i ∧ push.wants hash = none := by
  cases push with
  | shardLock tag | callbackLock ticket name => simp [Push.held] at held
  | store tag =>
    obtain ⟨rfl, rfl⟩ := by simpa [Push.held] using held
    exact .inr (.inr ⟨_, rfl, rfl⟩)
  | routeLock ticket name | callbackUnlock =>
    obtain ⟨rfl, rfl⟩ := by simpa [Push.held] using held
    exact .inr (.inl ⟨rfl, rfl⟩)
  | collect ticket name | enqueue ticket name ids record | routeUnlock =>
    rcases List.mem_cons.mp held with server | callback
    · obtain ⟨rfl, rfl⟩ := Prod.mk.inj server
      exact .inl ⟨rfl, rfl, .inl rfl⟩
    · obtain ⟨rfl, rfl⟩ := by simpa using callback
      exact .inr (.inl ⟨rfl, rfl⟩)
  | readLock ticket name ids =>
    rcases List.mem_cons.mp held with server | callback
    · obtain ⟨rfl, rfl⟩ := Prod.mk.inj server
      exact .inl ⟨rfl, rfl, .inr ⟨_, _, rfl⟩⟩
    · obtain ⟨rfl, rfl⟩ := by simpa using callback
      exact .inr (.inl ⟨rfl, rfl⟩)
  | read ticket name ids =>
    rcases List.mem_cons.mp held with shard | below
    · obtain ⟨rfl, rfl⟩ := Prod.mk.inj shard
      exact .inr (.inr ⟨_, rfl, rfl⟩)
    · rcases List.mem_cons.mp below with server | callback
      · obtain ⟨rfl, rfl⟩ := Prod.mk.inj server
        exact .inl ⟨rfl, rfl, .inl rfl⟩
      · obtain ⟨rfl, rfl⟩ := by simpa using callback
        exact .inr (.inl ⟨rfl, rfl⟩)

/-- What the code of a plugin holds, and what it can wait for meanwhile. -/
theorem Code.held_cases {code : Code} {l : Lock} {m : LockMode} (held : (l, m) ∈ code.held hash) :
    (l = .server ∧ m = .exclusive ∧
      (code.wants hash = none ∨ ∃ i n, code.wants hash = some (.shard i, n))) ∨
    (l = .callback ∧ m = .shared) ∨ (∃ i, l = .shard i ∧ code.wants hash = none) ∨
    (l = .plugin code.plugin ∧ code.holds = true) := by
  rcases List.mem_append.mp held with inside | own
  · cases activity : code.activity with
    | pushing push =>
      rw [activity] at inside
      have wants : code.wants hash = push.wants hash := by simp [Code.wants, activity]
      rw [wants]
      rcases Push.held_cases inside with server | callback | shard
      · exact .inl server
      · exact .inr (.inl callback)
      · exact .inr (.inr (.inl shard))
    | _ => simp [activity, Activity.held] at inside
  · split at own
    · obtain ⟨rfl, rfl⟩ : l = .plugin code.plugin ∧ m = .exclusive := by simpa using own
      exact .inr (.inr (.inr ⟨rfl, ‹_›⟩))
    · simp at own

/-- What the code of a plugin can wait for. -/
theorem Code.wants_cases {code : Code} {l : Lock} {m : LockMode}
    (wants : code.wants hash = some (l, m)) :
    l = .server ∨ (l = .callback ∧ m = .shared) ∨ (∃ i, l = .shard i) ∨
      (l = .plugin code.plugin ∧ code.activity = .locking) := by
  cases activity : code.activity with
  | running => simp [Code.wants, activity] at wants
  | locking =>
    obtain ⟨rfl, rfl⟩ := by simpa [Code.wants, activity] using wants
    exact .inr (.inr (.inr ⟨rfl, rfl⟩))
  | pushing push =>
    simp only [Code.wants, activity] at wants
    cases push with
    | shardLock tag | readLock ticket name ids =>
      obtain ⟨rfl, rfl⟩ := by simpa [Push.wants] using wants
      exact .inr (.inr (.inl ⟨_, rfl⟩))
    | callbackLock ticket name =>
      obtain ⟨rfl, rfl⟩ := by simpa [Push.wants] using wants
      exact .inr (.inl ⟨rfl, rfl⟩)
    | routeLock ticket name =>
      obtain ⟨rfl, rfl⟩ := by simpa [Push.wants] using wants
      exact .inl rfl
    | _ => simp [Push.wants] at wants

/-- What an acquisition thread holds, and how that bounds what it waits for. -/
theorem Conducted.holder {setup : Setup τ} {c : Conduct} {s : Runtime τ hash}
    (inv : Conducted setup c s) (u : τ) (l : Lock) (m : LockMode)
    (held : (l, m) ∈ (s.pc (some u)).held hash) :
    (l = .server ∧ rank (some u) ((s.pc (some u)).wants hash) ≤ 1) ∨
    (l = .callback ∧ m = .shared) ∨ (∃ i, l = .shard i ∧ (s.pc (some u)).wants hash = none) ∨
    ∃ code, s.pc (some u) = .plugin code ∧ l = .plugin (setup.plugin u) ∧ code.holds = true := by
  have fits := inv (some u)
  cases pc : s.pc (some u) with
  | plugin code =>
    rw [pc] at fits held
    rcases Code.held_cases held with
      ⟨rfl, _, none | ⟨i, n, shard⟩⟩ | callback | shard | ⟨rfl, holds⟩
    · exact .inl ⟨rfl, by simp [Pc.wants, none, rank]⟩
    · exact .inl ⟨rfl, by simp [Pc.wants, shard, rank]⟩
    · exact .inr (.inl callback)
    · exact .inr (.inr (.inl shard))
    · exact .inr (.inr (.inr ⟨code, rfl, by rw [fits.1], holds⟩))
  | _ => simp [pc, Fits] at fits

/-- What the service thread holds of the locks that an acquisition thread takes. -/
theorem Pc.service_holder {pc : Pc} {l : Lock} {m : LockMode} (other : ∀ code, pc ≠ .plugin code)
    (held : (l, m) ∈ pc.held hash) :
    (l = .callback → m = .shared) ∧ ∀ i, l = .shard i → pc.wants hash = none := by
  cases pc with
  | handler call code =>
    rcases List.mem_append.mp held with inside | below
    · rcases Code.held_cases inside with ⟨rfl, _⟩ | ⟨rfl, rfl⟩ | ⟨i, rfl, none⟩ | ⟨rfl, _⟩
      · exact ⟨fun same => by contradiction, fun i same => by contradiction⟩
      · exact ⟨fun _ => rfl, fun i same => by contradiction⟩
      · exact ⟨fun same => by contradiction, fun _ _ => none⟩
      · exact ⟨fun same => by contradiction, fun i same => by contradiction⟩
    · obtain ⟨rfl, rfl⟩ : l = .server ∧ m = .exclusive := by simpa using below
      exact ⟨fun same => by contradiction, fun i same => by contradiction⟩
  | plugin code => exact absurd rfl (other code)
  | copy call | select call =>
    have place : l ≠ .callback ∧ ∀ i, l ≠ .shard i := by
      rcases List.mem_cons.mp held with top | below
      · obtain ⟨rfl, rfl⟩ := Prod.mk.inj top
        exact ⟨Lock.noConfusion, fun _ => Lock.noConfusion⟩
      · obtain ⟨rfl, rfl⟩ : l = .server ∧ m = .exclusive := by simpa using below
        exact ⟨Lock.noConfusion, fun _ => Lock.noConfusion⟩
    exact ⟨fun same => absurd same place.1, fun i same => absurd same (place.2 i)⟩
  | _ => simp_all [Pc.held]

/-- A wait for the service thread goes down. -/
theorem Conducted.down_service {setup : Setup τ} {c : Conduct} {s : Runtime τ hash}
    (inv : Conducted setup c s) (t : τ) (l : Lock) (m n : LockMode)
    (wants : (s.pc (some t)).wants hash = some (l, m)) (held : (l, n) ∈ (s.pc none).held hash)
    (conflict : m.conflicts n = true) :
    rank (none : Option τ) ((s.pc none).wants hash) < rank (some t) (some (l, m)) := by
  have low : rank (none : Option τ) ((s.pc none).wants hash) ≤ 2 := rank_service _
  have other : ∀ code, s.pc none ≠ .plugin code := by
    intro code pc
    have fits := inv none
    simp [pc, Fits] at fits
  obtain ⟨shared, idle⟩ := Pc.service_holder other held
  have fits := inv (some t)
  cases pc : s.pc (some t) with
  | plugin code =>
    rw [pc] at wants
    rcases Code.wants_cases wants with rfl | ⟨rfl, rfl⟩ | ⟨i, rfl⟩ | ⟨rfl, _⟩
    · exact Nat.lt_of_le_of_lt low (by simp [rank])
    · rw [shared rfl] at conflict
      contradiction
    · rw [idle i rfl]
      simp [rank]
    · exact Nat.lt_of_le_of_lt low (by simp [rank])
  | _ => simp [pc, Fits] at fits

/-- A wait for an acquisition thread goes down. -/
theorem Conducted.down_acquisition {setup : Setup τ} {c : Conduct} {s : Runtime τ hash}
    (inv : Conducted setup c s) (apart : Apart setup c)
    (outside : ∀ t code, (s.pc t).code = some code → code.activity = .locking → code.holds = false)
    (t : Option τ) (u : τ) (l : Lock) (m n : LockMode)
    (wants : (s.pc t).wants hash = some (l, m)) (held : (l, n) ∈ (s.pc (some u)).held hash)
    (conflict : m.conflicts n = true) :
    rank (some u) ((s.pc (some u)).wants hash) < rank t (some (l, m)) := by
  rcases inv.holder u l n held with
    ⟨rfl, low⟩ | ⟨rfl, rfl⟩ | ⟨i, rfl, idle⟩ | ⟨code, pc, rfl, holds⟩
  · refine Nat.lt_of_le_of_lt low ?_
    cases t <;> simp [rank]
  · have shared : m = .shared := by
      cases pc : s.pc t with
      | handler call code | plugin code =>
        rw [pc] at wants
        rcases Code.wants_cases wants with same | ⟨_, shared⟩ | ⟨i, same⟩ | ⟨same, _⟩
        · contradiction
        · exact shared
        · contradiction
        · contradiction
      | _ => simp [pc, Pc.wants] at wants
    rw [shared] at conflict
    contradiction
  · rw [idle]
    simp [rank]
  · have free : code.activity ≠ .locking := by
      intro locking
      have released := outside (some u) code (by rw [pc]; rfl) locking
      rw [holds] at released
      contradiction
    have fits := inv (some u)
    rw [pc] at fits
    cases t with
    | some t =>
      have high : rank (some t) (some (Lock.plugin (setup.plugin u), m)) = 4 := by simp [rank]
      rw [high, pc, Pc.wants]
      cases wanted : code.wants hash with
      | none => simp [rank]
      | some lm =>
        obtain ⟨l, n⟩ := lm
        rcases Code.wants_cases wanted with rfl | ⟨rfl, _⟩ | ⟨i, rfl⟩ | ⟨_, locking⟩
        · simp [rank]
        · simp [rank]
        · simp [rank]
        · exact absurd locking free
    | none =>
      -- the service thread waits for the mutex inside a handler that a `SET` has reached
      have reached : c.handlerLocks (setup.plugin u) ∧ Routable setup (setup.plugin u) := by
        have service := inv none
        cases pc : s.pc none with
        | handler call code' =>
          rw [pc] at wants service
          rcases Code.wants_cases wants with same | ⟨same, _⟩ | ⟨i, same⟩ | ⟨same, locking⟩
          · contradiction
          · contradiction
          · contradiction
          · obtain same : setup.plugin u = code'.plugin := by injection same
            rw [same]
            exact ⟨service.2 locking, service.1⟩
        | plugin code' => simp [pc, Fits] at service
        | _ => simp [pc, Pc.wants] at wants
      have idle : code.activity = .running := by
        cases activity : code.activity with
        | running => rfl
        | locking => exact absurd activity free
        | pushing push =>
          have pushes := fits.2 push activity holds
          rw [fits.1] at pushes
          exact absurd reached.2 (apart u pushes reached.1)
      rw [pc, Pc.wants, Code.wants, idle]
      simp [rank]

variable [DecidableEq τ]

theorem Conducted.update {setup : Setup τ} {c : Conduct} {s s' : Runtime τ hash}
    (inv : Conducted setup c s) (t : Option τ) (pc : Pc) (moved : s'.pc = Function.update s.pc t pc)
    (own : Fits setup c t pc) : Conducted setup c s' := by
  intro u
  rw [moved]
  by_cases same : u = t
  · subst same
    rwa [Function.update_self]
  · rw [Function.update_of_ne same]
    exact inv u

theorem Conducted.step {setup : Setup τ} {c : Conduct} {s s' : Runtime τ hash} {a : Action τ}
    (inv : Conducted setup c s) (obeys : Obeys c s a) (h : Moved setup s a s') :
    Conducted setup c s' := by
  cases h with
  | called cb before => exact inv.update none _ rfl trivial
  | granted t timestamp l m waits free => exact inv.update t _ rfl (inv t).granted
  | pushed t timestamp code push before pushing waits =>
    refine inv.update t _ (by rw [setPc, (pushStep_locks s t push waits).1])
      ((inv t).withCode before _ _ (fun _ locking => ?_) (fun next outside _ holds => ?_))
    · cases after : (s.pushStep t push).2 <;> simp [after, Activity.after] at locking
    · cases pc : s.pc t with
      | plugin code' =>
        obtain rfl : code' = code := by simpa [pc, Pc.code] using before
        have fits := inv t
        rw [pc] at fits
        cases t with
        | none => exact absurd rfl outside
        | some t => exact fits.2 push pushing holds
      | _ => exact absurd (inv.service t (by simp [pc])) outside
  | served t timestamp cb server pc before served =>
    obtain rfl := inv.service t (by simp [before])
    exact inv.update none pc rfl (served.fits c)
  | copied t timestamp call before =>
    obtain rfl := inv.service t (by simp [before])
    have fits := inv none
    rw [before] at fits
    exact inv.update none _ rfl fits
  | unmatched t timestamp call before =>
    obtain rfl := inv.service t (by simp [before])
    exact inv.update none _ rfl trivial
  | selected t timestamp call reg before found =>
    obtain rfl := inv.service t (by simp [before])
    have fits := inv none
    rw [before] at fits
    exact inv.update none _ rfl
      ⟨⟨call.tag.name, reg, fits, found, rfl⟩, fun locking => by contradiction⟩
  | replied t timestamp conn request result before =>
    obtain rfl := inv.service t (by simp [before])
    exact inv.update none _ rfl trivial
  | left t timestamp before =>
    obtain rfl := inv.service t (by simp [before])
    exact inv.update none _ rfl trivial
  | locking t code before running outside =>
    refine inv.update t _ rfl ((inv t).withCode before _ _ (fun service _ => ?_)
      (fun push _ pushing => by contradiction))
    subst service
    exact obeys code before
  | unlocked t code before running inside =>
    refine inv.update t _ rfl ((inv t).withCode before _ _ (fun _ locking => ?_)
      (fun push _ pushing => ?_))
    · simp [running] at locking
    · simp [running] at pushing
  | pushes t code tag before running =>
    refine inv.update t _ rfl ((inv t).withCode before _ _ (fun _ locking => by contradiction)
      (fun push outside _ holds => ?_))
    cases t with
    | none => exact absurd rfl outside
    | some t => exact obeys code before holds
  | finished t call code accepted before running outside =>
    obtain rfl := inv.service t (by simp [before])
    exact inv.update none _ rfl trivial
  | removed name => exact inv

/-- While plugin code runs, the locks of its thread that are not the plugin's own. -/
theorem Locked.held_iff {setup : Setup τ} {c : Conduct} {s : Runtime τ hash} (locked : Locked s)
    (conducted : Conducted setup c s) {t : Option τ} {code : Code}
    (place : (s.pc t).code = some code) (running : code.activity = .running) (l : Lock)
    (m : LockMode) (other : l ≠ .plugin code.plugin) :
    ⟨t, l, m⟩ ∈ s.locks ↔ t = none ∧ l = .server ∧ m = .exclusive := by
  have own : (l, m) ∉ code.held hash := by
    intro held
    obtain ⟨-, same, -⟩ : code.holds = true ∧ l = .plugin code.plugin ∧ m = .exclusive := by
      simpa [Code.held, running, Activity.held] using held
    exact other same
  have fits := conducted t
  rw [locked.consistent.mem_iff, Pc.held_code place, List.mem_append]
  cases pc : s.pc t with
  | handler call code' =>
    obtain rfl := conducted.service t (by simp [pc])
    simp [own, Pc.base]
  | plugin code' =>
    have acquisition : t ≠ none := by
      rintro rfl
      simp [pc, Fits] at fits
    simp [own, Pc.base, acquisition]
  | _ => simp [pc, Pc.code] at place

/-- The locks and the places of the threads agree with the setup and the conduct in every run. -/
theorem ordered_of_run (setup : Setup τ) (c : Conduct) (schedule : List (Action τ))
    (s : Runtime τ hash) (obeys : (machine hash setup).Steps (Obeys c) (initial setup) schedule)
    (run : (machine hash setup).run schedule = some s) : Locked s ∧ Conducted setup c s :=
  (machine hash setup).invariant_of_steps (Obeys c) (fun s => Locked s ∧ Conducted setup c s)
    (fun _ _ _ inv ok step => ⟨inv.1.step (moved_of_step step), inv.2.step ok (moved_of_step step)⟩)
    (initial setup) schedule s ⟨locked_initial setup, conducted_initial setup c⟩ obeys run

/-- Every wait goes down, so there is no cycle. -/
theorem not_stuck {setup : Setup τ} {c : Conduct} {s : Runtime τ hash} (apart : Apart setup c)
    (locked : Locked s) (conducted : Conducted setup c s) : ¬s.Stuck := by
  apply not_deadlocked_of_rank (fun t => rank t ((s.pc t).wants hash))
  intro t u waits
  obtain ⟨l, m, wants, other, g, found, rfl, rfl, conflict⟩ := waits
  have held : (g.lock, g.mode) ∈ (s.pc g.thread).held hash :=
    (locked.consistent.mem_iff g).mp found
  simp only [wants]
  cases holder : g.thread with
  | none =>
    rw [holder] at held other
    cases t with
    | none => exact absurd rfl other
    | some t => exact conducted.down_service t _ m _ wants held conflict
  | some u =>
    rw [holder] at held
    exact conducted.down_acquisition apart locked.outside t u _ m _ wants held conflict

end IndustrialRuntime.Irsp.Runtime
