import IndustrialRuntime.Core.Scheduler
import IndustrialRuntime.Lib.Draining
import Mathlib.Algebra.BigOperators.Ring.List
import Mathlib.Algebra.Ring.Nat

namespace IndustrialRuntime.Core.Scheduler

variable {κ : Type*} {s s' : Scheduler κ} {a : Action κ}

/-- The steps of the scheduling thread. -/
def ofWorker : Action κ → Bool
  | .loop | .wake _ _ | .call | .finish => true
  | _ => false

/-! ### What the scheduling thread does -/

/-- One step of `runLoop`, by the line it starts from. -/
inductive Advance (s : Scheduler κ) : Action κ → Scheduler κ → Prop
  | ends {a : Action κ} (stopped : s.stopRequested = true)
      (worker : s.worker = .top ∨ ∃ soonest version, s.worker = .waitingUntil soonest version) :
      Advance s a { s with worker := .off }
  | sleeps (worker : s.worker = .top) (going : s.stopRequested = false) (empty : s.tasks = []) :
      Advance s .loop { s with worker := .waiting }
  | parks (worker : s.worker = .top) (going : s.stopRequested = false) :
      Advance s .loop { s with worker := .waitingUntil s.soonest s.version }
  | wakes (worker : s.worker = .waiting) : Advance s .loop { s with worker := .top }
  | sleepsOn (worker : s.worker = .waiting) (going : s.stopRequested = false)
      (empty : s.tasks = []) : Advance s .loop s
  | again {soonest : Int64} {version : Nat} {expired : Bool} {order : List (Entry κ)}
      (worker : s.worker = .waitingUntil soonest version) (going : s.stopRequested = false)
      (changed : version ≠ s.version) : Advance s (.wake expired order) { s with worker := .top }
  | waitsOn {soonest : Int64} {order : List (Entry κ)}
      (worker : s.worker = .waitingUntil soonest s.version) (going : s.stopRequested = false) :
      Advance s (.wake false order) s
  | collects {soonest : Int64} {version : Nat} {order : List (Entry κ)}
      (worker : s.worker = .waitingUntil soonest version) (going : s.stopRequested = false)
      (perm : order.Perm s.dueEntries) : Advance s (.wake true order) (s.collect order)
  | begins (e : Execution κ) (rest : List (Execution κ))
      (worker : s.worker = .running (e :: rest)) :
      Advance s .call { s with worker := .executing rest, executed := s.executed ++ [e] }
  | returns (rest : List (Execution κ)) (worker : s.worker = .executing rest) :
      Advance s .finish { s with worker := .running rest }
  | completes (worker : s.worker = .running []) : Advance s .loop { s with worker := .top }

/-- One call of the interface, or the clock. -/
inductive Called (s : Scheduler κ) : Action κ → Scheduler κ → Prop
  | started (worker : s.worker = .off) :
      Called s .start { s with running := true, stopRequested := false, worker := .top }
  | startedAlready (running : s.running = true) : Called s .start s
  | stopped : Called s .stop { s with running := false, stopRequested := true }
  | stoppedAlready (stopped : s.running = false) : Called s .stop s
  | added (interval : Int64) (task : κ) :
      Called s (.add interval task) (s.addPeriodicTask interval task)
  | removed (id : Nat) : Called s (.remove id) (s.removeTask id).1
  | ticked (now : Int64) (ahead : s.now ≤ now) : Called s (.tick now) { s with now := now }

theorem removeTask_flags (s : Scheduler κ) (id : Nat) :
    (s.removeTask id).1.running = s.running ∧
      (s.removeTask id).1.stopRequested = s.stopRequested := by
  unfold removeTask
  split_ifs <;> exact ⟨rfl, rfl⟩

/-- Another thread leaves the scheduling thread where it is. -/
theorem Called.keeps (called : Called s a s') (running : a ≠ .start) :
    s'.worker = s.worker ∧ s'.executed = s.executed ∧
      (s.stopRequested = true → s'.stopRequested = true) := by
  cases called with
  | started | startedAlready => contradiction
  | stopped => exact ⟨rfl, rfl, fun _ => rfl⟩
  | removed id =>
    obtain ⟨-, worker, -, -, -, executed⟩ := removeTask_keeps s id
    exact ⟨worker, executed, fun stopped => (removeTask_flags s id).2.trans stopped⟩
  | stoppedAlready | added | ticked => exact ⟨rfl, rfl, fun stopped => stopped⟩

/-- The steps that the scheduling thread has left after a stop. -/
def Worker.stepsLeft {κ : Type*} : Worker κ → Nat
  | .off => 0
  | .top | .waitingUntil _ _ => 1
  | .waiting => 2
  | .running due => 2 * due.length + 2
  | .executing rest => 2 * rest.length + 3

/-- The thread only runs what it had collected. -/
theorem Advance.stopped (advance : Advance s a s') (stopped : s.stopRequested = true) :
    s'.stopRequested = true ∧ s'.executed ++ s'.worker.pending = s.executed ++ s.worker.pending ∧
      s'.worker.stepsLeft + 1 ≤ s.worker.stepsLeft := by
  have going (off : s.stopRequested = false) : False := by
    rw [stopped] at off
    contradiction
  cases advance with
  | ends _ worker =>
    rcases worker with at_top | parked
    · exact ⟨stopped, by rw [at_top]; rfl, by rw [at_top]; exact Nat.le_refl _⟩
    · obtain ⟨soonest, version, parked⟩ := parked
      exact ⟨stopped, by rw [parked]; rfl, by rw [parked]; exact Nat.le_refl _⟩
  | sleeps _ off | parks _ off | sleepsOn _ off => exact (going off).elim
  | again _ off | waitsOn _ off | collects _ off => exact (going off).elim
  | wakes worker => exact ⟨stopped, by rw [worker]; rfl, by rw [worker]; exact Nat.le_refl _⟩
  | begins e rest worker =>
    refine ⟨stopped, ?_, ?_⟩
    · rw [worker]
      exact List.append_assoc _ _ _
    · rw [worker]
      simp only [Worker.stepsLeft, List.length_cons]
      omega
  | returns rest worker => exact ⟨stopped, by rw [worker]; rfl, by rw [worker]; exact Nat.le_refl _⟩
  | completes worker => exact ⟨stopped, by rw [worker]; rfl, by rw [worker]; exact Nat.le_refl _⟩

theorem foldl_min_le (es : List (Entry κ)) (first : Int64) :
    es.foldl (fun t e => min t e.nextRun) first ≤ first ∧
      ∀ e ∈ es, es.foldl (fun t e => min t e.nextRun) first ≤ e.nextRun := by
  induction es generalizing first with
  | nil => exact ⟨Int64.le_refl first, by simp⟩
  | cons e es ih =>
    have lower : min first e.nextRun ≤ first ∧ min first e.nextRun ≤ e.nextRun := by
      show (if first ≤ e.nextRun then first else e.nextRun) ≤ first ∧
        (if first ≤ e.nextRun then first else e.nextRun) ≤ e.nextRun
      split_ifs with le
      · exact ⟨Int64.le_refl first, le⟩
      · exact ⟨(Int64.le_total first e.nextRun).resolve_left le, Int64.le_refl _⟩
    obtain ⟨below, each⟩ := ih (min first e.nextRun)
    refine ⟨Int64.le_trans below lower.1, fun e' found => ?_⟩
    rcases List.mem_cons.mp found with rfl | later
    · exact Int64.le_trans below lower.2
    · exact each e' later

/-- The thread is parked until the earliest deadline of the table, or of an older version. -/
def Parked (s : Scheduler κ) : Prop :=
  ∀ soonest version, s.worker = .waitingUntil soonest version →
    version ≤ s.version ∧ (version = s.version → ∀ e ∈ s.tasks, soonest ≤ e.nextRun)

/-- A scheduler that runs has a thread, which nobody asked to stop. -/
def Going (s : Scheduler κ) : Prop :=
  s.running = true → s.stopRequested = false ∧ s.worker ≠ .off

/-- The thread is not parked. -/
theorem Parked.of_awake (awake : ∀ soonest version, s.worker ≠ .waitingUntil soonest version) :
    s.Parked := fun soonest version worker => absurd worker (awake soonest version)

theorem Advance.parked (advance : Advance s a s') (parked : s.Parked) : s'.Parked := by
  cases advance with
  | parks worker going =>
    intro soonest version at_line
    obtain ⟨rfl, rfl⟩ := Worker.waitingUntil.inj at_line
    exact ⟨Nat.le_refl _, fun _ => (foldl_min_le s.tasks Int64.maxValue).2⟩
  | sleepsOn | waitsOn => exact parked
  | _ => exact .of_awake fun soonest version at_line => by cases at_line

theorem Advance.running (advance : Advance s a s') : s'.running = s.running := by
  cases advance <;> rfl

theorem Called.running (called : Called s a s') (going : a ≠ .stop) (on : s.running = true) :
    s'.running = true := by
  cases called with
  | started => rfl
  | stopped | stoppedAlready => contradiction
  | removed id => exact (removeTask_flags s id).1.trans on
  | startedAlready | added | ticked => exact on

/-- Only a thread that was asked to stop ends. -/
theorem Advance.going (advance : Advance s a s') (going : s.Going) : s'.Going := by
  cases advance with
  | ends stopped worker =>
    intro running
    obtain ⟨asked, -⟩ := going running
    rw [stopped] at asked
    contradiction
  | sleepsOn | waitsOn => exact going
  | _ => exact fun running => ⟨(going running).1, by intro off; cases off⟩

theorem Called.parked (called : Called s a s') (parked : s.Parked) : s'.Parked := by
  have older (soonest : Int64) (version : Nat) (worker : s.worker = .waitingUntil soonest version)
      (tasks : List (Entry κ)) : version ≤ s.version + 1 ∧
        (version = s.version + 1 → ∀ e ∈ tasks, soonest ≤ e.nextRun) := by
    obtain ⟨noted, -⟩ := parked soonest version worker
    exact ⟨Nat.le_succ_of_le noted, fun same => by omega⟩
  cases called with
  | started => exact .of_awake fun soonest version at_line => by cases at_line
  | added interval task => exact fun soonest version worker => older soonest version worker _
  | removed id =>
    unfold removeTask
    split_ifs
    · exact fun soonest version worker => older soonest version worker _
    · exact parked
  | startedAlready | stopped | stoppedAlready | ticked => exact parked

theorem Called.going (called : Called s a s') (going : s.Going) : s'.Going := by
  cases called with
  | started => exact fun _ => ⟨rfl, by intro off; cases off⟩
  | stopped =>
    intro running
    cases running
  | removed id =>
    intro running
    obtain ⟨same, asked⟩ := removeTask_flags s id
    obtain ⟨-, worker, -⟩ := removeTask_keeps s id
    rw [asked, worker]
    exact going (same ▸ running)
  | startedAlready | stoppedAlready | added | ticked => exact going

/-- The wait goes on: what woke the thread up is no timeout, no stop and no other version. -/
def WaitsOn (s : Scheduler κ) : Action κ → Prop
  | .wake false _ => s.stopRequested = false ∧ ∃ wait ∈ s.worker.deadline, s.version = wait.2
  | _ => False

instance (s : Scheduler κ) : DecidablePred s.WaitsOn
  | .wake false _ =>
    inferInstanceAs (Decidable (_ = false ∧ ∃ wait ∈ s.worker.deadline, s.version = wait.2))
  | .wake true _ | .start | .stop | .add _ _ | .remove _ | .tick _ | .loop | .call | .finish =>
    isFalse id

/-- What the thread has left of the callbacks that it collected. -/
def Worker.runLeft : Worker κ → Nat
  | .running due => 2 * due.length
  | .executing rest => 2 * rest.length + 1
  | _ => 0

/-- The steps to the next round. -/
def waitLeft (s : Scheduler κ) : Nat :=
  match s.worker with
  | .off => 0
  | .top => 2
  | .waiting => 3
  | .waitingUntil _ version => if version = s.version then 1 else 3
  | .running due => 2 * due.length + 3
  | .executing rest => 2 * rest.length + 4

/-- The task is collected, or waits in the table with its deadline past. The number bounds the
steps of the thread until the task begins. -/
inductive Near (e : Entry κ) (s : Scheduler κ) : Nat → Prop
  | collected (x : Execution κ) (found : x ∈ s.worker.pending)
      (same : x.id = e.id ∧ x.task = e.task) : Near e s s.worker.runLeft
  | due (e' : Entry κ) (listed : e' ∈ s.tasks) (same : e'.id = e.id ∧ e'.task = e.task)
      (past : e'.nextRun ≤ s.now) : Near e s (2 * s.tasks.length + s.waitLeft)

/-- The task began after the first executions of the record. -/
def Begun (before : Nat) (e : Entry κ) (s : Scheduler κ) : Prop :=
  ∃ x ∈ s.executed.drop before, x.id = e.id ∧ x.task = e.task

/-- While nothing is collected the task waits in the table. -/
theorem Near.of_idle {e : Entry κ} {left : Nat} (near : Near e s left)
    (idle : s.worker.pending = []) : ∃ e' ∈ s.tasks, (e'.id = e.id ∧ e'.task = e.task) ∧
      e'.nextRun ≤ s.now ∧ left = 2 * s.tasks.length + s.waitLeft := by
  cases near with
  | collected x found =>
    rw [idle] at found
    exact absurd found List.not_mem_nil
  | due e' listed same past => exact ⟨e', listed, same, past, rfl⟩

/-- The thread takes a step towards a round without collecting. -/
theorem Near.waits {e : Entry κ} {left : Nat} (near : Near e s left)
    (idle : s.worker.pending = []) (tasks : s'.tasks = s.tasks) (now : s'.now = s.now)
    (closer : s'.waitLeft + 1 ≤ s.waitLeft) : ∃ left', Near e s' left' ∧ left' + 1 ≤ left := by
  obtain ⟨e', listed, same, past, rfl⟩ := near.of_idle idle
  refine ⟨_, .due e' (tasks ▸ listed) same (now ▸ past), ?_⟩
  rw [tasks]
  omega

theorem Near.advance {e : Entry κ} {before left : Nat} (near : Near e s left)
    (recorded : before ≤ s.executed.length) (going : s.stopRequested = false)
    (advance : Advance s a s') (timed : ¬s.WaitsOn a) :
    Begun before e s' ∨ ∃ left', Near e s' left' ∧ left' + 1 ≤ left := by
  cases advance with
  | ends stopped =>
    rw [going] at stopped
    contradiction
  | waitsOn worker =>
    refine absurd ?_ timed
    rw [WaitsOn, worker]
    exact ⟨going, _, rfl, rfl⟩
  | sleeps worker _ empty | sleepsOn worker _ empty =>
    obtain ⟨e', listed, -⟩ := near.of_idle (by rw [worker]; rfl)
    rw [empty] at listed
    exact absurd listed List.not_mem_nil
  | parks worker =>
    exact .inr (near.waits (by rw [worker]; rfl) rfl rfl (by simp [waitLeft, worker]))
  | wakes worker =>
    exact .inr (near.waits (by rw [worker]; rfl) rfl rfl (by simp [waitLeft, worker]))
  | again worker _ changed =>
    exact .inr (near.waits (by rw [worker]; rfl) rfl rfl (by simp [waitLeft, worker, changed]))
  | completes worker =>
    exact .inr (near.waits (by rw [worker]; rfl) rfl rfl (by simp [waitLeft, worker]))
  | @collects soonest version order worker _ perm =>
    obtain ⟨e', listed, same, past, rfl⟩ := near.of_idle (by rw [worker]; rfl)
    have now_due : e' ∈ order := perm.mem_iff.mpr (mem_dueEntries.mpr ⟨listed, past⟩)
    have few : order.length ≤ s.tasks.length := by
      rw [perm.length_eq]
      exact List.length_filter_le _ _
    have waited : 1 ≤ s.waitLeft := by
      simp only [waitLeft, worker]
      split_ifs <;> omega
    refine .inr ⟨_, .collected ⟨e'.id, e'.task, s.now⟩ (List.mem_map_of_mem now_due) same, ?_⟩
    simp only [collect, Worker.runLeft, List.length_map]
    omega
  | begins x rest worker =>
    cases near with
    | collected y found same =>
      rw [worker] at found
      rcases List.mem_cons.mp found with rfl | later
      · refine .inl ⟨y, ?_, same⟩
        rw [List.drop_append_of_le_length recorded]
        exact List.mem_append_right _ (List.mem_singleton_self y)
      · refine .inr ⟨_, .collected y later same, ?_⟩
        rw [worker]
        simp only [Worker.runLeft, List.length_cons]
        omega
    | due e' listed same past =>
      refine .inr ⟨_, .due e' listed same past, ?_⟩
      simp only [waitLeft, worker, List.length_cons]
      omega
  | returns rest worker =>
    cases near with
    | collected y found same =>
      rw [worker] at found ⊢
      exact .inr ⟨_, .collected y found same, Nat.le_refl _⟩
    | due e' listed same past =>
      refine .inr ⟨_, .due e' listed same past, ?_⟩
      simp only [waitLeft, worker]
      omega

/-- The calls that change the table, as far as the version tells. -/
def changes : Action κ → Nat
  | .add _ _ | .remove _ => 1
  | _ => 0

/-- A parked thread may have to look at the table again. -/
theorem waitLeft_le (worker : s'.worker = s.worker) : s'.waitLeft ≤ s.waitLeft + 2 := by
  simp only [waitLeft, worker]
  split
  case h_4 => split_ifs <;> omega
  all_goals omega

/-- A call that changes the table keeps the task near. -/
theorem Near.changed {e : Entry κ} {left : Nat} (near : Near e s left)
    (worker : s'.worker = s.worker) (now : s'.now = s.now)
    (few : s'.tasks.length ≤ s.tasks.length + 1)
    (listed : ∀ e' ∈ s.tasks, e'.id = e.id → e' ∈ s'.tasks) :
    ∃ left', Near e s' left' ∧ left' ≤ left + 4 := by
  cases near with
  | collected x found same =>
    refine ⟨_, .collected x (worker ▸ found) same, ?_⟩
    rw [worker]
    omega
  | due e' mem same past =>
    have more := waitLeft_le worker
    refine ⟨_, .due e' (listed e' mem same.1) same (now ▸ past), ?_⟩
    omega

theorem Near.called {e : Entry κ} {left : Nat} (near : Near e s left) (on : s.worker ≠ .off)
    (called : Called s a s') (kept : a ≠ .remove e.id) (going : a ≠ .stop) :
    ∃ left', Near e s' left' ∧ left' ≤ left + 4 * changes a := by
  cases called with
  | started off => exact absurd off on
  | startedAlready => exact ⟨left, near, Nat.le_add_right _ _⟩
  | stopped | stoppedAlready => contradiction
  | added interval task =>
    refine near.changed rfl rfl ?_ fun e' mem _ => List.mem_append_left _ mem
    show (s.tasks ++ [_]).length ≤ _
    rw [List.length_append]
    exact Nat.le_refl _
  | removed id =>
    obtain ⟨-, worker, now, -⟩ := removeTask_keeps s id
    refine near.changed worker now ?_ fun e' mem same => ?_
    · rw [removeTask_tasks]
      exact Nat.le_succ_of_le (List.length_filter_le _ _)
    · rw [removeTask_tasks, List.mem_filter]
      refine ⟨mem, decide_eq_true fun removed => kept ?_⟩
      rw [← same, removed]
  | ticked now ahead =>
    cases near with
    | collected x found same => exact ⟨_, .collected x found same, Nat.le_add_right _ _⟩
    | due e' mem same past =>
      exact ⟨_, .due e' mem same (Int64.le_trans past ahead), Nat.le_add_right _ _⟩

section Steps

variable [DecidableEq κ]

theorem advance_of_loop (h : s.step .loop = some s') : Advance s .loop s' := by
  simp only [step] at h
  cases at_line : s.worker with
  | top =>
    simp only [at_line] at h
    split_ifs at h with stopped empty
    · obtain rfl := Option.some.inj h
      exact .ends stopped (.inl at_line)
    · obtain rfl := Option.some.inj h
      exact .sleeps at_line (by simpa using stopped) (by simpa using empty)
    · obtain rfl := Option.some.inj h
      exact .parks at_line (by simpa using stopped)
  | waiting =>
    simp only [at_line] at h
    split_ifs at h with roused
    · obtain rfl := Option.some.inj h
      exact .wakes at_line
    · obtain rfl := Option.some.inj h
      simp only [Bool.or_eq_true, not_or, Bool.not_eq_true] at roused
      exact .sleepsOn at_line roused.1 (by simpa using roused.2)
  | running due =>
    cases due with
    | nil =>
      simp only [at_line] at h
      obtain rfl := Option.some.inj h
      exact .completes at_line
    | cons e rest => simp [at_line] at h
  | _ => simp [at_line] at h

theorem advance_of_wake {expired : Bool} {order : List (Entry κ)}
    (h : s.step (.wake expired order) = some s') : Advance s (.wake expired order) s' := by
  simp only [step] at h
  cases at_line : s.worker with
  | waitingUntil soonest observedVersion =>
    simp only [at_line] at h
    split_ifs at h with stopped changed early due
    · obtain rfl := Option.some.inj h
      exact .ends stopped (.inr ⟨_, _, at_line⟩)
    · obtain rfl := Option.some.inj h
      exact .again at_line (by simpa using stopped) fun same => changed same.symm
    · obtain rfl := Option.some.inj h
      obtain rfl : expired = false := by simpa using early
      obtain rfl : s.version = observedVersion := by simpa using changed
      exact .waitsOn at_line (by simpa using stopped)
    · obtain rfl := Option.some.inj h
      obtain rfl : expired = true := by simpa using early
      exact .collects at_line (by simpa using stopped) due.2
  | _ => simp [at_line] at h

theorem advance_of_step (worker : ofWorker a = true) (h : s.step a = some s') :
    Advance s a s' := by
  cases a with
  | loop => exact advance_of_loop h
  | wake expired order => exact advance_of_wake h
  | call =>
    simp only [step] at h
    split at h
    · rename_i e rest at_line
      obtain rfl := Option.some.inj h
      exact .begins e rest at_line
    · contradiction
  | finish =>
    simp only [step] at h
    split at h
    · rename_i rest at_line
      obtain rfl := Option.some.inj h
      exact .returns rest at_line
    · contradiction
  | _ => contradiction

theorem called_of_step (other : ofWorker a = false) (h : s.step a = some s') :
    Called s a s' := by
  cases a with
  | start =>
    simp only [step] at h
    split_ifs at h with running
    · obtain rfl := Option.some.inj h
      exact .startedAlready running
    · split at h
      · rename_i worker
        obtain rfl := Option.some.inj h
        exact .started worker
      · contradiction
  | stop =>
    simp only [step] at h
    split_ifs at h with running
    · obtain rfl := Option.some.inj h
      exact .stopped
    · obtain rfl := Option.some.inj h
      exact .stoppedAlready (by simpa using running)
  | add interval task =>
    obtain rfl := Option.some.inj h
    exact .added interval task
  | remove id =>
    obtain rfl := Option.some.inj h
    exact .removed id
  | tick now =>
    simp only [step] at h
    split_ifs at h with ahead
    obtain rfl := Option.some.inj h
    exact .ticked now ahead
  | _ => contradiction

/-! ### A scheduler that was stopped -/

theorem exists_step_of_stopped (stopped : s.stopRequested = true) (on : s.worker ≠ .off) :
    ∃ a, ofWorker a = true ∧ (s.step a).isSome = true := by
  cases worker : s.worker with
  | off => contradiction
  | top => exact ⟨.loop, rfl, by simp [step, worker, stopped]⟩
  | waiting => exact ⟨.loop, rfl, by simp [step, worker, stopped]⟩
  | waitingUntil => exact ⟨.wake true [], rfl, by simp [step, worker, stopped]⟩
  | running due =>
    cases due with
    | nil => exact ⟨.loop, rfl, by simp [step, worker]⟩
    | cons e rest => exact ⟨.call, rfl, by simp [step, worker]⟩
  | executing rest => exact ⟨.finish, rfl, by simp [step, worker]⟩

/-- Steps of the scheduling thread. -/
def workerSteps (as : List (Action κ)) : Nat := (as.map fun a => (ofWorker a).toNat).sum

/-- After `stop`, whatever other threads do, the scheduling thread comes to its end, which `stop`
waits for: it is never blocked, and its steps are bounded. It still runs what it had collected, all
of it and in order, and nothing more until the next `start`. -/
theorem stop_drains {start : Int64} {t : Scheduler κ} {as : List (Action κ)}
    (stopped : s.stopRequested = true) (until_start : ∀ a ∈ as, a ≠ .start)
    (later : (machine start).runFrom s as = some t) :
    workerSteps as ≤ s.worker.stepsLeft ∧
      t.executed ++ t.worker.pending = s.executed ++ s.worker.pending ∧
      (t.worker ≠ .off → ∃ a, ofWorker a = true ∧ (t.step a).isSome = true) := by
  let I (u : Scheduler κ) (left : Nat) : Prop :=
    u.stopRequested = true ∧ u.executed ++ u.worker.pending = s.executed ++ s.worker.pending ∧
      left = u.worker.stepsLeft
  have pays : (machine start).Pays (fun _ a => a ≠ .start) I (fun _ => False)
      (fun a => (ofWorker a).toNat) (fun _ => 0) := by
    refine ⟨fun _ _ _ none => none.elim, fun u left a u' inv running next => .inr ?_⟩
    obtain ⟨asked, same, rfl⟩ := inv
    cases worker : ofWorker a with
    | true =>
      obtain ⟨still, kept, less⟩ := (advance_of_step worker next).stopped asked
      exact ⟨_, ⟨still, kept.trans same, rfl⟩, less⟩
    | false =>
      obtain ⟨at_line, executed, still⟩ := (called_of_step worker next).keeps running
      refine ⟨_, ⟨still asked, ?_, rfl⟩, ?_⟩
      · rw [at_line, executed, same]
      · rw [at_line]
        exact Nat.le_refl _
  have steps := (machine start).steps_of_mem (fun a => a ≠ .start) s as until_start
  rcases pays.cost_le ⟨stopped, rfl, rfl⟩ steps later with none | bounded
  · exact none.elim
  · obtain ⟨left, ⟨asked, same, rfl⟩, cost⟩ := bounded
    have nothing : (as.map fun _ => 0).sum = 0 := by simp
    rw [nothing] at cost
    refine ⟨?_, same, exists_step_of_stopped asked⟩
    rw [workerSteps]
    omega

/-! ### A task that is due -/

/-- What the window of a due task excludes: a stop, the removal of the task, and that the wait
goes on, whose deadline is past. -/
def Undisturbed (e : Entry κ) (s : Scheduler κ) (a : Action κ) : Prop :=
  a ≠ .stop ∧ a ≠ .remove e.id ∧ ¬s.WaitsOn a

instance (e : Entry κ) (s : Scheduler κ) : DecidablePred (Undisturbed e s) :=
  fun a => inferInstanceAs (Decidable (a ≠ .stop ∧ a ≠ .remove e.id ∧ ¬s.WaitsOn a))

/-- Calls that change the table. -/
def tableChanges (as : List (Action κ)) : Nat := (as.map changes).sum

/-- The thread that a task is near to can take a step. -/
theorem Near.exists_step {e : Entry κ} {left : Nat} (near : Near e s left) (parked : s.Parked)
    (on : s.worker ≠ .off) :
    ∃ a, ofWorker a = true ∧ (∀ order, a ≠ .wake false order) ∧ (s.step a).isSome = true := by
  have loops : (s.step .loop).isSome = true → ∃ a, ofWorker a = true ∧
      (∀ order, a ≠ .wake false order) ∧ (s.step a).isSome = true :=
    fun enabled => ⟨.loop, rfl, fun _ => by simp, enabled⟩
  cases worker : s.worker with
  | off => contradiction
  | top =>
    apply loops
    simp only [step, worker]
    split_ifs <;> rfl
  | waiting =>
    apply loops
    simp only [step, worker]
    split_ifs <;> rfl
  | waitingUntil soonest version =>
    refine ⟨.wake true s.dueEntries, rfl, fun _ => by simp, ?_⟩
    obtain ⟨e', listed, -, past, -⟩ := near.of_idle (by rw [worker]; rfl)
    have deadline := (parked soonest version worker).2
    simp only [step, worker]
    split_ifs with stopped changed early due
    · rfl
    · rfl
    · rfl
    · rfl
    · refine absurd ⟨?_, List.Perm.refl _⟩ due
      have current : version = s.version := by simpa [eq_comm] using changed
      exact Int64.le_trans (deadline current e' listed) past
  | running due =>
    cases due with
    | nil =>
      apply loops
      simp only [step, worker]
      rfl
    | cons x rest =>
      exact ⟨.call, rfl, fun _ => by simp, by simp [step, worker]⟩
  | executing rest =>
    exact ⟨.finish, rfl, fun _ => by simp, by simp [step, worker]⟩

theorem sound_of_run {start : Int64} {schedule : List (Action κ)}
    (run : (machine start).run schedule = some s) : s.Parked ∧ s.Going := by
  refine (machine start).invariant (fun s => s.Parked ∧ s.Going) ?_ ?_ schedule s run
  · exact ⟨.of_awake fun soonest version at_line => (by cases at_line),
      fun running => (by cases running)⟩
  · intro s a s' inv next
    cases worker : ofWorker a with
    | true =>
      have advance := advance_of_step worker next
      exact ⟨advance.parked inv.1, advance.going inv.2⟩
    | false =>
      have called := called_of_step worker next
      exact ⟨called.parked inv.1, called.going inv.2⟩

/-- A task whose deadline is past begins after a bounded number of steps of the scheduling thread,
whatever other threads do meanwhile short of stopping the scheduler or removing the task; each
change of the table may cost four steps more. Until then the thread is never blocked. -/
theorem due_begins {start : Int64} {schedule : List (Action κ)}
    (run : (machine start).run schedule = some s) (running : s.running = true) {e : Entry κ}
    (listed : e ∈ s.tasks) (past : e.nextRun ≤ s.now) {as : List (Action κ)}
    (undisturbed : (machine start).Steps (Undisturbed e) s as) {t : Scheduler κ}
    (later : (machine start).runFrom s as = some t) :
    Begun s.executed.length e t ∨
      workerSteps as ≤ 2 * s.tasks.length + s.waitLeft + 4 * tableChanges as ∧
        ∃ a, ofWorker a = true ∧ (∀ order, a ≠ .wake false order) ∧ (t.step a).isSome = true := by
  let before := s.executed.length
  let I (u : Scheduler κ) (left : Nat) : Prop :=
    (u.Parked ∧ u.Going) ∧ u.running = true ∧ before ≤ u.executed.length ∧ Near e u left
  have pays : (machine start).Pays (Undisturbed e) I (Begun before e)
      (fun a => (ofWorker a).toNat) (fun a => 4 * changes a) := by
    constructor
    · intro u a u' reached _ next
      obtain ⟨x, found, same⟩ := reached
      have progress : Progress u a u' := progress_of_step next
      obtain ⟨new, grown, -⟩ := progress.executed_grow
      refine ⟨x, ?_, same⟩
      rw [grown, List.drop_append]
      exact List.mem_append_left _ found
    · intro u left a u' inv undisturbed next
      obtain ⟨⟨parked, going⟩, running, recorded, near⟩ := inv
      obtain ⟨asked, on⟩ := going running
      have progress : Progress u a u' := progress_of_step next
      obtain ⟨new, grown, -⟩ := progress.executed_grow
      have longer : before ≤ u'.executed.length := by
        rw [grown, List.length_append]
        omega
      cases worker : ofWorker a with
      | true =>
        have advance := advance_of_step worker next
        refine (near.advance recorded asked advance undisturbed.2.2).imp_right fun closer => ?_
        obtain ⟨left', near', less⟩ := closer
        refine ⟨left', ⟨⟨advance.parked parked, advance.going going⟩, ?_, longer, near'⟩, ?_⟩
        · exact advance.running.trans running
        · show left' + 1 ≤ left + _
          omega
      | false =>
        have called := called_of_step worker next
        obtain ⟨left', near', more⟩ := near.called on called undisturbed.2.1 undisturbed.1
        refine .inr ⟨left', ⟨⟨called.parked parked, called.going going⟩, ?_, longer, near'⟩, more⟩
        exact called.running undisturbed.1 running
  have first : I s (2 * s.tasks.length + s.waitLeft) :=
    ⟨sound_of_run run, running, Nat.le_refl _, .due e listed ⟨rfl, rfl⟩ past⟩
  refine (pays.cost_le first undisturbed later).imp_right fun bounded => ?_
  obtain ⟨left, ⟨⟨parked, going⟩, still, -, near⟩, cost⟩ := bounded
  refine ⟨?_, near.exists_step parked (going still).2⟩
  have brought : (as.map fun a => 4 * changes a).sum = 4 * tableChanges as := by
    rw [tableChanges, List.sum_map_mul_left]
  rw [workerSteps, ← brought]
  omega

end Steps

/-- Two tasks are collected, and the scheduler is stopped before they begin. -/
def stoppedLate : List (Action Bool) :=
  [.start, .add 1 false, .add 1 true, .loop, .tick 1000000,
    .wake true [⟨1, 1, 1000000, false⟩, ⟨2, 1, 1000000, true⟩], .stop]

/-- The first one adds a task. -/
def lastRound : List (Action Bool) :=
  [.call, .add 0 false, .finish, .call, .finish, .loop, .loop]

theorem stop_drains_late : ∃ s t, (machine 0).run stoppedLate = some s ∧
    (machine 0).runFrom s lastRound = some t ∧ workerSteps lastRound ≤ s.worker.stepsLeft ∧
    t.executed ++ t.worker.pending = [⟨1, false, 1000000⟩, ⟨2, true, 1000000⟩] := by
  have runs : ((machine 0).run stoppedLate).any (fun s => s.stopRequested &&
      decide (s.executed ++ s.worker.pending = [⟨1, false, 1000000⟩, ⟨2, true, 1000000⟩]) &&
      ((machine 0).runFrom s lastRound).isSome) = true := by
    decide +kernel
  obtain ⟨s, run, rest⟩ := (Option.any_eq_true _ _).mp runs
  simp only [Bool.and_eq_true, decide_eq_true_eq] at rest
  obtain ⟨⟨stopped, collected⟩, ended⟩ := rest
  obtain ⟨t, later⟩ := Option.isSome_iff_exists.mp ended
  have drained := stop_drains stopped (by simp [lastRound]) later
  exact ⟨s, t, run, later, drained.1, drained.2.1.trans collected⟩

/-- A task whose deadline passes while the thread is parked. -/
def pastDeadline : List (Action Bool) := [.start, .add 1 false, .loop, .tick 2000000]

/-- Another task is added, which the thread is woken up for; then it runs the first one twice. -/
def lateRounds : List (Action Bool) :=
  [.add 5 true, .wake false [], .loop, .tick 3000000, .wake true [⟨1, 1, 1000000, false⟩], .call,
    .finish, .loop, .tick 4000000, .loop, .wake true [⟨1, 1, 4000000, false⟩], .call]

theorem due_begins_late : ∃ s t, (machine 0).run pastDeadline = some s ∧
    (machine 0).runFrom s lateRounds = some t ∧
    Begun s.executed.length ⟨1, 1, 1000000, false⟩ t := by
  have runs : ((machine 0).run pastDeadline).any (fun s => s.running &&
      decide (⟨1, 1, 1000000, false⟩ ∈ s.tasks) && decide (1000000 ≤ s.now) &&
      decide (2 * s.tasks.length + s.waitLeft = 3) &&
      decide ((machine 0).Steps (Undisturbed ⟨1, 1, 1000000, false⟩) s lateRounds) &&
      ((machine 0).runFrom s lateRounds).isSome) = true := by
    decide +kernel
  obtain ⟨s, run, rest⟩ := (Option.any_eq_true _ _).mp runs
  simp only [Bool.and_eq_true, decide_eq_true_eq] at rest
  obtain ⟨⟨⟨⟨⟨running, listed⟩, past⟩, bound⟩, quiet⟩, ended⟩ := rest
  obtain ⟨t, later⟩ := Option.isSome_iff_exists.mp ended
  have steps : workerSteps lateRounds = 9 := by rfl
  have changed : tableChanges lateRounds = 1 := by rfl
  have begins := due_begins run running listed past quiet later
  refine ⟨s, t, run, later, begins.resolve_right fun waits => ?_⟩
  have := waits.1
  omega

end IndustrialRuntime.Core.Scheduler
