import IndustrialRuntime.Lib.Machine
import Mathlib.Data.List.Perm.Basic
import Mathlib.Data.List.Nodup

namespace IndustrialRuntime.Core

namespace Scheduler

/-- A row of the task table; `κ` stands for the callbacks. -/
structure Entry (κ : Type*) where
  id : Nat
  interval : Int64
  nextRun : Int64
  task : κ
  deriving DecidableEq

/-- A callback that `runLoop` copied out of the table, in a round that read `observed`. -/
structure Execution (κ : Type*) where
  id : Nat
  task : κ
  observed : Int64
  deriving DecidableEq

/-- A round that passed the wait: the clock, the table it looked at and what it collected. -/
structure Round (κ : Type*) where
  now : Int64
  table : List (Entry κ)
  due : List (Execution κ)

/-- An `addPeriodicTask` call and the clock it read. -/
structure Registration (κ : Type*) where
  id : Nat
  interval : Int64
  task : κ
  now : Int64

/-- The scheduling thread, by the line of `runLoop` it is about to run. -/
inductive Worker (κ : Type*) where
  | off
  | top
  | waiting
  | waitingUntil (soonest : Int64) (observedVersion : Nat)
  | running (due : List (Execution κ))
  | executing (rest : List (Execution κ))

/-- What is collected and not begun. -/
def Worker.pending {κ : Type*} : Worker κ → List (Execution κ)
  | .running due => due
  | .executing rest => rest
  | _ => []

/-- `now + interval`, in the nanoseconds of the clock. -/
def later (now interval : Int64) : Int64 := now + interval * 1000000

end Scheduler

open Scheduler

/-- The scheduler and its clock. The last three fields record the run: `executed` grows when a
callback begins. -/
structure Scheduler (κ : Type*) where
  tasks : List (Entry κ)
  nextId : Nat
  version : Nat
  running : Bool
  stopRequested : Bool
  worker : Worker κ
  now : Int64
  registered : List (Registration κ)
  rounds : List (Round κ)
  executed : List (Execution κ)

namespace Scheduler

variable {κ : Type*}

def initial (now : Int64) : Scheduler κ where
  tasks := []
  nextId := 1
  version := 0
  running := false
  stopRequested := false
  worker := .off
  now := now
  registered := []
  rounds := []
  executed := []

def addPeriodicTask (s : Scheduler κ) (interval : Int64) (task : κ) : Scheduler κ :=
  { s with
    tasks := s.tasks ++ [⟨s.nextId, interval, later s.now interval, task⟩]
    nextId := s.nextId + 1
    version := s.version + 1
    registered := s.registered ++ [⟨s.nextId, interval, task, s.now⟩] }

def removeTask (s : Scheduler κ) (id : Nat) : Scheduler κ × Bool :=
  if id ∈ s.tasks.map Entry.id then
    ({ s with tasks := s.tasks.filter (fun e => e.id ≠ id), version := s.version + 1 }, true)
  else (s, false)

/-- The loop over the table that finds the earliest deadline. -/
def soonest (s : Scheduler κ) : Int64 :=
  s.tasks.foldl (fun t e => min t e.nextRun) Int64.maxValue

def dueEntries (s : Scheduler κ) : List (Entry κ) :=
  s.tasks.filter fun e => e.nextRun ≤ s.now

/-- The collecting loop, which meets the due entries in the given order. -/
def collect (s : Scheduler κ) (order : List (Entry κ)) : Scheduler κ :=
  let due := order.map fun e => ⟨e.id, e.task, s.now⟩
  { s with
    tasks := s.tasks.map fun e =>
      if e.nextRun ≤ s.now then { e with nextRun := later s.now e.interval } else e
    worker := .running due
    rounds := s.rounds ++ [⟨s.now, s.tasks, due⟩] }

theorem removeTask_tasks (s : Scheduler κ) (id : Nat) :
    (s.removeTask id).1.tasks = s.tasks.filter (fun e => e.id ≠ id) := by
  unfold removeTask
  split_ifs with found
  · rfl
  · refine (List.filter_eq_self.mpr fun e present => ?_).symm
    have other : e.id ≠ id := by
      intro same
      subst same
      exact found (List.mem_map_of_mem present)
    simpa using other

/-- A removal leaves the rest of the scheduler as it is. -/
theorem removeTask_keeps (s : Scheduler κ) (id : Nat) :
    (s.removeTask id).1.nextId = s.nextId ∧ (s.removeTask id).1.worker = s.worker ∧
      (s.removeTask id).1.now = s.now ∧ (s.removeTask id).1.registered = s.registered ∧
        (s.removeTask id).1.rounds = s.rounds ∧ (s.removeTask id).1.executed = s.executed := by
  unfold removeTask
  split_ifs <;> exact ⟨rfl, rfl, rfl, rfl, rfl, rfl⟩

theorem collect_ids (s : Scheduler κ) (order : List (Entry κ)) :
    (s.collect order).tasks.map Entry.id = s.tasks.map Entry.id := by
  change (s.tasks.map _).map Entry.id = _
  rw [List.map_map]
  refine List.map_congr_left fun e _ => ?_
  simp only [Function.comp_apply]
  split_ifs <;> rfl

theorem mem_dueEntries {s : Scheduler κ} {e : Entry κ} :
    e ∈ s.dueEntries ↔ e ∈ s.tasks ∧ e.nextRun ≤ s.now := by
  rw [dueEntries, List.mem_filter, decide_eq_true_eq]

/-- A call of the interface by any thread, the clock, or a step of the scheduling thread. The
table is a hash map, so `order` is any order of the due entries; `expired` tells a timeout from
another way out of the wait. -/
inductive Action (κ : Type*) where
  | start
  | stop
  | add (interval : Int64) (task : κ)
  | remove (id : Nat)
  | tick (now : Int64)
  | loop
  | wake (expired : Bool) (order : List (Entry κ))
  | call
  | finish
  deriving DecidableEq

def step [DecidableEq κ] (s : Scheduler κ) : Action κ → Option (Scheduler κ)
  | .start =>
    if s.running then some s
    else
      match s.worker with
      | .off => some { s with running := true, stopRequested := false, worker := .top }
      | _ => none
  -- The caller then joins the thread, whose own steps end it.
  | .stop => if s.running then some { s with running := false, stopRequested := true } else some s
  | .add interval task => some (s.addPeriodicTask interval task)
  | .remove id => some (s.removeTask id).1
  | .tick now => if s.now ≤ now then some { s with now := now } else none
  | .loop =>
    match s.worker with
    | .top =>
      if s.stopRequested then some { s with worker := .off }
      else if s.tasks.isEmpty then some { s with worker := .waiting }
      else some { s with worker := .waitingUntil s.soonest s.version }
    | .waiting =>
      if s.stopRequested || !s.tasks.isEmpty then some { s with worker := .top } else some s
    | .running [] => some { s with worker := .top }
    | _ => none
  | .wake expired order =>
    match s.worker with
    | .waitingUntil soonest observedVersion =>
      if s.stopRequested then some { s with worker := .off }
      else if s.version ≠ observedVersion then some { s with worker := .top }
      else if !expired then some s
      else if soonest ≤ s.now ∧ order.Perm s.dueEntries then some (s.collect order)
      else none
    | _ => none
  | .call =>
    match s.worker with
    | .running (e :: rest) =>
      some { s with worker := .executing rest, executed := s.executed ++ [e] }
    | _ => none
  | .finish =>
    match s.worker with
    | .executing rest => some { s with worker := .running rest }
    | _ => none

def machine [DecidableEq κ] (now : Int64) : Machine (Scheduler κ) (Action κ) := ⟨initial now, step⟩

/-! ### What a step does -/

/-- The deadline of a parked thread, and the version of the table that it was taken from. -/
def Worker.deadline : Worker κ → Option (Int64 × Nat)
  | .waitingUntil soonest observedVersion => some (soonest, observedVersion)
  | _ => none

/-- The deadline of the wait is past, and neither a stop nor another version has come. -/
def Elapsed (s : Scheduler κ) : Prop :=
  s.stopRequested = false ∧ ∃ wait ∈ s.worker.deadline, s.version = wait.2 ∧ wait.1 ≤ s.now

instance (s : Scheduler κ) : Decidable s.Elapsed :=
  inferInstanceAs (Decidable
    (_ = false ∧ ∃ wait ∈ s.worker.deadline, s.version = wait.2 ∧ wait.1 ≤ s.now))

/-- One step, by what it does to the table and the record of the run. -/
inductive Progress (s : Scheduler κ) : Action κ → Scheduler κ → Prop
  | idle {a : Action κ} {s' : Scheduler κ} (tasks : s'.tasks = s.tasks)
      (nextId : s'.nextId = s.nextId) (registered : s'.registered = s.registered)
      (rounds : s'.rounds = s.rounds) (executed : s'.executed = s.executed)
      (pending : s'.worker.pending = s.worker.pending) (now : s.now ≤ s'.now) : Progress s a s'
  | added (interval : Int64) (task : κ) :
      Progress s (.add interval task) (s.addPeriodicTask interval task)
  | removed (id : Nat) : Progress s (.remove id) (s.removeTask id).1
  | collected (order : List (Entry κ)) (perm : order.Perm s.dueEntries)
      (idle : s.worker.pending = []) (elapsed : s.Elapsed) :
      Progress s (.wake true order) (s.collect order)
  | called (e : Execution κ) (rest : List (Execution κ))
      (worker : s.worker = .running (e :: rest)) :
      Progress s .call { s with worker := .executing rest, executed := s.executed ++ [e] }

variable {s s' : Scheduler κ} {a : Action κ}

theorem progress_of_loop [DecidableEq κ] (h : s.step .loop = some s') : Progress s .loop s' := by
  have same : s.now ≤ s.now := Int64.le_refl s.now
  simp only [step] at h
  cases at_line : s.worker with
  | top =>
    simp only [at_line] at h
    split_ifs at h
    all_goals
      obtain rfl := Option.some.inj h
      exact .idle rfl rfl rfl rfl rfl (by rw [at_line]; rfl) same
  | waiting =>
    simp only [at_line] at h
    split_ifs at h
    · obtain rfl := Option.some.inj h
      exact .idle rfl rfl rfl rfl rfl (by rw [at_line]; rfl) same
    · obtain rfl := Option.some.inj h
      exact .idle rfl rfl rfl rfl rfl rfl same
  | running due =>
    cases due with
    | nil =>
      simp only [at_line] at h
      obtain rfl := Option.some.inj h
      exact .idle rfl rfl rfl rfl rfl (by rw [at_line]; rfl) same
    | cons e rest => simp [at_line] at h
  | _ => simp [at_line] at h

/-- The thread collects only after a timeout that met neither a stop nor another version. -/
theorem progress_of_wake [DecidableEq κ] {expired : Bool} {order : List (Entry κ)}
    (h : s.step (.wake expired order) = some s') : Progress s (.wake expired order) s' := by
  have same : s.now ≤ s.now := Int64.le_refl s.now
  simp only [step] at h
  cases at_line : s.worker with
  | waitingUntil soonest observedVersion =>
    have none : s.worker.pending = [] := by rw [at_line]; rfl
    simp only [at_line] at h
    split_ifs at h with stopped changed early due
    · obtain rfl := Option.some.inj h
      exact .idle rfl rfl rfl rfl rfl none.symm same
    · obtain rfl := Option.some.inj h
      exact .idle rfl rfl rfl rfl rfl none.symm same
    · obtain rfl := Option.some.inj h
      exact .idle rfl rfl rfl rfl rfl rfl same
    · obtain rfl := Option.some.inj h
      obtain rfl : expired = true := by simpa using early
      have elapsed : s.Elapsed := by
        rw [Elapsed, at_line]
        exact ⟨by simpa using stopped, _, rfl, by simpa using changed, due.1⟩
      exact .collected order due.2 none elapsed
  | _ => simp [at_line] at h

theorem progress_of_step [DecidableEq κ] (h : s.step a = some s') : Progress s a s' := by
  have same : s.now ≤ s.now := Int64.le_refl s.now
  cases a with
  | start =>
    simp only [step] at h
    split_ifs at h
    · obtain rfl := Option.some.inj h
      exact .idle rfl rfl rfl rfl rfl rfl same
    · cases at_line : s.worker with
      | off =>
        simp only [at_line] at h
        obtain rfl := Option.some.inj h
        exact .idle rfl rfl rfl rfl rfl (by rw [at_line]; rfl) same
      | _ => simp [at_line] at h
  | stop =>
    simp only [step] at h
    split_ifs at h
    all_goals
      obtain rfl := Option.some.inj h
      exact .idle rfl rfl rfl rfl rfl rfl same
  | add interval task =>
    obtain rfl := Option.some.inj h
    exact .added interval task
  | remove id =>
    obtain rfl := Option.some.inj h
    exact .removed id
  | tick now =>
    simp only [step] at h
    split_ifs at h with ahead
    obtain rfl := Option.some.inj h
    exact .idle rfl rfl rfl rfl rfl rfl ahead
  | loop => exact progress_of_loop h
  | wake expired order => exact progress_of_wake h
  | call =>
    simp only [step] at h
    split at h
    · rename_i e rest at_line
      obtain rfl := Option.some.inj h
      exact .called e rest at_line
    · contradiction
  | finish =>
    simp only [step] at h
    split at h
    · rename_i rest at_line
      obtain rfl := Option.some.inj h
      exact .idle rfl rfl rfl rfl rfl (by rw [at_line]; rfl) same
    · contradiction

/-- What a step that begins a callback appends to the record. -/
theorem Progress.executed_grow (h : Progress s a s') :
    ∃ new, s'.executed = s.executed ++ new ∧ ∀ e ∈ new, e ∈ s.worker.pending := by
  cases h with
  | idle _ _ _ _ executed => exact ⟨[], by rw [executed, List.append_nil], by simp⟩
  | removed id =>
    obtain ⟨-, -, -, -, -, executed⟩ := removeTask_keeps s id
    exact ⟨[], by rw [executed, List.append_nil], by simp⟩
  | added | collected => exact ⟨[], (List.append_nil _).symm, by simp⟩
  | called e rest worker =>
    refine ⟨[e], rfl, fun e' found => ?_⟩
    rw [List.mem_singleton.mp found, worker]
    exact List.mem_cons_self

/-! ### A removed task -/

/-- Ids are given out once. -/
def Fresh (s : Scheduler κ) : Prop := ∀ id ∈ s.tasks.map Entry.id, id < s.nextId

theorem fresh_step (inv : s.Fresh) (h : Progress s a s') : s'.Fresh := by
  intro id found
  cases h with
  | idle tasks nextId =>
    rw [tasks] at found
    rw [nextId]
    exact inv id found
  | added interval task =>
    change id ∈ (s.tasks ++ _).map Entry.id at found
    change id < s.nextId + 1
    rw [List.map_append, List.mem_append] at found
    rcases found with old | new
    · exact Nat.lt_succ_of_lt (inv id old)
    · obtain rfl : id = s.nextId := by simpa using new
      exact Nat.lt_succ_self s.nextId
  | removed other =>
    rw [removeTask_tasks] at found
    rw [(removeTask_keeps s other).1]
    obtain ⟨e, kept, rfl⟩ := List.mem_map.mp found
    exact inv e.id (List.mem_map_of_mem (List.mem_of_mem_filter kept))
  | collected order =>
    rw [collect_ids] at found
    exact inv id found
  | called => exact inv id found

/-- The id is given out, not in the table and not among the collected callbacks. -/
structure Gone (s : Scheduler κ) (id : Nat) : Prop where
  used : id < s.nextId
  absent : id ∉ s.tasks.map Entry.id
  spared : ∀ e ∈ s.worker.pending, e.id ≠ id

theorem Gone.step {id : Nat} (gone : s.Gone id) (h : Progress s a s') : s'.Gone id := by
  obtain ⟨used, absent, spared⟩ := gone
  cases h with
  | idle tasks nextId _ _ _ pending => exact ⟨nextId ▸ used, tasks ▸ absent, pending ▸ spared⟩
  | added interval task =>
    refine ⟨Nat.lt_succ_of_lt used, fun found => ?_, spared⟩
    change id ∈ (s.tasks ++ _).map Entry.id at found
    rw [List.map_append, List.mem_append] at found
    rcases found with old | new
    · exact absent old
    · obtain rfl : id = s.nextId := by simpa using new
      exact absurd used (Nat.lt_irrefl s.nextId)
  | removed other =>
    obtain ⟨nextId, worker, -⟩ := removeTask_keeps s other
    refine ⟨nextId ▸ used, fun found => ?_, worker ▸ spared⟩
    rw [removeTask_tasks] at found
    obtain ⟨e, kept, rfl⟩ := List.mem_map.mp found
    exact absent (List.mem_map_of_mem (List.mem_of_mem_filter kept))
  | collected order perm =>
    refine ⟨used, collect_ids s order ▸ absent, fun e found same => ?_⟩
    obtain ⟨entry, listed, rfl⟩ := List.mem_map.mp found
    have present := (mem_dueEntries.mp (perm.mem_iff.mp listed)).1
    exact absent (same ▸ List.mem_map_of_mem present)
  | called e rest worker =>
    refine ⟨used, absent, fun e' found => spared e' ?_⟩
    rw [worker]
    exact List.mem_cons_of_mem e found

section Runs

variable [DecidableEq κ]

theorem fresh_of_run {now : Int64} {schedule : List (Action κ)}
    (run : (machine now).run schedule = some s) : s.Fresh :=
  (machine now).invariant Fresh (by intro id found; contradiction)
    (fun _ _ _ inv step => fresh_step inv (progress_of_step step)) schedule s run

/-- No execution of the task begins in any continuation. -/
def NeverRuns (start : Int64) (s : Scheduler κ) (id : Nat) : Prop :=
  ∀ rest s', (machine start).runFrom s rest = some s' →
    ∀ e ∈ s'.executed.drop s.executed.length, e.id ≠ id

theorem Gone.neverRuns {start : Int64} {id : Nat} (gone : s.Gone id) : NeverRuns start s id := by
  intro rest s' run
  have inv : s'.Gone id ∧ ∃ new, s'.executed = s.executed ++ new ∧ ∀ e ∈ new, e.id ≠ id := by
    refine (machine start).invariant_of_steps (fun _ _ => True) (fun t => t.Gone id ∧
      ∃ new, t.executed = s.executed ++ new ∧ ∀ e ∈ new, e.id ≠ id) ?_ s rest s' ⟨gone, ?_⟩
      ((machine start).steps_of_forall _ (fun _ _ => trivial) _ _) run
    · intro t a t' inv _ next
      obtain ⟨gone, new, executed, others⟩ := inv
      have progress : Progress t a t' := progress_of_step next
      obtain ⟨more, grown, collected⟩ := progress.executed_grow
      refine ⟨gone.step progress, new ++ more, ?_, fun e found => ?_⟩
      · rw [grown, executed, List.append_assoc]
      · rcases List.mem_append.mp found with old | late
        · exact others e old
        · exact gone.spared e (collected e late)
    · exact ⟨[], (List.append_nil _).symm, by simp⟩
  obtain ⟨-, new, executed, others⟩ := inv
  intro e found
  rw [executed, List.drop_left] at found
  exact others e found

/-- The thread goes on to run what it has collected. -/
theorem runs_collected (start : Int64) {due : List (Execution κ)} {e : Execution κ}
    (collected : e ∈ due) {s : Scheduler κ} (worker : s.worker = .running due) :
    ∃ rest s', (machine start).runFrom s rest = some s' ∧
      e ∈ s'.executed.drop s.executed.length := by
  induction due generalizing s with
  | nil => contradiction
  | cons first due ih =>
    have begins : s.step .call =
        some { s with worker := .executing due, executed := s.executed ++ [first] } := by
      simp only [step, worker]
    rcases List.mem_cons.mp collected with rfl | later
    · refine ⟨[.call], { s with worker := .executing due, executed := s.executed ++ [e] }, ?_, ?_⟩
      · rw [Machine.runFrom_cons]
        change (s.step .call).bind _ = _
        rw [begins]
        rfl
      · simp
    · obtain ⟨rest, s', run, found⟩ := ih later
        (s := { s with worker := .running due, executed := s.executed ++ [first] }) rfl
      refine ⟨.call :: .finish :: rest, s', ?_, ?_⟩
      · rw [Machine.runFrom_cons]
        change (s.step .call).bind _ = _
        rw [begins]
        exact run
      · rw [List.length_append] at found
        exact List.drop_subset_drop_left _ (Nat.le_add_right _ _) found

theorem runs_pending (start : Int64) {e : Execution κ} (pending : e ∈ s.worker.pending) :
    ∃ rest s', (machine start).runFrom s rest = some s' ∧
      e ∈ s'.executed.drop s.executed.length := by
  cases worker : s.worker with
  | running due =>
    rw [worker] at pending
    exact runs_collected start pending worker
  | executing due =>
    rw [worker] at pending
    obtain ⟨rest, s', run, found⟩ := runs_collected start pending
      (s := { s with worker := .running due }) rfl
    refine ⟨.finish :: rest, s', ?_, found⟩
    have returns : s.step .finish = some { s with worker := .running due } := by
      simp only [step, worker]
    rw [Machine.runFrom_cons]
    change (s.step .finish).bind _ = _
    rw [returns]
    exact run
  | _ =>
    rw [worker] at pending
    exact absurd pending List.not_mem_nil

/-- In every run, a successful `removeTask` keeps the task from running again exactly when the
round in progress has not collected it, or has begun it. -/
theorem removed_quiesces_iff {start : Int64} {schedule : List (Action κ)} {id : Nat}
    (run : (machine start).run schedule = some s) (removed : (s.removeTask id).2 = true) :
    NeverRuns start (s.removeTask id).1 id ↔ ∀ e ∈ s.worker.pending, e.id ≠ id := by
  obtain ⟨nextId, worker, -⟩ := removeTask_keeps s id
  constructor
  · intro never e pending same
    obtain ⟨rest, s', later, found⟩ := runs_pending start (worker ▸ pending)
    exact never rest s' later e found same
  · intro spared
    have present : id ∈ s.tasks.map Entry.id := by
      by_contra absent
      simp [removeTask, absent] at removed
    refine Gone.neverRuns ⟨?_, ?_, worker ▸ spared⟩
    · rw [nextId]
      exact fresh_of_run run id present
    · rw [removeTask_tasks]
      simp

end Runs

/-- Two tasks that are due in one round, up to the moment when the first one begins. -/
def together : List (Action Bool) :=
  [.start, .add 1 false, .add 1 true, .loop, .tick 1000000,
    .wake true [⟨1, 1, 1000000, false⟩, ⟨2, 1, 1000000, true⟩], .call]

/-- The first task may remove itself. -/
theorem removed_quiesces_itself : ∃ s, (machine 0).run together = some s ∧
    (s.removeTask 1).2 = true ∧ NeverRuns 0 (s.removeTask 1).1 1 := by
  have ends : ((machine 0).run together).map (fun s =>
      ((s.removeTask 1).2, s.worker.pending.map Execution.id)) = some (true, [2]) := by
    decide +kernel
  obtain ⟨s, run, last⟩ := Option.map_eq_some_iff.mp ends
  injection last with removed pending
  refine ⟨s, run, removed, (removed_quiesces_iff run removed).mpr fun e found same => ?_⟩
  have listed : e.id ∈ s.worker.pending.map Execution.id := List.mem_map_of_mem found
  rw [pending, same] at listed
  exact absurd listed (by decide)

/-- The first task removes the second, which then runs. -/
theorem not_removed_quiesces : ∃ s, (machine 0).run together = some s ∧
    (s.removeTask 2).2 = true ∧ ¬NeverRuns 0 (s.removeTask 2).1 2 := by
  have ends : ((machine 0).run together).map (fun s => ((s.removeTask 2).2,
      ((machine 0).runFrom (s.removeTask 2).1 [.finish, .call]).map fun s' =>
        s'.executed.drop s.executed.length)) =
      some (true, some [⟨2, true, 1000000⟩]) := by
    decide +kernel
  obtain ⟨s, run, last⟩ := Option.map_eq_some_iff.mp ends
  injection last with removed later
  obtain ⟨s', rest, begun⟩ := Option.map_eq_some_iff.mp later
  refine ⟨s, run, removed, fun never => ?_⟩
  obtain ⟨-, -, -, -, -, executed⟩ := removeTask_keeps s 2
  refine never _ s' rest ⟨2, true, 1000000⟩ ?_ rfl
  rw [executed, begun]
  exact List.mem_singleton_self _

end Scheduler

end IndustrialRuntime.Core
