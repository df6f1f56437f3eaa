import IndustrialRuntime.Core.Scheduler
import IndustrialRuntime.Lib.Spaced
import Mathlib.Algebra.Order.Ring.Int

namespace IndustrialRuntime.Core.Scheduler

variable {κ : Type*}

/-- An interval on the scale of the clock. -/
def nanoseconds (interval : Int64) : Int := interval.toInt * 1000000

/-- `now + interval` is a value of the clock's type. -/
def Fits (now interval : Int64) : Prop := now.toInt + nanoseconds interval < 2 ^ 63

theorem toInt_later {now interval : Int64} (nonneg : 0 ≤ interval.toInt)
    (fits : Fits now interval) : (later now interval).toInt = now.toInt + nanoseconds interval := by
  have low := now.le_toInt
  unfold Fits nanoseconds at fits
  have scale : (1000000 : Int64).toInt = 1000000 := by decide
  rw [later, Int64.toInt_add, Int64.toInt_mul, scale, Int.add_bmod_bmod, nanoseconds]
  apply Int.bmod_eq_of_le <;> omega

/-- What the rounds have collected so far, in order. -/
def collected (s : Scheduler κ) : List (Execution κ) := s.rounds.flatMap Round.due

/-- The observed times of one task. -/
def timesOf (xs : List (Execution κ)) (id : Nat) : List Int :=
  (xs.filter fun x => x.id = id).map fun x => x.observed.toInt

theorem timesOf_append (xs ys : List (Execution κ)) (id : Nat) :
    timesOf (xs ++ ys) id = timesOf xs id ++ timesOf ys id := by
  rw [timesOf, List.filter_append, List.map_append]
  rfl

theorem timesOf_eq_nil {xs : List (Execution κ)} {id : Nat} (h : ∀ x ∈ xs, x.id ≠ id) :
    timesOf xs id = [] := by
  rw [timesOf, List.map_eq_nil_iff, List.filter_eq_nil_iff]
  intro x found
  simpa using h x found

/-- A round collects a task once or not at all. -/
theorem timesOf_round {order : List (Entry κ)} (distinct : (order.map Entry.id).Nodup)
    (now : Int64) (id : Nat) :
    timesOf (order.map fun e => ⟨e.id, e.task, now⟩) id =
      if id ∈ order.map Entry.id then [now.toInt] else [] := by
  induction order with
  | nil => rfl
  | cons e order ih =>
    rw [List.map_cons, List.nodup_cons] at distinct
    obtain ⟨new, distinct⟩ := distinct
    rw [List.map_cons, ← List.singleton_append, timesOf_append, ih distinct, List.map_cons]
    by_cases same : e.id = id
    · subst same
      simp [timesOf, new]
    · simp [timesOf, same, Ne.symm same]

/-- What holds of the table and of the rounds along the runs whose deadlines fit. -/
structure Pacing (s : Scheduler κ) : Prop where
  distinct : (s.tasks.map Entry.id).Nodup
  named : (s.registered.map Registration.id).Nodup
  known : ∀ r ∈ s.registered, r.id < s.nextId
  own : ∀ x ∈ s.collected, ∃ r ∈ s.registered, r.id = x.id ∧ r.task = x.task
  spaced : ∀ r ∈ s.registered, 0 ≤ r.interval.toInt ∧
    Spaced (nanoseconds r.interval) r.now.toInt (timesOf s.collected r.id)
  deadline : ∀ e ∈ s.tasks, ∃ r ∈ s.registered, r.id = e.id ∧ r.task = e.task ∧
    r.interval = e.interval ∧ e.nextRun.toInt =
      (timesOf s.collected r.id).getLast?.getD r.now.toInt + nanoseconds e.interval

/-- The callbacks begin in the order in which they were collected, and a round collects the
due entries of its table once each. -/
structure Recorded (s : Scheduler κ) : Prop where
  begun : s.executed ++ s.worker.pending = s.collected
  rounds : ∀ r ∈ s.rounds, (r.due.map Execution.id).Nodup ∧
    ∀ x, x ∈ r.due ↔ ∃ e ∈ r.table, e.nextRun ≤ r.now ∧ x = ⟨e.id, e.task, r.now⟩

/-- The condition on a step: no interval is negative, and no deadline that it sets leaves the
clock's type. -/
def InRange (s : Scheduler κ) : Action κ → Prop
  | .add interval _ => 0 ≤ interval ∧ Fits s.now interval
  | .wake true _ => s.Elapsed → ∀ e ∈ s.dueEntries, Fits s.now e.interval
  | _ => True

section Step

variable {s s' : Scheduler κ} {a : Action κ}

theorem Pacing.keep (inv : s.Pacing) (tasks : s'.tasks = s.tasks) (nextId : s'.nextId = s.nextId)
    (registered : s'.registered = s.registered) (rounds : s'.rounds = s.rounds) : s'.Pacing := by
  have same : s'.collected = s.collected := by rw [collected, rounds, collected]
  refine ⟨?_, ?_, ?_, ?_, ?_, ?_⟩
  · rw [tasks]
    exact inv.distinct
  · rw [registered]
    exact inv.named
  · rw [registered, nextId]
    exact inv.known
  · rw [same, registered]
    exact inv.own
  · rw [same, registered]
    exact inv.spaced
  · rw [tasks, same, registered]
    exact inv.deadline

theorem Pacing.registered_unique (inv : s.Pacing) {r r' : Registration κ}
    (left : r ∈ s.registered) (right : r' ∈ s.registered) (same : r.id = r'.id) : r = r' :=
  List.inj_on_of_nodup_map inv.named left right same

theorem Pacing.add (inv : s.Pacing) {interval : Int64} {task : κ} (nonneg : 0 ≤ interval)
    (fits : Fits s.now interval) (fresh : s.Fresh) : (s.addPeriodicTask interval task).Pacing := by
  have positive : 0 ≤ interval.toInt := Int64.le_iff_toInt_le.mp nonneg
  have unseen : timesOf s.collected s.nextId = [] := by
    refine timesOf_eq_nil fun x found same => ?_
    obtain ⟨r, registered, id, -⟩ := inv.own x found
    have := inv.known r registered
    omega
  have new : (⟨s.nextId, interval, task, s.now⟩ : Registration κ) ∈
      (s.addPeriodicTask interval task).registered := List.mem_concat_self
  have old {r : Registration κ} (found : r ∈ s.registered) :
      r ∈ (s.addPeriodicTask interval task).registered := List.mem_append_left _ found
  refine ⟨?_, ?_, fun r found => ?_, fun x found => ?_, fun r found => ?_, fun e found => ?_⟩
  · change ((s.tasks ++ _).map Entry.id).Nodup
    rw [List.map_append, List.map_singleton, ← List.concat_eq_append, List.nodup_concat]
    exact ⟨fun taken => Nat.lt_irrefl _ (fresh s.nextId taken), inv.distinct⟩
  · change ((s.registered ++ _).map Registration.id).Nodup
    rw [List.map_append, List.map_singleton, ← List.concat_eq_append, List.nodup_concat]
    refine ⟨fun taken => ?_, inv.named⟩
    obtain ⟨r, registered, same⟩ := List.mem_map.mp taken
    change r.id = s.nextId at same
    have := inv.known r registered
    omega
  · change r.id < s.nextId + 1
    rcases List.mem_append.mp found with before | last
    · exact Nat.lt_succ_of_lt (inv.known r before)
    · rw [List.mem_singleton.mp last]
      exact Nat.lt_succ_self s.nextId
  · obtain ⟨r, registered, same⟩ := inv.own x found
    exact ⟨r, old registered, same⟩
  · change 0 ≤ r.interval.toInt ∧ Spaced _ _ (timesOf s.collected r.id)
    rcases List.mem_append.mp found with before | last
    · exact inv.spaced r before
    · rw [List.mem_singleton.mp last, unseen]
      exact ⟨positive, .nil _ _⟩
  · rcases List.mem_append.mp found with before | last
    · obtain ⟨r, registered, rest⟩ := inv.deadline e before
      exact ⟨r, old registered, rest⟩
    · rw [List.mem_singleton.mp last]
      refine ⟨_, new, rfl, rfl, rfl, ?_⟩
      change _ = (timesOf s.collected s.nextId).getLast?.getD _ + _
      rw [unseen]
      exact toInt_later positive fits

theorem Pacing.remove (inv : s.Pacing) (id : Nat) : (s.removeTask id).1.Pacing := by
  obtain ⟨nextId, -, -, registered, rounds, -⟩ := removeTask_keeps s id
  have same : (s.removeTask id).1.collected = s.collected := by rw [collected, rounds, collected]
  have fewer : (s.removeTask id).1.tasks.Sublist s.tasks := by
    rw [removeTask_tasks]
    exact List.filter_sublist
  refine ⟨inv.distinct.sublist (fewer.map _), ?_, ?_, ?_, ?_, fun e found => ?_⟩
  · rw [registered]
    exact inv.named
  · rw [registered, nextId]
    exact inv.known
  · rw [same, registered]
    exact inv.own
  · rw [same, registered]
    exact inv.spaced
  · rw [same, registered]
    exact inv.deadline e (fewer.subset found)

theorem order_distinct (inv : s.Pacing) {order : List (Entry κ)}
    (perm : order.Perm s.dueEntries) : (order.map Entry.id).Nodup := by
  rw [(perm.map Entry.id).nodup_iff]
  exact inv.distinct.sublist (List.filter_sublist.map _)

theorem collected_collect (s : Scheduler κ) (order : List (Entry κ)) :
    (s.collect order).collected =
      s.collected ++ order.map fun e => ⟨e.id, e.task, s.now⟩ := by
  change (s.rounds ++ [_]).flatMap Round.due = _
  rw [List.flatMap_append, List.flatMap_singleton]
  rfl

theorem timesOf_collect (inv : s.Pacing) {order : List (Entry κ)}
    (perm : order.Perm s.dueEntries) (id : Nat) :
    timesOf (s.collect order).collected id =
      timesOf s.collected id ++ if id ∈ order.map Entry.id then [s.now.toInt] else [] := by
  rw [collected_collect, timesOf_append, timesOf_round (order_distinct inv perm)]

/-- An entry of the table is collected just if it is due. -/
theorem mem_order_iff (inv : s.Pacing) {order : List (Entry κ)}
    (perm : order.Perm s.dueEntries) {e : Entry κ} (present : e ∈ s.tasks) :
    e.id ∈ order.map Entry.id ↔ e.nextRun ≤ s.now := by
  constructor
  · intro listed
    obtain ⟨e', found, same⟩ := List.mem_map.mp listed
    obtain ⟨present', due⟩ := mem_dueEntries.mp (perm.mem_iff.mp found)
    rw [← List.inj_on_of_nodup_map inv.distinct present' present same]
    exact due
  · intro due
    exact List.mem_map_of_mem (perm.mem_iff.mpr (mem_dueEntries.mpr ⟨present, due⟩))

theorem Pacing.collect (inv : s.Pacing) {order : List (Entry κ)}
    (perm : order.Perm s.dueEntries) (fits : ∀ e ∈ s.dueEntries, Fits s.now e.interval) :
    (s.collect order).Pacing := by
  refine ⟨?_, inv.named, inv.known, fun x found => ?_, fun r found => ?_, fun e found => ?_⟩
  · rw [collect_ids]
    exact inv.distinct
  · rw [collected_collect] at found
    rcases List.mem_append.mp found with before | now
    · exact inv.own x before
    · obtain ⟨e, listed, rfl⟩ := List.mem_map.mp now
      obtain ⟨r, registered, id, task, -⟩ :=
        inv.deadline e (mem_dueEntries.mp (perm.mem_iff.mp listed)).1
      exact ⟨r, registered, id, task⟩
  · obtain ⟨nonneg, spaced⟩ := inv.spaced r found
    refine ⟨nonneg, ?_⟩
    rw [timesOf_collect inv perm]
    split_ifs with listed
    · obtain ⟨e, ordered, same⟩ := List.mem_map.mp listed
      obtain ⟨present, due⟩ := mem_dueEntries.mp (perm.mem_iff.mp ordered)
      obtain ⟨r', registered, id, -, interval, deadline⟩ := inv.deadline e present
      obtain rfl : r' = r := inv.registered_unique registered found (id.trans same)
      refine spaced.snoc ?_
      rw [interval, ← deadline]
      exact Int64.le_iff_toInt_le.mp due
    · rw [List.append_nil]
      exact spaced
  · obtain ⟨e, present, rfl⟩ := List.mem_map.mp found
    obtain ⟨r, registered, id, task, interval, deadline⟩ := inv.deadline e present
    have listed := mem_order_iff inv perm present
    split_ifs with due
    · refine ⟨r, registered, id, task, interval, ?_⟩
      rw [timesOf_collect inv perm, id, if_pos (listed.mpr due), List.getLast?_concat,
        Option.getD_some]
      refine toInt_later ?_ (fits e (mem_dueEntries.mpr ⟨present, due⟩))
      rw [← interval]
      exact (inv.spaced r registered).1
    · refine ⟨r, registered, id, task, interval, ?_⟩
      rw [timesOf_collect inv perm, id, if_neg fun taken => due (listed.mp taken),
        List.append_nil, ← id]
      exact deadline

theorem Pacing.step (inv : s.Pacing) (fresh : s.Fresh) (progress : Progress s a s')
    (range : s.InRange a) : s'.Pacing := by
  cases progress with
  | idle tasks nextId registered rounds => exact inv.keep tasks nextId registered rounds
  | added interval task => exact inv.add range.1 range.2 fresh
  | removed id => exact inv.remove id
  | collected order perm _ elapsed => exact inv.collect perm (range elapsed)
  | called => exact inv.keep rfl rfl rfl rfl

theorem Recorded.step (recorded : s.Recorded) (inv : s.Pacing) (progress : Progress s a s') :
    s'.Recorded := by
  obtain ⟨begun, rounds⟩ := recorded
  cases progress with
  | idle tasks nextId registered same executed pending =>
    refine ⟨?_, ?_⟩
    · rw [executed, pending, begun, collected, collected, same]
    · rw [same]
      exact rounds
  | added => exact ⟨begun, rounds⟩
  | removed id =>
    obtain ⟨-, worker, -, -, same, executed⟩ := removeTask_keeps s id
    refine ⟨?_, ?_⟩
    · rw [executed, worker, begun, collected, collected, same]
    · rw [same]
      exact rounds
  | collected order perm idle =>
    refine ⟨?_, fun r found => ?_⟩
    · rw [collected_collect, ← begun, idle, List.append_nil]
      rfl
    · rcases List.mem_append.mp found with before | last
      · exact rounds r before
      · rw [List.mem_singleton.mp last]
        refine ⟨?_, fun x => ?_⟩
        · rw [List.map_map]
          exact order_distinct inv perm
        · rw [List.mem_map]
          constructor
          · intro listed
            obtain ⟨e, ordered, rfl⟩ := listed
            obtain ⟨present, due⟩ := mem_dueEntries.mp (perm.mem_iff.mp ordered)
            exact ⟨e, present, due, rfl⟩
          · intro due
            obtain ⟨e, present, due, rfl⟩ := due
            exact ⟨e, perm.mem_iff.mpr (mem_dueEntries.mpr ⟨present, due⟩), rfl⟩
  | called e rest worker =>
    refine ⟨?_, rounds⟩
    change (s.executed ++ [e]) ++ rest = s.collected
    rw [← begun, worker, List.append_assoc]
    rfl

end Step

/-- The executions of one task that have begun, in order. -/
def executions (s : Scheduler κ) (id : Nat) : List (Execution κ) :=
  s.executed.filter fun x => x.id = id

/-- The pace of the tasks: execution number `k`, counted from 1, belongs to a round at least `k`
intervals after the registration, two in a row are an interval apart, and the callbacks that
begin are those of the rounds, each of which collects its due entries once. -/
structure Paced (s : Scheduler κ) : Prop where
  rate : ∀ r ∈ s.registered, ∀ (k : Nat) x, (s.executions r.id)[k]? = some x →
    r.now.toInt + (k + 1) * nanoseconds r.interval ≤ x.observed.toInt
  apart : ∀ r ∈ s.registered, ∀ (k : Nat) x y, (s.executions r.id)[k]? = some x →
    (s.executions r.id)[k + 1]? = some y →
      x.observed.toInt + nanoseconds r.interval ≤ y.observed.toInt
  own : ∀ x ∈ s.executed, ∃ r ∈ s.registered, r.id = x.id ∧ r.task = x.task
  recorded : s.Recorded

theorem timesOf_executions {s : Scheduler κ} (recorded : s.Recorded) {id k : Nat} {x : Execution κ}
    (found : (s.executions id)[k]? = some x) :
    (timesOf s.collected id)[k]? = some x.observed.toInt := by
  obtain ⟨inside, same⟩ := List.getElem?_eq_some_iff.mp found
  have observed : (timesOf s.executed id)[k]? = some x.observed.toInt := by
    change ((s.executions id).map _)[k]? = _
    rw [List.getElem?_map, found]
    rfl
  rw [← recorded.begun, timesOf_append, List.getElem?_append_left]
  · exact observed
  · exact (List.getElem?_eq_some_iff.mp observed).1

theorem Pacing.paced {s : Scheduler κ} (inv : s.Pacing) (recorded : s.Recorded) : s.Paced where
  rate r registered k x found := by
    have spaced := (inv.spaced r registered).2.rate (timesOf_executions recorded found)
    rw [nsmul_eq_mul] at spaced
    push_cast at spaced
    exact spaced
  apart r registered k x y first second :=
    (inv.spaced r registered).2.apart (timesOf_executions recorded first)
      (timesOf_executions recorded second)
  own x found := inv.own x (recorded.begun ▸ List.mem_append_left _ found)
  recorded := recorded

section Runs

variable [DecidableEq κ] {start : Int64} {schedule : List (Action κ)} {s : Scheduler κ}

/-- In every run whose intervals are not negative and whose deadlines stay in the clock's range,
no task runs early or too often. -/
theorem paced_of_inRange
    (range : (machine start).Steps InRange (initial start : Scheduler κ) schedule)
    (run : (machine start).run schedule = some s) : s.Paced := by
  have inv : s.Pacing ∧ s.Recorded ∧ s.Fresh := by
    refine (machine start).invariant_of_steps InRange (fun t => t.Pacing ∧ t.Recorded ∧ t.Fresh)
      ?_ (initial start) schedule s ⟨?_, ?_, ?_⟩ range run
    · intro t a t' inv range next
      obtain ⟨pacing, recorded, fresh⟩ := inv
      have progress : Progress t a t' := progress_of_step next
      exact ⟨pacing.step fresh progress range, recorded.step pacing progress,
        fresh_step fresh progress⟩
    · exact ⟨List.nodup_nil, List.nodup_nil, by simp [initial], by simp [collected, initial],
        by simp [initial], by simp [initial]⟩
    · exact ⟨rfl, by simp [initial]⟩
    · intro id found
      contradiction
  exact inv.1.paced inv.2.1

end Runs

/-- A task of one millisecond that has run twice. -/
def twice : List (Action Unit) :=
  [.start, .add 1 (), .loop, .tick 1000000, .wake true [⟨1, 1, 1000000, ()⟩], .call, .finish,
    .loop, .loop, .tick 2500000, .wake true [⟨1, 1, 2000000, ()⟩], .call]

instance (s : Scheduler Unit) : DecidablePred s.InRange := fun a =>
  match a with
  | .add _ _ => inferInstanceAs (Decidable (_ ∧ _ < _))
  | .wake true _ => inferInstanceAs (Decidable (s.Elapsed → ∀ e ∈ s.dueEntries, _ < _))
  | .wake false _ => isTrue trivial
  | .start | .stop | .remove _ | .tick _ | .loop | .call | .finish => isTrue trivial

theorem paced_of_inRange_twice : ∃ s, (machine 0).run twice = some s ∧ s.Paced ∧
    s.executed = [⟨1, (), 1000000⟩, ⟨1, (), 2500000⟩] := by
  have ends : ((machine 0).run twice).map Scheduler.executed =
      some [⟨1, (), 1000000⟩, ⟨1, (), 2500000⟩] := by
    decide +kernel
  obtain ⟨s, run, executed⟩ := Option.map_eq_some_iff.mp ends
  exact ⟨s, run, paced_of_inRange (by decide +kernel) run, executed⟩

/-- A task with the longest interval, which becomes due at once. -/
def longest : List (Action Unit) :=
  [.start, .add Int64.maxValue (), .loop, .wake true [⟨1, Int64.maxValue, -1000000, ()⟩], .call]

/-- The deadline of the longest interval leaves the clock's range, and the task runs early. -/
theorem not_paced : ∃ s, (machine 0).run longest = some s ∧
    s.executed = [⟨1, (), 0⟩] ∧ ¬s.Paced := by
  have ends : ((machine 0).run longest).map (fun s => (s.executed,
      s.registered.map fun r => (r.id, r.interval, r.now))) =
      some ([⟨1, (), 0⟩], [(1, Int64.maxValue, 0)]) := by
    decide +kernel
  obtain ⟨s, run, last⟩ := Option.map_eq_some_iff.mp ends
  injection last with executed registered
  refine ⟨s, run, executed, fun paced => ?_⟩
  have listed : (1, Int64.maxValue, (0 : Int64)) ∈
      s.registered.map fun r => (r.id, r.interval, r.now) := by
    rw [registered]
    exact List.mem_singleton_self _
  obtain ⟨r, found, same⟩ := List.mem_map.mp listed
  injection same with id same
  injection same with interval now
  have first : (s.executions r.id)[0]? = some ⟨1, (), 0⟩ := by
    rw [executions, executed, id]
    rfl
  have late := paced.rate r found 0 _ first
  rw [interval, now] at late
  exact absurd late (by decide)

end IndustrialRuntime.Core.Scheduler
