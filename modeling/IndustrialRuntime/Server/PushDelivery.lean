import IndustrialRuntime.Server.PushConvergence

namespace IndustrialRuntime.Irsp.Runtime

open IndustrialRuntime.Core

section Runs

variable {τ : Type*} {hash : Bytes → UInt64} [DecidableEq τ]

/-- The connection has been subscribed since before some write that changed the topic. -/
def SubscribedSince (setup : Setup τ) (schedule : List (Action τ)) (s : Runtime τ hash) (id : Nat)
    (n : Bytes) : Prop :=
  ∃ before after v, schedule = before ++ after ∧ (machine hash setup).run before = some v ∧
    (machine hash setup).Steps (fun u _ => u.server.Subscribed id n) v after ∧
    ∃ k tag, v.writes.length ≤ k ∧ s.writes[k]? = some ⟨tag, true⟩ ∧ tag.name = n

/-- Each changing write to the topic is routed once, unless its thread is still on the way, and
then has given each subscriber of that moment one frame. -/
structure Complete (s : Runtime τ hash) (n : Bytes) : Prop where
  once : (s.routes.map Routed.ticket).Nodup
  routed : ∀ k tag, s.writes[k]? = some ⟨tag, true⟩ → tag.name = n →
    k ∈ s.routes.map Routed.ticket ∨ ∃ t e, s.errand t = some e ∧ e.ticket = k ∧ e.name = n
  delivered : Delivered s n
  source : ∀ p ∈ s.pushes, p.record.name = n → p.ticket ∈ s.routes.map Routed.ticket ∧
    ∃ tag, s.writes[p.ticket]? = some ⟨tag, true⟩ ∧ tag.name = n

/-- What holds along the runs that do not remove the topic. -/
structure Running (s : Runtime τ hash) (n : Bytes) : Prop where
  locked : Locked s
  routing : Routing s
  kept : Kept s n
  delivered : Delivered s n

theorem running_initial (setup : Setup τ) (n : Bytes) :
    Running (initial setup : Runtime τ hash) n where
  locked := locked_initial setup
  routing := routing_initial setup
  kept _ found := absurd found List.not_mem_nil
  delivered _ found := absurd found List.not_mem_nil

theorem Running.step {setup : Setup τ} {s s' : Runtime τ hash} {a : Action τ} {n : Bytes}
    (inv : Running s n) (stays : a ≠ .remove n) (h : s.step setup a = some s') : Running s' n := by
  have moved : Moved setup s a s' := moved_of_step h
  have progress : Progress s a s' := progress_of_moved inv.locked moved
  exact ⟨inv.locked.step moved, inv.routing.step progress, inv.kept.step progress stays,
    inv.delivered.step inv.routing inv.kept progress⟩

theorem running_of_run {setup : Setup τ} {schedule : List (Action τ)} {s : Runtime τ hash}
    {n : Bytes}
    (stays : (machine hash setup).Steps (fun _ a => a ≠ .remove n) (initial setup) schedule)
    (run : (machine hash setup).run schedule = some s) : Running s n :=
  (machine hash setup).invariant_of_steps (fun _ a => a ≠ .remove n) (fun s => Running s n)
    (fun _ _ _ inv ok step => inv.step ok step) (initial setup) schedule s
    (running_initial setup n) stays run

theorem Running.complete {s : Runtime τ hash} {n : Bytes} (inv : Running s n) : Complete s n where
  once := inv.routing.tickets.once
  routed k tag written name := by
    rcases inv.routing.tickets.complete k ⟨tag, written⟩ with routed | ⟨t, carried⟩
    · exact .inl routed
    · obtain ⟨e, errand, rfl⟩ := Option.map_eq_some_iff.mp carried
      obtain ⟨tag', written', name'⟩ := (inv.routing.sound t e errand).written
      rw [written'] at written
      injection written with written
      injection written with written
      exact .inr ⟨t, e, errand, rfl, by rw [← name', written, name]⟩
  delivered := inv.delivered
  source p found name := by
    obtain ⟨routed, tag, written, same⟩ := inv.routing.source p found
    exact ⟨routed, tag, written, same.trans name⟩

theorem converging_of_run {setup : Setup τ} {after : List (Action τ)} {v s : Runtime τ hash}
    {n : Bytes} {id : Nat} (start : Running v n)
    (steps : (machine hash setup).Steps
      (fun u a => a ≠ .remove n ∧ u.server.Subscribed id n) v after)
    (run : (machine hash setup).runFrom v after = some s) {k : Nat} {tag : TagValue}
    (later : v.writes.length ≤ k) (written : s.writes[k]? = some ⟨tag, true⟩)
    (name : tag.name = n) : Converging s id n := by
  have inv : Running s n ∧ ∀ k tag, v.writes.length ≤ k → s.writes[k]? = some ⟨tag, true⟩ →
      tag.name = n → Converging s id n := by
    refine (machine hash setup).invariant_of_steps _ (fun u => Running u n ∧
      ∀ k tag, v.writes.length ≤ k → u.writes[k]? = some ⟨tag, true⟩ → tag.name = n →
        Converging u id n) ?_ v after s ⟨start, ?_⟩ steps run
    · intro u a u' inv ok step
      obtain ⟨running, converging⟩ := inv
      obtain ⟨stays, subscribed⟩ := ok
      have progress := progress_of_moved running.locked (moved_of_step step)
      refine ⟨running.step stays step, fun k tag later written name => ?_⟩
      rcases started progress written with old | ⟨t, starts⟩
      · exact .step running.locked running.routing running.kept subscribed progress stays
          (converging k tag later old name)
      · rw [name] at starts
        exact .coming t k none starts nofun
    · intro k tag later written
      have inside := (List.getElem?_eq_some_iff.mp written).1
      omega
  exact inv.2 k tag later written name

/-- In every interleaving that does not remove the topic, each changing write sends one frame
to each subscriber and none to the others, and once the writers have finished the last frame of
a connection shows the stored value. -/
theorem complete_and_settled {setup : Setup τ} {schedule : List (Action τ)} {s : Runtime τ hash}
    {n : Bytes}
    (stays : (machine hash setup).Steps (fun _ a => a ≠ .remove n) (initial setup) schedule)
    (run : (machine hash setup).run schedule = some s) :
    Complete s n ∧ (∀ a s', s.step setup a = some s' → Enqueues s s') ∧
      (Finished s n → ∀ id, SubscribedSince setup schedule s id n → Settled Same s id n) := by
  have inv : Running s n := running_of_run stays run
  refine ⟨inv.complete, fun a s' step => ?_, fun finished id since => ?_⟩
  · exact inv.routing.enqueues (progress_of_moved inv.locked (moved_of_step step))
  · obtain ⟨before, after, v, rfl, first, subscribed, k, tag, later, written, name⟩ := since
    obtain ⟨early, late⟩ := stays.of_append first
    have rest : (machine hash setup).runFrom v after = some s := by
      rw [Machine.run, Machine.runFrom_append] at run
      rw [Machine.run] at first
      rw [first] at run
      exact run
    exact (converging_of_run (running_of_run early first) (late.and subscribed) rest later written
      name).settled finished

end Runs

/-! ### Two writers and one writer -/

/-- Two acquisition threads, and no plugin that takes writes. -/
def quietSetup : Setup Bool := ⟨Irsp1Codec.x64Limits, .initial, fun _ => 1⟩

def quietMachine : Machine (Runtime Bool fun _ => 0) (Action Bool) := machine _ quietSetup

def serve (cb : Callback) : List (Action Bool) :=
  [.callback cb, .advance none 0, .advance none 0, .advance none 0]

/-- A connection subscribes with two patterns that overlap. -/
def subscribing : List (Action Bool) :=
  serve .established ++ serve (.receive 1 (ascii "HELLO 1") true) ++
    serve (.receive 1 (ascii "SUBSCRIBE a/# a/+") true)

/-- A call of `push_tag` up to its store, and the rest of it. -/
def storing (t : Bool) (v : Variant) : List (Action Bool) :=
  .plugin (some t) (.push (.of (ascii "a/x") v 0)) :: List.replicate 2 (.advance (some t) 0)

def routing (t : Bool) : List (Action Bool) := List.replicate 8 (.advance (some t) 0)

/-- The session of the connection holds the first pattern. -/
def Watched (s : Runtime Bool fun _ => 0) : Prop :=
  (s.server.conns 1).isSome ∧
    1 ∈ s.server.dispatcher.tagSubs.root.subscribersAt (splitTopic (ascii "a/#"))

instance : DecidablePred Watched := fun _ => inferInstanceAs (Decidable (_ ∧ _))

theorem Watched.subscribed {s : Runtime Bool fun _ => 0} (h : Watched s) :
    s.server.Subscribed 1 (ascii "a/x") :=
  ⟨h.1, ascii "a/#", ⟨by decide, h.2⟩, by decide⟩

theorem since_subscribing {rest : List (Action Bool)} {s : Runtime Bool fun _ => 0} {k : Nat}
    {tag : TagValue}
    (watched : (quietMachine.run subscribing).map (fun v =>
      (v.writes, decide (quietMachine.Steps (fun u _ => Watched u) v rest))) = some ([], true))
    (written : s.writes[k]? = some ⟨tag, true⟩) (name : tag.name = ascii "a/x") :
    SubscribedSince quietSetup (subscribing ++ rest) s 1 (ascii "a/x") := by
  obtain ⟨v, run, found⟩ := Option.map_eq_some_iff.mp watched
  injection found with writes steps
  refine ⟨subscribing, rest, v, rfl, run, ?_, k, tag, ?_, written, name⟩
  · exact (of_decide_eq_true steps).mono fun u _ => Watched.subscribed
  · rw [writes]
    exact Nat.zero_le k

/-- No thread is on its way. -/
def Quiet (s : Runtime Bool fun _ => 0) : Prop :=
  s.errand none = none ∧ s.errand (some false) = none ∧ s.errand (some true) = none

instance : DecidablePred Quiet := fun _ => inferInstanceAs (Decidable (_ ∧ _ ∧ _))

theorem Quiet.finished {s : Runtime Bool fun _ => 0} (h : Quiet s) (n : Bytes) : Finished s n := by
  intro t e found
  cases t with
  | none => simp [h.1] at found
  | some t => cases t <;> simp [h.2] at found

def overtaking : TagRecord := CoreTagSource.toRecord (.of (ascii "a/x") (.int32 2) 0)

/-- The writer that stores first routes last, and its frame carries the value of the other. -/
theorem complete_and_settled_overtaken : ∃ s,
    quietMachine.run (subscribing ++ (storing false (.int32 1) ++ storing true (.int32 2) ++
      routing true ++ routing false)) = some s ∧
    Complete s (ascii "a/x") ∧ Settled Same s 1 (ascii "a/x") ∧
    s.pushes = [⟨1, 1, overtaking⟩, ⟨0, 1, overtaking⟩] := by
  have ends : (quietMachine.run (subscribing ++ (storing false (.int32 1) ++
      storing true (.int32 2) ++ routing true ++ routing false))).map (fun s =>
        (s.writes[0]?, decide (Quiet s), s.pushes)) =
      some (some ⟨.of (ascii "a/x") (.int32 1) 0, true⟩, true,
        [⟨1, 1, overtaking⟩, ⟨0, 1, overtaking⟩]) := by
    decide +kernel
  obtain ⟨s, run, last⟩ := Option.map_eq_some_iff.mp ends
  injection last with written last
  injection last with quiet pushes
  obtain ⟨complete, -, settled⟩ := complete_and_settled (n := ascii "a/x") (by decide +kernel) run
  exact ⟨s, run, complete, settled ((of_decide_eq_true quiet).finished _) 1
    (since_subscribing (by decide +kernel) written rfl), pushes⟩

/-- A NaN is stored and shown, and `==` does not hold between the two. -/
theorem not_settled_nan : ¬∀ s, quietMachine.run (subscribing ++
      (storing false (.double 0x7ff8000000000000) ++ routing false)) = some s →
    Finished s (ascii "a/x") →
    SubscribedSince quietSetup (subscribing ++ (storing false (.double 0x7ff8000000000000) ++
      routing false)) s 1 (ascii "a/x") →
    Settled (fun v w => valuesEqual v w) s 1 (ascii "a/x") := by
  intro always
  have ends : (quietMachine.run (subscribing ++ (storing false (.double 0x7ff8000000000000) ++
      routing false))).map (fun s => (s.writes[0]?, decide (Quiet s),
        s.engine.lookup (ascii "a/x"))) =
      some (some ⟨.of (ascii "a/x") (.double 0x7ff8000000000000) 0, true⟩, true,
        some (.of (ascii "a/x") (.double 0x7ff8000000000000) 0)) := by
    decide +kernel
  obtain ⟨s, run, last⟩ := Option.map_eq_some_iff.mp ends
  injection last with written last
  injection last with quiet lookup
  obtain ⟨p, -, v, stored, -, found, equal⟩ := always s run ((of_decide_eq_true quiet).finished _)
    (since_subscribing (by decide +kernel) written rfl)
  rw [lookup] at found
  obtain rfl := Option.some.inj found
  cases v with
  | double bits =>
    simp only [TagValue.of, valuesEqual, doubleEqual, Bool.and_eq_true] at equal
    exact absurd equal.1.2 (by decide)
  | _ => simp [TagValue.of, valuesEqual] at equal

end IndustrialRuntime.Irsp.Runtime
