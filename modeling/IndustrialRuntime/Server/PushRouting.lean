import IndustrialRuntime.Lib.Tickets
import IndustrialRuntime.Server.Errands

namespace IndustrialRuntime.Irsp

open IndustrialRuntime.Core

namespace IrspServer

/-- The session of the connection holds a pattern that matches the topic. -/
def Subscribed (s : IrspServer) (id : Nat) (topic : Bytes) : Prop :=
  (s.conns id).isSome ∧ ∃ p, s.dispatcher.tagSubs.Registered p id ∧ TopicMatcher.matches p topic

theorem subscribed_iff {s : IrspServer} (spelled : s.Spelled) (id : Nat) (topic : Bytes) :
    s.Subscribed id topic ↔
      (s.conns id).isSome ∧ id ∈ s.dispatcher.tagSubscribers topic := by
  rw [Subscribed, Dispatcher.mem_tagSubscribers spelled]

theorem pushTo_conns (s : IrspServer) (frame : Bytes) (i id : Nat) :
    (s.pushTo frame i).conns id =
      if id = i then
        (s.conns id).map fun conn => { conn with outbox := conn.outbox ++ [frame] }
      else s.conns id := by
  by_cases same : id = i
  · subst same
    rw [if_pos rfl]
    cases found : s.conns id with
    | none => simp [pushTo, found]
    | some conn => simp [pushTo, found, setConn]
  · rw [if_neg same]
    cases found : s.conns i with
    | none => simp [pushTo, found]
    | some conn => simp [pushTo, found, setConn, same]

/-- The loop of `routeTag` appends the frame once to the outbox of each listed connection. -/
theorem pushAll_conns (s : IrspServer) {ids : List Nat} (distinct : ids.Nodup) (frame : Bytes)
    (id : Nat) :
    (s.pushAll ids frame).conns id =
      if id ∈ ids then
        (s.conns id).map fun conn => { conn with outbox := conn.outbox ++ [frame] }
      else s.conns id := by
  induction ids generalizing s with
  | nil => simp [pushAll]
  | cons i ids ih =>
    obtain ⟨new, distinct⟩ := List.nodup_cons.mp distinct
    have rest := ih (s.pushTo frame i) distinct
    change ((s.pushTo frame i).pushAll ids frame).conns id = _
    rw [rest, pushTo_conns]
    by_cases same : id = i
    · subst same
      simp [new]
    · simp [same]

end IrspServer

theorem CoreTagSource.name_of_read {hash : Bytes → UInt64} {engine : TagEngine hash} {name : Bytes}
    {record : TagRecord} (found : CoreTagSource.read engine name = some record) :
    record.name = name := by
  obtain ⟨tag, stored, rfl⟩ := Option.map_eq_some_iff.mp found
  unfold TagEngine.read at stored
  split at stored
  · contradiction
  · exact TagEngine.name_of_lookup stored

namespace Runtime

variable {τ : Type*} {hash : Bytes → UInt64}

/-- What an errand has learnt is still so. -/
structure Errand.Sound (s : Runtime τ hash) (e : Errand) : Prop where
  written : ∃ tag, s.writes[e.ticket]? = some ⟨tag, true⟩ ∧ tag.name = e.name
  subscribers : ∀ ids, e.ids = some ids → ids = s.server.dispatcher.tagSubscribers e.name
  record : ∀ record, e.record = some record → record.name = e.name

/-- The tickets of the writes that changed a value. -/
def changing (s : Runtime τ hash) : Set Nat := {k | ∃ tag, s.writes[k]? = some ⟨tag, true⟩}

/-- Each changing write is with the thread that carries it or was routed once, and the frames
come from routed writes. -/
structure Routing (s : Runtime τ hash) : Prop where
  spelled : s.server.Spelled
  sound : ∀ t e, s.errand t = some e → e.Sound s
  tickets : Ledger (fun t => (s.errand t).map Errand.ticket) s.changing
    (s.routes.map Routed.ticket)
  source : ∀ p ∈ s.pushes, p.ticket ∈ s.routes.map Routed.ticket ∧
    ∃ tag, s.writes[p.ticket]? = some ⟨tag, true⟩ ∧ tag.name = p.record.name

theorem errand_initial (setup : Setup τ) (t : Option τ) :
    (initial setup : Runtime τ hash).errand t = none := by
  cases t <;> rfl

theorem routing_initial (setup : Setup τ) : Routing (initial setup : Runtime τ hash) where
  spelled := TopicTrie.empty_spelled
  sound t e found := by
    rw [errand_initial] at found
    contradiction
  tickets := by
    have none : (initial setup : Runtime τ hash).changing = ∅ := by
      ext k
      simp [changing, initial]
    rw [none]
    exact (Ledger.empty (Option τ) Nat).keep (fun t => by rw [errand_initial]; rfl)
  source p found := absurd found List.not_mem_nil

section Step

variable {s s' : Runtime τ hash} {a : Action τ}

theorem written_grow (h : Progress s a s') {k : Nat} {w : Written}
    (found : s.writes[k]? = some w) : s'.writes[k]? = some w := by
  obtain ⟨new, grown⟩ := h.writes_grow
  rw [grown, List.getElem?_append_left (List.getElem?_eq_some_iff.mp found).1]
  exact found

theorem Errand.Sound.step (progress : Progress s a s') {t : Option τ} {e : Errand}
    (errand : s.errand t = some e) (sound : e.Sound s) : e.Sound s' where
  written := by
    obtain ⟨tag, found, name⟩ := sound.written
    exact ⟨tag, written_grow progress found, name⟩
  subscribers ids known := by
    rcases progress.dispatcher errand with same | unknown
    · rw [same]
      exact sound.subscribers ids known
    · rw [unknown] at known
      contradiction
  record := sound.record

theorem Routing.sound_step (inv : Routing s) (progress : Progress s a s') (t : Option τ)
    (others : ∀ u, u ≠ t → s'.errand u = s.errand u)
    (own : ∀ e, s'.errand t = some e → e.Sound s') (u : Option τ) (e : Errand)
    (found : s'.errand u = some e) : e.Sound s' := by
  by_cases same : u = t
  · subst same
    exact own e found
  · rw [others u same] at found
    exact (inv.sound u e found).step progress found

theorem Routing.source_step (inv : Routing s) (progress : Progress s a s')
    (routes : ∃ new, s'.routes = s.routes ++ new) (p : Pushed) (found : p ∈ s.pushes) :
    p.ticket ∈ s'.routes.map Routed.ticket ∧
      ∃ tag, s'.writes[p.ticket]? = some ⟨tag, true⟩ ∧ tag.name = p.record.name := by
  obtain ⟨new, routes⟩ := routes
  obtain ⟨routed, tag, written, name⟩ := inv.source p found
  refine ⟨?_, tag, written_grow progress written, name⟩
  rw [routes, List.map_append]
  exact List.mem_append_left _ routed

/-- A step that issues no ticket and takes none back. -/
theorem Routing.keep (inv : Routing s) (progress : Progress s a s')
    (sound : ∀ t e, s'.errand t = some e → e.Sound s')
    (tickets : ∀ t, (s'.errand t).map Errand.ticket = (s.errand t).map Errand.ticket)
    (changing : s'.changing = s.changing) (routes : s'.routes = s.routes)
    (pushes : s'.pushes = s.pushes) : Routing s' where
  spelled := progress.spelled inv.spelled
  sound := sound
  tickets := by
    rw [changing, routes]
    exact inv.tickets.keep tickets
  source p found := by
    rw [pushes] at found
    exact inv.source_step progress ⟨[], by rw [routes, List.append_nil]⟩ p found

/-- The end of a `routeTag` call. -/
theorem Routing.finish (inv : Routing s) (progress : Progress s a s') (t : Option τ) (e : Errand)
    (before : s.errand t = some e) (own : s'.errand t = none)
    (others : ∀ u, u ≠ t → s'.errand u = s.errand u) (writes : s'.writes = s.writes)
    (routes : s'.routes = s.routes ++ [⟨e.ticket, s.server⟩]) (new : List Pushed)
    (pushes : s'.pushes = s.pushes ++ new)
    (mine : ∀ p ∈ new, p.ticket = e.ticket ∧ p.record.name = e.name) : Routing s' where
  spelled := progress.spelled inv.spelled
  sound := by
    refine inv.sound_step progress t others (fun f found => ?_)
    rw [own] at found
    contradiction
  tickets := by
    have same : s'.changing = s.changing := by rw [changing, changing, writes]
    rw [same, routes, List.map_append]
    refine inv.tickets.handIn t e.ticket (by rw [before]; rfl) (by rw [own]; rfl) ?_
    intro u other
    rw [others u other]
  source p found := by
    rw [pushes] at found
    rcases List.mem_append.mp found with old | added
    · exact inv.source_step progress ⟨_, routes⟩ p old
    · obtain ⟨ticket, name⟩ := mine p added
      obtain ⟨tag, written, same⟩ := (inv.sound t e before).written
      refine ⟨?_, tag, ?_, same.trans name.symm⟩
      · rw [routes, ticket]
        simp
      · rw [ticket]
        exact written_grow progress written

theorem changing_append {w : Written} (writes : s'.writes = s.writes ++ [w]) :
    s'.changing = if w.changed then insert s.writes.length s.changing else s.changing := by
  have last : ∀ k, k ∈ s'.changing ↔
      k ∈ s.changing ∨ (k = s.writes.length ∧ w.changed = true) := by
    intro k
    rw [changing, writes]
    change (∃ tag, (s.writes ++ [w])[k]? = some ⟨tag, true⟩) ↔
      (∃ tag, s.writes[k]? = some ⟨tag, true⟩) ∨ _
    rcases lt_trichotomy k s.writes.length with below | rfl | above
    · rw [List.getElem?_append_left below]
      simp [Nat.ne_of_lt below]
    · simp only [List.getElem?_concat_length, Option.some.injEq, true_and]
      have old : s.writes[s.writes.length]? = none := by simp
      constructor
      · intro h
        obtain ⟨tag, rfl⟩ := h
        exact .inr rfl
      · intro h
        rcases h with ⟨tag, found⟩ | changed
        · rw [old] at found
          contradiction
        · exact ⟨w.tag, by rw [← changed]⟩
    · have none : (s.writes ++ [w])[k]? = none := by
        simp only [List.getElem?_eq_none_iff, List.length_append, List.length_singleton]
        omega
      have old : s.writes[k]? = Option.none := by
        simp only [List.getElem?_eq_none_iff]
        omega
      simp [none, old, Nat.ne_of_gt above]
  ext k
  rw [last]
  split
  · simp [*, or_comm]
  · simp [*]

/-- A store: if it changes the value, the thread sets out with a new ticket. -/
theorem Routing.store (inv : Routing s) (progress : Progress s a s') (t : Option τ)
    (tag : TagValue) (changed : Bool) (before : s.errand t = none)
    (own : s'.errand t =
      if changed then some ⟨s.writes.length, tag.name, none, none⟩ else none)
    (others : ∀ u, u ≠ t → s'.errand u = s.errand u)
    (writes : s'.writes = s.writes ++ [⟨tag, changed⟩]) (routes : s'.routes = s.routes)
    (pushes : s'.pushes = s.pushes) : Routing s' := by
  have grown := changing_append writes
  cases changed with
  | false =>
    refine inv.keep progress (inv.sound_step progress t others (fun e found => ?_)) (fun u => ?_)
      grown routes pushes
    · rw [own] at found
      contradiction
    · by_cases same : u = t
      · rw [same, own, before]
        rfl
      · rw [others u same]
  | true =>
    refine ⟨progress.spelled inv.spelled, inv.sound_step progress t others (fun e found => ?_), ?_,
      fun p found => ?_⟩
    · rw [own] at found
      obtain rfl := Option.some.inj found
      refine ⟨⟨tag, ?_, rfl⟩, fun ids known => by contradiction, fun r known => by contradiction⟩
      rw [writes]
      simp
    · rw [grown, routes]
      refine inv.tickets.issue t s.writes.length ?_ (by rw [before]; rfl) (by rw [own]; rfl) ?_
      · intro old
        obtain ⟨tag, found⟩ := old
        simp at found
      · intro u other
        rw [others u other]
    · rw [pushes] at found
      exact inv.source_step progress ⟨[], by rw [routes, List.append_nil]⟩ p found

/-- A step of `routeTag` that learns something and keeps the ticket. -/
theorem Routing.learn (inv : Routing s) (progress : Progress s a s') (t : Option τ) (e e' : Errand)
    (before : s.errand t = some e) (own : s'.errand t = some e') (ticket : e'.ticket = e.ticket)
    (others : ∀ u, u ≠ t → s'.errand u = s.errand u) (sound : e'.Sound s')
    (writes : s'.writes = s.writes) (routes : s'.routes = s.routes)
    (pushes : s'.pushes = s.pushes) : Routing s' := by
  refine inv.keep progress (inv.sound_step progress t others (fun f found => ?_)) (fun u => ?_)
    (by rw [changing, changing, writes]) routes pushes
  · rw [own] at found
    obtain rfl := Option.some.inj found
    exact sound
  · by_cases same : u = t
    · rw [same, own, before]
      exact congrArg some ticket
    · rw [others u same]

theorem Routing.step (inv : Routing s) (progress : Progress s a s') : Routing s' := by
  cases id progress with
  | idle errands writes routes pushes engine server =>
    refine inv.keep progress (fun t e found => ?_) (fun t => by rw [errands])
      (by rw [changing, changing, writes]) routes pushes
    rw [errands] at found
    exact (inv.sound t e found).step progress found
  | stored t tag before own others engine writes routes pushes server =>
    exact inv.store progress t tag _ before own others writes routes pushes
  | collected t ticket name before own others engine writes routes pushes server =>
    have sound := (inv.sound t _ before).step progress before
    refine inv.learn progress t _ _ before own rfl others ⟨sound.written, fun ids known => ?_,
      sound.record⟩ writes routes pushes
    rw [← Option.some.inj known, server]
  | skipped t ticket name before nobody own others engine writes routes pushes server =>
    exact inv.finish progress t _ before own others writes routes [] (by simpa using pushes)
      (fun p found => absurd found List.not_mem_nil)
  | missed t ticket name ids before missing own others engine writes routes pushes server =>
    exact inv.finish progress t _ before own others writes routes [] (by simpa using pushes)
      (fun p found => absurd found List.not_mem_nil)
  | read t ticket name ids record before found own others engine writes routes pushes server =>
    have sound := (inv.sound t _ before).step progress before
    refine inv.learn progress t _ _ before own rfl others ⟨sound.written, sound.subscribers,
      fun r known => ?_⟩ writes routes pushes
    rw [← Option.some.inj known]
    exact CoreTagSource.name_of_read found
  | enqueued t ticket name ids record before own others engine writes routes pushes server =>
    refine inv.finish progress t _ before own others writes routes _ pushes (fun p found => ?_)
    obtain ⟨id, -, rfl⟩ := List.mem_map.mp found
    exact ⟨rfl, (inv.sound t _ before).record record rfl⟩

end Step

/-- How many frames of a write went to a connection. -/
def pushCount (s : Runtime τ hash) (ticket id : Nat) : Nat :=
  s.pushes.countP fun p => p.ticket = ticket ∧ p.conn = id

/-- Each routed write to the topic put one frame into the outbox of each subscriber, and none
into the others. -/
def Delivered (s : Runtime τ hash) (n : Bytes) : Prop :=
  ∀ r ∈ s.routes, ∀ tag, s.writes[r.ticket]? = some ⟨tag, true⟩ → tag.name = n → ∀ id,
    (r.server.Subscribed id n → s.pushCount r.ticket id = 1) ∧
      (¬r.server.Subscribed id n → s.pushCount r.ticket id = 0)

/-- A topic that was written is stored. -/
def Kept (s : Runtime τ hash) (n : Bytes) : Prop :=
  ∀ w ∈ s.writes, w.tag.name = n → ∃ stored, s.engine.lookup n = some stored

section Delivery

variable {s s' : Runtime τ hash} {a : Action τ} {n : Bytes}

theorem Kept.step (kept : Kept s n) (progress : Progress s a s') (stays : a ≠ .remove n) :
    Kept s' n := by
  intro w found name
  cases progress with
  | idle errands writes routes pushes engine server =>
    rw [writes] at found
    rw [engine n stays]
    exact kept w found name
  | stored t tag before own others engine writes routes pushes server =>
    rw [engine, TagEngine.lookup_writeImpl]
    split
    · exact ⟨tag, rfl⟩
    · rename_i other
      rw [writes] at found
      rcases List.mem_append.mp found with old | new
      · exact kept w old name
      · obtain rfl := List.mem_singleton.mp new
        exact absurd name.symm other
  | _ =>
    rw [‹s'.writes = s.writes›] at found
    rw [‹s'.engine = s.engine›]
    exact kept w found name

/-- The writer of a topic that is not removed finds it when it reads it back. -/
theorem Kept.read (kept : Kept s n) (named : n ≠ []) {e : Errand} (sound : e.Sound s)
    (name : e.name = n) :
    ∃ stored, s.engine.lookup n = some stored ∧
      CoreTagSource.read s.engine n = some (CoreTagSource.toRecord stored) := by
  obtain ⟨tag, written, same⟩ := sound.written
  obtain ⟨stored, found⟩ := kept _ (List.mem_of_getElem? written) (same.trans name)
  refine ⟨stored, found, ?_⟩
  rw [CoreTagSource.read, TagEngine.read_eq _ named, found]
  rfl

theorem Delivered.keep (routing : Routing s) (delivered : Delivered s n)
    (progress : Progress s a s') (routes : s'.routes = s.routes) (pushes : s'.pushes = s.pushes) :
    Delivered s' n := by
  intro r found tag written name id
  rw [routes] at found
  obtain ⟨tag', old⟩ := routing.tickets.used r.ticket (List.mem_map_of_mem found)
  rw [written_grow progress old] at written
  rw [pushCount, pushes]
  exact delivered r found tag (old.trans written) name id

theorem Delivered.finish (routing : Routing s) (delivered : Delivered s n) {t : Option τ}
    {e : Errand} (before : s.errand t = some e) (writes : s'.writes = s.writes)
    (routes : s'.routes = s.routes ++ [⟨e.ticket, s.server⟩]) (new : List Pushed)
    (pushes : s'.pushes = s.pushes ++ new) (mine : ∀ p ∈ new, p.ticket = e.ticket)
    (right : e.name = n → ∀ id,
      (s.server.Subscribed id n → new.countP (fun p => p.conn = id) = 1) ∧
        (¬s.server.Subscribed id n → new.countP (fun p => p.conn = id) = 0)) :
    Delivered s' n := by
  have away : e.ticket ∉ s.routes.map Routed.ticket :=
    routing.tickets.away t e.ticket (by rw [before]; rfl)
  intro r found tag written name id
  rw [writes] at written
  rw [routes] at found
  rw [pushCount, pushes, List.countP_append]
  rcases List.mem_append.mp found with old | last
  · have other : r.ticket ≠ e.ticket := by
      intro same
      rw [← same] at away
      exact away (List.mem_map_of_mem old)
    have nothing : new.countP (fun p => p.ticket = r.ticket ∧ p.conn = id) = 0 := by
      rw [List.countP_eq_zero]
      intro p added
      simp [mine p added, Ne.symm other]
    rw [nothing, Nat.add_zero]
    exact delivered r old tag written name id
  · obtain rfl := List.mem_singleton.mp last
    have nothing : s.pushes.countP (fun p => p.ticket = e.ticket ∧ p.conn = id) = 0 := by
      rw [List.countP_eq_zero]
      intro p old
      have routed := (routing.source p old).1
      have other : p.ticket ≠ e.ticket := by
        intro same
        rw [same] at routed
        exact away routed
      simp [other]
    have all : new.countP (fun p => p.ticket = e.ticket ∧ p.conn = id) =
        new.countP (fun p => p.conn = id) := by
      apply List.countP_congr
      intro p added
      simp [mine p added]
    have same : e.name = n := by
      obtain ⟨tag', found', name'⟩ := (routing.sound t e before).written
      rw [found'] at written
      injection written with written
      injection written with written
      rw [← name', written, name]
    change (s.server.Subscribed id n → s.pushes.countP _ + new.countP _ = 1) ∧
      (¬s.server.Subscribed id n → s.pushes.countP _ + new.countP _ = 0)
    rw [nothing, all, Nat.zero_add]
    exact right same id

/-- What the loop of `routeTag` enqueues for one connection. -/
theorem filter_pushes (s : Runtime τ hash) {ids : List Nat} (distinct : ids.Nodup) (ticket : Nat)
    (record : TagRecord) (id : Nat) :
    ((ids.filter fun id => (s.server.conns id).isSome).map
      fun id => (⟨ticket, id, record⟩ : Pushed)).filter (fun p => p.conn = id) =
      if (s.server.conns id).isSome ∧ id ∈ ids then [⟨ticket, id, record⟩] else [] := by
  have single : (ids.filter fun id => (s.server.conns id).isSome).count id =
      if id ∈ ids.filter fun id => (s.server.conns id).isSome then 1 else 0 :=
    (distinct.filter _).count
  rw [List.filter_map]
  simp only [Function.comp_def, List.filter_eq, single, List.mem_filter, and_comm]
  split <;> rfl

theorem Delivered.step (routing : Routing s) (kept : Kept s n) (delivered : Delivered s n)
    (progress : Progress s a s') : Delivered s' n := by
  cases id progress with
  | idle errands writes routes pushes engine server =>
    exact delivered.keep routing progress routes pushes
  | stored t tag before own others engine writes routes pushes server =>
    exact delivered.keep routing progress routes pushes
  | collected t ticket name before own others engine writes routes pushes server =>
    exact delivered.keep routing progress routes pushes
  | skipped t ticket name before nobody own others engine writes routes pushes server =>
    refine delivered.finish routing before writes routes [] (by simpa using pushes)
      (fun p found => absurd found List.not_mem_nil) (fun same id => ⟨fun subscribed => ?_,
        fun _ => rfl⟩)
    obtain rfl : name = n := same
    rw [IrspServer.subscribed_iff routing.spelled, nobody] at subscribed
    exact absurd subscribed.2 List.not_mem_nil
  | missed t ticket name ids before missing own others engine writes routes pushes server =>
    refine delivered.finish routing before writes routes [] (by simpa using pushes)
      (fun p found => absurd found List.not_mem_nil) (fun same id => ⟨fun subscribed => ?_,
        fun _ => rfl⟩)
    obtain rfl : name = n := same
    obtain ⟨-, p, -, matched⟩ := subscribed
    obtain ⟨stored, -, found⟩ :=
      kept.read (TopicMatcher.ne_nil_of_matches matched) (routing.sound t _ before) rfl
    rw [found] at missing
    contradiction
  | read t ticket name ids record before found own others engine writes routes pushes server =>
    exact delivered.keep routing progress routes pushes
  | enqueued t ticket name ids record before own others engine writes routes pushes server =>
    refine delivered.finish routing before writes routes _ pushes (fun p found => ?_)
      (fun same id => ?_)
    · obtain ⟨id, -, rfl⟩ := List.mem_map.mp found
      rfl
    · obtain rfl : name = n := same
      obtain rfl : ids = s.server.dispatcher.tagSubscribers name :=
        (routing.sound t _ before).subscribers ids rfl
      rw [List.countP_eq_length_filter, filter_pushes s (Dispatcher.nodup_tagSubscribers _ name),
        IrspServer.subscribed_iff routing.spelled]
      exact ⟨fun subscribed => by rw [if_pos subscribed]; rfl,
        fun alien => by rw [if_neg alien]; rfl⟩

/-- The frames of the new pushes stand at the end of the outboxes. -/
def Enqueues (s s' : Runtime τ hash) : Prop :=
  ∃ new, s'.pushes = s.pushes ++ new ∧ (new ≠ [] → ∀ id, s'.server.conns id =
    (s.server.conns id).map fun conn => { conn with
      outbox := conn.outbox ++ (new.filter fun p => p.conn = id).map fun p =>
        encodePushTag p.record })

theorem Routing.enqueues (routing : Routing s) (progress : Progress s a s') : Enqueues s s' := by
  cases progress with
  | enqueued t ticket name ids record before own others engine writes routes pushes server =>
    obtain rfl : ids = s.server.dispatcher.tagSubscribers name :=
      (routing.sound t _ before).subscribers ids rfl
    have distinct := Dispatcher.nodup_tagSubscribers s.server.dispatcher name
    refine ⟨_, pushes, fun _ id => ?_⟩
    rw [server, IrspServer.pushAll_conns _ distinct, filter_pushes s distinct]
    cases found : s.server.conns id with
    | none => simp
    | some conn =>
      split
      · simp [*]
      · simp [*]
  | _ => exact ⟨[], by simpa, fun some => absurd rfl some⟩

end Delivery

end Runtime

end IndustrialRuntime.Irsp
