import IndustrialRuntime.Server.PushRouting

namespace IndustrialRuntime.Irsp

open IndustrialRuntime.Core

/-- The record shows the value. -/
def TagRecord.Shows (record : TagRecord) (v : Variant) : Prop :=
  (record.type, record.value) = encodeVariant v

theorem TagRecord.Shows.unique {record : TagRecord} {v w : Variant} (hv : record.Shows v)
    (hw : record.Shows w) : v = w :=
  CoreTagWriter.encodeVariant_injective (hv.symm.trans hw)

namespace Runtime

variable {τ : Type*} {hash : Bytes → UInt64}

/-- The last push frame for the topic that went to the connection. -/
def lastPush (s : Runtime τ hash) (id : Nat) (n : Bytes) : Option Pushed :=
  (s.pushes.filter fun p => p.conn = id ∧ p.record.name = n).getLast?

/-- The record shows a value that is the same as the stored one. -/
def Fresh (same : Variant → Variant → Prop) (s : Runtime τ hash) (n : Bytes)
    (record : TagRecord) : Prop :=
  ∃ v stored, record.Shows v ∧ s.engine.lookup n = some stored ∧ same v stored.value

def Settled (same : Variant → Variant → Prop) (s : Runtime τ hash) (id : Nat) (n : Bytes) : Prop :=
  ∃ p, s.lastPush id n = some p ∧ Fresh same s n p.record

/-- No thread carries a changing write to the topic any more. -/
def Finished (s : Runtime τ hash) (n : Bytes) : Prop :=
  ∀ t e, s.errand t = some e → e.name ≠ n

/-- Equal under `==`, or identical: a NaN is not equal to itself. -/
def Same (v w : Variant) : Prop := v = w ∨ valuesEqual v w

theorem Same.trans_equal {u v w : Variant} (h : Same u v) (equal : valuesEqual v w) : Same u w := by
  rcases h with rfl | h
  · exact .inr equal
  · exact .inr (valuesEqual_trans h equal)

/-- Only a stored NaN makes a difference. -/
theorem same_iff {v w : Variant} (number : w.isNan = false) : Same v w ↔ valuesEqual v w := by
  constructor
  · intro h
    rcases h with rfl | equal
    · rw [valuesEqual_self, number]
      rfl
    · exact equal
  · exact .inr

section Last

variable {s s' : Runtime τ hash} {n : Bytes} {id : Nat} {new : List Pushed}

theorem lastPush_old (pushes : s'.pushes = s.pushes ++ new)
    (alien : ∀ p ∈ new, p.record.name ≠ n) : s'.lastPush id n = s.lastPush id n := by
  have nothing : new.filter (fun p => p.conn = id ∧ p.record.name = n) = [] := by
    rw [List.filter_eq_nil_iff]
    intro p found
    simp [alien p found]
  rw [lastPush, pushes, List.filter_append, nothing, List.append_nil, lastPush]

/-- The frame of a subscriber in the loop of `routeTag` becomes its last one. -/
theorem lastPush_enqueued {ids : List Nat} {ticket : Nat} {record : TagRecord}
    (pushes : s'.pushes = s.pushes ++
      (ids.filter fun id => (s.server.conns id).isSome).map fun id => ⟨ticket, id, record⟩)
    (listed : id ∈ ids) (connected : (s.server.conns id).isSome) (named : record.name = n) :
    ∃ p, s'.lastPush id n = some p ∧ p.record = record := by
  generalize added : ((ids.filter fun id => (s.server.conns id).isSome).map
    fun id => (⟨ticket, id, record⟩ : Pushed)) = new at pushes
  have mine : ⟨ticket, id, record⟩ ∈ new.filter fun p => p.conn = id ∧ p.record.name = n := by
    rw [List.mem_filter, ← added]
    refine ⟨List.mem_map.mpr ⟨id, List.mem_filter.mpr ⟨listed, connected⟩, rfl⟩, ?_⟩
    simp [named]
  obtain ⟨q, last⟩ := Option.ne_none_iff_exists'.mp
    (mt List.getLast?_eq_none_iff.mp (List.ne_nil_of_mem mine))
  have found : q ∈ new := (List.mem_filter.mp (List.mem_of_getLast? last)).1
  refine ⟨q, ?_, ?_⟩
  · rw [lastPush, pushes, List.filter_append, List.getLast?_append, last]
    rfl
  · rw [← added] at found
    obtain ⟨i, -, rfl⟩ := List.mem_map.mp found
    rfl

end Last

/-- Why the last frame for the topic is or will be up to date: a writer will still read the
value, a writer has just read it, or it was enqueued and no writer holds an older record. -/
inductive Converging (s : Runtime τ hash) (id : Nat) (n : Bytes) : Prop where
  | coming (t : Option τ) (ticket : Nat) (ids : Option (List SubscriberId))
      (errand : s.errand t = some ⟨ticket, n, ids, none⟩)
      (listed : ∀ known, ids = some known → id ∈ known)
  | leaving (t : Option τ) (ticket : Nat) (ids : List SubscriberId) (record : TagRecord)
      (errand : s.errand t = some ⟨ticket, n, some ids, some record⟩) (listed : id ∈ ids)
      (fresh : Fresh Same s n record)
  | arrived (p : Pushed) (last : s.lastPush id n = some p) (fresh : Fresh Same s n p.record)
      (rest : ∀ t ticket ids record, s.errand t = some ⟨ticket, n, some ids, some record⟩ →
        Fresh Same s n record)

theorem Converging.settled {s : Runtime τ hash} {id : Nat} {n : Bytes} (h : Converging s id n)
    (finished : Finished s n) : Settled Same s id n := by
  cases h with
  | coming t ticket ids errand listed => exact absurd rfl (finished t _ errand)
  | leaving t ticket ids record errand listed fresh => exact absurd rfl (finished t _ errand)
  | arrived p last fresh rest => exact ⟨p, last, fresh⟩

theorem fresh_toRecord {s : Runtime τ hash} {n : Bytes} {stored : TagValue}
    (found : s.engine.lookup n = some stored) : Fresh Same s n (CoreTagSource.toRecord stored) :=
  ⟨stored.value, stored, rfl, found, .inl rfl⟩

section Step

variable {s s' : Runtime τ hash} {a : Action τ} {n : Bytes} {id : Nat}

/-- A step keeps records fresh, unless it is a write that changes the value. -/
theorem fresh_step (progress : Progress s a s') (stays : a ≠ .remove n) :
    (∀ record, Fresh Same s n record → Fresh Same s' n record) ∨
      ∃ t ticket, s'.errand t = some ⟨ticket, n, none, none⟩ := by
  have keep : s'.engine.lookup n = s.engine.lookup n →
      ∀ record, Fresh Same s n record → Fresh Same s' n record := by
    intro same record fresh
    rw [Fresh, same]
    exact fresh
  cases progress with
  | idle errands writes routes pushes engine server => exact .inl (keep (engine n stays))
  | stored t tag before own others engine writes routes pushes server =>
    by_cases here : n = tag.name
    · cases changed : (s.engine.writeImpl tag).1 with
      | true =>
        rw [changed, if_pos rfl, ← here] at own
        exact .inr ⟨t, _, own⟩
      | false =>
        obtain ⟨old, found, equal⟩ := TagEngine.equal_of_unchanged changed
        refine .inl fun record fresh => ?_
        obtain ⟨v, stored, shows, lookup, same⟩ := fresh
        rw [here, found] at lookup
        obtain rfl := Option.some.inj lookup
        refine ⟨v, tag, shows, ?_, same.trans_equal equal⟩
        rw [engine, TagEngine.lookup_writeImpl, if_pos here]
    · refine .inl (keep ?_)
      rw [engine, TagEngine.lookup_writeImpl, if_neg here]
  | _ => exact .inl (keep (by rw [‹s'.engine = s.engine›]))

/-- A writer on its way reads the value, and then it carries a fresh record. -/
theorem Converging.of_coming (routing : Routing s) (kept : Kept s n)
    (subscribed : s.server.Subscribed id n) (progress : Progress s a s') {t : Option τ}
    {ticket : Nat} {ids : Option (List SubscriberId)}
    (errand : s.errand t = some ⟨ticket, n, ids, none⟩)
    (listed : ∀ known, ids = some known → id ∈ known) : Converging s' id n := by
  have still : ∀ u, (∀ w, w ≠ u → s'.errand w = s.errand w) → u ≠ t → Converging s' id n :=
    fun u others other => .coming t ticket ids ((others t (Ne.symm other)).trans errand) listed
  have listed' : id ∈ s.server.dispatcher.tagSubscribers n :=
    ((IrspServer.subscribed_iff routing.spelled id n).mp subscribed).2
  cases progress with
  | idle errands writes routes pushes engine server =>
    exact .coming t ticket ids ((errands t).trans errand) listed
  | stored u tag before own others engine writes routes pushes server =>
    refine still u others (fun same => ?_)
    rw [same, errand] at before
    contradiction
  | collected u ticket' name before own others engine writes routes pushes server =>
    by_cases same : u = t
    · rw [same, errand] at before
      injection before with before
      injection before with _ name'
      subst name' same
      refine .coming u _ _ own (fun known eq => ?_)
      rw [← Option.some.inj eq]
      exact listed'
    · exact still u others same
  | skipped u ticket' name before nobody own others engine writes routes pushes server =>
    refine still u others (fun same => ?_)
    rw [same, errand] at before
    injection before with before
    injection before with _ name'
    rw [name', nobody] at listed'
    exact absurd listed' List.not_mem_nil
  | missed u ticket' name ids' before missing own others engine writes routes pushes server =>
    refine still u others (fun same => ?_)
    obtain ⟨-, p, -, matched⟩ := subscribed
    obtain ⟨stored, -, found⟩ := kept.read (TopicMatcher.ne_nil_of_matches matched)
      (routing.sound t _ errand) rfl
    rw [same, errand] at before
    injection before with before
    injection before with _ name'
    rw [← name', found] at missing
    contradiction
  | read u ticket' name ids' record before found own others engine writes routes pushes server =>
    by_cases same : u = t
    · rw [same, errand] at before
      injection before with before
      injection before with _ name' known
      subst name' same
      obtain ⟨-, p, -, matched⟩ := subscribed
      obtain ⟨stored, lookup, read⟩ := kept.read (TopicMatcher.ne_nil_of_matches matched)
        (routing.sound u _ errand) rfl
      refine .leaving u _ ids' record own (listed ids' known) ?_
      rw [read] at found
      rw [← Option.some.inj found, Fresh, engine]
      exact fresh_toRecord lookup
    · exact still u others same
  | enqueued u ticket' name ids' record before own others engine writes routes pushes server =>
    refine still u others (fun same => ?_)
    rw [same, errand] at before
    simp at before

/-- The writer with a fresh record enqueues it, and nobody else is inside `mutex_`. -/
theorem Converging.of_leaving [DecidableEq τ] (locked : Locked s) (routing : Routing s)
    (subscribed : s.server.Subscribed id n) (progress : Progress s a s') {t : Option τ}
    {ticket : Nat} {ids : List SubscriberId} {record : TagRecord}
    (errand : s.errand t = some ⟨ticket, n, some ids, some record⟩) (listed : id ∈ ids)
    (fresh : Fresh Same s' n record) : Converging s' id n := by
  have still : ∀ u, (∀ w, w ≠ u → s'.errand w = s.errand w) → u ≠ t → Converging s' id n :=
    fun u others other =>
      .leaving t ticket ids record ((others t (Ne.symm other)).trans errand) listed fresh
  cases progress with
  | idle errands writes routes pushes engine server =>
    exact .leaving t ticket ids record ((errands t).trans errand) listed fresh
  | enqueued u ticket' name ids' record' before own others engine writes routes pushes server =>
    obtain rfl : u = t := locked.one_inside before errand nofun nofun
    rw [errand] at before
    injection before with before
    injection before with _ name' known record'
    injection known with known
    injection record' with record'
    subst name' known record'
    obtain ⟨q, last, rfl⟩ := lastPush_enqueued pushes listed subscribed.1
      ((routing.sound u _ errand).record record rfl)
    refine .arrived q last fresh (fun w k known r other => ?_)
    have outside : w ≠ u := by
      intro same
      rw [same, own] at other
      contradiction
    rw [others w outside] at other
    exact absurd (locked.one_inside other errand nofun nofun) outside
  | stored u tag before own others | collected u ticket' name before own others
  | skipped u ticket' name before nobody own others
  | missed u ticket' name ids' before missing own others
  | read u ticket' name ids' record' before found own others =>
    refine still u others (fun same => ?_)
    rw [same, errand] at before
    simp at before

/-- After the last fresh frame, only fresh records follow. -/
theorem Converging.of_arrived (routing : Routing s) (kept : Kept s n)
    (subscribed : s.server.Subscribed id n) (progress : Progress s a s') {p : Pushed}
    (last : s.lastPush id n = some p) (fresh : Fresh Same s' n p.record)
    (rest : ∀ t ticket ids record, s.errand t = some ⟨ticket, n, some ids, some record⟩ →
      Fresh Same s' n record) : Converging s' id n := by
  have still : ∀ u, (∀ w, w ≠ u → s'.errand w = s.errand w) → s'.pushes = s.pushes →
      (∀ k ids r, s'.errand u = some ⟨k, n, some ids, some r⟩ → Fresh Same s' n r) →
      Converging s' id n := by
    intro u others pushes own
    refine .arrived p (by rwa [lastPush, pushes]) fresh (fun w k ids r found => ?_)
    by_cases same : w = u
    · rw [same] at found
      exact own k ids r found
    · rw [others w same] at found
      exact rest w k ids r found
  cases progress with
  | idle errands writes routes pushes engine server =>
    refine .arrived p (by rwa [lastPush, pushes]) fresh (fun t k ids r found => ?_)
    rw [errands] at found
    exact rest t k ids r found
  | stored u tag before own others engine writes routes pushes server =>
    refine still u others pushes (fun k ids r found => ?_)
    rw [own] at found
    split at found <;> simp at found
  | collected u ticket name before own others engine writes routes pushes server =>
    refine still u others pushes (fun k ids r found => ?_)
    rw [own] at found
    simp at found
  | skipped u ticket name before nobody own others engine writes routes pushes server =>
    refine still u others pushes (fun k ids r found => ?_)
    rw [own] at found
    contradiction
  | missed u ticket name ids before missing own others engine writes routes pushes server =>
    refine still u others pushes (fun k ids r found => ?_)
    rw [own] at found
    contradiction
  | read u ticket name ids record before found own others engine writes routes pushes server =>
    refine still u others pushes (fun k known r next => ?_)
    rw [own] at next
    injection next with next
    injection next with _ name' _ record'
    injection record' with record'
    subst name' record'
    obtain ⟨-, q, -, matched⟩ := subscribed
    obtain ⟨stored, lookup, read⟩ := kept.read (TopicMatcher.ne_nil_of_matches matched)
      (routing.sound u _ before) rfl
    rw [read] at found
    rw [← Option.some.inj found, Fresh, engine]
    exact fresh_toRecord lookup
  | enqueued u ticket name ids record before own others engine writes routes pushes server =>
    have others' : ∀ w k known r, s'.errand w = some ⟨k, n, some known, some r⟩ →
        Fresh Same s' n r := by
      intro w k known r found
      have other : w ≠ u := by
        intro same
        rw [same, own] at found
        contradiction
      rw [others w other] at found
      exact rest w k known r found
    have named : record.name = name := (routing.sound u _ before).record record rfl
    by_cases here : name = n
    · subst here
      obtain rfl : ids = s.server.dispatcher.tagSubscribers name :=
        (routing.sound u _ before).subscribers ids rfl
      have listed : id ∈ s.server.dispatcher.tagSubscribers name :=
        ((IrspServer.subscribed_iff routing.spelled id name).mp subscribed).2
      obtain ⟨q, last', rfl⟩ := lastPush_enqueued pushes listed subscribed.1 named
      exact .arrived q last' (rest u ticket _ _ before) others'
    · have same : s'.lastPush id n = s.lastPush id n := by
        refine lastPush_old pushes (fun q found => ?_)
        obtain ⟨i, -, rfl⟩ := List.mem_map.mp found
        exact fun name' => here (named.symm.trans name')
      exact .arrived p (same.trans last) fresh others'

theorem Converging.step [DecidableEq τ] (locked : Locked s) (routing : Routing s)
    (kept : Kept s n) (subscribed : s.server.Subscribed id n) (progress : Progress s a s')
    (stays : a ≠ .remove n) (h : Converging s id n) : Converging s' id n := by
  rcases fresh_step progress stays with keep | ⟨t, ticket, starts⟩
  · cases h with
    | coming t ticket ids errand listed =>
      exact .of_coming routing kept subscribed progress errand listed
    | leaving t ticket ids record errand listed fresh =>
      exact .of_leaving locked routing subscribed progress errand listed (keep record fresh)
    | arrived p last fresh rest =>
      exact .of_arrived routing kept subscribed progress last (keep p.record fresh)
        (fun t ticket ids record errand => keep record (rest t ticket ids record errand))
  · exact .coming t ticket none starts nofun

/-- A write that changes the value sends its writer off. -/
theorem started (progress : Progress s a s') {k : Nat} {tag : TagValue}
    (written : s'.writes[k]? = some ⟨tag, true⟩) :
    s.writes[k]? = some ⟨tag, true⟩ ∨ ∃ t, s'.errand t = some ⟨k, tag.name, none, none⟩ := by
  cases progress with
  | stored t tag' before own others engine writes routes pushes server =>
    rw [writes] at written
    rcases lt_or_ge k s.writes.length with old | new
    · rw [List.getElem?_append_left old] at written
      exact .inl written
    · rw [List.getElem?_append_right new] at written
      obtain ⟨last, found⟩ := List.getElem?_eq_some_iff.mp written
      have here : k = s.writes.length := by
        rw [List.length_singleton] at last
        omega
      subst here
      simp only [Nat.sub_self, List.getElem_cons_zero, Written.mk.injEq] at found
      obtain ⟨rfl, changed⟩ := found
      rw [changed, if_pos rfl] at own
      exact .inr ⟨t, own⟩
  | _ => exact .inl (by rwa [‹s'.writes = s.writes›] at written)

end Step

end Runtime

end IndustrialRuntime.Irsp
