import IndustrialRuntime.Core.EventBusRoles

namespace IndustrialRuntime.Core.EventBus.Bus

variable {τ : Type*} {s s' : Bus τ}

/-- Ids are given out once, and never the 0. -/
structure Numbered (s : Bus τ) : Prop where
  ids : (s.subscriptions.map Subscription.id).Nodup
  fresh : ∀ sub ∈ s.subscriptions, sub.id < s.nextId
  positive : ∀ sub ∈ s.subscriptions, 0 < sub.id
  next : 0 < s.nextId

theorem Numbered.same (h : s.Numbered) (subscriptions : s'.subscriptions = s.subscriptions)
    (nextId : s'.nextId = s.nextId) : s'.Numbered where
  ids := by rw [subscriptions]; exact h.ids
  fresh := by rw [subscriptions, nextId]; exact h.fresh
  positive := by rw [subscriptions]; exact h.positive
  next := by rw [nextId]; exact h.next

theorem numbered_started (queue : MpmcQueue Event) : (started queue : Bus τ).Numbered where
  ids := List.nodup_nil
  fresh _ held := absurd held List.not_mem_nil
  positive _ held := absurd held List.not_mem_nil
  next := Nat.one_pos

theorem Numbered.subscribe (h : s.Numbered) (filter : Filter) : (s.subscribe filter).Numbered where
  ids := nodup_subscribe s filter h.ids h.fresh
  fresh := fresh_subscribe s filter h.fresh
  positive sub held := by
    obtain old | new := List.mem_append.mp held
    · exact h.positive sub old
    · rw [List.mem_singleton.mp new]
      exact h.next
  next := Nat.succ_pos _

theorem Numbered.unsubscribe (h : s.Numbered) (id : Nat) : (s.unsubscribe id).Numbered where
  ids := List.Nodup.sublist (List.Sublist.map _ List.eraseP_sublist) h.ids
  fresh sub held := h.fresh sub (List.eraseP_subset held)
  positive sub held := h.positive sub (List.eraseP_subset held)
  next := h.next

/-- The worker is in the middle of an event and still has to call a handler of
this subscription, which it copied before. -/
def Pending (s : Bus τ) (id : Nat) : Prop :=
  match s.worker with
  | .deliver _ _ event rest => ∃ sub ∈ rest, sub.id = id ∧ sub.wants event
  | _ => False

theorem pending_deliver {final : Bool} {ticket : UInt64} {event : Event}
    {rest : List Subscription} (at_deliver : s.worker = .deliver final ticket event rest)
    (id : Nat) :
    s.Pending id ↔ ∃ sub ∈ rest, sub.id = id ∧ sub.wants event := by
  rw [Pending, at_deliver]

/-- A subscription that is neither in the table nor in the worker's copy. -/
structure Gone (id : Nat) (s : Bus τ) : Prop where
  removed : ∀ sub ∈ s.subscriptions, sub.id ≠ id
  spent : id < s.nextId
  idle : ¬s.Pending id

theorem mem_of_mem_unsubscribe {id : Nat} {sub : Subscription}
    (kept : sub ∈ (s.unsubscribe id).subscriptions) : sub ∈ s.subscriptions :=
  List.eraseP_subset kept

/-- `unsubscribe` leaves no subscription with the id. -/
theorem Numbered.not_mem_unsubscribe (h : s.Numbered) (id : Nat) :
    ∀ sub ∈ (s.unsubscribe id).subscriptions, sub.id ≠ id := by
  have ids := h.ids
  simp only [Bus.unsubscribe]
  generalize s.subscriptions = subs at ids ⊢
  induction subs with
  | nil => simp
  | cons first rest ih =>
    rw [List.map_cons, List.nodup_cons] at ids
    intro sub kept
    by_cases here : first.id = id
    · rw [List.eraseP_cons_of_pos (by simpa using here)] at kept
      rintro same
      apply ids.1
      rw [here, ← same]
      exact List.mem_map_of_mem kept
    · rw [List.eraseP_cons_of_neg (by simpa using here)] at kept
      obtain first_kept | later := List.mem_cons.mp kept
      · rw [first_kept]
        exact here
      · exact ih ids.2 sub later

theorem gone_unsubscribe (h : s.Numbered) {id : Nat} (held : ∃ sub ∈ s.subscriptions, sub.id = id)
    (idle : ¬s.Pending id) : (s.unsubscribe id).Gone id where
  removed := h.not_mem_unsubscribe id
  spent := by
    obtain ⟨sub, found, rfl⟩ := held
    exact h.fresh sub found
  idle := idle

/-- A step that calls no handler and takes no snapshot. -/
theorem Gone.quiet {id : Nat} (h : s.Gone id)
    (subscriptions : ∀ sub ∈ s'.subscriptions, sub ∈ s.subscriptions)
    (nextId : s'.nextId = s.nextId) (idle : s'.Pending id → s.Pending id) : s'.Gone id where
  removed sub held := h.removed sub (subscriptions sub held)
  spent := by
    rw [nextId]
    exact h.spent
  idle pending := h.idle (idle pending)

/-- The handlers called between two states are not those of `id`. -/
def Spares (s s' : Bus τ) (id : Nat) : Prop :=
  ∃ calls, s'.delivered = s.delivered ++ calls ∧ ∀ d ∈ calls, d.subscription ≠ id

theorem spares_of_eq (same : s'.delivered = s.delivered) (id : Nat) : s.Spares s' id :=
  ⟨[], by rw [same, List.append_nil], fun _ called => absurd called List.not_mem_nil⟩

theorem Spares.trans {u : Bus τ} {id : Nat} (first : s.Spares u id) (rest : u.Spares s' id) :
    s.Spares s' id := by
  obtain ⟨calls, before, spared⟩ := first
  obtain ⟨more, after, spared'⟩ := rest
  refine ⟨calls ++ more, by rw [after, before, List.append_assoc], fun d called => ?_⟩
  obtain early | late := List.mem_append.mp called
  · exact spared d early
  · exact spared' d late

variable [DecidableEq τ]

theorem Numbered.step (h : s.Numbered) {a : Action τ} (moved : s.Moved a s') : s'.Numbered := by
  cases moved with
  | subscribe filter => exact h.subscribe filter
  | unsubscribe id => exact h.unsubscribe id
  | stop _ stopped =>
    obtain ⟨-, -, -, subscriptions, nextId, -⟩ := stopStep_same stopped
    exact h.same subscriptions nextId
  | _ => exact h.same rfl rfl

theorem numbered_run (queue : MpmcQueue Event) (schedule : List (Action τ)) (s : Bus τ)
    (run : (machine τ queue).run schedule = some s) : s.Numbered :=
  (machine τ queue).invariant Numbered (numbered_started queue)
    (fun _ _ _ h step => h.step (moved_of_step step)) schedule s run

/-- No step calls a handler that is gone. -/
theorem Gone.step {id : Nat} (h : s.Gone id) {a : Action τ} (moved : s.Moved a s') :
    s'.Gone id ∧ s.Spares s' id := by
  have kept (s' : Bus τ) (subscriptions : s'.subscriptions = s.subscriptions)
      (nextId : s'.nextId = s.nextId) (delivered : s'.delivered = s.delivered)
      (idle : s'.Pending id → s.Pending id) : s'.Gone id ∧ s.Spares s' id :=
    ⟨h.quiet (fun _ held => subscriptions ▸ held) nextId idle, spares_of_eq delivered id⟩
  cases moved with
  | snapshot choice final ticket event before =>
    refine ⟨⟨h.removed, h.spent, ?_⟩, spares_of_eq rfl id⟩
    rintro ⟨sub, held, same, -⟩
    exact h.removed sub held same
  | deliver choice final ticket event sub rest before =>
    have idle := h.idle
    rw [pending_deliver before] at idle
    refine ⟨⟨h.removed, h.spent, ?_⟩, ?_⟩
    · rintro ⟨later, held, wanted⟩
      exact idle ⟨later, List.mem_cons_of_mem sub held, wanted⟩
    · by_cases wants : sub.wants event
      · refine ⟨[⟨sub.id, ticket, event⟩], by simp only [wants, if_true], ?_⟩
        intro d called
        rw [List.mem_singleton.mp called]
        intro same
        exact idle ⟨sub, List.mem_cons_self, same, wants⟩
      · exact spares_of_eq (by simp only [wants, Bool.false_eq_true, if_false]) id
  | subscribe filter =>
    refine ⟨⟨?_, Nat.lt_succ_of_lt h.spent, h.idle⟩, spares_of_eq rfl id⟩
    intro sub held
    obtain old | new := List.mem_append.mp held
    · exact h.removed sub old
    · rw [List.mem_singleton.mp new]
      exact (Nat.ne_of_lt h.spent).symm
  | unsubscribe other =>
    exact ⟨h.quiet (fun _ held => mem_of_mem_unsubscribe held) rfl (fun pending => pending),
      spares_of_eq rfl id⟩
  | stop _ stopped =>
    obtain ⟨-, worker, -, subscriptions, nextId, -, delivered, -⟩ := stopStep_same stopped
    refine kept s' subscriptions nextId delivered ?_
    unfold Pending
    rw [worker]
    exact fun pending => pending
  | checkStop choice before =>
    refine kept _ rfl rfl rfl ?_
    unfold Pending
    dsimp only
    split_ifs <;> exact False.elim
  | empty choice final queue before advance =>
    refine kept _ rfl rfl rfl ?_
    unfold Pending
    dsimp only
    split_ifs <;> exact False.elim
  | acquire | poll | dequeued | delivered => exact kept _ rfl rfl rfl False.elim
  | _ => exact kept _ rfl rfl rfl (fun pending => pending)

/-- A handler that is gone is never called again. -/
theorem Gone.run {queue : MpmcQueue Event} {id : Nat} (h : s.Gone id)
    (schedule : List (Action τ)) (run : (machine τ queue).runFrom s schedule = some s') :
    s.Spares s' id := by
  have keep : ∀ (u : Bus τ) (a : Action τ) (v : Bus τ), (u.Gone id ∧ s.Spares u id) → True →
      (machine τ queue).step u a = some v → v.Gone id ∧ s.Spares v id := by
    intro u a v inv _ step
    obtain ⟨gone, spares⟩ := inv.1.step (moved_of_step step)
    exact ⟨gone, inv.2.trans spares⟩
  have start : s.Gone id ∧ s.Spares s id := ⟨h, spares_of_eq rfl id⟩
  exact ((machine τ queue).invariant_of_steps (fun _ _ => True) _ keep s schedule s' start
    ((machine τ queue).steps_of_forall _ (fun _ _ => trivial) s schedule) run).2

/-- Left alone, the worker goes through its copy. -/
theorem deliver_steps (queue : MpmcQueue Event) {final : Bool} {ticket : UInt64} {event : Event}
    {sub : Subscription} (wants : sub.wants event) (before rest : List Subscription)
    (at_deliver : s.worker = .deliver final ticket event (before ++ sub :: rest)) :
    ∃ s', (machine τ queue).runFrom s (List.replicate (before.length + 1) (.worker false)) =
        some s' ∧
      ∃ calls, s'.delivered = s.delivered ++ calls ∧ ⟨sub.id, ticket, event⟩ ∈ calls := by
  induction before generalizing s with
  | nil =>
    let t : Bus τ := { s with
      worker := .deliver final ticket event rest
      delivered := s.delivered ++ [⟨sub.id, ticket, event⟩] }
    have step : (machine τ queue).step s (.worker false) = some t := by
      simp only [machine, Bus.step, workerStep, at_deliver, List.nil_append, wants, if_true, t]
    refine ⟨t, ?_, [⟨sub.id, ticket, event⟩], rfl, List.mem_singleton_self _⟩
    simp only [List.length_nil, Nat.zero_add, List.replicate_one, Machine.runFrom_cons, step,
      Option.bind_some, Machine.runFrom_nil]
  | cons first before ih =>
    let t : Bus τ := { s with
      worker := .deliver final ticket event (before ++ sub :: rest)
      delivered := if first.wants event then s.delivered ++ [⟨first.id, ticket, event⟩]
        else s.delivered }
    have step : (machine τ queue).step s (.worker false) = some t := by
      simp only [machine, Bus.step, workerStep, at_deliver, List.cons_append, t]
    obtain ⟨calls, early⟩ : ∃ calls, t.delivered = s.delivered ++ calls := by
      by_cases first_wants : first.wants event
      · exact ⟨_, by simp only [t, first_wants, if_true]; rfl⟩
      · exact ⟨[], by simp only [t, first_wants, Bool.false_eq_true, if_false, List.append_nil]⟩
    obtain ⟨s', run, more, late, called⟩ := ih (s := t) rfl
    refine ⟨s', ?_, calls ++ more, ?_, List.mem_append_right _ called⟩
    · rw [List.length_cons, List.replicate_succ, Machine.runFrom_cons, step]
      exact run
    · rw [late, early, List.append_assoc]

/-- A pending handler can be called by the worker alone. -/
theorem Pending.calls (queue : MpmcQueue Event) {id : Nat} (pending : s.Pending id) :
    ∃ schedule s' calls, (machine τ queue).runFrom s schedule = some s' ∧
      s'.delivered = s.delivered ++ calls ∧ ∃ d ∈ calls, d.subscription = id := by
  cases at_deliver : s.worker with
  | deliver final ticket event rest =>
    obtain ⟨sub, held, same, wants⟩ := (pending_deliver at_deliver id).mp pending
    obtain ⟨before, later, rfl⟩ := List.append_of_mem held
    obtain ⟨s', run, calls, delivered, called⟩ :=
      deliver_steps queue wants before later at_deliver
    exact ⟨_, s', calls, run, delivered, _, called, same⟩
  | _ =>
    rw [Pending, at_deliver] at pending
    exact pending.elim

/-- `unsubscribe` is the end of a subscription exactly when the worker has it
not pending. -/
theorem quiesces_iff (queue : MpmcQueue Event) (numbered : s.Numbered) {id : Nat}
    (held : ∃ sub ∈ s.subscriptions, sub.id = id) :
    (∀ schedule s', (machine τ queue).runFrom (s.unsubscribe id) schedule = some s' →
      ∀ d ∈ s'.delivered.drop s.delivered.length, d.subscription ≠ id) ↔ ¬s.Pending id := by
  constructor
  · intro quiet pending
    have still : (s.unsubscribe id).Pending id := pending
    obtain ⟨schedule, s', calls, run, delivered, d, called, same⟩ := still.calls queue
    have before : (s.unsubscribe id).delivered = s.delivered := rfl
    have late : d ∈ s'.delivered.drop s.delivered.length := by
      rw [delivered, before, List.drop_left]
      exact called
    exact quiet schedule s' run d late same
  · intro idle schedule s' run d late
    have gone := gone_unsubscribe numbered held idle
    obtain ⟨calls, delivered, spared⟩ := gone.run schedule run
    have before : (s.unsubscribe id).delivered = s.delivered := rfl
    rw [delivered, before, List.drop_left] at late
    exact spared d late

end IndustrialRuntime.Core.EventBus.Bus
