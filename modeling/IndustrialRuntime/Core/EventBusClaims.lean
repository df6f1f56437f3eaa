import IndustrialRuntime.Core.EventBusRoles

namespace IndustrialRuntime.Core.EventBus

open MpmcQueue (Pc Enqueued System)

namespace Bus

variable {τ : Type*} {s s' : Bus τ} {C : Nat}

/-- A publish whose item is in its cell: it is about to return true, or has. -/
inductive Published (s : Bus τ) (ticket : UInt64) (event : Event) (held : List Subscription) :
    Prop where
  | releasing (t : τ) (h : s.publisher t = .releasing ticket event held)
  | accepted (h : ⟨ticket, event, held⟩ ∈ s.accepted)

/-- A publish that has won its ticket. -/
inductive Holds (s : Bus τ) (ticket : UInt64) (event : Event) (held : List Subscription) :
    Prop where
  | writing (t : τ) (h : s.publisher t = .enqueueing event held)
      (w : (s.queue.pc (some t)).writes = some ticket)
  | published (h : s.Published ticket event held)

/-- Tickets carry the events of their calls; a subscription that was held when
the call began and still is has been in the ticket's snapshot. -/
structure Claims (s : Bus τ) : Prop where
  ids : (s.subscriptions.map Subscription.id).Nodup
  fresh : ∀ sub ∈ s.subscriptions, sub.id < s.nextId
  calling : ∀ t event held, s.publisher t = .enqueueing event held →
    ∀ sub ∈ held, sub.id < s.nextId
  holding : ∀ ticket event held, s.Holds ticket event held → ∀ sub ∈ held, sub.id < s.nextId
  logged : ∀ ticket event held, s.Holds ticket event held →
    ∃ thread, s.queue.enqueued[ticket.toNat]? = some ⟨ticket, thread, event⟩
  kept : ∀ ticket event held, s.Holds ticket event held → ∀ subs,
    s.snapshots[ticket.toNat]? = some subs → ∀ sub ∈ held, sub ∈ s.subscriptions → sub ∈ subs
  written : ∀ ticket event held, s.Published ticket event held →
    ∀ u pos, (s.queue.pc u).writes = some pos → pos ≠ ticket

theorem Published.of_same {ticket : UInt64} {event : Event} {held : List Subscription}
    (h : s'.Published ticket event held) (publisher : s'.publisher = s.publisher)
    (accepted : s'.accepted = s.accepted) : s.Published ticket event held := by
  cases h with
  | releasing t ht => exact .releasing t (publisher ▸ ht)
  | accepted ha => exact .accepted (accepted ▸ ha)

/-- What a step shows to come from the state before: its publishes, subscriptions and
snapshots. -/
structure Carried (s s' : Bus τ) : Prop where
  ids : (s'.subscriptions.map Subscription.id).Nodup
  fresh : ∀ sub ∈ s'.subscriptions, sub.id < s'.nextId
  nextId : s.nextId ≤ s'.nextId
  subscriptions : ∀ sub ∈ s'.subscriptions, sub.id < s.nextId → sub ∈ s.subscriptions
  calling : ∀ t event held, s'.publisher t = .enqueueing event held →
    s.publisher t = .enqueueing event held ∨
      ((∀ sub ∈ held, sub.id < s'.nextId) ∧ (s'.queue.pc (some t)).writes = none)
  published : ∀ ticket event held, s'.Published ticket event held →
    s.Published ticket event held ∨ ∃ t, s.publisher t = .enqueueing event held ∧
      (s.queue.pc (some t)).writes = some ticket ∧ ∀ u, (s'.queue.pc u).writes ≠ some ticket
  snapshots : ∀ (k : Nat) (subs : List Subscription), s'.snapshots[k]? = some subs →
    s.snapshots[k]? = some subs ∨ ∀ sub ∈ s'.subscriptions, sub ∈ subs

/-- A held subscription is in a snapshot of its ticket after the step, too. -/
theorem Claims.kept_after (h : s.Claims) (carried : Carried s s') {ticket : UInt64} {event : Event}
    {held : List Subscription} (holds : s.Holds ticket event held) (subs : List Subscription)
    (taken : s'.snapshots[ticket.toNat]? = some subs) (sub : Subscription) (found : sub ∈ held)
    (now : sub ∈ s'.subscriptions) : sub ∈ subs := by
  cases carried.snapshots _ subs taken with
  | inl earlier =>
    have old := carried.subscriptions sub now (h.holding ticket event held holds sub found)
    exact h.kept ticket event held holds subs earlier sub found old
  | inr all => exact all sub now

/-- A step in which no publisher wins a ticket. -/
theorem Claims.carry_same (h : s.Claims) (carried : Carried s s')
    (enqueued : s'.queue.enqueued = s.queue.enqueued)
    (writes : ∀ u pos, (s'.queue.pc u).writes = some pos → (s.queue.pc u).writes = some pos) :
    s'.Claims := by
  have back (ticket : UInt64) (event : Event) (held : List Subscription)
      (holds : s'.Holds ticket event held) : s.Holds ticket event held := by
    cases holds with
    | writing t hp hw =>
      cases carried.calling t event held hp with
      | inl before => exact .writing t before (writes _ _ hw)
      | inr started =>
        rw [started.2] at hw
        contradiction
    | published hp =>
      cases carried.published ticket event held hp with
      | inl before => exact .published before
      | inr returned =>
        obtain ⟨t, hp, hw, -⟩ := returned
        exact .writing t hp hw
  refine ⟨carried.ids, carried.fresh, ?_, ?_, ?_, ?_, ?_⟩
  · intro t event held hp sub hsub
    cases carried.calling t event held hp with
    | inl before => exact lt_of_lt_of_le (h.calling t event held before sub hsub) carried.nextId
    | inr started => exact started.1 sub hsub
  · intro ticket event held holds sub hsub
    exact lt_of_lt_of_le (h.holding ticket event held (back _ _ _ holds) sub hsub) carried.nextId
  · intro ticket event held holds
    rw [enqueued]
    exact h.logged ticket event held (back _ _ _ holds)
  · intro ticket event held holds
    exact h.kept_after carried (back _ _ _ holds)
  · intro ticket event held hp u pos hw same
    cases carried.published ticket event held hp with
    | inl before => exact h.written ticket event held before u pos (writes u pos hw) same
    | inr returned =>
      obtain ⟨-, -, -, nobody⟩ := returned
      exact nobody u (same ▸ hw)

variable [DecidableEq τ]

/-- How a step changes the log of tickets and the writers. -/
inductive Writers (s s' : Bus τ) : Prop where
  | same (enqueued : s'.queue.enqueued = s.queue.enqueued)
      (writes : ∀ u pos, (s'.queue.pc u).writes = some pos → (s.queue.pc u).writes = some pos)
  | wins (t : τ) (event : Event) (held : List Subscription) (pos : UInt64)
      (before : s.publisher t = .enqueueing event held)
      (head : s.queue.queue.enqueuePos = pos)
      (enqueued : s'.queue.enqueued = s.queue.enqueued ++ [⟨pos, some t, event⟩])
      (now : (s'.queue.pc (some t)).writes = some pos)
      (others : ∀ u, u ≠ some t → s'.queue.pc u = s.queue.pc u)
      (rest : s' = { s with queue := s'.queue })

theorem writers_goto {q q' : System (Option τ) Event} {u : Option τ} {p : Pc Event}
    (pc : q'.pc u = p) (quiet : p.writes = none) (others : ∀ v, v ≠ u → q'.pc v = q.pc v) :
    ∀ v pos, (q'.pc v).writes = some pos → (q.pc v).writes = some pos := by
  intro v pos hw
  by_cases hv : v = u
  · subst hv
    rw [pc, quiet] at hw
    contradiction
  · rwa [others v hv] at hw

theorem Moved.writers (roles : s.Roles C) {a : Action τ} (moved : s.Moved a s') :
    Writers s s' := by
  cases moved with
  | publish t event queue before offer =>
    obtain ⟨-, rfl⟩ := MpmcQueue.System.offer_eq offer
    have now := System.goto_pc_self s.queue (some t) (.enqueue (.loadPos event))
    exact .same rfl (writers_goto now rfl (fun v hv => System.goto_pc_ne s.queue _ hv))
  | enqueue t spurious event held queue before advance =>
    obtain ⟨pc, hpc, carries⟩ := roles.enqueuing before
    obtain ⟨-, others, effect⟩ := System.advance_enqueue hpc advance
    cases effect with
    | goesOn pc' now writes item enqueued =>
      apply Writers.same enqueued
      intro v pos hw
      by_cases hv : v = some t
      · subst hv
        rwa [← writes]
      · rwa [← others v hv]
    | wins item pos hw carried now head enqueued =>
      have own : item = event := carries item carried
      subst own
      exact .wins t item held pos before head enqueued (by rw [now]; rfl) others rfl
  | enqueued t spurious event held queue before advance =>
    obtain ⟨pc, hpc, -⟩ := roles.enqueuing before
    obtain ⟨-, others, effect⟩ := System.advance_enqueue hpc advance
    cases effect with
    | accepted pos hw now enqueued => exact .same enqueued (writers_goto now rfl others)
  | full t spurious event held queue before advance =>
    obtain ⟨pc, hpc, -⟩ := roles.enqueuing before
    obtain ⟨-, others, effect⟩ := System.advance_enqueue hpc advance
    cases effect with
    | rejected hw now enqueued => exact .same enqueued (writers_goto now rfl others)
  | poll choice final queue before poll =>
    obtain ⟨-, rfl⟩ := System.poll_eq poll
    have now := System.goto_pc_self s.queue none (.dequeue .loadPos)
    exact .same rfl (writers_goto now rfl (fun v hv => System.goto_pc_ne s.queue _ hv))
  | dequeue choice final queue before advance =>
    obtain ⟨pc, hpc⟩ := roles.dequeuing before
    obtain ⟨enqueued, others, effect⟩ := System.advance_dequeue hpc advance
    cases effect with
    | goesOn pc' now => exact .same enqueued (writers_goto now rfl others)
    | wins pos hr head now => exact .same enqueued (writers_goto now rfl others)
  | empty choice final queue before advance =>
    obtain ⟨pc, hpc⟩ := roles.dequeuing before
    obtain ⟨enqueued, others, effect⟩ := System.advance_dequeue hpc advance
    cases effect with
    | empty pos hb behind now =>
      have idle : queue.pc none = .idle := by
        rw [now, System.goto_pc_self]
      exact .same enqueued (writers_goto idle rfl others)
  | dequeued choice final queue item before advance =>
    obtain ⟨pc, hpc⟩ := roles.dequeuing before
    obtain ⟨enqueued, others, effect⟩ := System.advance_dequeue hpc advance
    cases effect with
    | received pos _ hb now => exact .same enqueued (writers_goto now rfl others)
  | stop _ hstop =>
    obtain ⟨queue, -⟩ := stopStep_same hstop
    exact .same (by rw [queue]) (by rw [queue]; exact fun _ _ h => h)
  | _ => exact .same rfl (fun _ _ h => h)

/-- A step in which the publisher `t` wins a ticket. -/
theorem Claims.carry_wins (h : s.Claims) (inv : s.queue.Inv C) (carried : Carried s s')
    (room : s.snapshots.length ≤ s.queue.enqueued.length) {t : τ} {event : Event}
    {held : List Subscription} {pos : UInt64} (before : s.publisher t = .enqueueing event held)
    (head : s.queue.queue.enqueuePos = pos)
    (enqueued : s'.queue.enqueued = s.queue.enqueued ++ [⟨pos, some t, event⟩])
    (now : (s'.queue.pc (some t)).writes = some pos)
    (others : ∀ u, u ≠ some t → s'.queue.pc u = s.queue.pc u)
    (publisher : s'.publisher = s.publisher) (accepted : s'.accepted = s.accepted) :
    s'.Claims := by
  have tail : pos.toNat = s.queue.enqueued.length := head ▸ inv.enqueuePos
  have back (ticket : UInt64) (e : Event) (subs : List Subscription)
      (holds : s'.Holds ticket e subs) :
      s.Holds ticket e subs ∨ ticket = pos ∧ e = event ∧ subs = held := by
    cases holds with
    | writing u hu hw =>
      rw [publisher] at hu
      by_cases hut : u = t
      · subst hut
        rw [before] at hu
        rw [now] at hw
        injection hu with he hs
        exact Or.inr ⟨(Option.some_inj.mp hw).symm, he.symm, hs.symm⟩
      · rw [others (some u) (by simpa using hut)] at hw
        exact Or.inl (.writing u hu hw)
    | published hp => exact Or.inl (.published (hp.of_same publisher accepted))
  refine ⟨carried.ids, carried.fresh, ?_, ?_, ?_, ?_, ?_⟩
  · intro u e subs hu sub hsub
    rw [publisher] at hu
    exact lt_of_lt_of_le (h.calling u e subs hu sub hsub) carried.nextId
  · intro ticket e subs holds sub hsub
    cases back ticket e subs holds with
    | inl earlier =>
      exact lt_of_lt_of_le (h.holding ticket e subs earlier sub hsub) carried.nextId
    | inr won =>
      obtain ⟨rfl, rfl, rfl⟩ := won
      exact lt_of_lt_of_le (h.calling t e subs before sub hsub) carried.nextId
  · intro ticket e subs holds
    rw [enqueued]
    cases back ticket e subs holds with
    | inl earlier =>
      obtain ⟨thread, hlog⟩ := h.logged ticket e subs earlier
      exact ⟨thread, MpmcQueue.getElem?_append_some hlog _⟩
    | inr won =>
      obtain ⟨rfl, rfl, rfl⟩ := won
      exact ⟨some t, by rw [tail]; exact List.getElem?_concat_length⟩
  · intro ticket e subs holds taken htaken sub hsub hnow
    cases back ticket e subs holds with
    | inl earlier => exact h.kept_after carried earlier taken htaken sub hsub hnow
    | inr won =>
      obtain ⟨rfl, rfl, rfl⟩ := won
      cases carried.snapshots _ taken htaken with
      | inl old =>
        have := (List.getElem?_eq_some_iff.mp old).1
        omega
      | inr all => exact all sub hnow
  · intro ticket e subs hp u q hw same
    subst same
    have earlier := hp.of_same publisher accepted
    by_cases hut : u = some t
    · subst hut
      rw [now] at hw
      obtain rfl := Option.some_inj.mp hw
      obtain ⟨thread, hlog⟩ := h.logged pos e subs (.published earlier)
      have := (List.getElem?_eq_some_iff.mp hlog).1
      omega
    · rw [others u hut] at hw
      exact h.written q e subs earlier u q hw rfl

theorem Claims.carry (h : s.Claims) (inv : s.queue.Inv C) (writers : Writers s s')
    (room : s.snapshots.length ≤ s.queue.enqueued.length) (carried : Carried s s') :
    s'.Claims := by
  cases writers with
  | same enqueued writes => exact h.carry_same carried enqueued writes
  | wins t event held pos before head enqueued now others rest =>
    exact h.carry_wins inv carried room before head enqueued now others (by rw [rest])
      (by rw [rest])

/-- A step that touches neither publishers nor subscriptions nor snapshots. -/
theorem Claims.quiet (h : s.Claims) (inv : s.queue.Inv C)
    (writers : Writers s s') (room : s.snapshots.length ≤ s.queue.enqueued.length)
    (subscriptions : s'.subscriptions = s.subscriptions) (nextId : s'.nextId = s.nextId)
    (publisher : s'.publisher = s.publisher) (accepted : s'.accepted = s.accepted)
    (snapshots : s'.snapshots = s.snapshots) : s'.Claims := by
  refine h.carry inv writers room ⟨?_, ?_, nextId.ge, ?_, ?_, ?_, ?_⟩
  · rw [subscriptions]
    exact h.ids
  · rw [subscriptions, nextId]
    exact h.fresh
  · intro sub hsub _
    rwa [subscriptions] at hsub
  · intro t event held hp
    rw [publisher] at hp
    exact Or.inl hp
  · exact fun _ _ _ hp => Or.inl (hp.of_same publisher accepted)
  · intro k subs hk
    rw [snapshots] at hk
    exact Or.inl hk

/-- A step of publisher `t` that leaves subscriptions and snapshots alone. -/
theorem Claims.publisherMoves (h : s.Claims) (inv : s.queue.Inv C) (writers : Writers s s')
    (room : s.snapshots.length ≤ s.queue.enqueued.length) {t : τ} {p : PublishPc}
    (publisher : s'.publisher = (s.setPublisher t p).publisher)
    (subscriptions : s'.subscriptions = s.subscriptions) (nextId : s'.nextId = s.nextId)
    (snapshots : s'.snapshots = s.snapshots)
    (calling : ∀ event held, p = .enqueueing event held →
      held = s.subscriptions ∧ (s'.queue.pc (some t)).writes = none)
    (releasing : ∀ ticket event held, p = .releasing ticket event held →
      s.publisher t = .enqueueing event held ∧ (s.queue.pc (some t)).writes = some ticket ∧
        ∀ u, (s'.queue.pc u).writes ≠ some ticket)
    (accepted : ∀ ticket event held, ⟨ticket, event, held⟩ ∈ s'.accepted →
      s.Published ticket event held) : s'.Claims := by
  refine h.carry inv writers room ⟨?_, ?_, nextId.ge, ?_, ?_, ?_, ?_⟩
  · rw [subscriptions]
    exact h.ids
  · rw [subscriptions, nextId]
    exact h.fresh
  · intro sub hsub _
    rwa [subscriptions] at hsub
  · intro u event held hp
    rw [publisher] at hp
    by_cases hu : u = t
    · subst hu
      rw [setPublisher_self] at hp
      obtain ⟨rfl, quiet⟩ := calling event held hp
      exact Or.inr ⟨by rw [nextId]; exact h.fresh, quiet⟩
    · rw [setPublisher_ne s p hu] at hp
      exact Or.inl hp
  · intro ticket event held hp
    cases hp with
    | releasing u hp =>
      rw [publisher] at hp
      by_cases hu : u = t
      · subst hu
        rw [setPublisher_self] at hp
        exact Or.inr ⟨u, releasing ticket event held hp⟩
      · rw [setPublisher_ne s p hu] at hp
        exact Or.inl (.releasing u hp)
    | accepted ha => exact Or.inl (accepted ticket event held ha)
  · intro k subs hk
    rw [snapshots] at hk
    exact Or.inl hk

theorem Claims.step (h : s.Claims) (roles : s.Roles C) (few : s.queue.offers < 2 ^ 63)
    (room : s.snapshots.length ≤ s.queue.enqueued.length) {a : Action τ}
    (moved : s.Moved a s') : s'.Claims := by
  have inv := roles.sound.inv
  have writers := moved.writers roles
  have accepted_same : ∀ ticket event held, Accepted.mk ticket event held ∈ s.accepted →
      s.Published ticket event held := fun _ _ _ ha => .accepted ha
  cases moved with
  | publish t event queue before offer =>
    obtain ⟨hpc, rfl⟩ := System.offer_eq offer
    refine h.publisherMoves inv writers room rfl rfl rfl rfl ?_ nofun accepted_same
    intro e held he
    injection he with _ hheld
    refine ⟨hheld.symm, ?_⟩
    change (((s.queue.goto (some t) _).pc (some t))).writes = none
    rw [System.goto_pc_self]
    rfl
  | enqueued t spurious event held queue before advance =>
    obtain ⟨pc, hpc, -⟩ := roles.enqueuing before
    have sound := roles.sound.advance few advance
    obtain ⟨-, others, effect⟩ := System.advance_enqueue hpc advance
    cases effect with
    | accepted pos hw now enqueued =>
      refine h.publisherMoves inv writers room rfl rfl rfl rfl nofun ?_ accepted_same
      intro ticket e subs hp
      rw [hw] at hp
      injection hp with hticket he hsubs
      obtain rfl : pos = ticket := hticket
      subst he hsubs
      refine ⟨before, hw, ?_⟩
      intro u hu
      by_cases hut : u = some t
      · subst hut
        rw [now] at hu
        contradiction
      · -- two writers of one ticket would be two threads with one log entry
        rw [others u hut] at hu
        exact hut (inv.owner_unique (System.writes_of_owns hu) (System.writes_of_owns hw) rfl)
  | full t spurious event held queue before advance =>
    exact h.publisherMoves inv writers room rfl rfl rfl rfl nofun nofun accepted_same
  | release t spurious ticket event held before =>
    refine h.publisherMoves inv writers room rfl rfl rfl rfl nofun nofun ?_
    intro ticket' event' held' ha
    simp only at ha
    split_ifs at ha
    · rw [List.mem_append, List.mem_singleton] at ha
      cases ha with
      | inl earlier => exact .accepted earlier
      | inr now =>
        injection now with h1 h2 h3
        subst h1 h2 h3
        exact .releasing t before
    · exact .accepted ha
  | drop t spurious before =>
    exact h.publisherMoves inv writers room rfl rfl rfl rfl nofun nofun accepted_same
  | snapshot choice final ticket event before =>
    refine h.carry inv writers room ⟨h.ids, h.fresh, le_rfl, fun _ hsub _ => hsub,
      fun _ _ _ hp => Or.inl hp, fun _ _ _ hp => Or.inl (hp.of_same rfl rfl), ?_⟩
    intro k subs hk
    rcases Nat.lt_or_ge k s.snapshots.length with hlt | hge
    · rw [List.getElem?_append_left hlt] at hk
      exact Or.inl hk
    · rw [List.getElem?_append_right hge, List.getElem?_singleton] at hk
      split_ifs at hk
      obtain rfl := Option.some_inj.mp hk
      exact Or.inr (fun sub hsub => hsub)
  | subscribe filter =>
    refine h.carry inv writers room ⟨nodup_subscribe s filter h.ids h.fresh,
      fresh_subscribe s filter h.fresh, Nat.le_succ _, ?_, fun _ _ _ hp => Or.inl hp,
      fun _ _ _ hp => Or.inl (hp.of_same rfl rfl), fun _ _ hk => Or.inl hk⟩
    intro sub hsub hid
    rw [subscribe, List.mem_append, List.mem_singleton] at hsub
    cases hsub with
    | inl old => exact old
    | inr new =>
      subst new
      exact absurd hid (lt_irrefl _)
  | unsubscribe id =>
    have sublist : (s.subscriptions.eraseP (fun sub => sub.id = id)).Sublist s.subscriptions :=
      List.eraseP_sublist
    exact h.carry inv writers room ⟨h.ids.sublist (sublist.map _),
      fun sub hsub => h.fresh sub (sublist.subset hsub), le_rfl,
      fun sub hsub _ => sublist.subset hsub, fun _ _ _ hp => Or.inl hp,
      fun _ _ _ hp => Or.inl (hp.of_same rfl rfl), fun _ _ hk => Or.inl hk⟩
  | stop _ hstop =>
    obtain ⟨-, -, publisher, subscriptions, nextId, accepted, -, snapshots⟩ := stopStep_same hstop
    exact h.quiet inv writers room subscriptions nextId publisher accepted snapshots
  | _ => exact h.quiet inv writers room rfl rfl rfl rfl rfl

end Bus

end IndustrialRuntime.Core.EventBus
