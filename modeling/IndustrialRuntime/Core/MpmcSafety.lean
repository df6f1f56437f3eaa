import IndustrialRuntime.Core.MpmcRecord

namespace IndustrialRuntime.Core.MpmcQueue

variable {T τ : Type*}

/-- The elements at ascending positions form a sublist. -/
theorem filterMap_getElem?_sublist {α : Type*} (l : List α) (ks : List Nat) (n : Nat)
    (ascending : ks.Pairwise (· < ·)) (from_n : ∀ k ∈ ks, n ≤ k) :
    (ks.filterMap (fun k => l[k]?)).Sublist (l.drop n) := by
  induction ks generalizing n with
  | nil => exact List.nil_sublist _
  | cons k ks ih =>
    obtain ⟨above, rest⟩ := List.pairwise_cons.mp ascending
    have hk : n ≤ k := from_n k List.mem_cons_self
    have tail := ih (k + 1) rest (fun j hj => above j hj)
    cases hl : l[k]? with
    | none =>
      rw [List.filterMap_cons_none hl]
      exact tail.trans (List.drop_sublist_drop_left l (by omega))
    | some a =>
      rw [List.filterMap_cons_some hl]
      have here : l.drop k = a :: l.drop (k + 1) := by
        obtain ⟨hlt, ha⟩ := List.getElem?_eq_some_iff.mp hl
        rw [List.drop_eq_getElem_cons hlt, ha]
      have first : (a :: ks.filterMap (fun k => l[k]?)).Sublist (l.drop k) := by
        rw [here]
        exact tail.cons_cons a
      exact first.trans (List.drop_sublist_drop_left l hk)

/-- The constructor's queue: `C` cells, all free. -/
theorem create_sized {capacity : UInt64} {queue : MpmcQueue T} (h : create capacity = some queue) :
    ∃ C, queue.Sized C ∧ (System.start queue : System τ T).Inv C := by
  obtain ⟨size, hsize, rfl⟩ := Option.map_eq_some_iff.mp h
  obtain ⟨two, m, hm⟩ := roundUpPow2_pow hsize
  have below : 2 ^ m < 2 ^ 64 := hm ▸ size.toNat_lt
  have hm64 : m < 64 := (Nat.pow_lt_pow_iff_right (by decide)).mp below
  have le : size.toNat ≤ 2 ^ 63 := by
    rw [hm]
    exact Nat.pow_le_pow_right (by decide) (by omega)
  have mask : (size - 1).toNat = size.toNat - 1 := by
    rw [UInt64.toNat_sub_of_le]
    · rfl
    · rw [UInt64.le_iff_toNat_le]
      change 1 ≤ size.toNat
      omega
  have sized : MpmcQueue.Sized (T := T) ⟨fun i => ⟨UInt64.ofNat i, none⟩, size - 1, 0, 0⟩
      size.toNat := ⟨two, le, ⟨m, hm⟩, mask⟩
  refine ⟨size.toNat, sized, sized, rfl, rfl, ?_, ?_, le_rfl, ?_, fun _ => trivial⟩
  · simp [System.start]
  · simp [System.start]
  · intro i hi
    have value : (UInt64.ofNat i).toNat = i := UInt64.toNat_ofNat_of_lt (by
      change i < 2 ^ 64
      omega)
    refine ⟨i, Nat.mod_eq_of_lt hi, Or.inl ⟨?_, Nat.zero_le _, ?_, Nat.zero_le _, ?_, ?_⟩⟩
    · rw [Nat.mod_eq_of_lt hi]
      exact value
    · change i < 0 + size.toNat
      omega
    · intro hlt
      exact absurd hlt (Nat.not_lt_zero i)
    · intro _
      rfl

namespace System

/-- All that holds of a state while fewer than 2^63 offers were made. -/
structure Sound (s : System τ T) (C : Nat) : Prop where
  inv : s.Inv C
  budget : s.Budget
  delivered : s.Delivered

theorem nodup_of_indexed {α : Type*} (l : List α) (ticket : α → UInt64)
    (h : ∀ k a, l[k]? = some a → (ticket a).toNat = k) : (l.map ticket).Nodup := by
  rw [List.nodup_iff_getElem?_ne_getElem?]
  intro i j hij hj same
  rw [List.length_map] at hj
  rw [List.getElem?_map, List.getElem?_map, List.getElem?_eq_getElem hj,
    List.getElem?_eq_getElem (by omega : i < l.length), Option.map_some, Option.map_some,
    Option.some_inj] at same
  have at_i := h i _ (List.getElem?_eq_getElem (by omega))
  have at_j := h j _ (List.getElem?_eq_getElem hj)
  rw [same] at at_i
  omega

/-- An unread ticket is the current one of its cell. -/
theorem Inv.unread_current {s : System τ T} {C k : Nat} (h : s.Inv C)
    (unread : s.dequeued.length ≤ k) (claimed : k < s.enqueued.length) :
    s.Free C k ∨ s.Full C k := by
  have two := h.sized.two_le
  obtain ⟨j, hj, phase⟩ := h.cells (k % C) (Nat.mod_lt _ (by omega))
  cases phase with
  | inl free =>
    have := free.near
    have := free.unclaimed
    exact Or.inl (eq_of_mod_eq hj (by omega) (by omega) ▸ free)
  | inr full =>
    have := full.near
    have := full.unclaimed
    exact Or.inr (eq_of_mod_eq hj (by omega) (by omega) ▸ full)

/-- Where the item of a logged enqueue is. -/
inductive Located (s : System τ T) (e : Enqueued τ T) : Prop where
  | withProducer (h : s.pc e.thread = .enqueue (.storeData e.item e.ticket))
  | inCell (h : (s.queue.cell e.ticket).data = some e.item)
  | withConsumer (t : τ) (h : s.pc t = .dequeue (.storeSequence e.ticket (some e.item)))
  | received (r : Received τ T) (h : r ∈ s.received) (ticket : r.ticket = e.ticket)
      (item : r.item = some e.item)

theorem Sound.located {s : System τ T} {C : Nat} (h : s.Sound C) {e : Enqueued τ T}
    (he : e ∈ s.enqueued) : s.Located e := by
  obtain ⟨k, hk⟩ := List.getElem?_of_mem he
  have ticket := h.inv.enqueueTicket k e hk
  have claimed := (List.getElem?_eq_some_iff.mp hk).1
  have index := h.inv.sized.index e.ticket
  rcases Nat.lt_or_ge k s.dequeued.length with hread | hunread
  · rcases h.delivered.complete k hread with ⟨t, pos, hreads, hpos⟩ | ⟨r, hr, hrk⟩
    · have own : pos = e.ticket := UInt64.toNat_inj.mp (hpos.trans ticket.symm)
      subst own
      have ok := h.inv.threads t
      cases hpc : s.pc t with
      | idle => simp [hpc, Pc.reads] at hreads
      | enqueue pc => simp [hpc, Pc.reads] at hreads
      | dequeue pc =>
        rw [hpc] at ok
        cases pc with
        | moveData p =>
          obtain rfl : p = e.ticket := by simpa [hpc, Pc.reads] using hreads
          obtain ⟨-, -, e', he', hdata⟩ := ok
          rw [ticket, hk] at he'
          obtain rfl := Option.some_inj.mp he'
          exact .inCell (by rw [cell, index]; exact hdata)
        | storeSequence p out =>
          obtain rfl : p = e.ticket := by simpa [hpc, Pc.reads] using hreads
          obtain ⟨-, -, -, e', he', hout⟩ := ok
          rw [ticket, hk] at he'
          obtain rfl := Option.some_inj.mp he'
          exact .withConsumer t (by rw [hpc, hout])
        | loadPos => simp [hpc, Pc.reads] at hreads
        | loadSequence => simp [hpc, Pc.reads] at hreads
        | compareExchange => simp [hpc, Pc.reads] at hreads
    · obtain ⟨e', he', hitem, -⟩ := h.delivered.logged r hr
      rw [hrk, hk] at he'
      obtain rfl := Option.some_inj.mp he'
      exact .received r hr (UInt64.toNat_inj.mp (hrk.trans ticket.symm)) hitem
  · cases h.inv.unread_current hunread claimed with
    | inl free =>
      obtain ⟨t, pos, hwrites, hpos⟩ := free.owner claimed
      have own : pos = e.ticket := UInt64.toNat_inj.mp (hpos.trans ticket.symm)
      subst own
      have ok := h.inv.threads t
      cases hpc : s.pc t with
      | idle => simp [hpc, Pc.writes] at hwrites
      | dequeue pc => simp [hpc, Pc.writes] at hwrites
      | enqueue pc =>
        rw [hpc] at ok
        cases pc with
        | storeData item p =>
          obtain rfl : p = e.ticket := by simpa [hpc, Pc.writes] using hwrites
          obtain ⟨hlog, -, -, -⟩ := ok
          rw [ticket, hk] at hlog
          have same := Option.some_inj.mp hlog
          obtain rfl : e.thread = t := congrArg Enqueued.thread same
          obtain rfl : e.item = item := congrArg Enqueued.item same
          exact .withProducer hpc
        | storeSequence p =>
          obtain rfl : p = e.ticket := by simpa [hpc, Pc.writes] using hwrites
          obtain ⟨-, -, item, hlog, hdata⟩ := ok
          rw [ticket, hk] at hlog
          have same := Option.some_inj.mp hlog
          obtain rfl : e.item = item := congrArg Enqueued.item same
          exact .inCell (by rw [cell, index]; exact hdata)
        | loadPos => simp [hpc, Pc.writes] at hwrites
        | loadSequence => simp [hpc, Pc.writes] at hwrites
        | compareExchange => simp [hpc, Pc.writes] at hwrites
    | inr full =>
      obtain ⟨e', he', hdata⟩ := full.data hunread
      rw [hk] at he'
      obtain rfl := Option.some_inj.mp he'
      exact .inCell (by rw [cell, index, ticket]; exact hdata)

theorem Sound.once {s : System τ T} {C : Nat} (h : s.Sound C) :
    (s.received.map Received.ticket).Nodup := by
  rw [List.Nodup, List.pairwise_map]
  apply h.delivered.ascending.imp_of_mem
  intro a b ha hb below same
  obtain ⟨-, -, -, la⟩ := h.delivered.logged a ha
  obtain ⟨-, -, -, lb⟩ := h.delivered.logged b hb
  rw [same, lb] at la
  injection la with entry
  injection entry with _ thread
  have := below thread.symm
  rw [same] at this
  omega

/-- The thread whose enqueue holds a ticket. -/
def producerOf (s : System τ T) (ticket : UInt64) : Option τ :=
  (s.enqueued.find? (fun e => e.ticket = ticket)).map Enqueued.thread

theorem producerOf_eq {s : System τ T} {C k : Nat} (h : s.Inv C) {e : Enqueued τ T}
    (he : s.enqueued[k]? = some e) : s.producerOf e.ticket = some e.thread := by
  unfold producerOf
  have mem := List.mem_of_getElem? he
  cases hf : s.enqueued.find? (fun e' => e'.ticket = e.ticket) with
  | none =>
    have := List.find?_eq_none.mp hf e mem
    simp at this
  | some e' =>
    have same : e'.ticket = e.ticket := by simpa using List.find?_some hf
    obtain ⟨j, hj⟩ := List.getElem?_of_mem (List.mem_of_find?_eq_some hf)
    have index : j = k := by
      rw [← h.enqueueTicket j e' hj, ← h.enqueueTicket k e he, same]
    rw [index, he] at hj
    rw [Option.some_inj.mp hj]
    rfl

/-! ### Runs -/

variable [DecidableEq τ]

theorem Sound.advance {s s' : System τ T} {C : Nat} (h : s.Sound C) (few : s.offers < 2 ^ 63)
    {t : τ} {spurious : Bool} {out : Option (Outcome T)}
    (step : s.advance t spurious = some (s', out)) : s'.Sound C := by
  have claimed := h.budget.le
  have le := h.inv.le
  refine ⟨?_, h.budget.advance step, ?_⟩
  · rcases advance_cases step with ⟨p, hs, -, rfl, -, ok⟩ | ⟨item, pos, hpc, hpos, rfl⟩ |
      ⟨item, pos, hpc, rfl⟩ | ⟨pos, hpc, -, rfl⟩ | ⟨pos, hpc, hpos, rfl⟩ | ⟨pos, hpc, rfl⟩ |
      ⟨pos, item, hpc, -, rfl⟩
    · exact h.inv.quiet t p (owns_of_searching hs) (ok C h.inv (by omega)) s.received s.offers
    · exact h.inv.claimEnqueue hpc hpos (by omega)
    · exact h.inv.storeData hpc
    · exact h.inv.publish hpc (by omega)
    · exact h.inv.claimDequeue hpc hpos (by omega)
    · exact h.inv.moveData hpc
    · exact h.inv.release hpc (by omega) _
  · rcases advance_cases step with ⟨p, hs, hown, rfl, -, -⟩ | ⟨item, pos, hpc, -, rfl⟩ |
      ⟨item, pos, hpc, rfl⟩ | ⟨pos, hpc, -, rfl⟩ | ⟨pos, hpc, hpos, rfl⟩ | ⟨pos, hpc, rfl⟩ |
      ⟨pos, item, hpc, -, rfl⟩
    · have before := reads_eq_none (owns_of_searching hs)
      have after := reads_eq_none hown
      exact h.delivered.stay (before.trans after.symm) rfl rfl (List.append_nil _).symm rfl
    · exact h.delivered.stay (by rw [hpc]; rfl) rfl rfl rfl rfl
    · exact h.delivered.stay (by rw [hpc]; rfl) rfl rfl (List.append_nil _).symm rfl
    · exact h.delivered.stay (by rw [hpc]; rfl) rfl rfl (List.append_nil _).symm rfl
    · have head : pos.toNat = s.dequeued.length := hpos ▸ h.inv.dequeuePos
      exact h.delivered.claimDequeue head (by rw [hpc]; rfl) rfl rfl rfl rfl rfl
    · exact h.delivered.stay (by rw [hpc]; rfl) rfl rfl (List.append_nil _).symm rfl
    · exact h.delivered.release hpc (h.inv.threads t) rfl rfl rfl rfl

theorem Sound.offer {s s' : System τ T} {C : Nat} (h : s.Sound C) {t : τ} {item : T}
    (step : s.offer t item = some s') : s'.Sound C := by
  have charged := h.budget.offer step
  obtain ⟨hpc, rfl⟩ := offer_eq step
  have idle : (s.pc t).owns = none := by
    rw [hpc]
    rfl
  have ok : s.ThreadOk C t (.enqueue (.loadPos item)) := trivial
  refine ⟨h.inv.quiet t _ idle ok s.received _, charged, ?_⟩
  exact h.delivered.stay (by rw [hpc]; rfl) rfl rfl (List.append_nil _).symm rfl

theorem Sound.poll {s s' : System τ T} {C : Nat} (h : s.Sound C) {t : τ}
    (step : s.poll t = some s') : s'.Sound C := by
  obtain ⟨hpc, rfl⟩ := poll_eq step
  have idle : (s.pc t).owns = none := by
    rw [hpc]
    rfl
  have ok : s.ThreadOk C t (.dequeue .loadPos) := trivial
  refine ⟨h.inv.quiet t _ idle ok s.received s.offers, ?_, ?_⟩
  · exact h.budget.stay (by rw [hpc]; rfl) rfl rfl rfl
  · exact h.delivered.stay (by rw [hpc]; rfl) rfl rfl (List.append_nil _).symm rfl

theorem offers_advance {s s' : System τ T} {t : τ} {spurious : Bool} {out : Option (Outcome T)}
    (step : s.advance t spurious = some (s', out)) : s'.offers = s.offers := by
  rcases advance_cases step with ⟨_, _, _, rfl, _⟩ | ⟨_, _, _, _, rfl⟩ | ⟨_, _, _, rfl⟩ |
    ⟨_, _, _, rfl⟩ | ⟨_, _, _, rfl⟩ | ⟨_, _, rfl⟩ | ⟨_, _, _, _, rfl⟩ <;> rfl

/-- One step of the system, after fewer than 2^63 offers. -/
theorem Sound.step {s s' : System τ T} {C : Nat} (h : s.Sound C) (few : s.offers < 2 ^ 63)
    {a : Action τ T} (step : s.step a = some s') : s'.Sound C := by
  cases a with
  | enqueue t item => exact h.offer step
  | dequeue t => exact h.poll step
  | advance t spurious =>
    obtain ⟨⟨u, out⟩, hadv, rfl⟩ := Option.map_eq_some_iff.mp step
    exact h.advance few hadv

end System

/-- The actions that start a `tryEnqueue` call. -/
def Action.isOffer : Action τ T → Bool
  | .enqueue _ _ => true
  | _ => false

namespace System

variable [DecidableEq τ]

theorem offers_step {s s' : System τ T} {a : Action τ T} (step : s.step a = some s') :
    s'.offers = s.offers + if a.isOffer then 1 else 0 := by
  cases a with
  | enqueue t item =>
    obtain ⟨-, rfl⟩ := offer_eq step
    rfl
  | dequeue t =>
    obtain ⟨-, rfl⟩ := poll_eq step
    rfl
  | advance t spurious =>
    obtain ⟨⟨u, out⟩, hadv, rfl⟩ := Option.map_eq_some_iff.mp step
    exact offers_advance hadv

/-- A run of fewer than 2^63 offers keeps the system sound. -/
theorem sound_run {queue : MpmcQueue T} {C : Nat} (init : (start queue : System τ T).Inv C)
    (schedule : List (Action τ T)) (few : schedule.countP Action.isOffer < 2 ^ 63)
    (s : System τ T) (run : (machine τ queue).run schedule = some s) :
    s.Sound C ∧ s.offers = schedule.countP Action.isOffer := by
  induction schedule using List.reverseRecOn generalizing s with
  | nil =>
    obtain rfl : start queue = s := Option.some_inj.mp run
    exact ⟨⟨init, budget_start queue, delivered_start queue⟩, rfl⟩
  | append_singleton as a ih =>
    rw [List.countP_append, List.countP_singleton] at few ⊢
    rw [Machine.run, Machine.runFrom_snoc] at run
    obtain ⟨u, hu, step⟩ := Option.bind_eq_some_iff.mp run
    obtain ⟨sound, offers⟩ := ih (by omega) u hu
    refine ⟨sound.step (by omega) step, ?_⟩
    rw [offers_step step, offers]

/-! ### Safety of a run -/

/-- Items of `producer`, in the order it enqueued them. -/
def sentBy (s : System τ T) (producer : τ) : List T :=
  (s.enqueued.filter (fun e => e.thread = producer)).map Enqueued.item

/-- Items of `producer` that `consumer` received, in the order it received them. -/
def receivedFrom (s : System τ T) (consumer producer : τ) : List T :=
  (s.received.filter
    (fun r => r.thread = consumer ∧ s.producerOf r.ticket = some producer)).filterMap Received.item

/-- Tickets, items and cells are never shared, lost or mixed up. -/
structure Safe (s : System τ T) : Prop where
  enqueueTickets : (s.enqueued.map Enqueued.ticket).Nodup
  dequeueTickets : (s.dequeued.map Dequeued.ticket).Nodup
  enqueueOwner : ∀ t pos, (s.pc t).writes = some pos → ∃ item, ⟨pos, t, item⟩ ∈ s.enqueued
  dequeueOwner : ∀ t pos, (s.pc t).reads = some pos → ⟨pos, t⟩ ∈ s.dequeued
  exact_item : ∀ r ∈ s.received, ⟨r.ticket, r.thread⟩ ∈ s.dequeued ∧
    ∃ e ∈ s.enqueued, e.ticket = r.ticket ∧ r.item = some e.item
  once : (s.received.map Received.ticket).Nodup
  exclusive : ∀ t u a b, (s.pc t).owns = some a → (s.pc u).owns = some b →
    s.queue.index a = s.queue.index b → t = u
  located : ∀ e ∈ s.enqueued, s.Located e
  unread : ∀ t item pos, s.pc t = .enqueue (.storeData item pos) →
    (s.queue.cell pos).data = none
  order : ∀ consumer producer, (s.receivedFrom consumer producer).Sublist (s.sentBy producer)

/-- A consumer receives a producer's items in the producer's order. -/
theorem Sound.order {s : System τ T} {C : Nat} (h : s.Sound C) (consumer producer : τ) :
    (s.receivedFrom consumer producer).Sublist (s.sentBy producer) := by
  let seen := s.received.filter
    (fun r => r.thread = consumer ∧ s.producerOf r.ticket = some producer)
  have mine : ∀ r ∈ seen, r ∈ s.received ∧ r.thread = consumer ∧
      s.producerOf r.ticket = some producer := by
    intro r hr
    simpa [seen] using hr
  have ascending : (seen.map (fun r => r.ticket.toNat)).Pairwise (· < ·) := by
    rw [List.pairwise_map]
    apply (h.delivered.ascending.filter _).imp_of_mem
    intro a b ha hb below
    exact below ((mine a ha).2.1.trans (mine b hb).2.1.symm)
  have entries := filterMap_getElem?_sublist s.enqueued _ 0 ascending (fun _ _ => Nat.zero_le _)
  rw [List.drop_zero] at entries
  have own : (((seen.map (fun r => r.ticket.toNat)).filterMap (fun k => s.enqueued[k]?)).filter
      (fun e => e.thread = producer)) =
      (seen.map (fun r => r.ticket.toNat)).filterMap (fun k => s.enqueued[k]?) := by
    rw [List.filter_eq_self]
    intro e he
    obtain ⟨k, hk, hlog⟩ := List.mem_filterMap.mp he
    obtain ⟨r, hr, rfl⟩ := List.mem_map.mp hk
    have same : e.ticket = r.ticket := UInt64.toNat_inj.mp (h.inv.enqueueTicket _ e hlog)
    have thread := (mine r hr).2.2
    rw [← same, producerOf_eq h.inv hlog] at thread
    exact decide_eq_true (Option.some_inj.mp thread)
  have items : s.receivedFrom consumer producer =
      ((seen.map (fun r => r.ticket.toNat)).filterMap (fun k => s.enqueued[k]?)).map
        Enqueued.item := by
    rw [List.filterMap_map, List.map_filterMap]
    apply List.filterMap_congr
    intro r hr
    obtain ⟨e, he, hitem, -⟩ := h.delivered.logged r (mine r hr).1
    simp [he, hitem]
  rw [items, ← own]
  exact (entries.filter _).map _

/-- The guarantees of a state that fewer than 2^63 offers have led to. -/
theorem Sound.safe {s : System τ T} {C : Nat} (h : s.Sound C) : s.Safe where
  enqueueTickets := nodup_of_indexed _ _ h.inv.enqueueTicket
  dequeueTickets := nodup_of_indexed _ _ h.inv.dequeueTicket
  enqueueOwner := by
    intro t pos ht
    obtain ⟨-, item, hlog⟩ := h.inv.writer_sequence ht
    exact ⟨item, List.mem_of_getElem? hlog⟩
  dequeueOwner := by
    intro t pos ht
    exact List.mem_of_getElem? (h.inv.reader_sequence ht).2
  exact_item := by
    intro r hr
    obtain ⟨e, he, hitem, hlog⟩ := h.delivered.logged r hr
    have ticket : e.ticket = r.ticket := UInt64.toNat_inj.mp (h.inv.enqueueTicket _ e he)
    exact ⟨List.mem_of_getElem? hlog, e, List.mem_of_getElem? he, ticket, hitem⟩
  once := h.once
  exclusive := by
    intro t u a b ht hu cell
    rw [h.inv.sized.index, h.inv.sized.index] at cell
    exact h.inv.owner_unique ht hu cell
  located := fun e he => h.located he
  unread := by
    intro t item pos hpc
    have ok := h.inv.threads t
    rw [hpc] at ok
    rw [cell, h.inv.sized.index]
    exact ok.2.2.2
  order := h.order

end System

/-- Every run on a constructed queue is safe that makes fewer than 2^63 calls
of `tryEnqueue`, and any number of `tryDequeue`. -/
theorem safe_of_run [DecidableEq τ] {capacity : UInt64} {queue : MpmcQueue T}
    (made : create capacity = some queue) (schedule : List (Action τ T))
    (few : schedule.countP Action.isOffer < 2 ^ 63) (s : System τ T)
    (run : (System.machine τ queue).run schedule = some s) : s.Safe := by
  obtain ⟨C, -, init⟩ := create_sized made
  exact (System.sound_run init schedule few s run).1.safe

/-- Two threads meet in a ring of two cells; one exchange fails spuriously. -/
def handover : List (Action Bool Nat) :=
  [.enqueue true 7, .dequeue false, .advance true false, .advance true false,
    .advance true true, .advance true false, .advance true false, .advance true false,
    .advance true false, .advance false false, .advance false false, .advance false false,
    .advance false false, .advance false false]

theorem safe_of_run_handover : ∃ queue s, create 2 = some queue ∧
    (System.machine Bool queue).run handover = some s ∧
      s.received.map Received.item = [some 7] ∧ s.Safe := by
  obtain ⟨queue, made⟩ : ∃ queue : MpmcQueue Nat, create 2 = some queue := ⟨_, rfl⟩
  have items : ((System.machine Bool queue).run handover).map
      (fun s => s.received.map Received.item) = some [some 7] := by
    obtain rfl := Option.some_inj.mp made
    rfl
  obtain ⟨s, run, received⟩ := Option.map_eq_some_iff.mp items
  exact ⟨queue, s, made, run, received, safe_of_run made handover (by decide) s run⟩

end IndustrialRuntime.Core.MpmcQueue
