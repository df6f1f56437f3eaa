import IndustrialRuntime.Server.PushDelivery
import IndustrialRuntime.Server.ScanIteration

namespace IndustrialRuntime.Irsp

open IndustrialRuntime.Core

namespace TopicMatcher

/-- The pattern `#` admits the concrete topics. -/
theorem matches_all_iff (t : Bytes) : «matches» (ascii "#") t ↔ isConcrete t := by
  have valid : isValidPattern (ascii "#") := by decide
  have segments : splitTopic (ascii "#") = [hash] := by decide
  rw [matches_iff, segments]
  constructor
  · intro h
    exact h.2.1
  · intro h
    exact ⟨valid, h, by simp [matchSegments]⟩

end TopicMatcher

namespace CoreTagSource

variable {hash : Bytes → UInt64} (engine : TagEngine hash)
  (writer : Option (TagWriter (TagEngine hash))) (d : Dispatcher) (id : SubscriberId)
  (count : Option UInt64)

/-- An iteration that ends has returned all that was left, or has stopped behind the name
`"0"`. -/
theorem iterateStore_ends {pattern : Bytes} (hp : TopicMatcher.isValidPattern pattern) {fuel : Nat}
    {done rest out : List Bytes} {cursor : Bytes} (split : matching engine pattern = done ++ rest)
    (at_cursor : Reached done cursor)
    (h : iterateStore engine writer d id pattern count fuel cursor = some out) :
    out = rest ∨ out.getLast? = some zero := by
  induction fuel generalizing done rest out cursor with
  | zero => contradiction
  | succ fuel ih =>
    have answer := scan_of_reached engine pattern (count.getD 0) split at_cursor
    have limit_pos := batchLimit_pos (count.getD 0)
    rw [iterateStore_succ engine writer d id count hp, answer] at h
    by_cases short : rest.length ≤ batchLimit (count.getD 0)
    · rw [if_pos short, if_pos rfl] at h
      exact .inl (Option.some.inj h).symm
    · rw [if_neg short] at h
      have nonempty : rest.take (batchLimit (count.getD 0)) ≠ [] := by
        intro none
        have := congrArg List.length none
        rw [List.length_take, List.length_nil] at this
        omega
      obtain ⟨last, found⟩ : ∃ last,
          (rest.take (batchLimit (count.getD 0))).getLast? = some last :=
        ⟨_, List.getLast?_eq_some_getLast nonempty⟩
      simp only [found, Option.getD_some] at h
      by_cases stop : last = zero
      · rw [if_pos stop] at h
        rw [← Option.some.inj h, found, stop]
        exact .inr rfl
      · rw [if_neg stop] at h
        obtain ⟨later, next, rfl⟩ := Option.map_eq_some_iff.mp h
        have further : matching engine pattern =
            (done ++ rest.take (batchLimit (count.getD 0))) ++
              rest.drop (batchLimit (count.getD 0)) := by
          rw [List.append_assoc, List.take_append_drop, split]
        have reached : Reached (done ++ rest.take (batchLimit (count.getD 0))) last := by
          refine .inr ⟨stop, ?_⟩
          rw [List.getLast?_append, found, Option.some_or]
        rcases ih further reached next with whole | stopped
        · rw [whole, List.take_append_drop]
          exact .inl rfl
        · rw [List.getLast?_append, stopped, Option.some_or]
          exact .inr rfl

/-- A front part of an ascending list holds what is not beyond its last element. -/
theorem mem_take_iff_of_ascending {l : List Bytes} (ascending : l.Pairwise (· < ·)) {k : Nat}
    {last : Bytes} (ends : (l.take k).getLast? = some last) (x : Bytes) :
    x ∈ l.take k ↔ x ∈ l ∧ ¬last < x := by
  have front_last := List.dropLast_append_getLast? last ends
  rw [← List.take_append_drop k l, List.pairwise_append] at ascending
  obtain ⟨sorted, -, below⟩ := ascending
  constructor
  · intro found
    refine ⟨List.mem_of_mem_take found, ?_⟩
    rw [← front_last] at found sorted
    rcases List.mem_append.mp found with before | same
    · rw [List.pairwise_append] at sorted
      exact (sorted.2.2 x before last (List.mem_singleton_self _)).asymm
    · rw [List.mem_singleton.mp same]
      exact lt_irrefl last
  · intro h
    obtain ⟨found, early⟩ := h
    rw [← List.take_append_drop k l] at found
    rcases List.mem_append.mp found with front | back
    · exact front
    · exact absurd (below last (List.mem_of_getLast? ends) x back) early

/-- The client's loop from `"0"` with the pattern `#` ends and lists the name. -/
def Enumerates (n : Bytes) : Prop :=
  ∃ fuel out, iterateStore engine writer d id (ascii "#") count fuel zero = some out ∧ n ∈ out

/-- The loop takes the name `"0"` for its end, and the name comes after it. -/
def CutBefore (n : Bytes) : Prop :=
  ZeroEndsBatch (matching engine (ascii "#")) (batchLimit (count.getD 0)) ∧ zero < n

theorem enumerates_iff (n : Bytes) :
    Enumerates engine writer d id count n ↔
      (∃ tag, engine.lookup n = some tag) ∧ TopicMatcher.isConcrete n ∧
        ¬CutBefore engine count n := by
  have hp : TopicMatcher.isValidPattern (ascii "#") := by decide
  obtain ⟨fuel, k, returned, all⟩ := iterateStore_returns engine writer d id count hp
    (matching engine (ascii "#")) [] zero rfl (.inl ⟨rfl, rfl⟩)
  have listed : Enumerates engine writer d id count n ↔
      n ∈ (matching engine (ascii "#")).take k := by
    constructor
    · intro h
      obtain ⟨fuel', out, ends, found⟩ := h
      rw [iterateStore_unique engine writer d id count hp returned ends]
      exact found
    · intro h
      exact ⟨fuel, _, returned, h⟩
  have stored : n ∈ matching engine (ascii "#") ↔
      (∃ tag, engine.lookup n = some tag) ∧ TopicMatcher.isConcrete n := by
    rw [mem_matching, TopicMatcher.matches_all_iff]
  rw [listed, ← and_assoc, ← stored, CutBefore]
  by_cases cut : ZeroEndsBatch (matching engine (ascii "#")) (batchLimit (count.getD 0))
  · have short : ¬(matching engine (ascii "#")).length ≤ k := fun long => all.mp long cut
    have last : ((matching engine (ascii "#")).take k).getLast? = some zero := by
      rcases iterateStore_ends engine writer d id count hp rfl (.inl ⟨rfl, rfl⟩) returned with
        whole | stopped
      · exact absurd ((List.take_eq_self_iff _).mp whole) short
      · exact stopped
    rw [mem_take_iff_of_ascending (matching_ascending engine _) last]
    simp [cut]
  · rw [List.take_of_length_le (all.mpr cut)]
    exact ⟨fun found => ⟨found, fun later => cut later.1⟩, fun h => h.1⟩

end CoreTagSource

namespace Runtime

variable {τ : Type*} {hash : Bytes → UInt64}

/-- The connection is open and its session holds the pattern `#`. -/
def WatchesAll (s : IrspServer) (id : Nat) : Prop :=
  (s.conns id).isSome ∧ s.dispatcher.tagSubs.Registered (ascii "#") id

/-- Each write that changed the topic is routed, unless its thread is still on the way, and then
has given one frame to each session subscribed to `#` at that moment. -/
def PushedToAll (s : Runtime τ hash) (n : Bytes) : Prop :=
  ∀ k tag, s.writes[k]? = some ⟨tag, true⟩ → tag.name = n →
    (∃ t e, s.errand t = some e ∧ e.ticket = k ∧ e.name = n) ∨
      ∃ r ∈ s.routes, r.ticket = k ∧ ∀ id, WatchesAll r.server id → s.pushCount k id = 1

theorem subscribed_of_watchesAll {s : IrspServer} {id : Nat} {n : Bytes} (h : WatchesAll s id)
    (concrete : TopicMatcher.isConcrete n) : s.Subscribed id n :=
  ⟨h.1, ascii "#", h.2, (TopicMatcher.matches_all_iff n).mpr concrete⟩

theorem concrete_of_subscribed {s : IrspServer} {id : Nat} {n : Bytes} (h : s.Subscribed id n) :
    TopicMatcher.isConcrete n := by
  obtain ⟨-, p, -, matched⟩ := h
  exact (TopicMatcher.matches_iff.mp matched).2.1

/-- A routed change reaches a session subscribed to `#` exactly if the topic is concrete. -/
theorem Complete.pushed_iff {s : Runtime τ hash} {n : Bytes} (inv : Complete s n) {r : Routed}
    (routed : r ∈ s.routes) {tag : TagValue} (written : s.writes[r.ticket]? = some ⟨tag, true⟩)
    (name : tag.name = n) {id : Nat} (all : WatchesAll r.server id) :
    s.pushCount r.ticket id = 1 ↔ TopicMatcher.isConcrete n := by
  obtain ⟨reached, unreached⟩ := inv.delivered r routed tag written name id
  constructor
  · intro one
    by_contra other
    have none := unreached fun held => other (concrete_of_subscribed held)
    omega
  · intro concrete
    exact reached (subscribed_of_watchesAll all concrete)

theorem Complete.pushedToAll {s : Runtime τ hash} {n : Bytes} (inv : Complete s n)
    (concrete : TopicMatcher.isConcrete n) : PushedToAll s n := by
  intro k tag written name
  rcases inv.routed k tag written name with done | coming
  · obtain ⟨r, routed, rfl⟩ := List.mem_map.mp done
    exact .inr ⟨r, routed, rfl, fun id all => (inv.pushed_iff routed written name all).mpr concrete⟩
  · exact .inl coming

/-- `GET` answers with a record. -/
def Found (engine : TagEngine hash) (n : Bytes) : Prop :=
  Dispatcher.getTag (CoreTagSource.tagSource hash) engine n ≠ .null

theorem found_iff (engine : TagEngine hash) (n : Bytes) :
    Found engine n ↔ n ≠ [] ∧ (engine.lookup n).isSome := by
  change (CoreTagSource.read engine n).elim _ _ ≠ _ ↔ _
  by_cases empty : n = []
  · subst empty
    simp [CoreTagSource.read, TagEngine.read]
  · rw [CoreTagSource.read, TagEngine.read_eq engine empty]
    cases engine.lookup n with
    | none => simp
    | some tag => simp [tagToMap, empty]

section Runs

variable [DecidableEq τ]

/-- In every interleaving that does not remove it, a topic that `GET` finds is listed and pushed
under `#` exactly when it is concrete and the listing does not end before it. -/
theorem discoverable_iff {setup : Setup τ} {schedule : List (Action τ)} {s : Runtime τ hash}
    {n : Bytes}
    (stays : (machine hash setup).Steps (fun _ a => a ≠ .remove n) (initial setup) schedule)
    (run : (machine hash setup).run schedule = some s)
    (found : Found s.engine n)
    (writer : Option (TagWriter (TagEngine hash))) (d : Dispatcher) (id : SubscriberId)
    (count : Option UInt64) :
    (CoreTagSource.Enumerates s.engine writer d id count n ∧ PushedToAll s n ↔
      TopicMatcher.isConcrete n ∧ ¬CoreTagSource.CutBefore s.engine count n) ∧
    ∀ r ∈ s.routes, ∀ tag, s.writes[r.ticket]? = some ⟨tag, true⟩ → tag.name = n → ∀ i,
      WatchesAll r.server i → (s.pushCount r.ticket i = 1 ↔ TopicMatcher.isConcrete n) := by
  have inv : Complete s n := (running_of_run stays run).complete
  have stored := Option.isSome_iff_exists.mp ((found_iff s.engine n).mp found).2
  refine ⟨?_, fun r routed tag written name i all => inv.pushed_iff routed written name all⟩
  rw [CoreTagSource.enumerates_iff]
  constructor
  · intro h
    exact h.1.2
  · intro h
    exact ⟨⟨stored, h⟩, inv.pushedToAll h.1⟩

end Runs

/-! ### Names that are no topics -/

/-- A session subscribed to `#`. -/
def watchingAll : List (Action Bool) :=
  serve .established ++ serve (.receive 1 (ascii "HELLO 1") true) ++
    serve (.receive 1 (ascii "SUBSCRIBE #") true)

/-- A plugin pushes a value under the name, and its thread takes so many steps. -/
def pushing (n : Bytes) (steps : Nat) : List (Action Bool) :=
  .plugin (some true) (.push (.of n (.int32 1) 0)) ::
    List.replicate steps (.advance (some true) 0)

instance (s : IrspServer) (id : Nat) : Decidable (WatchesAll s id) :=
  inferInstanceAs (Decidable (_ ∧ _ ∧ _))

theorem discoverable_iff_concrete : ∃ s,
    quietMachine.run (watchingAll ++ pushing (ascii "a") 9) = some s ∧
    CoreTagSource.Enumerates s.engine none Dispatcher.empty 1 none (ascii "a") ∧
    PushedToAll s (ascii "a") ∧ s.pushCount 0 1 = 1 := by
  have ends : (quietMachine.run (watchingAll ++ pushing (ascii "a") 9)).map (fun s =>
      ((s.engine.lookup (ascii "a")).isSome, CoreTagSource.matching s.engine (ascii "#"),
        s.pushCount 0 1)) = some (true, [ascii "a"], 1) := by
    decide +kernel
  obtain ⟨s, run, last⟩ := Option.map_eq_some_iff.mp ends
  injection last with found last
  injection last with listed count
  have whole : ¬CoreTagSource.CutBefore s.engine none (ascii "a") := by
    intro cut
    rw [CoreTagSource.CutBefore, listed] at cut
    exact CoreTagSource.not_zeroEndsBatch_of_le (by decide) cut.1
  have shown := (discoverable_iff (n := ascii "a") (by decide +kernel) run
    ((found_iff _ _).mpr ⟨by decide, found⟩) none Dispatcher.empty 1 none).1.mpr
    ⟨by decide, whole⟩
  exact ⟨s, run, shown.1, shown.2, count⟩

/-- `GET` answers with the tag `a+`, which neither the listing nor the subscription shows. -/
theorem not_discoverable : ∃ s,
    quietMachine.run (watchingAll ++ pushing (ascii "a+") 7) = some s ∧
    Found s.engine (ascii "a+") ∧
    ¬CoreTagSource.Enumerates s.engine none Dispatcher.empty 1 none (ascii "a+") ∧
    ¬PushedToAll s (ascii "a+") := by
  have ends : (quietMachine.run (watchingAll ++ pushing (ascii "a+") 7)).map (fun s =>
      ((s.engine.lookup (ascii "a+")).isSome, s.writes, decide (Quiet s),
        decide (∀ r ∈ s.routes, WatchesAll r.server 1), s.pushCount 0 1)) =
      some (true, [⟨.of (ascii "a+") (.int32 1) 0, true⟩], true, true, 0) := by
    decide +kernel
  obtain ⟨s, run, last⟩ := Option.map_eq_some_iff.mp ends
  injection last with found last
  injection last with writes last
  injection last with quiet last
  injection last with watched count
  refine ⟨s, run, (found_iff _ _).mpr ⟨by decide, found⟩, ?_, fun pushed => ?_⟩
  · rw [CoreTagSource.enumerates_iff]
    intro listed
    exact absurd listed.2.1 (by decide)
  · rcases pushed 0 _ (by rw [writes]; rfl) rfl with ⟨t, e, coming, -, name⟩ | ⟨r, routed, -, all⟩
    · exact (of_decide_eq_true quiet).finished _ t e coming name
    · have one := all 1 (of_decide_eq_true watched r routed)
      omega

end Runtime

end IndustrialRuntime.Irsp
