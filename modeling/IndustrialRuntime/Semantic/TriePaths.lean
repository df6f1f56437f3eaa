import IndustrialRuntime.Semantic.TopicTrie

namespace IndustrialRuntime.Irsp

namespace Node

/-- Subscribers stored at the node that the walk along `segs` ends in. -/
def subscribersAt : List Bytes → Node → Finset SubscriberId
  | [], n => n.subscribers
  | seg :: segs, n =>
    if seg = hash then n.hashSubscribers
    else (n.children seg).elim ∅ (subscribersAt segs)

@[simp] theorem subscribersAt_nil (n : Node) : subscribersAt [] n = n.subscribers := rfl

theorem subscribersAt_hash (segs : List Bytes) (n : Node) :
    subscribersAt (hash :: segs) n = n.hashSubscribers := by
  simp [subscribersAt]

theorem subscribersAt_cons {seg : Bytes} (segs : List Bytes) (n : Node) (h : seg ≠ hash) :
    subscribersAt (seg :: segs) n = (n.children seg).elim ∅ (subscribersAt segs) := by
  simp [subscribersAt, h]

theorem subscribersAt_empty (segs : List Bytes) : subscribersAt segs empty = ∅ := by
  cases segs with
  | nil => rfl
  | cons seg segs => simp [subscribersAt, empty, hashSubscribers]

/-- A missing child reads like an empty node. -/
theorem subscribersAt_getD (segs : List Bytes) (c : Option Node) :
    subscribersAt segs (c.getD empty) = c.elim ∅ (subscribersAt segs) := by
  cases c with
  | none => exact subscribersAt_empty segs
  | some c => rfl

theorem subscribersAt_upToHash (segs : List Bytes) (n : Node) :
    subscribersAt (upToHash segs) n = subscribersAt segs n := by
  induction segs generalizing n with
  | nil => rfl
  | cons seg segs ih =>
    by_cases h : seg = hash
    · simp [upToHash, h, subscribersAt_hash]
    · simp only [upToHash, if_neg h, subscribersAt_cons _ _ h]
      cases n.children seg with
      | none => rfl
      | some c => exact ih c

/-- `subscribe` adds `id` at the walked path and nowhere else. -/
theorem mem_insertAt (id i : SubscriberId) (p q : List Bytes) (n : Node) :
    i ∈ subscribersAt q (insertAt id p n) ↔
      i ∈ subscribersAt q n ∨ (i = id ∧ upToHash q = upToHash p) := by
  induction p generalizing q n with
  | nil =>
    cases q with
    | nil => simp [insertAt, upToHash, or_comm]
    | cons s q =>
      by_cases hs : s = hash <;> simp [insertAt, upToHash, subscribersAt, hashSubscribers, hs]
  | cons seg p ih =>
    by_cases hseg : seg = hash
    · subst hseg
      cases q with
      | nil => simp [insertAt, upToHash]
      | cons s q =>
        by_cases hs : s = hash
        · subst hs
          cases hc : n.hashChild <;>
            simp [insertAt, upToHash, subscribersAt_hash, hashSubscribers, hc, empty, or_comm]
        · simp [insertAt, upToHash, subscribersAt_cons, hs]
    · cases q with
      | nil => simp [insertAt, upToHash, hseg]
      | cons s q =>
        by_cases hs : s = hash
        · subst hs
          simp [insertAt, upToHash, subscribersAt_hash, hashSubscribers, hseg, Ne.symm hseg]
        · by_cases he : s = seg
          · subst he
            have child := ih q ((n.children s).getD empty)
            rw [subscribersAt_getD] at child
            simpa [insertAt, upToHash, subscribersAt_cons, hs] using child
          · simp [insertAt, upToHash, subscribersAt_cons, hs, hseg, he]

/-- `unsubscribe` finds something to erase exactly when the walk ends in a node
that holds `id`. -/
theorem eraseAt_isSome (id : SubscriberId) (p : List Bytes) (n : Node) :
    (eraseAt id p n).isSome ↔ id ∈ subscribersAt p n := by
  induction p generalizing n with
  | nil => by_cases h : id ∈ n.subscribers <;> simp [eraseAt, h]
  | cons seg p ih =>
    by_cases hseg : seg = hash
    · subst hseg
      rw [subscribersAt_hash]
      cases hc : n.hashChild with
      | none => simp [eraseAt, hashSubscribers, hc]
      | some c => by_cases h : id ∈ c.subscribers <;> simp [eraseAt, hashSubscribers, hc, h]
    · rw [subscribersAt_cons _ _ hseg]
      cases hc : n.children seg with
      | none => simp [eraseAt, hseg, hc]
      | some c => simpa [eraseAt, hseg, hc] using ih c

/-- What is left after a successful walk: every other membership. -/
theorem mem_eraseAt (id i : SubscriberId) (p q : List Bytes) (n m : Node)
    (h : eraseAt id p n = some m) :
    i ∈ subscribersAt q m ↔ i ∈ subscribersAt q n ∧ ¬(i = id ∧ upToHash q = upToHash p) := by
  induction p generalizing q n m with
  | nil =>
    simp only [eraseAt, Option.ite_none_right_eq_some, Option.some.injEq] at h
    obtain ⟨-, rfl⟩ := h
    cases q with
    | nil => simp [upToHash, and_comm]
    | cons s q => by_cases hs : s = hash <;> simp [upToHash, subscribersAt, hashSubscribers, hs]
  | cons seg p ih =>
    by_cases hseg : seg = hash
    · subst hseg
      cases hc : n.hashChild with
      | none => simp [eraseAt, hc] at h
      | some c =>
        simp only [eraseAt, hc, if_true, Option.bind_some, Option.ite_none_right_eq_some,
          Option.some.injEq] at h
        obtain ⟨-, rfl⟩ := h
        cases q with
        | nil => simp [upToHash]
        | cons s q =>
          by_cases hs : s = hash
          · subst hs
            simp [upToHash, subscribersAt_hash, hashSubscribers, hc, and_comm]
          · simp [upToHash, subscribersAt_cons, hs]
    · cases hc : n.children seg with
      | none => simp [eraseAt, hseg, hc] at h
      | some c =>
        simp only [eraseAt, hseg, if_false, hc, Option.bind_some, Option.map_eq_some_iff] at h
        obtain ⟨d, hd, rfl⟩ := h
        cases q with
        | nil => simp [upToHash, hseg]
        | cons s q =>
          by_cases hs : s = hash
          · subst hs
            simp [upToHash, subscribersAt_hash, hashSubscribers, hseg, Ne.symm hseg]
          · by_cases he : s = seg
            · subst he
              simpa [upToHash, subscribersAt_cons, hs, hc] using ih q c d hd
            · simp [upToHash, subscribersAt_cons, hs, hseg, he]

/-- `collect` gathers the subscribers of every path that matches the topic. -/
theorem mem_collect (i : SubscriberId) (n : Node) (segs : List Bytes)
    (out : Finset SubscriberId) (concrete : ∀ seg ∈ segs, seg ≠ plus ∧ seg ≠ hash) :
    i ∈ collect n segs out ↔
      i ∈ out ∨ ∃ q, TopicMatcher.matchSegments q segs ∧ i ∈ subscribersAt q n := by
  induction segs generalizing n out with
  | nil =>
    simp only [collect, Finset.mem_union]
    constructor
    · rintro ((ho | hh) | hn)
      · exact .inl ho
      · exact .inr ⟨[hash], by simp [TopicMatcher.matchSegments], by rwa [subscribersAt_hash]⟩
      · exact .inr ⟨[], rfl, hn⟩
    · rintro (ho | ⟨q, hm, hq⟩)
      · exact .inl (.inl ho)
      · cases q with
        | nil => exact .inr hq
        | cons s q =>
          by_cases hs : s = hash
          · subst hs
            exact .inl (.inr (by rwa [subscribersAt_hash] at hq))
          · simp [TopicMatcher.matchSegments, hs] at hm
  | cons seg segs ih =>
    obtain ⟨hplus, hhash⟩ := concrete seg (by simp)
    have rest : ∀ s ∈ segs, s ≠ plus ∧ s ≠ hash := fun s hs => concrete s (by simp [hs])
    have walk (c : Option Node) (acc : Finset SubscriberId) :
        i ∈ c.elim acc (fun child => collect child segs acc) ↔ i ∈ acc ∨
          ∃ q, TopicMatcher.matchSegments q segs ∧ i ∈ c.elim ∅ (subscribersAt q) := by
      cases c with
      | none => simp
      | some c => simpa using ih c acc rest
    simp only [collect, walk, Finset.mem_union]
    constructor
    · rintro (((ho | hh) | ⟨q, hm, hq⟩) | ⟨q, hm, hq⟩)
      · exact .inl ho
      · exact .inr ⟨[hash], by simp [TopicMatcher.matchSegments], by rwa [subscribersAt_hash]⟩
      · exact .inr ⟨seg :: q, by simpa [TopicMatcher.matchSegments, hhash] using hm,
          by rwa [subscribersAt_cons _ _ hhash]⟩
      · exact .inr ⟨plus :: q,
          by simpa [TopicMatcher.matchSegments, plus_ne_hash] using hm,
          by rwa [subscribersAt_cons _ _ plus_ne_hash]⟩
    · rintro (ho | ⟨q, hm, hq⟩)
      · exact .inl (.inl (.inl ho))
      · cases q with
        | nil => simp [TopicMatcher.matchSegments] at hm
        | cons s q =>
          by_cases hs : s = hash
          · subst hs
            exact .inl (.inl (.inr (by rwa [subscribersAt_hash] at hq)))
          · rw [subscribersAt_cons _ _ hs] at hq
            simp only [TopicMatcher.matchSegments, hs, if_false, Bool.if_false_right,
              Bool.and_eq_true, decide_eq_true_eq] at hm
            obtain ⟨rfl | rfl, hm⟩ := hm
            · exact .inr ⟨q, hm, hq⟩
            · exact .inl (.inr ⟨q, hm, hq⟩)

end Node

end IndustrialRuntime.Irsp
