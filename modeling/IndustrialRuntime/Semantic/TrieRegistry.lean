import IndustrialRuntime.Semantic.TriePaths
import Mathlib.Algebra.BigOperators.Ring.Finset

namespace IndustrialRuntime.Irsp

namespace TopicTrie

open TopicMatcher

/-- The node that spells the valid pattern `p` contains `id`. -/
def Registered (t : TopicTrie) (p : Bytes) (id : SubscriberId) : Prop :=
  isValidPattern p ∧ id ∈ t.root.subscribersAt (splitTopic p)

/-- Every occupied node is the node of a valid pattern. -/
def Spelled (t : TopicTrie) : Prop :=
  ∀ q id, id ∈ t.root.subscribersAt q → ∃ p, isValidPattern p ∧ splitTopic p = upToHash q

theorem valid_split_injective {p q : Bytes} (hp : isValidPattern p) (hq : isValidPattern q)
    (h : splitTopic p = splitTopic q) : p = q :=
  splitTopic_injective (ne_nil_of_valid hp) (ne_nil_of_valid hq) h

theorem empty_spelled : empty.Spelled := by
  intro q id h
  simp [empty, Node.subscribersAt_empty] at h

theorem not_registered_empty (p : Bytes) (id : SubscriberId) : ¬empty.Registered p id := by
  simp [Registered, empty, Node.subscribersAt_empty]

/-- An occupied node, whatever string leads there, is a registered pattern. -/
theorem mem_subscribersAt_iff {t : TopicTrie} (ht : t.Spelled) (q : List Bytes)
    (id : SubscriberId) :
    id ∈ t.root.subscribersAt q ↔ ∃ p, t.Registered p id ∧ splitTopic p = upToHash q := by
  constructor
  · intro h
    obtain ⟨p, hp, he⟩ := ht q id h
    exact ⟨p, ⟨hp, by rwa [he, Node.subscribersAt_upToHash]⟩, he⟩
  · rintro ⟨p, ⟨-, hp⟩, he⟩
    rwa [he, Node.subscribersAt_upToHash] at hp

/-! ### subscribe -/

theorem subscribe_invalid {t : TopicTrie} {p : Bytes} (id : SubscriberId)
    (h : ¬isValidPattern p) : t.subscribe p id = (false, t) := by
  simp [subscribe, h]

theorem subscribe_root {t : TopicTrie} {p : Bytes} {id : SubscriberId} (h : isValidPattern p) :
    (t.subscribe p id).2.root = t.root.insertAt id (splitTopic p) := by
  simp [subscribe, h]

theorem subscribe_spelled {t : TopicTrie} (ht : t.Spelled) (p : Bytes) (id : SubscriberId) :
    (t.subscribe p id).2.Spelled := by
  by_cases hp : isValidPattern p
  · intro q i hi
    rw [subscribe_root hp, Node.mem_insertAt] at hi
    obtain hi | ⟨-, he⟩ := hi
    · exact ht q i hi
    · exact ⟨p, hp, by rw [he, upToHash_splitTopic hp]⟩
  · simpa [subscribe_invalid id hp] using ht

theorem subscribe_registered (t : TopicTrie) (p q : Bytes) (id i : SubscriberId) :
    (t.subscribe p id).2.Registered q i ↔
      t.Registered q i ∨ (isValidPattern p ∧ q = p ∧ i = id) := by
  by_cases hp : isValidPattern p
  · simp only [Registered, subscribe_root hp, Node.mem_insertAt, upToHash_splitTopic hp, hp,
      true_and]
    constructor
    · rintro ⟨hq, hi | ⟨rfl, he⟩⟩
      · exact .inl ⟨hq, hi⟩
      · rw [upToHash_splitTopic hq] at he
        exact .inr ⟨valid_split_injective hq hp he, rfl⟩
    · rintro (⟨hq, hi⟩ | ⟨rfl, rfl⟩)
      · exact ⟨hq, .inl hi⟩
      · exact ⟨hp, .inr ⟨rfl, upToHash_splitTopic hp⟩⟩
  · simp [subscribe_invalid id hp, hp]

theorem subscribe_patterns (t : TopicTrie) (p q : Bytes) (id i : SubscriberId) :
    q ∈ (t.subscribe p id).2.patterns i ↔
      q ∈ t.patterns i ∨ (isValidPattern p ∧ q = p ∧ i = id) := by
  by_cases hp : isValidPattern p
  · by_cases hi : i = id
    · subst hi
      simp [subscribe, patterns, hp, or_comm]
    · simp [subscribe, patterns, hp, hi, Finmap.lookup_insert_of_ne]
  · simp [subscribe_invalid id hp, hp]

/-! ### unsubscribe -/

theorem unsubscribe_fst (t : TopicTrie) (p : Bytes) (id : SubscriberId) :
    (t.unsubscribe p id).1 = true ↔ id ∈ t.root.subscribersAt (splitTopic p) := by
  rw [← Node.eraseAt_isSome]
  cases h : t.root.eraseAt id (splitTopic p) <;> simp [unsubscribe, h]

/-- A call that returns false leaves the whole trie as it was. -/
theorem unsubscribe_absent {t : TopicTrie} {p : Bytes} {id : SubscriberId}
    (h : id ∉ t.root.subscribersAt (splitTopic p)) : t.unsubscribe p id = (false, t) := by
  rw [← Node.eraseAt_isSome] at h
  simp only [Bool.not_eq_true, Option.isSome_eq_false_iff, Option.isNone_iff_eq_none] at h
  simp [unsubscribe, h]

theorem unsubscribe_subscribersAt (t : TopicTrie) (p : Bytes) (q : List Bytes)
    (id i : SubscriberId) :
    i ∈ (t.unsubscribe p id).2.root.subscribersAt q ↔
      i ∈ t.root.subscribersAt q ∧ ¬(i = id ∧ upToHash q = upToHash (splitTopic p)) := by
  by_cases h : id ∈ t.root.subscribersAt (splitTopic p)
  · obtain ⟨m, hm⟩ := Option.isSome_iff_exists.mp ((Node.eraseAt_isSome _ _ _).mpr h)
    simpa [unsubscribe, hm] using Node.mem_eraseAt id i (splitTopic p) q t.root m hm
  · rw [unsubscribe_absent h]
    constructor
    · intro hi
      refine ⟨hi, ?_⟩
      rintro ⟨rfl, he⟩
      rw [← Node.subscribersAt_upToHash, he, Node.subscribersAt_upToHash] at hi
      exact h hi
    · exact And.left

theorem unsubscribe_spelled {t : TopicTrie} (ht : t.Spelled) (p : Bytes) (id : SubscriberId) :
    (t.unsubscribe p id).2.Spelled := by
  intro q i hi
  exact ht q i ((unsubscribe_subscribersAt t p q id i).mp hi).1

/-- The trie side of `unsubscribe` for an arbitrary string: it removes the
pattern that the string spells up to its first `"#"`. -/
theorem unsubscribe_registered (t : TopicTrie) (p q : Bytes) (id i : SubscriberId) :
    (t.unsubscribe p id).2.Registered q i ↔
      t.Registered q i ∧ ¬(i = id ∧ splitTopic q = upToHash (splitTopic p)) := by
  simp only [Registered, unsubscribe_subscribersAt]
  constructor
  · rintro ⟨hq, hi, hn⟩
    exact ⟨⟨hq, hi⟩, by rwa [upToHash_splitTopic hq] at hn⟩
  · rintro ⟨⟨hq, hi⟩, hn⟩
    exact ⟨hq, hi, by rwa [upToHash_splitTopic hq]⟩

theorem unsubscribe_registered_valid {t : TopicTrie} {p : Bytes} (hp : isValidPattern p)
    (q : Bytes) (id i : SubscriberId) :
    (t.unsubscribe p id).2.Registered q i ↔ t.Registered q i ∧ ¬(i = id ∧ q = p) := by
  rw [unsubscribe_registered, upToHash_splitTopic hp]
  constructor
  · rintro ⟨hq, hn⟩
    exact ⟨hq, fun ⟨hi, he⟩ => hn ⟨hi, by rw [he]⟩⟩
  · rintro ⟨hq, hn⟩
    exact ⟨hq, fun ⟨hi, he⟩ => hn ⟨hi, valid_split_injective hq.1 hp he⟩⟩

theorem mem_dropPattern (m : Finmap (fun _ : SubscriberId => Finset Bytes)) (p q : Bytes)
    (id i : SubscriberId) :
    q ∈ ((dropPattern m p id).lookup i).getD ∅ ↔
      q ∈ (m.lookup i).getD ∅ ∧ ¬(i = id ∧ q = p) := by
  cases hl : m.lookup id with
  | none =>
    by_cases hi : i = id
    · subst hi
      simp [dropPattern, hl]
    · simp [dropPattern, hl, hi]
  | some ps =>
    by_cases hi : i = id
    · subst hi
      by_cases he : ps.erase p = ∅
      · have only : ∀ x ∈ ps, x = p := by
          intro x hx
          by_contra hne
          exact Finset.eq_empty_iff_forall_notMem.mp he x (Finset.mem_erase.mpr ⟨hne, hx⟩)
        simpa [dropPattern, hl, he] using only q
      · simp [dropPattern, hl, he, and_comm]
    · by_cases he : ps.erase p = ∅
      · simp [dropPattern, hl, he, hi, Finmap.lookup_erase_ne]
      · simp [dropPattern, hl, he, hi, Finmap.lookup_insert_of_ne]

/-- The index side of `unsubscribe`: it erases the string as it was given. -/
theorem unsubscribe_patterns (t : TopicTrie) (p q : Bytes) (id i : SubscriberId) :
    q ∈ (t.unsubscribe p id).2.patterns i ↔
      q ∈ t.patterns i ∧
        ¬(id ∈ t.root.subscribersAt (splitTopic p) ∧ i = id ∧ q = p) := by
  by_cases h : id ∈ t.root.subscribersAt (splitTopic p)
  · obtain ⟨m, hm⟩ := Option.isSome_iff_exists.mp ((Node.eraseAt_isSome _ _ _).mpr h)
    simpa [unsubscribe, hm, patterns, h] using mem_dropPattern t.idPatterns p q id i
  · rw [unsubscribe_absent h]
    simp [h]

/-! ### unsubscribeAll -/

/-- The loop of `unsubscribeAll` over a list of patterns. -/
def unsubscribeList (t : TopicTrie) (id : SubscriberId) (ps : List Bytes) : TopicTrie :=
  ps.foldl (fun t pattern => (t.unsubscribe pattern id).2) t

theorem unsubscribeAll_eq (t : TopicTrie) (id : SubscriberId) :
    t.unsubscribeAll id = t.unsubscribeList id ((t.patterns id).sort (· ≤ ·)) := by
  cases h : t.idPatterns.lookup id <;> simp [unsubscribeAll, unsubscribeList, patterns, h]

theorem unsubscribeList_spelled {t : TopicTrie} (ht : t.Spelled) (id : SubscriberId)
    (ps : List Bytes) : (t.unsubscribeList id ps).Spelled := by
  induction ps generalizing t with
  | nil => exact ht
  | cons p ps ih => exact ih (unsubscribe_spelled ht p id)

theorem unsubscribeAll_spelled {t : TopicTrie} (ht : t.Spelled) (id : SubscriberId) :
    (t.unsubscribeAll id).Spelled := by
  rw [unsubscribeAll_eq]
  exact unsubscribeList_spelled ht id _

theorem unsubscribeList_registered (t : TopicTrie) (id i : SubscriberId) (ps : List Bytes)
    (hps : ∀ p ∈ ps, isValidPattern p) (q : Bytes) :
    (t.unsubscribeList id ps).Registered q i ↔ t.Registered q i ∧ ¬(i = id ∧ q ∈ ps) := by
  induction ps generalizing t with
  | nil => simp [unsubscribeList]
  | cons p ps ih =>
    have tail := ih (t.unsubscribe p id).2 (fun x hx => hps x (by simp [hx]))
    rw [unsubscribe_registered_valid (hps p (by simp))] at tail
    change ((t.unsubscribe p id).2.unsubscribeList id ps).Registered q i ↔ _
    rw [tail, List.mem_cons]
    tauto

/-- Only patterns of `id` leave the index, and only those erased from the trie. -/
theorem unsubscribeList_patterns (t : TopicTrie) (id i : SubscriberId) (ps : List Bytes)
    (hps : ∀ p ∈ ps, isValidPattern p) (q : Bytes) :
    q ∈ (t.unsubscribeList id ps).patterns i ↔
      q ∈ t.patterns i ∧ ¬(i = id ∧ q ∈ ps ∧ t.Registered q id) := by
  induction ps generalizing t with
  | nil => simp [unsubscribeList]
  | cons p ps ih =>
    have hp : isValidPattern p := hps p (by simp)
    have tail := ih (t.unsubscribe p id).2 (fun x hx => hps x (by simp [hx]))
    rw [unsubscribe_registered_valid hp, unsubscribe_patterns] at tail
    change q ∈ ((t.unsubscribe p id).2.unsubscribeList id ps).patterns i ↔ _
    have held : id ∈ t.root.subscribersAt (splitTopic p) ↔ t.Registered p id := by
      simp [Registered, hp]
    rw [tail, held, List.mem_cons]
    by_cases hi : i = id
    · by_cases he : q = p
      · simp [hi, he]
      · simp [hi, he]
    · simp [hi]

/-! ### match, countFor, size -/

/-- The trie walk finds exactly the subscribers of a registered matching pattern. -/
theorem mem_matchTopic {t : TopicTrie} (ht : t.Spelled) (topic : Bytes) (id : SubscriberId) :
    id ∈ t.matchTopic topic ↔ ∃ p, t.Registered p id ∧ «matches» p topic := by
  by_cases hc : isConcrete topic
  · simp only [matchTopic, hc, if_true, Finset.mem_sort,
      Node.mem_collect id t.root _ ∅ (concrete_segments hc), Finset.notMem_empty, false_or]
    constructor
    · rintro ⟨q, hm, hq⟩
      obtain ⟨p, hp, he⟩ := (mem_subscribersAt_iff ht q id).mp hq
      exact ⟨p, hp, matches_iff.mpr ⟨hp.1, hc, by rwa [he, matchSegments_upToHash]⟩⟩
    · rintro ⟨p, hp, hm⟩
      exact ⟨splitTopic p, (matches_iff.mp hm).2.2, hp.2⟩
  · simp [matchTopic, hc, matches_iff]

theorem matchTopic_ascending (t : TopicTrie) (topic : Bytes) :
    (t.matchTopic topic).Pairwise (· < ·) :=
  (Finset.sortedLT_sort _).pairwise

theorem matchTopic_of_not_concrete (t : TopicTrie) {topic : Bytes} (h : ¬isConcrete topic) :
    t.matchTopic topic = [] := by
  simp [matchTopic, h]

theorem countFor_eq (t : TopicTrie) (id : SubscriberId) : t.countFor id = (t.patterns id).card := by
  cases h : t.idPatterns.lookup id <;> simp [countFor, patterns, h]

/-- Ids without an entry count zero, so the sum may range over more ids. -/
theorem size_eq_sum (t : TopicTrie) {ids : Finset SubscriberId} (h : t.idPatterns.keys ⊆ ids) :
    t.size = ∑ id ∈ ids, t.countFor id := by
  apply Finset.sum_subset h
  intro id _ hid
  have absent : t.idPatterns.lookup id = none := by
    rw [Finmap.lookup_eq_none, ← Finmap.mem_keys]
    exact hid
  simp [countFor, absent]

end TopicTrie

end IndustrialRuntime.Irsp
