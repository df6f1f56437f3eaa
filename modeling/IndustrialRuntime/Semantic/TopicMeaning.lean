import IndustrialRuntime.Lib.Split
import IndustrialRuntime.Semantic.TopicLemmas
import Mathlib.Data.List.Forall2

namespace IndustrialRuntime.Irsp

/-! ### What topics and patterns are -/

/-- A string is the `'/'`-join of one or more nonempty segments. -/
structure Joins (topic : Bytes) (segs : List Bytes) : Prop where
  some : segs ≠ []
  nonempty : ∀ seg ∈ segs, seg ≠ []
  whole : ∀ seg ∈ segs, slash ∉ seg
  joined : [slash].intercalate segs = topic

/-- A segment of a pattern: `"+"`, or `"#"` in the last place, or free of both characters. -/
def PatternSegment (seg : Bytes) (last : Prop) : Prop :=
  seg = plus ∨ seg = hash ∧ last ∨ 43 ∉ seg ∧ 35 ∉ seg

def PatternSegments (segs : List Bytes) : Prop :=
  ∀ i seg, segs[i]? = some seg → PatternSegment seg (i + 1 = segs.length)

/-- A segment of a pattern matches a level of a topic. -/
def Accepts (seg level : Bytes) : Prop := seg = plus ∨ seg = level

/-- The segments before a final `"#"` match the first levels of a topic. -/
def AcceptsBelow (segs levels : List Bytes) : Prop :=
  ∃ init upper lower, segs = init ++ [hash] ∧ levels = upper ++ lower ∧
    List.Forall₂ Accepts init upper

theorem joins_splitTopic {topic : Bytes} (h : topic ≠ [])
    (nonempty : ∀ seg ∈ splitTopic topic, seg ≠ []) : Joins topic (splitTopic topic) where
  some := by
    rw [splitTopic_eq_splitOn h]
    exact List.splitOn_ne_nil slash topic
  nonempty := nonempty
  whole seg found := by
    rw [splitTopic_eq_splitOn h] at found
    exact Split.notMem_of_mem_splitOn found
  joined := join_splitTopic h

/-- On nonempty strings splitting is the inverse of joining. -/
theorem splitTopic_eq_iff {topic : Bytes} (h : topic ≠ []) (segs : List Bytes) :
    splitTopic topic = segs ↔
      segs ≠ [] ∧ (∀ seg ∈ segs, slash ∉ seg) ∧ [slash].intercalate segs = topic := by
  rw [splitTopic_eq_splitOn h]
  constructor
  · intro same
    subst same
    exact ⟨List.splitOn_ne_nil slash topic, fun seg found => Split.notMem_of_mem_splitOn found,
      List.intercalate_splitOn slash⟩
  · intro joins
    obtain ⟨some, whole, rfl⟩ := joins
    exact List.splitOn_intercalate slash whole some

theorem Joins.ne_nil {topic : Bytes} {segs : List Bytes} (h : Joins topic segs) : topic ≠ [] := by
  obtain ⟨first, rest, rfl⟩ := List.exists_cons_of_ne_nil h.some
  have start : first ≠ [] := h.nonempty first List.mem_cons_self
  rw [← h.joined]
  cases rest <;> simp [List.intercalate_cons_cons, start]

theorem Joins.splitTopic {topic : Bytes} {segs : List Bytes} (h : Joins topic segs) :
    splitTopic topic = segs :=
  (splitTopic_eq_iff h.ne_nil segs).mpr ⟨h.some, h.whole, h.joined⟩

theorem patternSegments_nil : PatternSegments [] := by
  intro i seg found
  simp at found

theorem patternSegments_cons (seg : Bytes) (segs : List Bytes) :
    PatternSegments (seg :: segs) ↔ PatternSegment seg (segs = []) ∧ PatternSegments segs := by
  have last : 0 + 1 = (seg :: segs).length ↔ segs = [] := by
    rw [List.length_cons, ← List.length_eq_zero_iff]
    omega
  have later (i : Nat) : i + 1 + 1 = (seg :: segs).length ↔ i + 1 = segs.length := by
    rw [List.length_cons]
    omega
  constructor
  · intro each
    refine ⟨?_, fun i other found => ?_⟩
    · have first := each 0 seg rfl
      rwa [last] at first
    · have next := each (i + 1) other found
      rwa [later i] at next
  · intro both i other found
    obtain ⟨first, rest⟩ := both
    cases i with
    | zero =>
      obtain rfl : seg = other := by simpa using found
      rwa [last]
    | succ i =>
      rw [later i]
      exact rest i other found

namespace TopicMatcher

/-! ### The loops by index -/

/-- The loop of `matches` with its two indices. -/
def matchFrom (p t : List Bytes) (i j : Nat) : Bool :=
  if inside : i < p.length then
    if p[i] = hash then true
    else if more : j < t.length then
      if p[i] = plus ∨ p[i] = t[j] then matchFrom p t (i + 1) (j + 1) else false
    else false
  else j = t.length
termination_by p.length - i

/-- `splitTopic` cuts the segments out by their positions. -/
theorem splitTopic_eq_splitFrom (topic : Bytes) :
    splitTopic topic = if topic.isEmpty then [] else Split.splitFrom slash topic 0 := by
  rw [splitTopic, Split.splitFrom_eq, List.drop_zero]

theorem matchSegments_hash {seg : Bytes} (h : seg = hash) (p t : List Bytes) :
    matchSegments (seg :: p) t = true := by
  cases t <;> simp [matchSegments, h]

/-- The indices stand for the segments that are left. -/
theorem matchFrom_eq (p t : List Bytes) (i j : Nat) (h : j ≤ t.length) :
    matchFrom p t i j = matchSegments (p.drop i) (t.drop j) := by
  induction i, j using matchFrom.induct p t with
  | case1 i j inside isHash =>
    rw [matchFrom, dif_pos inside, if_pos isHash, List.drop_eq_getElem_cons inside,
      matchSegments_hash isHash]
  | case2 i j inside other more matching ih =>
    rw [matchFrom, dif_pos inside, if_neg other, dif_pos more, if_pos matching, ih more,
      List.drop_eq_getElem_cons inside, List.drop_eq_getElem_cons more, matchSegments,
      if_neg other, if_pos matching]
  | case3 i j inside other more different =>
    rw [matchFrom, dif_pos inside, if_neg other, dif_pos more, if_neg different,
      List.drop_eq_getElem_cons inside, List.drop_eq_getElem_cons more, matchSegments,
      if_neg other, if_neg different]
  | case4 i j inside other exhausted =>
    have none : t.drop j = [] := List.drop_eq_nil_iff.mpr (Nat.le_of_not_lt exhausted)
    rw [matchFrom, dif_pos inside, if_neg other, dif_neg exhausted,
      List.drop_eq_getElem_cons inside, none, matchSegments, if_neg other]
  | case5 i j outside =>
    have none : p.drop i = [] := List.drop_eq_nil_iff.mpr (Nat.le_of_not_lt outside)
    rw [matchFrom, dif_neg outside, none, matchSegments]
    apply Bool.eq_iff_iff.mpr
    rw [decide_eq_true_iff, List.isEmpty_iff, List.drop_eq_nil_iff]
    omega

theorem matches_eq_matchFrom (pattern topic : Bytes) :
    «matches» pattern topic = (isValidPattern pattern && isConcrete topic &&
      matchFrom (splitTopic pattern) (splitTopic topic) 0 0) := by
  rw [matchFrom_eq _ _ 0 0 (Nat.zero_le _), List.drop_zero, List.drop_zero]
  cases hp : isValidPattern pattern <;> cases ht : isConcrete topic <;>
    simp [«matches», hp, ht]

/-! ### The loops and the meaning -/

theorem validSegments_iff (segs : List Bytes) :
    validSegments segs ↔ (∀ seg ∈ segs, seg ≠ []) ∧ PatternSegments segs := by
  induction segs with
  | nil => exact iff_of_true rfl ⟨by simp, patternSegments_nil⟩
  | cons seg segs ih =>
    have wildcards : segmentHasWildcardChar seg = false ↔ 43 ∉ seg ∧ 35 ∉ seg := by
      simp [segmentHasWildcardChar]
    rw [List.forall_mem_cons, patternSegments_cons, and_and_and_comm, ← ih, validSegments]
    by_cases empty : seg = []
    · simp [empty]
    · by_cases isHash : seg = hash
      · subst isHash
        by_cases last : segs = []
        · simp [PatternSegment, hash, last]
        · simp [PatternSegment, hash, plus, last]
      · by_cases isPlus : seg = plus
        · subst isPlus
          simp [PatternSegment, plus, hash]
        · cases wild : segmentHasWildcardChar seg with
          | true =>
            have bad : ¬(43 ∉ seg ∧ 35 ∉ seg) := by
              rw [← wildcards, wild]
              simp
            simp [PatternSegment, empty, isHash, isPlus, bad]
          | false => simp [PatternSegment, empty, isHash, isPlus, wildcards.mp wild]

theorem isValidPattern_iff (pattern : Bytes) :
    isValidPattern pattern ↔ ∃ segs, Joins pattern segs ∧ PatternSegments segs := by
  rw [valid_iff, validSegments_iff]
  constructor
  · intro valid
    obtain ⟨some, nonempty, segments⟩ := valid
    exact ⟨splitTopic pattern, joins_splitTopic some nonempty, segments⟩
  · intro meaning
    obtain ⟨segs, joins, segments⟩ := meaning
    rw [joins.splitTopic]
    exact ⟨joins.ne_nil, joins.nonempty, segments⟩

theorem isConcrete_iff (topic : Bytes) :
    isConcrete topic ↔
      ∃ segs, Joins topic segs ∧ PatternSegments segs ∧ ∀ seg ∈ segs, seg ≠ plus ∧ seg ≠ hash := by
  constructor
  · intro concrete
    obtain ⟨segs, joins, segments⟩ := (isValidPattern_iff topic).mp (valid_of_concrete concrete)
    have plain := concrete_segments concrete
    rw [joins.splitTopic] at plain
    exact ⟨segs, joins, segments, plain⟩
  · intro meaning
    obtain ⟨segs, joins, segments, plain⟩ := meaning
    have valid := (isValidPattern_iff topic).mpr ⟨segs, joins, segments⟩
    have none : ∀ seg ∈ splitTopic topic, ¬(seg = plus ∨ seg = hash) := by
      rw [joins.splitTopic]
      exact fun seg found => not_or.mpr (plain seg found)
    simpa [isConcrete, valid] using none

/-- A pattern segment with the character `'#'` is the segment `"#"`. -/
theorem hash_mem_iff {segs : List Bytes} (h : PatternSegments segs) :
    hash ∈ segs ↔ ∃ seg ∈ segs, 35 ∈ seg := by
  constructor
  · intro found
    exact ⟨hash, found, by decide⟩
  · intro inside
    obtain ⟨seg, found, sharp⟩ := inside
    obtain ⟨i, place⟩ := List.mem_iff_getElem?.mp found
    rcases h i seg place with isPlus | ⟨isHash, -⟩ | ⟨-, free⟩
    · rw [isPlus] at sharp
      exact absurd sharp (by decide)
    · rwa [← isHash]
    · exact absurd sharp free

/-- The two ways in which a pattern matches: level by level, or up to a final `"#"`. -/
theorem matchSegments_iff {p : List Bytes} (h : PatternSegments p) (t : List Bytes) :
    matchSegments p t ↔ hash ∉ p ∧ List.Forall₂ Accepts p t ∨ AcceptsBelow p t := by
  induction p generalizing t with
  | nil => simp [matchSegments, AcceptsBelow, List.isEmpty_iff]
  | cons seg p ih =>
    obtain ⟨first, rest⟩ := (patternSegments_cons seg p).mp h
    by_cases isHash : seg = hash
    · have last : p = [] := by
        rcases first with isPlus | ⟨-, last⟩ | ⟨-, free⟩
        · exact absurd (isPlus.symm.trans isHash) plus_ne_hash
        · exact last
        · rw [isHash] at free
          exact absurd (by decide) free
      subst last isHash
      exact iff_of_true (matchSegments_hash rfl [] t) (.inr ⟨[], [], t, rfl, rfl, .nil⟩)
    · have below : AcceptsBelow (seg :: p) t ↔
          ∃ s ts, t = s :: ts ∧ Accepts seg s ∧ AcceptsBelow p ts := by
        constructor
        · intro accepts
          obtain ⟨init, upper, lower, split, rfl, each⟩ := accepts
          cases init with
          | nil =>
            injection split with same
            exact absurd same isHash
          | cons other init =>
            injection split with same split
            subst same
            obtain ⟨s, ts, now, later, rfl⟩ := List.forall₂_cons_left_iff.mp each
            exact ⟨s, ts ++ lower, rfl, now, init, ts, lower, split, rfl, later⟩
        · intro accepts
          obtain ⟨s, ts, rfl, now, init, upper, lower, rfl, rfl, each⟩ := accepts
          exact ⟨seg :: init, s :: upper, lower, rfl, rfl, .cons now each⟩
      rw [below]
      cases t with
      | nil => simp [matchSegments, isHash]
      | cons s ts =>
        have tail := ih rest ts
        have away : hash ∉ seg :: p ↔ hash ∉ p := by simp [Ne.symm isHash]
        rw [away, List.forall₂_cons, matchSegments, if_neg isHash]
        by_cases accepts : Accepts seg s
        · have same : seg = plus ∨ seg = s := accepts
          simp [same, accepts, tail]
        · have other : ¬(seg = plus ∨ seg = s) := accepts
          simp [other, accepts]

/-- For all strings: validity, concreteness and matching are what they are said to mean, and
splitting is the inverse of joining. -/
theorem topic_meaning (p t : Bytes) :
    (isValidPattern p ↔ ∃ segs, Joins p segs ∧ PatternSegments segs) ∧
    (isConcrete t ↔ ∃ segs, Joins t segs ∧ PatternSegments segs ∧
      ∀ seg ∈ segs, seg ≠ plus ∧ seg ≠ hash) ∧
    («matches» p t ↔ isValidPattern p ∧ isConcrete t ∧
      ∃ segs levels, Joins p segs ∧ Joins t levels ∧
        (35 ∉ p ∧ List.Forall₂ Accepts segs levels ∨ AcceptsBelow segs levels)) ∧
    (p ≠ [] → ∀ segs, splitTopic p = segs ↔
      segs ≠ [] ∧ (∀ seg ∈ segs, slash ∉ seg) ∧ [slash].intercalate segs = p) := by
  refine ⟨isValidPattern_iff p, isConcrete_iff t, ?_, splitTopic_eq_iff⟩
  rw [matches_iff, and_congr_right_iff]
  intro valid
  rw [and_congr_right_iff]
  intro concrete
  obtain ⟨segs, joins, segments⟩ := (isValidPattern_iff p).mp valid
  obtain ⟨levels, levelJoins, -⟩ := (isConcrete_iff t).mp concrete
  have sharp : hash ∉ segs ↔ 35 ∉ p := by
    rw [hash_mem_iff segments, ← joins.joined, Split.mem_intercalate (by decide)]
  rw [joins.splitTopic, levelJoins.splitTopic, matchSegments_iff segments, sharp]
  constructor
  · intro meaning
    exact ⟨segs, levels, joins, levelJoins, meaning⟩
  · intro matching
    obtain ⟨segs', levels', joins', levelJoins', meaning⟩ := matching
    rwa [← joins.splitTopic, ← levelJoins.splitTopic, joins'.splitTopic, levelJoins'.splitTopic]

end TopicMatcher

end IndustrialRuntime.Irsp
