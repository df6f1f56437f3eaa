import IndustrialRuntime.Semantic.Topic
import Mathlib.Tactic.Common

namespace IndustrialRuntime.Irsp

theorem plus_ne_hash : plus ≠ hash := by decide

@[simp] theorem splitTopic_nil : splitTopic [] = [] := rfl

theorem splitTopic_eq_splitOn {topic : Bytes} (h : topic ≠ []) :
    splitTopic topic = topic.splitOn slash := by
  rw [splitTopic, if_neg (by simpa using h)]

/-- Splitting loses nothing: joining the segments gives the topic back. -/
theorem join_splitTopic {topic : Bytes} (h : topic ≠ []) :
    [slash].intercalate (splitTopic topic) = topic := by
  rw [splitTopic_eq_splitOn h, List.intercalate_splitOn]

theorem splitTopic_injective {p q : Bytes} (hp : p ≠ []) (hq : q ≠ [])
    (h : splitTopic p = splitTopic q) : p = q := by
  rw [← join_splitTopic hp, h, join_splitTopic hq]

/-- Segments up to and including the first `"#"`: what the trie walks. -/
def upToHash : List Bytes → List Bytes
  | [] => []
  | seg :: segs => if seg = hash then [hash] else seg :: upToHash segs

namespace TopicMatcher

/-- In a valid pattern `"#"` is last, so the trie walks all its segments. -/
theorem upToHash_of_valid {segs : List Bytes} (h : validSegments segs) :
    upToHash segs = segs := by
  induction segs with
  | nil => rfl
  | cons seg segs ih =>
    simp only [validSegments] at h
    by_cases hh : seg = hash
    · have nil : segs = [] := by
        by_contra hne
        simp [hh, hne] at h
      simp [upToHash, hh, nil]
    · have tail : validSegments segs := by
        split_ifs at h <;> assumption
      rw [upToHash, if_neg hh, ih tail]

theorem ne_nil_of_valid {p : Bytes} (h : isValidPattern p) : p ≠ [] := by
  rintro rfl
  simp [isValidPattern] at h

theorem valid_iff {p : Bytes} : isValidPattern p ↔ p ≠ [] ∧ validSegments (splitTopic p) := by
  cases p with
  | nil => simp [isValidPattern]
  | cons b p => simp [isValidPattern]

theorem upToHash_splitTopic {p : Bytes} (h : isValidPattern p) :
    upToHash (splitTopic p) = splitTopic p :=
  upToHash_of_valid (valid_iff.mp h).2

theorem valid_of_concrete {t : Bytes} (h : isConcrete t) : isValidPattern t := by
  by_contra hv
  simp [isConcrete, hv] at h

theorem concrete_segments {t : Bytes} (h : isConcrete t) :
    ∀ seg ∈ splitTopic t, seg ≠ plus ∧ seg ≠ hash := by
  have hv := valid_of_concrete h
  simpa [isConcrete, hv] using h

theorem matches_iff {p t : Bytes} :
    «matches» p t ↔ isValidPattern p ∧ isConcrete t ∧
      matchSegments (splitTopic p) (splitTopic t) := by
  cases hp : isValidPattern p <;> cases ht : isConcrete t <;> simp [«matches», hp, ht]

theorem ne_nil_of_matches {p t : Bytes} (h : «matches» p t) : t ≠ [] :=
  ne_nil_of_valid (valid_of_concrete (matches_iff.mp h).2.1)

/-- Matching reads a pattern no further than its first `"#"`. -/
theorem matchSegments_upToHash (p t : List Bytes) :
    matchSegments (upToHash p) t = matchSegments p t := by
  induction p generalizing t with
  | nil => rfl
  | cons seg p ih =>
    by_cases h : seg = hash
    · simp [upToHash, matchSegments, h]
    · cases t with
      | nil => simp [upToHash, matchSegments, h]
      | cons s t => simp [upToHash, matchSegments, h, ih]

end TopicMatcher

end IndustrialRuntime.Irsp
