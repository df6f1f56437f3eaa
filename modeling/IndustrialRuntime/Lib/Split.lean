import Mathlib.Data.List.Basic
import Mathlib.Data.List.TakeWhile
import Mathlib.Tactic.Common

namespace IndustrialRuntime.Split

variable {α : Type*}

/-! ### Splitting at a delimiter -/

/-- Another element than the delimiter is in the joined list if it is in one of the pieces. -/
theorem mem_intercalate {c delim : α} (other : c ≠ delim) (pieces : List (List α)) :
    c ∈ [delim].intercalate pieces ↔ ∃ piece ∈ pieces, c ∈ piece := by
  induction pieces with
  | nil => simp
  | cons piece pieces ih =>
    cases pieces with
    | nil => simp
    | cons next rest =>
      rw [List.intercalate_cons_cons, List.mem_append, List.mem_append, ih]
      simp [other]

section Delimiter

variable [BEq α]

/-- The position of the first delimiter from `start` on. -/
def find (delim : α) (s : List α) (start : Nat) : Option Nat :=
  ((s.drop start).findIdx? (· == delim)).map (start + ·)

theorem find_bounds {delim : α} {s : List α} {start p : Nat} (h : find delim s start = some p) :
    start ≤ p ∧ p < s.length := by
  obtain ⟨k, found, rfl⟩ := Option.map_eq_some_iff.mp h
  obtain ⟨inside, -⟩ := List.findIdx?_eq_some_iff_getElem.mp found
  rw [List.length_drop] at inside
  omega

/-- The pieces from `start` on, cut out by their positions. -/
def splitFrom (delim : α) (s : List α) (start : Nat) : List (List α) :=
  match found : find delim s start with
  | none => [s.drop start]
  | some p => (s.drop start).take (p - start) :: splitFrom delim s (p + 1)
termination_by s.length - start
decreasing_by
  have := find_bounds found
  omega

variable [LawfulBEq α]

/-- Cutting by positions is splitting what is left. -/
theorem splitFrom_eq (delim : α) (s : List α) (start : Nat) :
    splitFrom delim s start = (s.drop start).splitOn delim := by
  induction start using splitFrom.induct delim s with
  | case1 start none =>
    rw [splitFrom, none]
    have free : delim ∉ s.drop start := by
      rw [find, Option.map_eq_none_iff, List.findIdx?_eq_none_iff] at none
      intro inside
      simpa using none delim inside
    exact (List.splitOn_eq_singleton free).symm
  | case2 start p found ih =>
    rw [splitFrom, found]
    obtain ⟨k, first, rfl⟩ := Option.map_eq_some_iff.mp found
    obtain ⟨inside, here, before⟩ := List.findIdx?_eq_some_iff_getElem.mp first
    have free : delim ∉ (s.drop start).take k := by
      intro early
      obtain ⟨j, small, same⟩ := List.getElem_of_mem early
      rw [List.length_take] at small
      rw [List.getElem_take] at same
      have other := before j (by omega)
      simp [same] at other
    have cut : s.drop start = (s.drop start).take k ++ delim :: s.drop (start + k + 1) := by
      have stop : (s.drop start)[k] = delim := by simpa using here
      rw [← stop, ← List.drop_drop, ← List.drop_drop, List.drop_one, ← List.drop_one,
        List.drop_drop, List.getElem_cons_drop, List.take_append_drop]
    change _ :: splitFrom delim s (start + k + 1) = _
    rw [ih, Nat.add_sub_cancel_left]
    conv_rhs => rw [cut]
    exact (List.splitOn_append_cons_self_of_not_mem free _).symm

/-- A piece holds no delimiter. -/
theorem notMem_of_mem_splitOn {delim : α} {s piece : List α} (h : piece ∈ s.splitOn delim) :
    delim ∉ piece := by
  induction s generalizing piece with
  | nil => simp_all
  | cons c s ih =>
    rw [List.splitOn_cons_eq_if_modifyHead] at h
    split_ifs at h with stop
    · rcases List.mem_cons.mp h with rfl | later
      · simp
      · exact ih later
    · cases pieces : s.splitOn delim with
      | nil => simp [pieces] at h
      | cons first rest =>
        rw [pieces] at h ih
        rcases List.mem_cons.mp h with rfl | later
        · have away : delim ≠ c := fun same => stop (by simp [same])
          have tail := ih List.mem_cons_self
          simp [away, tail]
        · exact ih (List.mem_cons_of_mem _ later)

/-- Lines that each end in the delimiter are split into themselves and an empty piece. -/
theorem splitOn_lines {delim : α} {lines : List (List α)} (h : ∀ line ∈ lines, delim ∉ line) :
    (lines.flatMap fun line => line ++ [delim]).splitOn delim = lines ++ [[]] := by
  induction lines with
  | nil => simp
  | cons line lines ih =>
    have clean : delim ∉ line := h line List.mem_cons_self
    have rest := ih fun other later => h other (List.mem_cons_of_mem _ later)
    rw [List.flatMap_cons, List.append_assoc, List.singleton_append,
      List.splitOn_append_cons_self_of_not_mem clean, rest, List.cons_append]

end Delimiter

/-! ### Splitting into words -/

section Words

variable (space : α → Bool)

/-- The words of a line: skip spaces, take a word up to the next space, go on behind it. -/
def words (s : List α) : List (List α) :=
  match _left : s.dropWhile space with
  | [] => []
  | c :: rest =>
    (c :: rest).takeWhile (fun c => !space c) :: words (rest.dropWhile (fun c => !space c))
termination_by s.length
decreasing_by
  have skipped := List.length_dropWhile_le space s
  have taken := List.length_dropWhile_le (fun c => !space c) rest
  rw [_left, List.length_cons] at skipped
  omega

variable {space}

theorem words_of_spaces {s : List α} (h : s.dropWhile space = []) : words space s = [] := by
  rw [words]
  split
  · rfl
  · rename_i left
    simp [h] at left

theorem words_of_word {s rest : List α} {c : α} (h : s.dropWhile space = c :: rest) :
    words space s = (c :: rest).takeWhile (fun c => !space c) ::
      words space (rest.dropWhile (fun c => !space c)) := by
  rw [words]
  split
  · rename_i left
    simp [h] at left
  · rename_i left
    rw [h] at left
    injection left with first others
    rw [first, others]

/-- Every word has a character, and none of them is a space. -/
theorem of_mem_words {s word : List α} (h : word ∈ words space s) :
    word ≠ [] ∧ ∀ c ∈ word, space c = false := by
  induction s using words.induct space with
  | case1 s left =>
    simp [words_of_spaces left] at h
  | case2 s c rest left ih =>
    rw [words_of_word left] at h
    rcases List.mem_cons.mp h with rfl | later
    · have head : space c = false := by
        have stop := List.head?_dropWhile_not space s
        rw [left] at stop
        simpa using stop
      refine ⟨by simp [head], fun d inside => ?_⟩
      simpa using List.mem_takeWhile_imp inside
    · exact ih later

theorem words_nil : words space ([] : List α) = [] := words_of_spaces rfl

theorem words_space {c : α} (h : space c) (s : List α) : words space (c :: s) = words space s := by
  have skip : (c :: s).dropWhile space = s.dropWhile space := by simp [h]
  cases left : s.dropWhile space with
  | nil => rw [words_of_spaces (skip.trans left), words_of_spaces left]
  | cons d rest => rw [words_of_word (skip.trans left), words_of_word left]

/-- A line that starts with a word and is at its end there, or goes on with a space. -/
theorem words_append {word : List α} (some : word ≠ []) (whole : ∀ c ∈ word, space c = false)
    {rest : List α} (stop : ∀ c ∈ rest.head?, space c) :
    words space (word ++ rest) = word :: words space rest := by
  obtain ⟨c, tail, rfl⟩ := List.exists_cons_of_ne_nil some
  have head : space c = false := whole c List.mem_cons_self
  have left : (c :: tail ++ rest).dropWhile space = c :: (tail ++ rest) := by simp [head]
  have others : ∀ d ∈ tail, (!space d) = true := fun d inside => by
    simp [whole d (List.mem_cons_of_mem c inside)]
  have taken : rest.takeWhile (fun c => !space c) = [] := by
    cases rest with
    | nil => rfl
    | cons d rest => simp [stop d (by simp)]
  have dropped : rest.dropWhile (fun c => !space c) = rest := by
    cases rest with
    | nil => rfl
    | cons d rest => simp [stop d (by simp)]
  rw [words_of_word left, List.dropWhile_append_of_pos others, dropped, List.takeWhile_cons,
    List.takeWhile_append_of_pos others, taken]
  simp [head]

/-- A line that starts with spaces. -/
theorem words_spaces {spaces : List α} (h : ∀ c ∈ spaces, space c) (s : List α) :
    words space (spaces ++ s) = words space s := by
  induction spaces with
  | nil => rfl
  | cons c spaces ih =>
    rw [List.cons_append, words_space (h c List.mem_cons_self)]
    exact ih fun d later => h d (List.mem_cons_of_mem c later)

/-- A space between two lines is not part of a word of either. -/
theorem words_append_space {c : α} (h : space c) (s t : List α) :
    words space (s ++ c :: t) = words space s ++ words space t := by
  induction s using words.induct space with
  | case1 s left =>
    have spaces : ∀ d ∈ s, space d := List.dropWhile_eq_nil_iff.mp left
    rw [words_of_spaces left, words_spaces spaces, words_space h, List.nil_append]
  | case2 s d rest left ih =>
    have begun : (s ++ c :: t).dropWhile space = d :: (rest ++ c :: t) := by
      rw [List.dropWhile_append, left]
      rfl
    have stop : (c :: t).takeWhile (fun c => !space c) = [] := by simp [h]
    have kept : (c :: t).dropWhile (fun c => !space c) = c :: t := by simp [h]
    have taken : (d :: (rest ++ c :: t)).takeWhile (fun c => !space c) =
        (d :: rest).takeWhile (fun c => !space c) := by
      rw [← List.cons_append, List.takeWhile_append, stop, List.append_nil]
      split_ifs with full
      · exact ((List.takeWhile_prefix _).eq_of_length full).symm
      · rfl
    have dropped : (rest ++ c :: t).dropWhile (fun c => !space c) =
        rest.dropWhile (fun c => !space c) ++ c :: t := by
      rw [List.dropWhile_append, kept]
      split_ifs with none
      · rw [List.isEmpty_iff.mp none, List.nil_append]
      · rfl
    rw [words_of_word begun, words_of_word left, taken, dropped, ih, List.cons_append]

end Words

end IndustrialRuntime.Split
