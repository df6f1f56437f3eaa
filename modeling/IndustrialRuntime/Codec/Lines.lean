import IndustrialRuntime.Codec.Irsp1Codec

namespace IndustrialRuntime.Irsp.Irsp1Codec

/-! ### The CRLF search -/

theorem crlfOffset_cons (c : UInt8) (rest : Bytes) :
    crlfOffset (c :: rest) =
      if c = 13 ∧ rest.head? = some 10 then some 0 else (crlfOffset rest).map (· + 1) := rfl

/-- Only a CRLF substring stops the search. -/
theorem crlfOffset_eq_none_iff (l : Bytes) : crlfOffset l = none ↔ ¬crlf <:+: l := by
  induction l with
  | nil => simp [crlfOffset, crlf]
  | cons c rest ih =>
    have head : (c = 13 ∧ rest.head? = some 10) ↔ crlf <+: c :: rest := by
      cases rest with
      | nil => simp [crlf, List.cons_prefix_cons]
      | cons d rest => simp [crlf, List.cons_prefix_cons, eq_comm]
    rw [crlfOffset_cons, List.infix_cons_iff, ← head]
    by_cases h : c = 13 ∧ rest.head? = some 10
    · simp [h]
    · simp [h, ih]

/-- A line ends at its own CRLF, even when its last byte is a `'\r'`. -/
theorem crlfOffset_line {line : Bytes} (h : crlfOffset line = none) (rest : Bytes) :
    crlfOffset (line ++ crlf ++ rest) = some line.length := by
  induction line with
  | nil => simp [crlf, crlfOffset]
  | cons c line ih =>
    rw [crlfOffset_cons] at h
    split_ifs at h with hc
    have tail := ih (by simpa using h)
    have go_on : ¬(c = 13 ∧ (line ++ crlf ++ rest).head? = some 10) := by
      rintro ⟨h13, h10⟩
      cases line with
      | nil => simp [crlf] at h10
      | cons d line => exact hc ⟨h13, by simpa using h10⟩
    rw [List.cons_append, List.cons_append, crlfOffset_cons, if_neg go_on, tail]
    rfl

/-- The search finds the line in front of the first CRLF. -/
theorem crlfOffset_eq_some_iff {l : Bytes} {k : Nat} :
    crlfOffset l = some k ↔
      ∃ line rest, l = line ++ crlf ++ rest ∧ crlfOffset line = none ∧ line.length = k := by
  constructor
  · intro h
    induction l generalizing k with
    | nil => simp [crlfOffset] at h
    | cons c tail ih =>
      rw [crlfOffset_cons] at h
      split_ifs at h with first
      · obtain rfl := Option.some.inj h
        obtain ⟨rfl, lf⟩ := first
        obtain ⟨rest, rfl⟩ := List.head?_eq_some_iff.mp lf
        exact ⟨[], rest, rfl, rfl, rfl⟩
      · obtain ⟨j, later, rfl⟩ := Option.map_eq_some_iff.mp h
        obtain ⟨line, rest, rfl, clean, length⟩ := ih later
        have go_on : ¬(c = 13 ∧ line.head? = some 10) := by
          rintro ⟨cr, lf⟩
          obtain ⟨text, rfl⟩ := List.head?_eq_some_iff.mp lf
          exact first ⟨cr, rfl⟩
        refine ⟨c :: line, rest, rfl, ?_, by rw [List.length_cons, length]⟩
        rw [crlfOffset_cons, if_neg go_on, clean]
        rfl
  · rintro ⟨line, rest, rfl, clean, rfl⟩
    exact crlfOffset_line clean rest

theorem crlfOffset_lt {l : Bytes} {k : Nat} (h : crlfOffset l = some k) : k + 2 ≤ l.length := by
  obtain ⟨line, rest, rfl, -, rfl⟩ := crlfOffset_eq_some_iff.mp h
  simp only [List.length_append, crlf, List.length_cons, List.length_nil]
  omega

/-- More bytes do not move the first CRLF. -/
theorem crlfOffset_append {l : Bytes} {k : Nat} (h : crlfOffset l = some k) (s : Bytes) :
    crlfOffset (l ++ s) = some k := by
  obtain ⟨line, rest, rfl, clean, length⟩ := crlfOffset_eq_some_iff.mp h
  exact crlfOffset_eq_some_iff.mpr ⟨line, rest ++ s, List.append_assoc _ _ _, clean, length⟩

/-- A first CRLF that the additional bytes do not complete was there before. -/
theorem crlfOffset_of_append {l s : Bytes} {k : Nat} (h : crlfOffset (l ++ s) = some k)
    (inside : k + 2 ≤ l.length) : crlfOffset l = some k := by
  obtain ⟨line, rest, same, clean, length⟩ := crlfOffset_eq_some_iff.mp h
  have first : line ++ crlf <+: l ++ s := ⟨rest, same.symm⟩
  have shorter : (line ++ crlf).length ≤ l.length := by
    rw [List.length_append, length]
    exact inside
  obtain ⟨tail, rfl⟩ := List.prefix_of_prefix_length_le first (List.prefix_append l s) shorter
  exact crlfOffset_eq_some_iff.mpr ⟨line, tail, rfl, clean, length⟩

theorem crlfOffset_of_no_cr {l : Bytes} (h : (13 : UInt8) ∉ l) : crlfOffset l = none := by
  rw [crlfOffset_eq_none_iff]
  rintro ⟨a, b, rfl⟩
  simp [crlf] at h

/-- The space between code and message keeps a CRLF from forming across it. -/
theorem crlfOffset_space {code message : Bytes} (hc : crlfOffset code = none)
    (hm : crlfOffset message = none) : crlfOffset (code ++ 32 :: message) = none := by
  induction code with
  | nil => simp [crlfOffset, hm]
  | cons c code ih =>
    rw [crlfOffset_cons] at hc
    split_ifs at hc with h
    have tail := ih (by simpa using hc)
    have go_on : ¬(c = 13 ∧ (code ++ 32 :: message).head? = some 10) := by
      rintro ⟨h13, h10⟩
      cases code with
      | nil => simp at h10
      | cons d code => exact h ⟨h13, by simpa using h10⟩
    rw [List.cons_append, crlfOffset_cons, if_neg go_on, tail]
    rfl

theorem findCrlf_bounds {b : Bytes} {pos e : Nat} (h : findCrlf b pos = some e) :
    pos ≤ e ∧ e + 2 ≤ b.length := by
  obtain ⟨k, hk, rfl⟩ := Option.map_eq_some_iff.mp h
  have := crlfOffset_lt hk
  rw [List.length_drop] at this
  omega

theorem findCrlf_append {b : Bytes} {pos e : Nat} (h : findCrlf b pos = some e) (s : Bytes) :
    findCrlf (b ++ s) pos = some e := by
  have bounds := findCrlf_bounds h
  obtain ⟨k, hk, rfl⟩ := Option.map_eq_some_iff.mp h
  rw [findCrlf, List.drop_append_of_le_length (by omega), crlfOffset_append hk]
  rfl

theorem substr_append {b : Bytes} {pos n : Nat} (h : pos + n ≤ b.length) (s : Bytes) :
    substr (b ++ s) pos n = substr b pos n := by
  rw [substr, substr, List.drop_append_of_le_length (by omega), List.take_append_of_le_length]
  rw [List.length_drop]
  omega

/-! ### One line of a buffer -/

/-- A buffer that reads a type byte and a line at `pos`. -/
structure LineAt (b : Bytes) (pos : Nat) (type : UInt8) (line rest : Bytes) : Prop where
  bytes : b.drop pos = type :: (line ++ crlf ++ rest)
  clean : crlfOffset line = none

namespace LineAt

variable {b : Bytes} {pos : Nat} {type : UInt8} {line rest : Bytes}

theorem length_eq (h : LineAt b pos type line rest) :
    b.length = pos + line.length + rest.length + 3 := by
  have hl := congrArg List.length h.bytes
  simp only [List.length_drop, List.length_cons, List.length_append, crlf, List.length_nil] at hl
  omega

theorem type_eq (h : LineAt b pos type line rest) : b[pos]? = some type := by
  have := congrArg List.head? h.bytes
  simpa [List.head?_drop] using this

theorem drop_line (h : LineAt b pos type line rest) :
    b.drop (pos + 1) = line ++ crlf ++ rest := by
  rw [← List.drop_drop, h.bytes, List.drop_one, List.tail_cons]

theorem findCrlf_eq (h : LineAt b pos type line rest) :
    findCrlf b (pos + 1) = some (pos + 1 + line.length) := by
  rw [findCrlf, h.drop_line, crlfOffset_line h.clean]
  rfl

theorem substr_eq (h : LineAt b pos type line rest) :
    substr b (pos + 1) (pos + 1 + line.length - (pos + 1)) = line := by
  rw [substr, h.drop_line, Nat.add_sub_cancel_left, List.append_assoc, List.take_left]

theorem drop_rest (h : LineAt b pos type line rest) :
    b.drop (pos + 1 + line.length + 2) = rest := by
  have : pos + 1 + line.length + 2 = (pos + 1) + (line ++ crlf).length := by
    simp [crlf]; omega
  rw [this, ← List.drop_drop, h.drop_line, List.drop_left]

/-- A complete line is dispatched on its type byte. -/
theorem parseBody_eq (h : LineAt b pos type line rest) (mem : Heap)
    (parse : Nat → Except Raised ParseState) :
    parseBody mem b parse pos =
      parseLine mem b parse type line pos (pos + 1 + line.length + 2) := by
  simp only [parseBody, h.type_eq, h.findCrlf_eq, h.substr_eq]

/-- Where there is a line there is depth left to read it. -/
theorem parseValue_eq (h : LineAt b pos type line rest) (mem : Heap) {depth : Nat}
    (enough : b.length + 1 ≤ depth + pos) :
    ∃ d, depth = d + 1 ∧ parseValue mem b depth pos =
      parseLine mem b (parseValue mem b d) type line pos (pos + 1 + line.length + 2) := by
  have length := h.length_eq
  obtain ⟨d, rfl⟩ : ∃ d, depth = d + 1 := ⟨depth - 1, by omega⟩
  exact ⟨d, rfl, h.parseBody_eq mem (parseValue mem b d)⟩

end LineAt

end IndustrialRuntime.Irsp.Irsp1Codec
