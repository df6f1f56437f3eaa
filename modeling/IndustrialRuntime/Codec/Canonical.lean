import IndustrialRuntime.Codec.Consumed
import IndustrialRuntime.Codec.RoundTrip

namespace IndustrialRuntime.Irsp

open IrspValue

/-- The value can be encoded, and a decoder can hold it. -/
def IrspValue.Admissible (lim : Irsp1Codec.VectorLimits) (v : IrspValue) : Prop :=
  v.Encodable ∧ v.Storable lim

namespace Irsp1Codec

variable {lim : VectorLimits} {mem : Heap} {b : Bytes} {parse : Nat → Except Raised ParseState}

/-! ### The texts on a line -/

/-- What stands before the first CRLF has none. -/
theorem crlfOffset_take {l : Bytes} {k : Nat} (h : crlfOffset l = some k) :
    crlfOffset (l.take k) = none := by
  obtain ⟨line, rest, rfl, clean, rfl⟩ := crlfOffset_eq_some_iff.mp h
  rw [List.append_assoc, List.take_left]
  exact clean

theorem clean_line {pos lineEnd : Nat} (h : findCrlf b pos = some lineEnd) :
    ¬crlf <:+: substr b pos (lineEnd - pos) := by
  obtain ⟨k, found, rfl⟩ := Option.map_eq_some_iff.mp h
  rw [Nat.add_sub_cancel_left, substr, ← crlfOffset_eq_none_iff]
  exact crlfOffset_take found

/-- Code and message are parts of the line, and the code ends before its first space. -/
theorem printable_error {line : Bytes} (clean : ¬crlf <:+: line) :
    Printable (.error (errorCode line) (errorMessage line)) := by
  have code : errorCode line <:+: line := (List.takeWhile_prefix _).isInfix
  have behind : line.dropWhile (· != 32) <:+: line := (List.dropWhile_suffix _).isInfix
  have message : errorMessage line <:+: line := (List.tail_suffix _).isInfix.trans behind
  refine ⟨fun held => clean (held.trans code), fun held => clean (held.trans message), ?_⟩
  intro space
  have letter := List.mem_takeWhile_imp space
  exact absurd letter (by decide)

/-! ### What is parsed can be encoded -/

theorem admissible_leaf {v : IrspValue} (printable : Printable v) (fits : Fits lim v)
    (leaf : v.children = []) : v.Admissible lim := by
  refine ⟨⟨printable, ?_⟩, ⟨fits, ?_⟩⟩
  · intro w inside
    rw [leaf] at inside
    exact absurd inside List.not_mem_nil
  · intro w inside
    rw [leaf] at inside
    exact absurd inside List.not_mem_nil

theorem admissible_null : IrspValue.null.Admissible lim :=
  admissible_leaf trivial trivial rfl

theorem admissible_array {items : List IrspValue} (room : items.length ≤ lim.items)
    (inside : ∀ v ∈ items, v.Admissible lim) : (IrspValue.array items).Admissible lim := by
  have small : items.length < 2 ^ 63 := Nat.lt_of_le_of_lt room lim.items_lt
  exact ⟨⟨small, fun v held => (inside v held).1⟩, ⟨room, fun v held => (inside v held).2⟩⟩

theorem admissible_map {entries : List (IrspValue × IrspValue)}
    (room : entries.length ≤ lim.entries)
    (inside : ∀ e ∈ entries, e.1.Admissible lim ∧ e.2.Admissible lim) :
    (IrspValue.map entries).Admissible lim := by
  have small : entries.length < 2 ^ 63 := Nat.lt_of_le_of_lt room lim.entries_lt
  have child : ∀ w ∈ (IrspValue.map entries).children, w.Admissible lim := by
    intro w held
    obtain ⟨e, listed, part⟩ := List.mem_flatMap.mp held
    simp only [List.mem_cons, List.not_mem_nil, or_false] at part
    obtain rfl | rfl := part
    · exact (inside e listed).1
    · exact (inside e listed).2
  exact ⟨⟨small, fun w held => (child w held).1⟩, ⟨room, fun w held => (child w held).2⟩⟩

/-- All that `parse` reads is admissible. -/
def Yields (lim : VectorLimits) (parse : Nat → Except Raised ParseState) : Prop :=
  ∀ cur st, parse cur = .ok st → st.status = .ok → st.value.Admissible lim

theorem parseItems_yields (yields : Yields lim parse) {pos count cur : Nat}
    {items : List IrspValue} {st : ParseState}
    (h : parseItems parse pos count items cur = .ok st) (ok : st.status = .ok)
    (room : items.length + count ≤ lim.items) (inside : ∀ v ∈ items, v.Admissible lim) :
    st.value.Admissible lim := by
  induction count generalizing items cur with
  | zero =>
    obtain rfl := Except.ok.inj h
    exact admissible_array room inside
  | succ count ih =>
    obtain ⟨el, read, good, rest⟩ := parseItems_succ h ok
    apply ih rest
    · rw [List.length_append, List.length_singleton]
      omega
    · intro v held
      obtain before | new := List.mem_append.mp held
      · exact inside v before
      · rw [List.mem_singleton.mp new]
        exact yields cur el read good

theorem parseEntries_yields (yields : Yields lim parse) {pos pairs cur : Nat}
    {entries : List (IrspValue × IrspValue)} {st : ParseState}
    (h : parseEntries parse pos pairs entries cur = .ok st) (ok : st.status = .ok)
    (room : entries.length + pairs ≤ lim.entries)
    (inside : ∀ e ∈ entries, e.1.Admissible lim ∧ e.2.Admissible lim) :
    st.value.Admissible lim := by
  induction pairs generalizing entries cur with
  | zero =>
    obtain rfl := Except.ok.inj h
    exact admissible_map room inside
  | succ pairs ih =>
    obtain ⟨key, val, read_key, good_key, read_val, good_val, rest⟩ := parseEntries_succ h ok
    apply ih rest
    · rw [List.length_append, List.length_singleton]
      omega
    · intro e held
      obtain before | new := List.mem_append.mp held
      · exact inside e before
      · rw [List.mem_singleton.mp new]
        exact ⟨yields cur key read_key good_key, yields key.pos val read_val good_val⟩

theorem LineRead.yields (yields : Yields lim parse) {type : UInt8} {line : Bytes}
    {pos afterLine : Nat} {st : ParseState} (clean : ¬crlf <:+: line)
    (read : LineRead b parse line pos afterLine type st)
    (short : ∀ place r, LineAsks b line pos afterLine type place r → ¬r.TooLong lim) :
    st.value.Admissible lim := by
  cases read with
  | simple => exact admissible_leaf clean trivial rfl
  | error => exact admissible_leaf (printable_error clean) trivial rfl
  | integer => exact admissible_leaf trivial trivial rfl
  | nullBulk => exact admissible_null
  | @bulk len =>
    have size : (substr b afterLine len.toInt.toNat).length ≤ len.toInt.toNat := by
      rw [substr, List.length_take]
      omega
    have number_lt := len.toInt_lt
    have small : (substr b afterLine len.toInt.toNat).length < 2 ^ 63 := by
      omega
    exact admissible_leaf small trivial rfl
  | nullArray => exact admissible_null
  | array number sign loop ok =>
    have room := not_lt.mp (short _ _ (.array number sign))
    exact parseItems_yields yields loop ok (by simpa using room) (by simp)
  | map number sign loop ok =>
    have room := not_lt.mp (short _ _ (.map number sign))
    exact parseEntries_yields yields loop ok (by simpa using room) (by simp)

/-- Every value that is parsed is one that `encode` is meant for. -/
theorem parseValue_yields (depth : Nat) : Yields mem.limits (parseValue mem b depth) := by
  induction depth with
  | zero =>
    intro cur st h
    simp [parseValue] at h
  | succ depth ih =>
    intro cur st h ok
    rw [parseValue, parseBody] at h
    split at h
    · obtain rfl := Except.ok.inj h
      cases ok
    · split at h
      · obtain rfl := Except.ok.inj h
        cases ok
      · rename_i lineEnd found
        refine (parseLine_ok h ok).yields ih (clean_line found) ?_
        exact fun place r asks long => asks.granted h (.inl long)

theorem admissible_of_decode {v : IrspValue} {n : Nat} (h : decode mem b = .ok ⟨.ok, v, n⟩) :
    v.Admissible mem.limits :=
  parseValue_yields _ 0 _ (parseValue_of_decode h) rfl

/-- A successful decode takes at least three bytes and looks at none behind them, and its
value encodes to a form that decodes to it again. -/
theorem decode_sound {v : IrspValue} {n : Nat} (h : decode mem b = .ok ⟨.ok, v, n⟩) :
    3 ≤ n ∧ n ≤ b.length ∧ (∀ rest, decode mem (b.take n ++ rest) = .ok ⟨.ok, v, n⟩) ∧
      v.Encodable ∧ decode mem.limits (encode v) = .ok ⟨.ok, v, (encode v).length⟩ := by
  obtain ⟨encodable, storable⟩ := admissible_of_decode h
  have least := (parseValue_advances (parseValue_of_decode h) rfl).1
  refine ⟨by simpa using least, consumed_le h, ?_, encodable, ?_⟩
  · intro rest
    have alone := decode_take h
    rw [decode_append mem _ rest, alone]
    intro r decided
    rw [alone] at decided
    obtain rfl := Except.ok.inj decided
    exact Status.noConfusion
  · have again := parseValue_encode v encodable storable (encode v) 0 ((encode v).length + 1) []
      (List.append_nil _).symm le_rfl
    rw [decode, again, Nat.zero_add]
    rfl

/-- A count with a leading zero, and an integer that is minus zero. -/
theorem decode_sound_minus_zero :
    decode x64Limits (encode (.array [.integer 0])) =
      .ok ⟨.ok, .array [.integer 0], (encode (.array [.integer 0])).length⟩ := by
  have read : decode x64Limits (ascii "*01\r\n:-0\r\n+") = .ok ⟨.ok, .array [.integer 0], 10⟩ := by
    rfl
  exact (decode_sound read).2.2.2.2

end Irsp1Codec

end IndustrialRuntime.Irsp
