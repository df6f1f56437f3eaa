import IndustrialRuntime.Codec.Streaming

namespace IndustrialRuntime.Irsp.Irsp1Codec

variable {mem : Heap} {p s : Bytes} {parse parse' : Nat → Except Raised ParseState}

/-! ### A successful parse reads nothing behind its end -/

theorem findCrlf_of_append {pos e : Nat} (h : findCrlf (p ++ s) pos = some e)
    (inside : e + 2 ≤ p.length) : findCrlf p pos = some e := by
  obtain ⟨k, found, rfl⟩ := Option.map_eq_some_iff.mp h
  have early : pos ≤ p.length := by omega
  rw [List.drop_append_of_le_length early] at found
  have shorter : k + 2 ≤ (p.drop pos).length := by
    rw [List.length_drop]
    omega
  rw [findCrlf, crlfOffset_of_append found shorter]
  rfl

/-- From `low` on, `parse'` repeats the successes of `parse` that end within `p`. -/
def Repeats (p : Bytes) (low : Nat) (parse parse' : Nat → Except Raised ParseState) : Prop :=
  ∀ cur st, low ≤ cur → parse cur = .ok st → st.status = .ok → st.pos ≤ p.length →
    parse' cur = .ok st

theorem parseItems_repeats {low : Nat} (advances : Advances (p ++ s) parse)
    (repeats : Repeats p low parse parse') {pos count cur : Nat} {items : List IrspValue}
    {st : ParseState} (above : low ≤ cur) (h : parseItems parse pos count items cur = .ok st)
    (ok : st.status = .ok) (within : st.pos ≤ p.length) :
    parseItems parse' pos count items cur = .ok st := by
  induction count generalizing items cur with
  | zero => exact h
  | succ count ih =>
    obtain ⟨el, read, good, rest⟩ := parseItems_succ h ok
    obtain ⟨low_el, high⟩ := advances cur el read good
    obtain ⟨later, _⟩ := parseItems_advances advances high rest ok
    have short : el.pos ≤ p.length := by omega
    rw [parseItems_of_read (repeats cur el above read good short) good]
    exact ih (by omega) rest

theorem parseEntries_repeats {low : Nat} (advances : Advances (p ++ s) parse)
    (repeats : Repeats p low parse parse') {pos pairs cur : Nat}
    {entries : List (IrspValue × IrspValue)} {st : ParseState} (above : low ≤ cur)
    (h : parseEntries parse pos pairs entries cur = .ok st) (ok : st.status = .ok)
    (within : st.pos ≤ p.length) : parseEntries parse' pos pairs entries cur = .ok st := by
  induction pairs generalizing entries cur with
  | zero => exact h
  | succ pairs ih =>
    obtain ⟨key, val, read_key, good_key, read_val, good_val, rest⟩ := parseEntries_succ h ok
    obtain ⟨low_key, _⟩ := advances cur key read_key good_key
    obtain ⟨low_val, high⟩ := advances key.pos val read_val good_val
    obtain ⟨later, _⟩ := parseEntries_advances advances high rest ok
    have short_key : key.pos ≤ p.length := by omega
    have short_val : val.pos ≤ p.length := by omega
    have above_key : low ≤ key.pos := by omega
    have same_key := repeats cur key above read_key good_key short_key
    have same_val := repeats key.pos val above_key read_val good_val short_val
    rw [parseEntries_of_read same_key good_key same_val good_val]
    exact ih (by omega) rest

theorem LineRead.repeats {low : Nat} (advances : Advances (p ++ s) parse)
    (repeats : Repeats p low parse parse') {type : UInt8} {line : Bytes} {pos afterLine : Nat}
    {st : ParseState} (above : low ≤ afterLine)
    (read : LineRead (p ++ s) parse line pos afterLine type st)
    (within : st.pos ≤ p.length) : LineRead p parse' line pos afterLine type st := by
  cases read with
  | simple => exact .simple
  | error => exact .error
  | integer number => exact .integer number
  | nullBulk number negative => exact .nullBulk number negative
  | @bulk len number sign _ cr lf =>
    have enough : afterLine + len.toInt.toNat + 2 ≤ p.length := within
    rw [List.getElem?_append_left (by omega)] at cr lf
    rw [substr_append (by omega)]
    exact .bulk number sign enough cr lf
  | nullArray number negative => exact .nullArray number negative
  | array number sign loop ok =>
    exact .array number sign (parseItems_repeats advances repeats above loop ok within) ok
  | map number sign loop ok =>
    exact .map number sign (parseEntries_repeats advances repeats above loop ok within) ok

/-- A line asks for nothing that it would not ask for in a longer buffer. -/
theorem LineAsks.append {type : UInt8} {line : Bytes} {pos afterLine place : Nat} {r : Request}
    (asks : LineAsks p line pos afterLine type place r) (s : Bytes) :
    LineAsks (p ++ s) line pos afterLine type place r := by
  cases asks with
  | simple => exact .simple
  | code => exact .code
  | message => exact .message
  | bulk number sign within cr lf =>
    refine .bulk number sign ?_ ?_ ?_
    · rw [List.length_append]
      omega
    · rw [List.getElem?_append_left (by omega), cr]
    · rw [List.getElem?_append_left (by omega), lf]
  | array number sign => exact .array number sign
  | map number sign => exact .map number sign

/-- A parse that ends within a prefix is the parse of the prefix. -/
theorem parseValue_repeats {depth depth' pos : Nat} {st : ParseState}
    (h : parseValue mem (p ++ s) depth pos = .ok st) (ok : st.status = .ok)
    (within : st.pos ≤ p.length) (enough : p.length + 1 ≤ depth' + pos) :
    parseValue mem p depth' pos = .ok st := by
  induction depth generalizing depth' pos st with
  | zero => simp [parseValue] at h
  | succ depth ih =>
    obtain ⟨reached, _⟩ := parseValue_advances h ok
    obtain ⟨d, rfl⟩ : ∃ d, depth' = d + 1 := ⟨depth' - 1, by omega⟩
    have advances : Advances (p ++ s) (parseValue mem (p ++ s) depth) := by
      intro cur el read good
      have bounds := parseValue_advances read good
      omega
    have repeats : Repeats p (pos + 1) (parseValue mem (p ++ s) depth) (parseValue mem p d) := by
      intro cur el above read good short
      exact ih read good short (by omega)
    rw [parseValue, parseBody] at h ⊢
    rw [List.getElem?_append_left (by omega)] at h
    split at h
    · obtain rfl := Except.ok.inj h
      cases ok
    · rename_i type at_type
      split at h
      · obtain rfl := Except.ok.inj h
        cases ok
      · rename_i lineEnd line
        have bounds := findCrlf_bounds line
        have read := parseLine_ok h ok
        obtain ⟨past, _⟩ := read.advances advances bounds.2
        rw [at_type, findCrlf_of_append line (by omega)]
        rw [substr_append (by omega)] at read h
        have again := read.repeats advances repeats (by omega) within
        exact again.parseLine_eq fun place r asks => (asks.append s).granted h

theorem parseValue_of_decode {b : Bytes} {v : IrspValue} {n : Nat}
    (h : decode mem b = .ok ⟨.ok, v, n⟩) :
    parseValue mem b (b.length + 1) 0 = .ok ⟨.ok, v, n⟩ := by
  cases parsed : parseValue mem b (b.length + 1) 0 with
  | error e => simp [decode, parsed, Except.map] at h
  | ok st =>
    rw [decode, parsed] at h
    obtain ⟨ok, rfl, rfl⟩ : st.status = .ok ∧ st.value = v ∧ st.pos = n := by
      simpa [Except.map] using h
    rw [← ok]

theorem consumed_le {b : Bytes} {v : IrspValue} {n : Nat}
    (h : decode mem b = .ok ⟨.ok, v, n⟩) : n ≤ b.length :=
  (parseValue_advances (parseValue_of_decode h) rfl).2

/-- The bytes that a successful decode has consumed are one whole encoded value. -/
theorem decode_take {b : Bytes} {v : IrspValue} {n : Nat}
    (h : decode mem b = .ok ⟨.ok, v, n⟩) : decode mem (b.take n) = .ok ⟨.ok, v, n⟩ := by
  have bound := consumed_le h
  have length : (b.take n).length = n := by
    rw [List.length_take]
    omega
  have split : b.take n ++ b.drop n = b := List.take_append_drop _ _
  have whole : parseValue mem (b.take n ++ b.drop n) (b.length + 1) 0 = .ok ⟨.ok, v, n⟩ := by
    rw [split]
    exact parseValue_of_decode h
  have enough : (b.take n).length + 1 ≤ (b.take n).length + 1 + 0 := le_rfl
  have cut := parseValue_repeats whole rfl length.ge enough
  rw [decode, cut]
  rfl

/-- A whole encoded value: all of it decodes, and nothing is left. -/
def Whole (mem : Heap) (b : Bytes) : Prop :=
  ∃ v, decode mem b = .ok ⟨.ok, v, b.length⟩

/-- A successful decode leaves bytes behind just when a strict prefix is a whole value. -/
theorem prefix_whole_iff {b : Bytes} {v : IrspValue} {n : Nat}
    (h : decode mem b = .ok ⟨.ok, v, n⟩) :
    (∃ p, p <+: b ∧ p ≠ b ∧ Whole mem p) ↔ n ≠ b.length := by
  constructor
  · rintro ⟨p, ⟨s, rfl⟩, strict, w, whole⟩ rfl
    have longer := decode_append mem p s (by simp [whole])
    rw [whole, h] at longer
    simp only [Except.ok.injEq, DecodeResult.mk.injEq, true_and] at longer
    have empty : s = [] := by
      apply List.eq_nil_of_length_eq_zero
      have total : (p ++ s).length = p.length + s.length := List.length_append
      omega
    exact strict (by rw [empty, List.append_nil])
  · intro left
    have bound := consumed_le h
    have length : (b.take n).length = n := by
      rw [List.length_take]
      omega
    refine ⟨b.take n, List.take_prefix _ _, ?_, v, ?_⟩
    · intro same
      rw [same] at length
      exact left length.symm
    · rw [length]
      exact decode_take h

end IndustrialRuntime.Irsp.Irsp1Codec
