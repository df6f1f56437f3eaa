import IndustrialRuntime.Codec.LineRead

namespace IndustrialRuntime.Irsp.Irsp1Codec

variable {mem : Heap} {b : Bytes} {parse : Nat → Except Raised ParseState}

/-! ### Where a successful parse stops -/

/-- A successful `parse` from `cur` stops between `cur` and the end of the buffer. -/
def Advances (b : Bytes) (parse : Nat → Except Raised ParseState) : Prop :=
  ∀ cur st, parse cur = .ok st → st.status = .ok → cur ≤ st.pos ∧ st.pos ≤ b.length

theorem parseItems_advances (hp : Advances b parse) {pos count cur : Nat}
    {items : List IrspValue} {st : ParseState} (hc : cur ≤ b.length)
    (h : parseItems parse pos count items cur = .ok st) (ok : st.status = .ok) :
    cur ≤ st.pos ∧ st.pos ≤ b.length := by
  induction count generalizing items cur with
  | zero =>
    obtain rfl := Except.ok.inj h
    exact ⟨le_rfl, hc⟩
  | succ count ih =>
    obtain ⟨el, read, good, rest⟩ := parseItems_succ h ok
    obtain ⟨low, high⟩ := hp cur el read good
    have later := ih high rest
    omega

theorem parseEntries_advances (hp : Advances b parse) {pos pairs cur : Nat}
    {entries : List (IrspValue × IrspValue)} {st : ParseState} (hc : cur ≤ b.length)
    (h : parseEntries parse pos pairs entries cur = .ok st) (ok : st.status = .ok) :
    cur ≤ st.pos ∧ st.pos ≤ b.length := by
  induction pairs generalizing entries cur with
  | zero =>
    obtain rfl := Except.ok.inj h
    exact ⟨le_rfl, hc⟩
  | succ pairs ih =>
    obtain ⟨key, val, read_key, good_key, read_val, good_val, rest⟩ := parseEntries_succ h ok
    have at_key := hp cur key read_key good_key
    have at_val := hp key.pos val read_val good_val
    have later := ih at_val.2 rest
    omega

theorem LineRead.advances (hp : Advances b parse) {type : UInt8} {line : Bytes}
    {pos afterLine : Nat} {st : ParseState} (hc : afterLine ≤ b.length)
    (read : LineRead b parse line pos afterLine type st) :
    afterLine ≤ st.pos ∧ st.pos ≤ b.length := by
  cases read with
  | bulk _ _ within =>
    refine ⟨?_, within⟩
    show afterLine ≤ afterLine + _ + 2
    omega
  | array _ _ loop ok => exact parseItems_advances hp hc loop ok
  | map _ _ loop ok => exact parseEntries_advances hp hc loop ok
  | _ => exact ⟨le_rfl, hc⟩

/-- A parsed value takes at least its type byte and a CRLF. -/
theorem parseValue_advances {depth pos : Nat} {st : ParseState}
    (h : parseValue mem b depth pos = .ok st) (ok : st.status = .ok) :
    pos + 3 ≤ st.pos ∧ st.pos ≤ b.length := by
  induction depth generalizing pos st with
  | zero => simp [parseValue] at h
  | succ depth ih =>
    have hp : Advances b (parseValue mem b depth) := by
      intro cur el hel hok
      have := ih hel hok
      omega
    rw [parseValue, parseBody] at h
    split at h
    · obtain rfl : _ = st := by simpa using h
      cases ok
    · split at h
      · obtain rfl : _ = st := by simpa using h
        cases ok
      · rename_i lineEnd hline
        have bounds := findCrlf_bounds hline
        have := (parseLine_ok h ok).advances hp bounds.2
        omega

/-! ### The recursion bound is never reached -/

theorem parseItems_error (hp : Advances b parse) {pos count cur : Nat}
    {items : List IrspValue} {e : Raised} (h : parseItems parse pos count items cur = .error e) :
    ∃ c, cur ≤ c ∧ parse c = .error e := by
  induction count generalizing items cur with
  | zero => cases h
  | succ count ih =>
    obtain raised | ⟨el, read, good, rest⟩ := parseItems_succ_error h
    · exact ⟨cur, le_rfl, raised⟩
    · obtain ⟨low, _⟩ := hp cur el read good
      obtain ⟨c, behind, raised⟩ := ih rest
      exact ⟨c, by omega, raised⟩

theorem parseEntries_error (hp : Advances b parse) {pos pairs cur : Nat}
    {entries : List (IrspValue × IrspValue)} {e : Raised}
    (h : parseEntries parse pos pairs entries cur = .error e) :
    ∃ c, cur ≤ c ∧ parse c = .error e := by
  induction pairs generalizing entries cur with
  | zero => cases h
  | succ pairs ih =>
    obtain raised | ⟨key, read_key, good_key, raised | ⟨val, read_val, good_val, rest⟩⟩ :=
      parseEntries_succ_error h
    · exact ⟨cur, le_rfl, raised⟩
    · exact ⟨key.pos, (hp cur key read_key good_key).1, raised⟩
    · have at_key := hp cur key read_key good_key
      have at_val := hp key.pos val read_val good_val
      obtain ⟨c, behind, raised⟩ := ih rest
      exact ⟨c, by omega, raised⟩

/-- An exception leaves a line either from a request of its own or from a nested value. -/
theorem LineRaise.from_inside (hp : Advances b parse) {type : UInt8} {line : Bytes}
    {pos afterLine : Nat} {e : Raised} (raise : LineRaise mem b parse line pos afterLine type e) :
    e ≠ .depth ∨ ∃ c, afterLine ≤ c ∧ parse c = .error e := by
  cases raise with
  | refused _ _ known => exact .inl known
  | array _ _ loop => exact .inr (parseItems_error hp loop)
  | map _ _ loop => exact .inr (parseEntries_error hp loop)

theorem parseValue_ne_depth {depth pos : Nat} (h : b.length + 1 ≤ depth + pos)
    (hpos : pos ≤ b.length) : parseValue mem b depth pos ≠ .error .depth := by
  induction depth generalizing pos with
  | zero => omega
  | succ depth ih =>
    intro he
    have hp : Advances b (parseValue mem b depth) := by
      intro cur el hel hok
      have := parseValue_advances hel hok
      omega
    rw [parseValue, parseBody] at he
    split at he
    · simp at he
    · split at he
      · simp at he
      · rename_i lineEnd hline
        have bounds := findCrlf_bounds hline
        obtain known | ⟨c, hc, hdeep⟩ := (parseLine_error he).from_inside hp
        · exact known rfl
        · by_cases hlen : c ≤ b.length
          · exact ih (by omega) hlen hdeep
          · have past : b[c]? = none := List.getElem?_eq_none (by omega)
            cases depth with
            | zero => omega
            | succ depth => simp [parseValue, parseBody, past] at hdeep

/-- `decode` returns a result or lets an exception of the heap out. -/
theorem decode_ne_depth (mem : Heap) (b : Bytes) : decode mem b ≠ .error .depth := by
  intro h
  cases hv : parseValue mem b (b.length + 1) 0 with
  | ok st => simp [decode, hv, Except.map] at h
  | error e =>
    obtain rfl : e = .depth := by simpa [decode, hv, Except.map] using h
    exact parseValue_ne_depth (by omega) (by omega) hv

end IndustrialRuntime.Irsp.Irsp1Codec
