import IndustrialRuntime.Codec.Progress
import IndustrialRuntime.Codec.RoundTrip

namespace IndustrialRuntime.Irsp.Irsp1Codec

variable {mem : Heap} {b : Bytes} {parse parse' : Nat → Except Raised ParseState}

/-- The outcomes a receiver does not retry on. -/
def Settled : Except Raised ParseState → Prop
  | .ok st => st.status ≠ .incomplete
  | .error e => e ≠ .depth

/-- `parse'` keeps every settled outcome of `parse`. -/
def Extends (parse parse' : Nat → Except Raised ParseState) : Prop :=
  ∀ cur, Settled (parse cur) → parse' cur = parse cur

theorem parseItems_extends (hx : Extends parse parse') {pos count cur : Nat}
    {items : List IrspValue} (h : Settled (parseItems parse pos count items cur)) :
    parseItems parse' pos count items cur = parseItems parse pos count items cur := by
  induction count generalizing items cur with
  | zero => rfl
  | succ count ih =>
    rw [parseItems] at h ⊢
    cases he : parse cur with
    | error e =>
      rw [he] at h
      rw [hx cur (by rw [he]; exact h), parseItems, he]
    | ok st =>
      rw [he] at h
      by_cases hs : st.status = .ok
      · simp only [hs, ne_eq, not_true_eq_false, if_false] at h
        rw [hx cur (by simp [he, Settled, hs]), parseItems, he]
        simpa only [hs, ne_eq, not_true_eq_false, if_false] using ih h
      · simp only [hs, ne_eq, not_false_eq_true, if_true] at h
        rw [hx cur (by simpa [he, Settled] using h), parseItems, he]
        simp [hs]

theorem parseEntries_extends (hx : Extends parse parse') {pos pairs cur : Nat}
    {entries : List (IrspValue × IrspValue)}
    (h : Settled (parseEntries parse pos pairs entries cur)) :
    parseEntries parse' pos pairs entries cur = parseEntries parse pos pairs entries cur := by
  induction pairs generalizing entries cur with
  | zero => rfl
  | succ pairs ih =>
    rw [parseEntries] at h ⊢
    cases hk : parse cur with
    | error e =>
      rw [hk] at h
      rw [hx cur (by rw [hk]; exact h), parseEntries, hk]
    | ok k =>
      rw [hk] at h
      by_cases hs : k.status = .ok
      · simp only [hs, ne_eq, not_true_eq_false, if_false] at h
        rw [hx cur (by simp [hk, Settled, hs]), parseEntries, hk]
        simp only [hs, ne_eq, not_true_eq_false, if_false]
        cases hv : parse k.pos with
        | error e =>
          rw [hv] at h
          rw [hx k.pos (by rw [hv]; exact h), hv]
        | ok v =>
          rw [hv] at h
          by_cases hs' : v.status = .ok
          · simp only [hs', not_true_eq_false, if_false] at h
            rw [hx k.pos (by simp [hv, Settled, hs']), hv]
            simpa only [hs', ne_eq, not_true_eq_false, if_false] using ih h
          · simp only [hs', not_false_eq_true, if_true] at h
            rw [hx k.pos (by simpa [hv, Settled] using h), hv]
            simp [hs']
      · simp only [hs, ne_eq, not_false_eq_true, if_true] at h
        rw [hx cur (by simpa [hk, Settled] using h), parseEntries, hk]
        simp [hs]

/-- A request is answered as before, whatever follows it. -/
theorem allocate_bind_extends {place : Nat} {r : Request} {k k' : Except Raised ParseState}
    (h : Settled (do mem.allocate place r; k)) (extends_ : Settled k → k' = k) :
    (do mem.allocate place r; k') = (do mem.allocate place r; k) := by
  by_cases refuses : mem.Refuses place r
  · obtain ⟨e, raised, -⟩ := Heap.allocate_of_refuses refuses
    rw [raised]
    rfl
  · rw [allocate_bind_granted refuses] at h
    rw [allocate_bind_granted refuses, allocate_bind_granted refuses, extends_ h]

theorem parseBulk_append {line : Bytes} {pos afterLine : Nat}
    (h : Settled (parseBulk mem b line pos afterLine)) (s : Bytes) :
    parseBulk mem (b ++ s) line pos afterLine = parseBulk mem b line pos afterLine := by
  cases hl : parseInt line with
  | none => simp only [parseBulk, hl]
  | some len =>
    rw [parseBulk_eq hl] at h
    rw [parseBulk_eq hl, parseBulk_eq hl]
    by_cases hneg : len.toInt < 0
    · simp only [hneg, if_true]
    by_cases hneed : b.length < afterLine + len.toInt.toNat + 2
    · simp only [hneg, hneed, if_false, if_true] at h
      exact absurd rfl h
    have more : ¬(b ++ s).length < afterLine + len.toInt.toNat + 2 := by
      rw [List.length_append]
      omega
    rw [List.getElem?_append_left (by omega), List.getElem?_append_left (by omega),
      substr_append (by omega)]
    simp only [hneg, hneed, more, if_false]

theorem parseLine_extends (hx : Extends parse parse') {type : UInt8} {line : Bytes}
    {pos afterLine : Nat} (h : Settled (parseLine mem b parse type line pos afterLine))
    (s : Bytes) :
    parseLine mem (b ++ s) parse' type line pos afterLine =
      parseLine mem b parse type line pos afterLine := by
  simp only [parseLine] at h ⊢
  split_ifs at h ⊢
  · rfl
  · rfl
  · rfl
  · exact parseBulk_append h s
  · cases hl : parseInt line with
    | none => rfl
    | some count =>
      simp only [hl] at h ⊢
      split_ifs at h ⊢
      · rfl
      · exact allocate_bind_extends h (parseItems_extends hx)
  · cases hl : parseInt line with
    | none => rfl
    | some pairs =>
      simp only [hl] at h ⊢
      split_ifs at h ⊢
      · rfl
      · exact allocate_bind_extends h (parseEntries_extends hx)
  · rfl

/-- A settled parse stays as it is under more bytes and a larger recursion bound. -/
theorem parseValue_append {depth pos : Nat} (h : Settled (parseValue mem b depth pos))
    (extra : Nat) (s : Bytes) :
    parseValue mem (b ++ s) (depth + extra) pos = parseValue mem b depth pos := by
  induction depth generalizing pos with
  | zero => exact absurd rfl h
  | succ depth ih =>
    have hx : Extends (parseValue mem b depth) (parseValue mem (b ++ s) (depth + extra)) :=
      fun cur hcur => ih hcur
    rw [Nat.add_right_comm, parseValue, parseValue]
    rw [parseValue] at h
    rw [parseBody] at h ⊢
    rw [parseBody]
    cases ht : b[pos]? with
    | none =>
      rw [ht] at h
      exact absurd rfl h
    | some type =>
      have inside : pos < b.length := (List.getElem?_eq_some_iff.mp ht).1
      rw [ht] at h
      cases hf : findCrlf b (pos + 1) with
      | none =>
        rw [hf] at h
        exact absurd rfl h
      | some lineEnd =>
        simp only [hf] at h
        have bounds := findCrlf_bounds hf
        rw [List.getElem?_append_left inside, ht, findCrlf_append hf]
        simp only
        rw [substr_append (by omega)]
        exact parseLine_extends hx h s

/-- A verdict other than Incomplete, an escaped exception included, is the
verdict of every longer buffer. -/
theorem decode_append (mem : Heap) (b s : Bytes)
    (h : ∀ r, decode mem b = .ok r → r.status ≠ .incomplete) :
    decode mem (b ++ s) = decode mem b := by
  have settled : Settled (parseValue mem b (b.length + 1) 0) := by
    cases hv : parseValue mem b (b.length + 1) 0 with
    | error e =>
      rintro rfl
      exact parseValue_ne_depth (by omega) (by omega) hv
    | ok st => exact h ⟨st.status, st.value, st.pos⟩ (by simp [decode, hv, Except.map])
  have longer : (b ++ s).length + 1 = b.length + 1 + s.length := by
    rw [List.length_append]
    omega
  rw [decode, decode, longer, parseValue_append settled]

/-- A receiver that appends each chunk to its buffer and decodes again as long
as the answer is Incomplete. -/
def receive (mem : Heap) (buffer : Bytes) : List Bytes → Except Raised DecodeResult
  | [] => decode mem buffer
  | chunk :: chunks =>
    match decode mem buffer with
    | .error e => .error e
    | .ok r => if r.status = .incomplete then receive mem (buffer ++ chunk) chunks else .ok r

theorem receive_eq (mem : Heap) (buffer : Bytes) (chunks : List Bytes) :
    receive mem buffer chunks = decode mem (buffer ++ chunks.flatten) := by
  induction chunks generalizing buffer with
  | nil => simp [receive]
  | cons chunk chunks ih =>
    rw [receive, List.flatten_cons, ← List.append_assoc]
    cases hd : decode mem buffer with
    | error e =>
      rw [List.append_assoc, decode_append mem buffer _ (by simp [hd]), hd]
    | ok r =>
      by_cases hs : r.status = .incomplete
      · simp only [hs, if_true]
        exact ih (buffer ++ chunk)
      · simp only [hs, if_false]
        rw [List.append_assoc, decode_append mem buffer _ (by simpa [hd] using hs), hd]

/-- A buffer that parses as one whole value is Incomplete anywhere before its end. -/
theorem decode_strict_prefix {mem : Heap} {b p : Bytes} {v : IrspValue}
    (h : decode mem b = .ok ⟨.ok, v, b.length⟩) (hp : p <+: b) (hne : p ≠ b) :
    ∃ r, decode mem p = .ok r ∧ r.status = .incomplete := by
  obtain ⟨s, rfl⟩ := hp
  by_contra hn
  have settled : ∀ r, decode mem p = .ok r → r.status ≠ .incomplete :=
    fun r hr hs => hn ⟨r, hr, hs⟩
  have short := (decode_append mem p s settled).symm.trans h
  cases hv : parseValue mem p (p.length + 1) 0 with
  | error e => simp [decode, hv, Except.map] at short
  | ok st =>
    simp only [decode, hv, Except.map, Except.ok.injEq, DecodeResult.mk.injEq] at short
    have bound := (parseValue_advances hv short.1).2
    rw [short.2.2, List.length_append] at bound
    have empty : s = [] := List.eq_nil_of_length_eq_zero (by omega)
    exact hne (by rw [empty, List.append_nil])

/-- Verdicts are stable under more bytes, so chunking changes neither verdict,
value nor consumed count, and what is cut short of a valid encoding is Incomplete. -/
theorem decode_streaming (mem : Heap) :
    (∀ b s v n, decode mem b = .ok ⟨.ok, v, n⟩ → decode mem (b ++ s) = .ok ⟨.ok, v, n⟩) ∧
      (∀ b s r, decode mem b = .ok r → r.status = .error → decode mem (b ++ s) = .ok r) ∧
      (∀ chunks, receive mem [] chunks = decode mem chunks.flatten) ∧
      (∀ b v, decode mem b = .ok ⟨.ok, v, b.length⟩ → ∀ p, p <+: b → p ≠ b →
        ∃ r, decode mem p = .ok r ∧ r.status = .incomplete) ∧
      (∀ v : IrspValue, v.Encodable → v.Storable mem.limits → ∀ p, p <+: encode v →
        p ≠ encode v → ∃ r, decode mem.limits p = .ok r ∧ r.status = .incomplete) := by
  refine ⟨?_, ?_, fun chunks => receive_eq mem [] chunks,
    fun b v h p hp hne => decode_strict_prefix h hp hne, ?_⟩
  · intro b s v n h
    rw [decode_append mem b s (by simp [h]), h]
  · intro b s r h hr
    rw [decode_append mem b s (by simp [h, hr]), h]
  · intro v printable storable p hp hne
    have whole : decode mem.limits (encode v) = .ok ⟨.ok, v, (encode v).length⟩ := by
      rw [decode, parseValue_encode v printable storable _ 0 _ [] (by simp) (by omega)]
      simp [Except.map]
    exact decode_strict_prefix whole hp hne

/-- `*1`, `+a` and what follows, in three chunks; a length that is no number, and what follows. -/
theorem decode_streaming_verdicts :
    (∀ s, decode x64Limits (ascii "*1\r\n+a\r\n" ++ s) =
        .ok ⟨.ok, .array [.simple (ascii "a")], 8⟩) ∧
      receive x64Limits [] [ascii "*1\r", ascii "\n+a\r\n", ascii "+b"] =
        decode x64Limits (ascii "*1\r\n+a\r\n+b") ∧
      ∃ r, r.status = .error ∧ decode x64Limits (ascii "*2\r\n$x\r\n") = .ok r ∧
        ∀ s, decode x64Limits (ascii "*2\r\n$x\r\n" ++ s) = .ok r := by
  obtain ⟨accepted, refused, chunked, -⟩ := decode_streaming x64Limits
  refine ⟨fun s => accepted _ s _ _ rfl, chunked _, ⟨.error, .null, 0⟩, rfl, rfl, fun s => ?_⟩
  exact refused _ s _ rfl rfl

end IndustrialRuntime.Irsp.Irsp1Codec
