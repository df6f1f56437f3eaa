import IndustrialRuntime.Codec.Lines

namespace IndustrialRuntime.Irsp.Irsp1Codec

/-! ### One step of a loop -/

section Loops

variable {parse : Nat → Except Raised ParseState} {pos cur : Nat}

theorem parseItems_of_read {el : ParseState} (read : parse cur = .ok el) (good : el.status = .ok)
    (count : Nat) (items : List IrspValue) :
    parseItems parse pos (count + 1) items cur =
      parseItems parse pos count (items ++ [el.value]) el.pos := by
  rw [parseItems, read]
  simp only [good, ne_eq, not_true_eq_false, if_false]

theorem parseEntries_of_read {key val : ParseState} (read_key : parse cur = .ok key)
    (good_key : key.status = .ok) (read_val : parse key.pos = .ok val)
    (good_val : val.status = .ok) (pairs : Nat) (entries : List (IrspValue × IrspValue)) :
    parseEntries parse pos (pairs + 1) entries cur =
      parseEntries parse pos pairs (entries ++ [(key.value, val.value)]) val.pos := by
  rw [parseEntries, read_key]
  simp only [good_key, ne_eq, not_true_eq_false, if_false, read_val, good_val]

/-- A loop that succeeds has read its next element. -/
theorem parseItems_succ {count : Nat} {items : List IrspValue} {st : ParseState}
    (h : parseItems parse pos (count + 1) items cur = .ok st) (ok : st.status = .ok) :
    ∃ el, parse cur = .ok el ∧ el.status = .ok ∧
      parseItems parse pos count (items ++ [el.value]) el.pos = .ok st := by
  rw [parseItems] at h
  split at h
  · contradiction
  · rename_i el read
    split_ifs at h with fails
    · obtain rfl := Except.ok.inj h
      exact absurd ok fails
    · exact ⟨el, read, not_not.mp fails, h⟩

/-- A loop that succeeds has read its next key and the value behind it. -/
theorem parseEntries_succ {pairs : Nat} {entries : List (IrspValue × IrspValue)} {st : ParseState}
    (h : parseEntries parse pos (pairs + 1) entries cur = .ok st) (ok : st.status = .ok) :
    ∃ key val, parse cur = .ok key ∧ key.status = .ok ∧ parse key.pos = .ok val ∧
      val.status = .ok ∧
      parseEntries parse pos pairs (entries ++ [(key.value, val.value)]) val.pos = .ok st := by
  rw [parseEntries] at h
  split at h
  · contradiction
  · rename_i key read_key
    split_ifs at h with fails
    · obtain rfl := Except.ok.inj h
      exact absurd ok fails
    · split at h
      · contradiction
      · rename_i val read_val
        split_ifs at h with fails'
        · obtain rfl := Except.ok.inj h
          exact absurd ok fails'
        · exact ⟨key, val, read_key, not_not.mp fails, read_val, not_not.mp fails', h⟩

/-- An exception leaves a loop at its next element or behind it. -/
theorem parseItems_succ_error {count : Nat} {items : List IrspValue} {e : Raised}
    (h : parseItems parse pos (count + 1) items cur = .error e) :
    parse cur = .error e ∨
      ∃ el, parse cur = .ok el ∧ el.status = .ok ∧
        parseItems parse pos count (items ++ [el.value]) el.pos = .error e := by
  rw [parseItems] at h
  split at h
  · rename_i raised
    obtain rfl := Except.error.inj h
    exact .inl raised
  · rename_i el read
    split_ifs at h with fails
    exact .inr ⟨el, read, not_not.mp fails, h⟩

theorem parseEntries_succ_error {pairs : Nat} {entries : List (IrspValue × IrspValue)} {e : Raised}
    (h : parseEntries parse pos (pairs + 1) entries cur = .error e) :
    parse cur = .error e ∨
      ∃ key, parse cur = .ok key ∧ key.status = .ok ∧ (parse key.pos = .error e ∨
        ∃ val, parse key.pos = .ok val ∧ val.status = .ok ∧
          parseEntries parse pos pairs (entries ++ [(key.value, val.value)]) val.pos =
            .error e) := by
  rw [parseEntries] at h
  split at h
  · rename_i raised
    obtain rfl := Except.error.inj h
    exact .inl raised
  · rename_i key read_key
    split_ifs at h with fails
    refine .inr ⟨key, read_key, not_not.mp fails, ?_⟩
    split at h
    · rename_i raised
      obtain rfl := Except.error.inj h
      exact .inl raised
    · rename_i val read_val
      split_ifs at h with fails'
      exact .inr ⟨val, read_val, not_not.mp fails', h⟩

end Loops

/-! ### The answers of the heap -/

section Heap

variable {mem : Heap} {place : Nat} {r : Request} {α : Type}

theorem Heap.allocate_of_not_refuses (granted : ¬mem.Refuses place r) :
    mem.allocate place r = .ok () := by
  obtain ⟨short, reached⟩ := not_or.mp granted
  rw [Heap.allocate, if_neg short, if_pos]
  by_cases empty : r.size = 0
  · exact .inl empty
  · exact .inr (by simpa [empty] using reached)

theorem Heap.allocate_of_refuses (refuses : mem.Refuses place r) :
    ∃ e, mem.allocate place r = .error e ∧ e ≠ .depth := by
  rw [Heap.allocate]
  by_cases long : r.TooLong mem.limits
  · exact ⟨.lengthError, if_pos long, by decide⟩
  · obtain ⟨reached, denied⟩ := refuses.resolve_left long
    exact ⟨.badAlloc, by simp [long, reached, denied], by decide⟩

theorem Heap.not_roomy_refuses {lim : VectorLimits} (short : ¬r.TooLong lim) :
    ¬lim.roomy.Refuses place r := by
  rintro (long | ⟨-, denied⟩)
  · exact short long
  · exact Bool.false_ne_true denied.symm

/-- What follows a request runs if the request is granted. -/
theorem allocate_bind_ok {k : Except Raised α} {x : α}
    (h : (do mem.allocate place r; k) = .ok x) : ¬mem.Refuses place r ∧ k = .ok x := by
  by_cases refuses : mem.Refuses place r
  · obtain ⟨e, raised, -⟩ := Heap.allocate_of_refuses refuses
    rw [raised] at h
    cases h
  · rw [Heap.allocate_of_not_refuses refuses] at h
    exact ⟨refuses, h⟩

theorem allocate_bind_error {k : Except Raised α} {e : Raised}
    (h : (do mem.allocate place r; k) = .error e) :
    (mem.Refuses place r ∧ e ≠ .depth) ∨ k = .error e := by
  by_cases refuses : mem.Refuses place r
  · obtain ⟨e', raised, known⟩ := Heap.allocate_of_refuses refuses
    rw [raised] at h
    obtain rfl := Except.error.inj h
    exact .inl ⟨refuses, known⟩
  · rw [Heap.allocate_of_not_refuses refuses] at h
    exact .inr h

theorem allocate_bind_granted (granted : ¬mem.Refuses place r) (k : Except Raised α) :
    (do mem.allocate place r; k) = k := by
  rw [Heap.allocate_of_not_refuses granted]
  rfl

theorem allocate_bind_refused (refuses : mem.Refuses place r) (k : Except Raised α) :
    ∃ e, (do mem.allocate place r; k) = .error e := by
  obtain ⟨e, raised, -⟩ := Heap.allocate_of_refuses refuses
  rw [raised]
  exact ⟨e, rfl⟩

end Heap

/-! ### What a line is read as -/

theorem parseBulk_eq {b line : Bytes} {len : Int64} (hl : parseInt line = some len) (mem : Heap)
    (pos afterLine : Nat) :
    parseBulk mem b line pos afterLine =
      if len.toInt < 0 then .ok ⟨.ok, .null, afterLine⟩
      else if b.length < afterLine + len.toInt.toNat + 2 then .ok ⟨.incomplete, .null, pos⟩
      else if b[afterLine + len.toInt.toNat]? ≠ some 13 ∨
          b[afterLine + len.toInt.toNat + 1]? ≠ some 10 then .ok ⟨.error, .null, pos⟩
      else (do
        mem.allocate afterLine (.text len.toInt.toNat)
        .ok ⟨.ok, .bulk (substr b afterLine len.toInt.toNat),
          afterLine + len.toInt.toNat + 2⟩) := by
  simp only [parseBulk, hl]

/-- What a line asks of the heap for itself, by its type byte. -/
inductive LineAsks (b line : Bytes) (pos afterLine : Nat) : UInt8 → Nat → Request → Prop
  | simple : LineAsks b line pos afterLine 43 (pos + 1) (.text line.length)
  | code : LineAsks b line pos afterLine 45 (pos + 1) (.text (errorCode line).length)
  | message : LineAsks b line pos afterLine 45 (pos + 1 + (errorCode line).length + 1)
      (.text (errorMessage line).length)
  | bulk {len : Int64} (number : parseInt line = some len) (sign : 0 ≤ len.toInt)
    (within : afterLine + len.toInt.toNat + 2 ≤ b.length)
    (cr : b[afterLine + len.toInt.toNat]? = some 13)
    (lf : b[afterLine + len.toInt.toNat + 1]? = some 10) :
    LineAsks b line pos afterLine 36 afterLine (.text len.toInt.toNat)
  | array {count : Int64} (number : parseInt line = some count) (sign : 0 ≤ count.toInt) :
    LineAsks b line pos afterLine 42 pos (.items count.toInt.toNat)
  | map {pairs : Int64} (number : parseInt line = some pairs) (sign : 0 ≤ pairs.toInt) :
    LineAsks b line pos afterLine 37 pos (.entries pairs.toInt.toNat)

/-- The successes of `parseLine`, by the type byte of the line. -/
inductive LineRead (b : Bytes) (parse : Nat → Except Raised ParseState)
    (line : Bytes) (pos afterLine : Nat) : UInt8 → ParseState → Prop
  | simple : LineRead b parse line pos afterLine 43 ⟨.ok, .simple line, afterLine⟩
  | error : LineRead b parse line pos afterLine 45
      ⟨.ok, .error (errorCode line) (errorMessage line), afterLine⟩
  | integer {v : Int64} (number : parseInt line = some v) :
    LineRead b parse line pos afterLine 58 ⟨.ok, .integer v, afterLine⟩
  | nullBulk {len : Int64} (number : parseInt line = some len) (negative : len.toInt < 0) :
    LineRead b parse line pos afterLine 36 ⟨.ok, .null, afterLine⟩
  | bulk {len : Int64} (number : parseInt line = some len) (sign : 0 ≤ len.toInt)
    (within : afterLine + len.toInt.toNat + 2 ≤ b.length)
    (cr : b[afterLine + len.toInt.toNat]? = some 13)
    (lf : b[afterLine + len.toInt.toNat + 1]? = some 10) :
    LineRead b parse line pos afterLine 36
      ⟨.ok, .bulk (substr b afterLine len.toInt.toNat), afterLine + len.toInt.toNat + 2⟩
  | nullArray {count : Int64} (number : parseInt line = some count) (negative : count.toInt < 0) :
    LineRead b parse line pos afterLine 42 ⟨.ok, .null, afterLine⟩
  | array {count : Int64} {st : ParseState} (number : parseInt line = some count)
    (sign : 0 ≤ count.toInt)
    (loop : parseItems parse pos count.toInt.toNat [] afterLine = .ok st)
    (ok : st.status = .ok) : LineRead b parse line pos afterLine 42 st
  | map {pairs : Int64} {st : ParseState} (number : parseInt line = some pairs)
    (sign : 0 ≤ pairs.toInt)
    (loop : parseEntries parse pos pairs.toInt.toNat [] afterLine = .ok st)
    (ok : st.status = .ok) : LineRead b parse line pos afterLine 37 st

/-- The exceptions of `parseLine`: a request of its own, or one inside a loop. -/
inductive LineRaise (mem : Heap) (b : Bytes) (parse : Nat → Except Raised ParseState)
    (line : Bytes) (pos afterLine : Nat) : UInt8 → Raised → Prop
  | refused {type : UInt8} {place : Nat} {r : Request} {e : Raised}
    (asks : LineAsks b line pos afterLine type place r) (refuses : mem.Refuses place r)
    (known : e ≠ .depth) : LineRaise mem b parse line pos afterLine type e
  | array {count : Int64} {e : Raised} (number : parseInt line = some count)
    (sign : 0 ≤ count.toInt)
    (loop : parseItems parse pos count.toInt.toNat [] afterLine = .error e) :
    LineRaise mem b parse line pos afterLine 42 e
  | map {pairs : Int64} {e : Raised} (number : parseInt line = some pairs)
    (sign : 0 ≤ pairs.toInt)
    (loop : parseEntries parse pos pairs.toInt.toNat [] afterLine = .error e) :
    LineRaise mem b parse line pos afterLine 37 e

section

variable {mem : Heap} {b line : Bytes} {parse : Nat → Except Raised ParseState}
  {pos afterLine : Nat} {type : UInt8} {st : ParseState}

theorem parseBulk_ok (h : parseBulk mem b line pos afterLine = .ok st) (ok : st.status = .ok) :
    LineRead b parse line pos afterLine 36 st := by
  cases number : parseInt line with
  | none =>
    rw [parseBulk, number] at h
    obtain rfl := Except.ok.inj h
    cases ok
  | some len =>
    rw [parseBulk_eq number] at h
    split_ifs at h with negative short broken
    · obtain rfl := Except.ok.inj h
      exact .nullBulk number negative
    · obtain rfl := Except.ok.inj h
      cases ok
    · obtain rfl := Except.ok.inj h
      cases ok
    · obtain rfl := Except.ok.inj (allocate_bind_ok h).2
      rw [not_or, not_ne_iff, not_ne_iff] at broken
      exact .bulk number (not_lt.mp negative) (not_lt.mp short) broken.1 broken.2

theorem parseLine_ok (h : parseLine mem b parse type line pos afterLine = .ok st)
    (ok : st.status = .ok) : LineRead b parse line pos afterLine type st := by
  have fails {v : IrspValue} {n : Nat} (e : (Except.ok ⟨.error, v, n⟩ : Except Raised ParseState) =
      .ok st) : False := by
    obtain rfl := Except.ok.inj e
    cases ok
  rw [parseLine] at h
  split_ifs at h with simple error integer bulk array map
  · obtain rfl := Except.ok.inj (allocate_bind_ok h).2
    exact simple ▸ .simple
  · obtain rfl := Except.ok.inj (allocate_bind_ok (allocate_bind_ok h).2).2
    exact error ▸ .error
  · split at h
    · exact (fails h).elim
    · rename_i number
      obtain rfl := Except.ok.inj h
      exact integer ▸ .integer number
  · exact bulk ▸ parseBulk_ok h ok
  · split at h
    · exact (fails h).elim
    · rename_i number
      split_ifs at h with negative
      · obtain rfl := Except.ok.inj h
        exact array ▸ .nullArray number negative
      · exact array ▸ .array number (not_lt.mp negative) (allocate_bind_ok h).2 ok
  · split at h
    · exact (fails h).elim
    · rename_i number
      split_ifs at h with negative
      · exact (fails h).elim
      · exact map ▸ .map number (not_lt.mp negative) (allocate_bind_ok h).2 ok
  · exact (fails h).elim

theorem parseBulk_error {e : Raised} (h : parseBulk mem b line pos afterLine = .error e) :
    LineRaise mem b parse line pos afterLine 36 e := by
  cases number : parseInt line with
  | none =>
    rw [parseBulk, number] at h
    cases h
  | some len =>
    rw [parseBulk_eq number] at h
    split_ifs at h with negative short broken
    rw [not_or, not_ne_iff, not_ne_iff] at broken
    obtain ⟨refuses, known⟩ | returned := allocate_bind_error h
    · exact .refused (.bulk number (not_lt.mp negative) (not_lt.mp short) broken.1 broken.2)
        refuses known
    · cases returned

theorem parseLine_error {e : Raised}
    (h : parseLine mem b parse type line pos afterLine = .error e) :
    LineRaise mem b parse line pos afterLine type e := by
  rw [parseLine] at h
  split_ifs at h with simple error integer bulk array map
  · obtain ⟨refuses, known⟩ | returned := allocate_bind_error h
    · exact simple ▸ .refused .simple refuses known
    · cases returned
  · obtain ⟨refuses, known⟩ | copied := allocate_bind_error h
    · exact error ▸ .refused .code refuses known
    · obtain ⟨refuses, known⟩ | returned := allocate_bind_error copied
      · exact error ▸ .refused .message refuses known
      · cases returned
  · split at h <;> contradiction
  · exact bulk ▸ parseBulk_error h
  · split at h
    · contradiction
    · rename_i number
      split_ifs at h with negative
      obtain ⟨refuses, known⟩ | loop := allocate_bind_error h
      · exact array ▸ .refused (.array number (not_lt.mp negative)) refuses known
      · exact array ▸ .array number (not_lt.mp negative) loop
  · split at h
    · contradiction
    · rename_i number
      split_ifs at h with negative
      obtain ⟨refuses, known⟩ | loop := allocate_bind_error h
      · exact map ▸ .refused (.map number (not_lt.mp negative)) refuses known
      · exact map ▸ .map number (not_lt.mp negative) loop

/-! ### The requests of a line -/

/-- A line whose request is refused raises. -/
theorem LineAsks.raises {place : Nat} {r : Request}
    (asks : LineAsks b line pos afterLine type place r) (refuses : mem.Refuses place r) :
    ∃ e, parseLine mem b parse type line pos afterLine = .error e := by
  cases asks with
  | simple => exact allocate_bind_refused refuses _
  | code => exact allocate_bind_refused refuses _
  | message =>
    by_cases copied : mem.Refuses (pos + 1) (.text (errorCode line).length)
    · exact allocate_bind_refused copied _
    · obtain ⟨e, raised⟩ := allocate_bind_refused refuses
        (.ok (⟨.ok, .error (errorCode line) (errorMessage line), afterLine⟩ : ParseState))
      exact ⟨e, (allocate_bind_granted copied _).trans raised⟩
  | bulk number sign within cr lf =>
    show ∃ e, parseBulk mem b line pos afterLine = .error e
    rw [parseBulk_eq number, if_neg (not_lt.mpr sign), if_neg (not_lt.mpr within), cr, lf,
      if_neg (by simp)]
    exact allocate_bind_refused refuses _
  | array number sign =>
    simp only [parseLine, number, not_lt.mpr sign, if_false]
    exact allocate_bind_refused refuses _
  | map number sign =>
    simp only [parseLine, number, not_lt.mpr sign, if_false]
    exact allocate_bind_refused refuses _

/-- A line that is parsed has been granted all that it asks for. -/
theorem LineAsks.granted {place : Nat} {r : Request}
    (asks : LineAsks b line pos afterLine type place r)
    (h : parseLine mem b parse type line pos afterLine = .ok st) : ¬mem.Refuses place r := by
  intro refuses
  obtain ⟨e, raised⟩ := asks.raises refuses
  rw [h] at raised
  cases raised

end

/-! ### The counted lines -/

section

variable {mem : Heap} {b line : Bytes} {parse : Nat → Except Raised ParseState} {pos : Nat}
  {count : Int64} (number : parseInt line = some count) (sign : 0 ≤ count.toInt) (afterLine : Nat)

include number sign

theorem parseLine_array (granted : ¬mem.Refuses pos (.items count.toInt.toNat)) :
    parseLine mem b parse 42 line pos afterLine =
      parseItems parse pos count.toInt.toNat [] afterLine := by
  simp only [parseLine, number, not_lt.mpr sign, if_false]
  exact allocate_bind_granted granted _

theorem parseLine_map (granted : ¬mem.Refuses pos (.entries count.toInt.toNat)) :
    parseLine mem b parse 37 line pos afterLine =
      parseEntries parse pos count.toInt.toNat [] afterLine := by
  simp only [parseLine, number, not_lt.mpr sign, if_false]
  exact allocate_bind_granted granted _

end

/-- What is listed as a success of `parseLine` is one, where the heap grants what it takes. -/
theorem LineRead.parseLine_eq {mem : Heap} {b line : Bytes}
    {parse : Nat → Except Raised ParseState} {pos afterLine : Nat} {type : UInt8}
    {st : ParseState} (read : LineRead b parse line pos afterLine type st)
    (granted : ∀ place r, LineAsks b line pos afterLine type place r → ¬mem.Refuses place r) :
    parseLine mem b parse type line pos afterLine = .ok st := by
  cases read with
  | simple => exact allocate_bind_granted (granted _ _ .simple) _
  | error =>
    exact (allocate_bind_granted (granted _ _ .code) _).trans
      (allocate_bind_granted (granted _ _ .message) _)
  | integer number => simp [parseLine, number]
  | nullBulk number negative => simp [parseLine, parseBulk, number, negative]
  | bulk number sign within cr lf =>
    show parseBulk mem b line pos afterLine = _
    rw [parseBulk_eq number, if_neg (not_lt.mpr sign), if_neg (not_lt.mpr within), cr, lf,
      if_neg (by simp)]
    exact allocate_bind_granted (granted _ _ (.bulk number sign within cr lf)) _
  | nullArray number negative => simp [parseLine, number, negative]
  | array number sign loop =>
    rw [parseLine_array number sign afterLine (granted _ _ (.array number sign))]
    exact loop
  | map number sign loop =>
    rw [parseLine_map number sign afterLine (granted _ _ (.map number sign))]
    exact loop

end IndustrialRuntime.Irsp.Irsp1Codec
