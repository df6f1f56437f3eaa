import IndustrialRuntime.Codec.LineRead

namespace IndustrialRuntime.Irsp

namespace IrspValue

/-- The values directly inside an array or a map, keys included. -/
def children : IrspValue → List IrspValue
  | .array items => items
  | .map entries => entries.flatMap (fun e => [e.1, e.2])
  | _ => []

/-- A property of a value and of everything nested in it. -/
inductive Everywhere (P : IrspValue → Prop) : IrspValue → Prop
  | intro {v : IrspValue} (here : P v) (inside : ∀ w ∈ v.children, Everywhere P w) :
      Everywhere P v

/-- Texts that fit on one line, a code that ends at the first space, and sizes
that an `int64_t` holds. -/
def Printable : IrspValue → Prop
  | .simple text => ¬crlf <:+: text
  | .error code message => ¬crlf <:+: code ∧ ¬crlf <:+: message ∧ (32 : UInt8) ∉ code
  | .bulk data => data.length < 2 ^ 63
  | .array items => items.length < 2 ^ 63
  | .map entries => entries.length < 2 ^ 63
  | _ => True

instance : DecidablePred Printable
  | .null | .integer _ => inferInstanceAs (Decidable True)
  | .simple text => inferInstanceAs (Decidable (¬crlf <:+: text))
  | .error code message => inferInstanceAs
      (Decidable (¬crlf <:+: code ∧ ¬crlf <:+: message ∧ (32 : UInt8) ∉ code))
  | .bulk data => inferInstanceAs (Decidable (data.length < 2 ^ 63))
  | .array items => inferInstanceAs (Decidable (items.length < 2 ^ 63))
  | .map entries => inferInstanceAs (Decidable (entries.length < 2 ^ 63))

/-- The values `encode` is meant for. -/
abbrev Encodable : IrspValue → Prop := Everywhere Printable

/-- No vector is larger than its `max_size()`. -/
def Fits (lim : Irsp1Codec.VectorLimits) : IrspValue → Prop
  | .array items => items.length ≤ lim.items
  | .map entries => entries.length ≤ lim.entries
  | _ => True

instance (lim : Irsp1Codec.VectorLimits) : DecidablePred (Fits lim)
  | .null | .integer _ | .simple _ | .error _ _ | .bulk _ => inferInstanceAs (Decidable True)
  | .array items => inferInstanceAs (Decidable (items.length ≤ lim.items))
  | .map entries => inferInstanceAs (Decidable (entries.length ≤ lim.entries))

/-- A value that exists in memory: every vector in it is one `std::vector` can be. -/
abbrev Storable (lim : Irsp1Codec.VectorLimits) : IrspValue → Prop := Everywhere (Fits lim)

theorem Everywhere.here {P : IrspValue → Prop} {v : IrspValue} (h : Everywhere P v) : P v := by
  cases h
  assumption

theorem Everywhere.item {P : IrspValue → Prop} {items : List IrspValue}
    (h : Everywhere P (.array items)) {v : IrspValue} (hv : v ∈ items) : Everywhere P v := by
  cases h with
  | intro _ inside => exact inside v hv

theorem Everywhere.entry {P : IrspValue → Prop} {entries : List (IrspValue × IrspValue)}
    (h : Everywhere P (.map entries)) {e : IrspValue × IrspValue} (he : e ∈ entries) :
    Everywhere P e.1 ∧ Everywhere P e.2 := by
  cases h with
  | intro _ inside =>
    exact ⟨inside e.1 (List.mem_flatMap.mpr ⟨e, he, by simp⟩),
      inside e.2 (List.mem_flatMap.mpr ⟨e, he, by simp⟩)⟩

end IrspValue

namespace Irsp1Codec

open IrspValue

variable {lim : VectorLimits}

theorem parseInt_decimalInt (i : Int64) : parseInt (decimalInt i.toInt) = some i := by
  rw [parseInt, fromChars_decimalInt]

theorem parseInt_decimal {n : Nat} (h : n < 2 ^ 63) :
    parseInt (decimal n) = some (Int64.ofInt n) := by
  rw [parseInt, fromChars_decimal h]

theorem toInt_size {n : Nat} (h : n < 2 ^ 63) : (Int64.ofInt n).toInt = n :=
  Int64.toInt_ofInt_of_le (by omega) (by omega)

theorem clean_decimal (n : Nat) : crlfOffset (decimal n) = none :=
  crlfOffset_of_no_cr (cr_notMem_decimal n)

theorem ne_space {code : Bytes} (h : (32 : UInt8) ∉ code) : ∀ c ∈ code, (c != 32) = true := by
  intro c hc
  simpa using ne_of_mem_of_not_mem hc h

/-- The first space separates a code without spaces from the message. -/
theorem errorCode_split {code : Bytes} (h : (32 : UInt8) ∉ code) (message : Bytes) :
    errorCode (code ++ 32 :: message) = code := by
  rw [errorCode, List.takeWhile_append_of_pos (ne_space h)]
  simp

theorem errorMessage_split {code : Bytes} (h : (32 : UInt8) ∉ code) (message : Bytes) :
    errorMessage (code ++ 32 :: message) = message := by
  rw [errorMessage, List.dropWhile_append_of_pos (ne_space h)]
  simp

theorem errorCode_bare {code : Bytes} (h : (32 : UInt8) ∉ code) : errorCode code = code := by
  rw [errorCode, List.takeWhile_eq_self_iff.mpr (ne_space h)]

theorem errorMessage_bare {code : Bytes} (h : (32 : UInt8) ∉ code) : errorMessage code = [] := by
  rw [errorMessage, List.dropWhile_eq_nil_iff.mpr (ne_space h)]
  rfl

/-- Bytes with a CRLF behind them, where their length is known. -/
theorem bulk_bytes {b data s : Bytes} {afterLine len : Nat} (length : len = data.length)
    (h : b.drop afterLine = data ++ crlf ++ s) :
    afterLine + len + 2 ≤ b.length ∧ b[afterLine + len]? = some 13 ∧
      b[afterLine + len + 1]? = some 10 ∧ substr b afterLine len = data := by
  have total : b.length - afterLine = data.length + (s.length + 2) := by
    simpa [crlf] using congrArg List.length h
  have at_ (k : Nat) : b[afterLine + k]? = (data ++ crlf ++ s)[k]? := by
    rw [← h, List.getElem?_drop]
  subst length
  refine ⟨by omega, ?_, ?_, ?_⟩
  · rw [at_]; simp [crlf]
  · rw [Nat.add_assoc, at_]; simp [crlf]
  · rw [substr, h, List.append_assoc, List.take_left]

/-- A length line followed by that many bytes and CRLF is the bulk of these bytes,
whatever the bytes are. -/
theorem LineRead.bulk_data {b line data s : Bytes} {parse : Nat → Except Raised ParseState}
    {len : Int64} {afterLine : Nat} (pos : Nat) (number : parseInt line = some len)
    (size : len.toInt = data.length) (h : b.drop afterLine = data ++ crlf ++ s) :
    LineRead b parse line pos afterLine 36
      ⟨.ok, .bulk data, afterLine + data.length + 2⟩ := by
  have length : len.toInt.toNat = data.length := by omega
  obtain ⟨within, cr, lf, payload⟩ := bulk_bytes length h
  have read : LineRead b parse line pos afterLine 36 _ := .bulk number (by omega) within cr lf
  rw [payload, length] at read
  exact read

/-- The copy of these bytes is what the line asks for. -/
theorem LineAsks.bulk_data {b line data s : Bytes} {len : Int64} {afterLine : Nat} (pos : Nat)
    (number : parseInt line = some len) (size : len.toInt = data.length)
    (h : b.drop afterLine = data ++ crlf ++ s) :
    LineAsks b line pos afterLine 36 afterLine (.text data.length) := by
  have length : len.toInt.toNat = data.length := by omega
  obtain ⟨within, cr, lf, -⟩ := bulk_bytes length h
  have asks : LineAsks b line pos afterLine 36 afterLine _ := .bulk number (by omega) within cr lf
  rw [length] at asks
  exact asks

/-- Texts are never refused where memory does not run short. -/
theorem LineRead.parseLine_roomy {b line : Bytes} {parse : Nat → Except Raised ParseState}
    {pos afterLine : Nat} {type : UInt8} {st : ParseState}
    (read : LineRead b parse line pos afterLine type st) (plain : type ≠ 42 ∧ type ≠ 37) :
    parseLine lim b parse type line pos afterLine = .ok st := by
  apply read.parseLine_eq
  intro place r asks
  cases asks with
  | array => exact absurd rfl plain.1
  | map => exact absurd rfl plain.2
  | _ => exact Heap.not_roomy_refuses not_false

section Loops

variable {b : Bytes} {parse : Nat → Except Raised ParseState} {pos : Nat}

/-- `parse` reads `v` wherever the buffer holds its encoding, beyond `pos`. -/
def Reads (b : Bytes) (parse : Nat → Except Raised ParseState) (pos : Nat) (v : IrspValue) :
    Prop :=
  ∀ cur s, pos < cur → b.drop cur = encode v ++ s →
    parse cur = .ok ⟨.ok, v, cur + (encode v).length⟩

theorem parseItems_encode (items done : List IrspValue) (cur : Nat) (s : Bytes)
    (hpos : pos < cur) (reads : ∀ v ∈ items, Reads b parse pos v)
    (h : b.drop cur = encodeItems items ++ s) :
    parseItems parse pos items.length done cur =
      .ok ⟨.ok, .array (done ++ items), cur + (encodeItems items).length⟩ := by
  induction items generalizing done cur with
  | nil => simp [parseItems, encodeItems]
  | cons item items ih =>
    rw [encodeItems, List.append_assoc] at h
    have here := reads item (by simp) cur _ hpos h
    have rest : b.drop (cur + (encode item).length) = encodeItems items ++ s := by
      rw [← List.drop_drop, h, List.drop_left]
    have tail := ih (done ++ [item]) (cur + (encode item).length) (by omega)
      (fun v hv => reads v (by simp [hv])) rest
    rw [List.length_cons, parseItems_of_read here rfl, tail]
    simp [encodeItems, Nat.add_assoc]

theorem parseEntries_encode (entries done : List (IrspValue × IrspValue)) (cur : Nat) (s : Bytes)
    (hpos : pos < cur)
    (reads : ∀ e ∈ entries, Reads b parse pos e.1 ∧ Reads b parse pos e.2)
    (h : b.drop cur = encodeEntries entries ++ s) :
    parseEntries parse pos entries.length done cur =
      .ok ⟨.ok, .map (done ++ entries), cur + (encodeEntries entries).length⟩ := by
  induction entries generalizing done cur with
  | nil => simp [parseEntries, encodeEntries]
  | cons entry entries ih =>
    obtain ⟨key, val⟩ := entry
    rw [encodeEntries, encodeEntry, List.append_assoc, List.append_assoc] at h
    obtain ⟨read_key, read_val⟩ := reads (key, val) (by simp)
    have at_key := read_key cur _ hpos h
    have val_drop : b.drop (cur + (encode key).length) =
        encode val ++ (encodeEntries entries ++ s) := by
      rw [← List.drop_drop, h, List.drop_left]
    have at_val := read_val (cur + (encode key).length) _ (by omega) val_drop
    have rest : b.drop (cur + (encode key).length + (encode val).length) =
        encodeEntries entries ++ s := by
      rw [← List.drop_drop, val_drop, List.drop_left]
    have tail := ih (done ++ [(key, val)]) (cur + (encode key).length + (encode val).length)
      (by omega) (fun e he => reads e (by simp [he])) rest
    rw [List.length_cons, parseEntries_of_read at_key rfl at_val rfl, tail]
    simp [encodeEntries, encodeEntry, Nat.add_assoc]

end Loops

/-! ### The first line of an encoded value -/

section Lines

variable {b : Bytes} {pos : Nat} {s : Bytes}

theorem lineAt_null (h : b.drop pos = encode .null ++ s) : LineAt b pos 36 (ascii "-1") s :=
  ⟨h, by decide⟩

theorem lineAt_simple {text : Bytes} (clean : ¬crlf <:+: text)
    (h : b.drop pos = encode (.simple text) ++ s) : LineAt b pos 43 text s :=
  ⟨by rw [h]; simp [encode, ascii], (crlfOffset_eq_none_iff _).mpr clean⟩

theorem lineAt_error_bare {code : Bytes} (clean : ¬crlf <:+: code)
    (h : b.drop pos = encode (.error code []) ++ s) : LineAt b pos 45 code s :=
  ⟨by rw [h]; simp [encode, ascii], (crlfOffset_eq_none_iff _).mpr clean⟩

theorem lineAt_error {code message : Bytes} {c : UInt8} (clean_code : ¬crlf <:+: code)
    (clean_message : ¬crlf <:+: c :: message)
    (h : b.drop pos = encode (.error code (c :: message)) ++ s) :
    LineAt b pos 45 (code ++ 32 :: c :: message) s := by
  rw [← crlfOffset_eq_none_iff] at clean_code clean_message
  exact ⟨by rw [h]; simp [encode, ascii], crlfOffset_space clean_code clean_message⟩

theorem lineAt_integer {value : Int64} (h : b.drop pos = encode (.integer value) ++ s) :
    LineAt b pos 58 (decimalInt value.toInt) s :=
  ⟨by rw [h]; simp [encode, ascii], crlfOffset_of_no_cr (cr_notMem_decimalInt _)⟩

theorem lineAt_bulk {data : Bytes} (h : b.drop pos = encode (.bulk data) ++ s) :
    LineAt b pos 36 (decimal data.length) (data ++ crlf ++ s) :=
  ⟨by rw [h]; simp [encode, ascii], clean_decimal _⟩

theorem lineAt_array {items : List IrspValue} (h : b.drop pos = encode (.array items) ++ s) :
    LineAt b pos 42 (decimal items.length) (encodeItems items ++ s) :=
  ⟨by rw [h]; simp [encode, ascii], clean_decimal _⟩

theorem lineAt_map {entries : List (IrspValue × IrspValue)}
    (h : b.drop pos = encode (.map entries) ++ s) :
    LineAt b pos 37 (decimal entries.length) (encodeEntries entries ++ s) :=
  ⟨by rw [h]; simp [encode, ascii], clean_decimal _⟩

end Lines

/-- The encoding of a value, at any position of any buffer, parses to the value
and to the position right after it. -/
theorem parseValue_encode (v : IrspValue) (printable : v.Encodable) (storable : v.Storable lim)
    (b : Bytes) (pos depth : Nat) (s : Bytes) (h : b.drop pos = encode v ++ s)
    (hd : b.length + 1 ≤ depth + pos) :
    parseValue lim b depth pos = .ok ⟨.ok, v, pos + (encode v).length⟩ := by
  induction v using IrspValue.nested_induction generalizing pos depth s with
  | null =>
    obtain ⟨d, rfl, parsed⟩ := (lineAt_null h).parseValue_eq lim hd
    have minus : parseInt (ascii "-1") = some (-1) := by decide
    rw [parsed, (LineRead.nullBulk minus (by decide)).parseLine_roomy (by decide)]
    rfl
  | simple text =>
    obtain ⟨d, rfl, parsed⟩ := (lineAt_simple printable.here h).parseValue_eq lim hd
    rw [parsed, LineRead.simple.parseLine_roomy (by decide)]
    simp [encode, ascii, crlf]
    omega
  | error code message =>
    obtain ⟨clean_code, clean_message, no_space⟩ := printable.here
    cases message with
    | nil =>
      obtain ⟨d, rfl, parsed⟩ := (lineAt_error_bare clean_code h).parseValue_eq lim hd
      rw [parsed, LineRead.error.parseLine_roomy (by decide)]
      simp [errorCode_bare no_space, errorMessage_bare no_space, encode, ascii, crlf]
      omega
    | cons m message =>
      have line := lineAt_error clean_code clean_message h
      obtain ⟨d, rfl, parsed⟩ := line.parseValue_eq lim hd
      rw [parsed, LineRead.error.parseLine_roomy (by decide)]
      simp [errorCode_split no_space, errorMessage_split no_space, encode, ascii, crlf]
      omega
  | integer value =>
    obtain ⟨d, rfl, parsed⟩ := (lineAt_integer h).parseValue_eq lim hd
    rw [parsed, (LineRead.integer (parseInt_decimalInt value)).parseLine_roomy (by decide)]
    simp [encode, ascii, crlf]
    omega
  | bulk data =>
    have size : data.length < 2 ^ 63 := printable.here
    have line := lineAt_bulk h
    obtain ⟨d, rfl, parsed⟩ := line.parseValue_eq lim hd
    rw [parsed, (LineRead.bulk_data pos (parseInt_decimal size) (toInt_size size)
      line.drop_rest).parseLine_roomy (by decide)]
    simp [encode, ascii, crlf]
    omega
  | array items ih =>
    have size : items.length < 2 ^ 63 := printable.here
    have fits : items.length ≤ lim.items := storable.here
    have line := lineAt_array h
    have := line.length_eq
    obtain ⟨d, rfl, parsed⟩ := line.parseValue_eq lim hd
    have reads : ∀ v ∈ items, Reads b (parseValue lim b d) pos v := by
      intro v hv cur s' hcur hdrop
      exact ih v hv (printable.item hv) (storable.item hv) cur d s' hdrop (by omega)
    have loop := parseItems_encode items [] (pos + 1 + (decimal items.length).length + 2) s
      (by omega) reads line.drop_rest
    have count := toInt_size size
    have granted : ¬lim.roomy.Refuses pos (.items (Int64.ofInt items.length).toInt.toNat) := by
      rw [count]
      exact Heap.not_roomy_refuses (not_lt.mpr fits)
    rw [parsed, parseLine_array (parseInt_decimal size) (by omega) _ granted, count,
      Int.toNat_natCast, loop]
    simp [encode, ascii, crlf]
    omega
  | map entries ih =>
    have size : entries.length < 2 ^ 63 := printable.here
    have fits : entries.length ≤ lim.entries := storable.here
    have line := lineAt_map h
    have := line.length_eq
    obtain ⟨d, rfl, parsed⟩ := line.parseValue_eq lim hd
    have reads : ∀ e ∈ entries, Reads b (parseValue lim b d) pos e.1 ∧
        Reads b (parseValue lim b d) pos e.2 := by
      intro e he
      obtain ⟨pk, pv⟩ := printable.entry he
      obtain ⟨sk, sv⟩ := storable.entry he
      exact ⟨fun cur s' hcur hdrop => (ih e he).1 pk sk cur d s' hdrop (by omega),
        fun cur s' hcur hdrop => (ih e he).2 pv sv cur d s' hdrop (by omega)⟩
    have loop := parseEntries_encode entries [] (pos + 1 + (decimal entries.length).length + 2) s
      (by omega) reads line.drop_rest
    have pairs := toInt_size size
    have granted : ¬lim.roomy.Refuses pos (.entries (Int64.ofInt entries.length).toInt.toNat) := by
      rw [pairs]
      exact Heap.not_roomy_refuses (not_lt.mpr fits)
    rw [parsed, parseLine_map (parseInt_decimal size) (by omega) _ granted, pairs,
      Int.toNat_natCast, loop]
    simp [encode, ascii, crlf]
    omega

/-- Decoding inverts encoding, and stops exactly at the end of the value
whatever follows it. -/
theorem decode_encode (lim : VectorLimits) (v : IrspValue) (printable : v.Encodable)
    (storable : v.Storable lim) (s : Bytes) :
    decode lim (encode v ++ s) = .ok ⟨.ok, v, (encode v).length⟩ := by
  rw [decode, parseValue_encode v printable storable _ 0 _ s rfl (by omega)]
  simp [Except.map]

/-- A bulk holding CRLF inside an array, with another value behind it. -/
theorem decode_encode_crlf :
    decode x64Limits (encode (.array [.bulk crlf, .simple [13]]) ++ ascii "+") =
      .ok ⟨.ok, .array [.bulk crlf, .simple [13]], 16⟩ := by
  refine decode_encode x64Limits (.array [.bulk crlf, .simple [13]]) ⟨by decide, ?_⟩
    ⟨by decide, ?_⟩ (ascii "+")
  · intro w hw
    simp only [children, List.mem_cons, List.not_mem_nil, or_false] at hw
    rcases hw with rfl | rfl
    · exact ⟨by decide, by simp [children]⟩
    · exact ⟨by decide, by simp [children]⟩
  · intro w hw
    simp only [children, List.mem_cons, List.not_mem_nil, or_false] at hw
    rcases hw with rfl | rfl <;> exact ⟨trivial, by simp [children]⟩

end Irsp1Codec

end IndustrialRuntime.Irsp
