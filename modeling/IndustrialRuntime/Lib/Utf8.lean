import IndustrialRuntime.Lib.Decimal

namespace IndustrialRuntime

/-- A text as its Unicode scalar values. -/
abbrev Text := List Char

namespace Utf8

def encode (text : Text) : Bytes := text.flatMap String.utf8EncodeChar

/-- The character that a well-formed start of the bytes encodes. -/
def first? (b : Bytes) : Option Char := b.toByteArray.utf8DecodeChar? 0

/-- Strict decoding, at most `n` characters. -/
def decodeStrict : Nat → Bytes → Option Text
  | _, [] => some []
  | 0, _ :: _ => none
  | n + 1, c :: rest =>
    match first? (c :: rest) with
    | none => none
    | some d => (decodeStrict n ((c :: rest).drop d.utf8Size)).map (d :: ·)

def decode? (b : Bytes) : Option Text := decodeStrict b.length b

/-- How many continuation bytes a lead byte asks for. -/
def needed (lead : UInt8) : Nat :=
  if 0xC2 ≤ lead ∧ lead ≤ 0xDF then 1
  else if 0xE0 ≤ lead ∧ lead ≤ 0xEF then 2
  else if 0xF0 ≤ lead ∧ lead ≤ 0xF4 then 3
  else 0

/-- The bounds of the first continuation byte. -/
def bounds (lead : UInt8) : UInt8 × UInt8 :=
  if lead = 0xE0 then (0xA0, 0xBF)
  else if lead = 0xED then (0x80, 0x9F)
  else if lead = 0xF0 then (0x90, 0xBF)
  else if lead = 0xF4 then (0x80, 0x8F)
  else (0x80, 0xBF)

/-- The continuation bytes read before the sequence turns out to be ill-formed. -/
def continued : Nat → UInt8 × UInt8 → Bytes → Nat
  | n + 1, (low, high), c :: rest =>
    if low ≤ c ∧ c ≤ high then continued n (0x80, 0xBF) rest + 1 else 0
  | _, _, _ => 0

/-- Decoding that puts U+FFFD in the place of each ill-formed sequence, at most `n` characters. -/
def decodeLossy : Nat → Bytes → Text
  | _, [] => []
  | 0, _ :: _ => []
  | n + 1, lead :: rest =>
    match first? (lead :: rest) with
    | none =>
      '\uFFFD' :: decodeLossy n (rest.drop (continued (needed lead) (bounds lead) rest))
    | some d => d :: decodeLossy n ((lead :: rest).drop d.utf8Size)

def decode (b : Bytes) : Text := decodeLossy b.length b

@[simp] theorem encode_nil : encode [] = [] := rfl

theorem encode_cons (c : Char) (t : Text) : encode (c :: t) = String.utf8EncodeChar c ++ encode t :=
  List.flatMap_cons

@[simp] theorem encode_append (t u : Text) : encode (t ++ u) = encode t ++ encode u :=
  List.flatMap_append

/-- A character is read back whatever follows it. -/
theorem first?_encodeChar (c : Char) (rest : Bytes) :
    first? (String.utf8EncodeChar c ++ rest) = some c := by
  rw [first?, List.toByteArray_append]
  exact ByteArray.utf8DecodeChar?_utf8EncodeChar_append

/-- The first byte of a character, and where the next character begins. -/
theorem encodeChar_split (c : Char) (rest : Bytes) :
    ∃ lead more, String.utf8EncodeChar c ++ rest = lead :: more ∧
      (lead :: more).drop c.utf8Size = rest := by
  cases bytes : String.utf8EncodeChar c with
  | nil => exact absurd bytes String.utf8EncodeChar_ne_nil
  | cons lead more =>
    refine ⟨lead, more ++ rest, rfl, ?_⟩
    have size : (lead :: more).length = c.utf8Size := by
      rw [← bytes]
      exact String.length_utf8EncodeChar c
    rw [← List.cons_append, ← size, List.drop_left]

theorem decodeStrict_encode (t : Text) (n : Nat) (enough : (encode t).length ≤ n) :
    decodeStrict n (encode t) = some t := by
  induction t generalizing n with
  | nil => simp [decodeStrict]
  | cons c t ih =>
    obtain ⟨lead, more, bytes, next⟩ := encodeChar_split c (encode t)
    have found := first?_encodeChar c (encode t)
    have size := c.utf8Size_pos
    have length := String.length_utf8EncodeChar c
    rw [encode_cons] at enough ⊢
    rw [List.length_append] at enough
    cases n with
    | zero => omega
    | succ n =>
      have tail := ih n (by omega)
      rw [bytes] at found ⊢
      simp only [decodeStrict, found, next, tail]
      rfl

theorem decodeLossy_encode (t : Text) (n : Nat) (enough : (encode t).length ≤ n) :
    decodeLossy n (encode t) = t := by
  induction t generalizing n with
  | nil => simp [decodeLossy]
  | cons c t ih =>
    obtain ⟨lead, more, bytes, next⟩ := encodeChar_split c (encode t)
    have found := first?_encodeChar c (encode t)
    have size := c.utf8Size_pos
    have length := String.length_utf8EncodeChar c
    rw [encode_cons] at enough ⊢
    rw [List.length_append] at enough
    cases n with
    | zero => omega
    | succ n =>
      have tail := ih n (by omega)
      rw [bytes] at found ⊢
      simp only [decodeLossy, found, next, tail]

@[simp] theorem decode?_encode (t : Text) : decode? (encode t) = some t :=
  decodeStrict_encode t _ (Nat.le_refl _)

@[simp] theorem decode_encode_text (t : Text) : decode (encode t) = t :=
  decodeLossy_encode t _ (Nat.le_refl _)

/-- A character that is read is encoded by the bytes that it takes. -/
theorem eq_of_first? {b : Bytes} {c : Char} (read : first? b = some c) :
    b = String.utf8EncodeChar c ++ b.drop c.utf8Size := by
  obtain ⟨rest, same⟩ := ByteArray.exists_of_utf8DecodeChar?_eq_some read
  have bytes : b = String.utf8EncodeChar c ++ rest.data.toList := by
    simpa using congrArg (fun a => a.data.toList) same
  have size : (String.utf8EncodeChar c).length = c.utf8Size := String.length_utf8EncodeChar c
  rw [bytes, ← size, List.drop_left]

/-- Only the encoding of a text is decoded strictly. -/
theorem encode_of_decodeStrict {n : Nat} {b : Bytes} {t : Text}
    (read : decodeStrict n b = some t) : encode t = b := by
  induction n generalizing b t with
  | zero =>
    cases b with
    | nil =>
      obtain rfl := Option.some.inj read
      rfl
    | cons c rest => cases read
  | succ n ih =>
    cases b with
    | nil =>
      obtain rfl := Option.some.inj read
      rfl
    | cons c rest =>
      simp only [decodeStrict] at read
      split at read
      · cases read
      · rename_i d first
        obtain ⟨later, decoded, rfl⟩ := Option.map_eq_some_iff.mp read
        rw [encode_cons, ih decoded]
        exact (eq_of_first? first).symm

theorem decode?_eq_some_iff (b : Bytes) (t : Text) : decode? b = some t ↔ encode t = b := by
  constructor
  · exact encode_of_decodeStrict
  · rintro rfl
    exact decode?_encode t

/-- The encoding of a text begins with that of a character just when the text does. -/
theorem encodeChar_prefix_iff (c : Char) (t : Text) :
    String.utf8EncodeChar c <+: encode t ↔ t.head? = some c := by
  constructor
  · rintro ⟨rest, same⟩
    have found := first?_encodeChar c rest
    cases t with
    | nil =>
      have empty := List.append_eq_nil_iff.mp same
      exact absurd empty.1 String.utf8EncodeChar_ne_nil
    | cons d t =>
      rw [same, encode_cons, first?_encodeChar] at found
      rw [List.head?_cons, found]
  · intro head
    cases t with
    | nil => simp at head
    | cons d t =>
      obtain rfl : d = c := by simpa using head
      rw [encode_cons]
      exact List.prefix_append _ _

/-- An ASCII character is its own byte. -/
theorem encodeChar_ascii {c : Char} (low : c.toNat ≤ 127) :
    String.utf8EncodeChar c = [UInt8.ofNat c.toNat] := by
  have val : c.val ≤ 127 := by
    rw [UInt32.le_iff_toNat_le]
    exact low
  rw [String.utf8EncodeChar_eq_singleton (Char.utf8Size_eq_one_iff.mpr val)]
  rfl

theorem encode_ascii (t : Text) (low : ∀ c ∈ t, c.toNat ≤ 127) :
    encode t = t.map (fun c => UInt8.ofNat c.toNat) := by
  induction t with
  | nil => rfl
  | cons c t ih =>
    rw [encode_cons, encodeChar_ascii (low c (by simp)), ih (fun d hd => low d (by simp [hd]))]
    rfl

/-- An ASCII character of a text is among its bytes. -/
theorem mem_encode {c : Char} {t : Text} (found : c ∈ t) (low : c.toNat ≤ 127) :
    UInt8.ofNat c.toNat ∈ encode t := by
  apply List.mem_flatMap.mpr
  exact ⟨c, found, by rw [encodeChar_ascii low]; exact List.mem_singleton_self _⟩

/-- The decimal digits of a number, as a text. -/
theorem encode_toDigits (n : Nat) : encode (Nat.toDigits 10 n) = decimal n := by
  apply encode_ascii
  intro c hc
  have := toNat_of_mem_toDigits hc
  omega

end Utf8

end IndustrialRuntime
