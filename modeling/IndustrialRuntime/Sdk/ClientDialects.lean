import IndustrialRuntime.Sdk.ClientDecode

namespace IndustrialRuntime

namespace Utf8

/-- A printed number, as a text. -/
def signed (i : Int) : Text :=
  if i < 0 then '-' :: Nat.toDigits 10 i.natAbs else Nat.toDigits 10 i.natAbs

theorem encode_signed (i : Int) : encode (signed i) = decimalInt i := by
  unfold signed decimalInt
  split_ifs with negative
  · rw [encode_cons, encode_toDigits]
    rfl
  · exact encode_toDigits i.natAbs

end Utf8

namespace Sdk

open Irsp Irsp.IrspValue Irsp.Irsp1Codec

/-! ### Runs of digits -/

/-- A non-empty run of ASCII digits. -/
structure Digits (t : Text) : Prop where
  nonempty : t ≠ []
  digit : ∀ c ∈ t, c.isDigit = true

theorem digits_toDigits (n : Nat) : Digits (Nat.toDigits 10 n) where
  nonempty := Nat.toDigits_ne_nil
  digit _ hc := Nat.isDigit_of_mem_toDigits (by decide) (by decide) hc

theorem toNat_of_isDigit {c : Char} (digit : c.isDigit = true) : 48 ≤ c.toNat ∧ c.toNat ≤ 57 := by
  simp only [Char.isDigit, Bool.and_eq_true, decide_eq_true_eq] at digit
  exact ⟨by simpa [UInt32.le_iff_toNat_le] using digit.1,
    by simpa [UInt32.le_iff_toNat_le] using digit.2⟩

/-- A character that is no digit does not begin a run of digits. -/
theorem Digits.head_ne {t : Text} (digits : Digits t) {c : Char} (other : c.isDigit = false) :
    t.head? ≠ some c := by
  intro head
  have digit := digits.digit c (List.mem_of_mem_head? head)
  rw [other] at digit
  cases digit

theorem dropWhile_eq_self {p : Char → Bool} {t : Text} (outside : ∀ c ∈ t, p c = false) :
    t.dropWhile p = t := by
  cases t with
  | nil => rfl
  | cons c t => simp [outside c (by simp)]

/-- Trimming at both ends leaves a text without white space alone. -/
theorem trim_eq_self {p : Char → Bool} {t : Text} (outside : ∀ c ∈ t, p c = false) :
    ((t.dropWhile p).reverse.dropWhile p).reverse = t := by
  rw [dropWhile_eq_self outside, dropWhile_eq_self, List.reverse_reverse]
  exact fun c hc => outside c (List.mem_reverse.mp hc)

theorem Digits.takeWhile {t : Text} (digits : Digits t) : t.takeWhile Char.isDigit = t :=
  List.takeWhile_eq_self_iff.mpr digits.digit

theorem digitsIn_ten {t : Text} (digits : Digits t) :
    digitsIn 10 t = some (Nat.ofDigitChars 10 t 0) := by
  have each := digits.digit
  have run : ∀ (t : Text) (n : Nat), (∀ c ∈ t, c.isDigit = true) →
      t.foldl (fun value c =>
        let digit := if c.isDigit then c.toNat - 48
          else if c.isLower then c.toNat - 87
          else if c.isUpper then c.toNat - 55
          else 10
        if digit < 10 then value.map (10 * · + digit) else none) (some n) =
        some (Nat.ofDigitChars 10 t n) := by
    intro t
    induction t with
    | nil => exact fun n _ => rfl
    | cons c t ih =>
      intro n each
      have digit := each c (by simp)
      have bounds := toNat_of_isDigit digit
      have small : c.toNat - 48 < 10 := by omega
      rw [List.foldl_cons, Nat.ofDigitChars_cons]
      simp only [digit, if_true, small, Option.map_some]
      exact ih _ (fun d hd => each d (by simp [hd]))
  exact run t 0 each

/-- No character of a printed number is white space of a kind that excludes digits and `-`. -/
theorem signed_outside {p : Char → Bool} (digits : ∀ c : Char, c.isDigit = true → p c = false)
    (minus : p '-' = false) (i : Int) : ∀ c ∈ Utf8.signed i, p c = false := by
  intro c hc
  unfold Utf8.signed at hc
  split_ifs at hc with negative
  · rcases List.mem_cons.mp hc with rfl | digit
    · exact minus
    · exact digits c ((digits_toDigits _).digit c digit)
  · exact digits c ((digits_toDigits _).digit c hc)

/-! ### Assignments -/

theorem assign_fresh {K : Type} [DecidableEq K] (properties : List (K × ClientValue K)) (key : K)
    (val : ClientValue K) (absent : key ∉ properties.map Prod.fst) :
    assign properties key val = properties ++ [(key, val)] := by
  have unnamed : ¬properties.any (fun e => decide (e.1 = key)) = true := by
    intro named
    obtain ⟨e, found, same⟩ := List.any_eq_true.mp named
    exact absent (List.mem_map.mpr ⟨e, found, of_decide_eq_true same⟩)
  rw [assign, if_neg unnamed]

/-- An assignment adds a property, or leaves their number. -/
theorem assign_cases {K : Type} [DecidableEq K] (properties : List (K × ClientValue K)) (key : K)
    (val : ClientValue K) :
    assign properties key val = properties ++ [(key, val)] ∨
      (assign properties key val).length = properties.length := by
  unfold assign
  split_ifs with named
  · exact .inr (List.length_map _)
  · exact .inl rfl

/-! ### JavaScript -/

namespace JavaScript

theorem dropMark_of_head {t : Text} (head : t.head? ≠ some '\uFEFF') : dropMark t = t := by
  cases t with
  | nil => rfl
  | cons c t =>
    unfold dropMark
    split
    · rename_i same
      injection same with first
      exact absurd (by rw [first]; rfl) head
    · rfl

theorem dropMark_mark (t : Text) : dropMark ('\uFEFF' :: t) = t := rfl

theorem isWhiteSpace_of_isDigit (c : Char) (digit : c.isDigit = true) : isWhiteSpace c = false := by
  obtain ⟨low, high⟩ := toNat_of_isDigit digit
  have spelled : ∀ d : Char, d.toNat < 48 ∨ 57 < d.toNat → c ≠ d := by
    rintro d far rfl
    omega
  have below : ¬ '\u2000' ≤ c := by
    intro above
    have : '\u2000'.toNat ≤ c.toNat := above
    have : '\u2000'.toNat = 0x2000 := rfl
    omega
  simp only [isWhiteSpace, List.mem_cons, List.not_mem_nil, or_false, below, decide_false,
    Bool.false_and, Bool.or_false, decide_eq_false_iff_not, not_or]
  refine ⟨?_, ?_, ?_, ?_, ?_, ?_, ?_, ?_, ?_, ?_, ?_, ?_, ?_, ?_⟩ <;> exact spelled _ (by decide)

theorem parseInt_toDigits (n : Nat) : parseInt (Nat.toDigits 10 n) = some (n : Int) := by
  have digits := digits_toDigits n
  have untrimmed : (Nat.toDigits 10 n).dropWhile isWhiteSpace = Nat.toDigits 10 n :=
    dropWhile_eq_self fun c hc => isWhiteSpace_of_isDigit c (digits.digit c hc)
  have minus := digits.head_ne (c := '-') (by decide)
  have plus := digits.head_ne (c := '+') (by decide)
  simp only [parseInt, untrimmed, minus, plus, or_self, if_false, digits.takeWhile,
    digits.nonempty, Nat.ofDigitChars_ten_toDigits]

theorem bigInt_digits {t : Text} (digits : Digits t) :
    bigInt t = some (Nat.ofDigitChars 10 t 0 : Int) := by
  have outside : ∀ c ∈ t, isWhiteSpace c = false :=
    fun c hc => isWhiteSpace_of_isDigit c (digits.digit c hc)
  have value : (digitsIn 10 t).map Int.ofNat = some (Nat.ofDigitChars 10 t 0 : Int) := by
    rw [digitsIn_ten digits]
    rfl
  simp only [bigInt, trim_eq_self outside]
  split
  · exact absurd rfl digits.nonempty
  · exact absurd (digits.digit '-' (by simp)) (by decide)
  · exact absurd (digits.digit '+' (by simp)) (by decide)
  · rename_i c rest
    have digit := digits.digit c (by simp)
    have letter : ∀ d : Char, d.isDigit = false → c ≠ d := by
      rintro d other rfl
      rw [digit] at other
      cases other
    simp only [letter 'x' (by decide), letter 'X' (by decide), letter 'o' (by decide),
      letter 'O' (by decide), letter 'b' (by decide), letter 'B' (by decide), or_self, if_false,
      digits.nonempty, value]
  · simp only [digits.nonempty, if_false, value]

theorem bigInt_signed (i : Int) : bigInt (Utf8.signed i) = some i := by
  have outside := signed_outside isWhiteSpace_of_isDigit (by decide) i
  have digits := digits_toDigits i.natAbs
  by_cases negative : i < 0
  · have value :
        (digitsIn 10 (Nat.toDigits 10 i.natAbs)).map Int.ofNat = some (i.natAbs : Int) := by
      rw [digitsIn_ten digits, Nat.ofDigitChars_ten_toDigits]
      rfl
    have text : Utf8.signed i = '-' :: Nat.toDigits 10 i.natAbs := by simp [Utf8.signed, negative]
    rw [text] at outside ⊢
    simp only [bigInt, trim_eq_self outside, digits.nonempty, if_false, value, Option.map_some,
      Option.some.injEq]
    omega
  · have text : Utf8.signed i = Nat.toDigits 10 i.natAbs := by simp [Utf8.signed, negative]
    rw [text, bigInt_digits digits, Nat.ofDigitChars_ten_toDigits, Option.some.injEq]
    omega

/-- A printed number begins with no byte order mark. -/
theorem dropMark_signed (i : Int) : dropMark (Utf8.signed i) = Utf8.signed i := by
  apply dropMark_of_head
  unfold Utf8.signed
  split_ifs with negative
  · simp
  · exact (digits_toDigits _).head_ne (by decide)

theorem lawful : dialect.Lawful dropMark id where
  text t := by simp [dialect, textDecode]
  space code message := by
    cases code with
    | nil => rfl
    | cons c code =>
      by_cases mark : c = '\uFEFF'
      · subst mark
        rfl
      · have kept : ∀ t, dropMark (c :: t) = c :: t :=
          fun t => dropMark_of_head (by simpa using mark)
        rw [List.cons_append, kept, kept, List.cons_append]
  subset t c hc := by
    unfold dropMark at hc
    split at hc
    · exact List.mem_cons_of_mem _ hc
    · exact hc
  integer i := by
    refine ⟨Utf8.signed i.toInt, ?_, ?_⟩
    · simp [dialect, textDecode, ← Utf8.encode_signed, dropMark_signed]
    · simp [dialect, bigInt_signed]
  size n _ := by
    have head := (digits_toDigits n).head_ne (c := '\uFEFF') (by decide)
    refine ⟨Nat.toDigits 10 n, ?_, ?_⟩
    · simp [dialect, textDecode, ← Utf8.encode_toDigits, dropMark_of_head head]
    · simp [dialect, parseInt_toDigits]
  absent := ⟨"-1".toList, by rfl, by rfl⟩
  key t := by simp [dialect, asStr, textDecode, Except.map]
  fresh properties t v other absent := by
    simp only [dialect, assignProperty, id, other, if_false]
    exact assign_fresh properties t v absent
  grows properties key v := by
    simp only [dialect, assignProperty]
    split_ifs
    · exact .inr rfl
    · exact assign_cases properties key v

end JavaScript

/-! ### Python -/

namespace Python

variable (py : Interpreter)

theorem transform_low {c : Char} (low : c.toNat < 127) : transform py c = c := by
  rw [transform, if_pos low]

theorem isAsciiSpace_of_isDigit (c : Char) (digit : c.isDigit = true) :
    isAsciiSpace c = false := by
  obtain ⟨low, high⟩ := toNat_of_isDigit digit
  have above : ¬c ≤ '\r' := by
    intro below
    have : c.toNat ≤ '\r'.toNat := below
    have : '\r'.toNat = 13 := rfl
    omega
  have space : c ≠ ' ' := by
    rintro rfl
    exact absurd low (by decide)
  simp [isAsciiSpace, above, space]

theorem ungroup_digits {t : Text} (digits : Digits t) : ungroup t = some t := by
  obtain ⟨nonempty, each⟩ := digits
  induction t with
  | nil => exact absurd rfl nonempty
  | cons c t ih =>
    have digit := each c (by simp)
    cases t with
    | nil => simp [ungroup, digit]
    | cons d t =>
      have other : d ≠ '_' := by
        rintro rfl
        exact absurd (each '_' (by simp)) (by decide)
      have tail := ih (by simp) (fun e he => each e (by simp [he]))
      simp [ungroup, digit, other, tail]

/-- A printed number of 64 bits is read back. -/
theorem int_signed (i : Int) (small : i.natAbs < 10 ^ 19) : int py (Utf8.signed i) = some i := by
  have digits := digits_toDigits i.natAbs
  have low : ∀ c ∈ Utf8.signed i, transform py c = c := by
    intro c hc
    apply transform_low
    unfold Utf8.signed at hc
    split_ifs at hc with negative
    · rcases List.mem_cons.mp hc with rfl | digit
      · decide
      · have := toNat_of_isDigit (digits.digit c digit)
        omega
    · have := toNat_of_isDigit (digits.digit c hc)
      omega
  have same : (Utf8.signed i).map (transform py) = Utf8.signed i := by
    rw [List.map_congr_left low, List.map_id']
  have untrimmed := trim_eq_self (signed_outside isAsciiSpace_of_isDigit (by decide) i)
  have short : ¬∃ most ∈ py.maxStrDigits, most < (Nat.toDigits 10 i.natAbs).length := by
    rintro ⟨most, limit, long⟩
    have bound := (Nat.length_toDigits_le_iff (by decide) (by decide)).mpr small
    have := py.maxStrDigits_le most limit
    omega
  simp only [int, same, untrimmed]
  by_cases negative : i < 0
  · have text : Utf8.signed i = '-' :: Nat.toDigits 10 i.natAbs := by simp [Utf8.signed, negative]
    simp only [text, List.head?_cons, true_or, if_true, List.tail_cons, ungroup_digits digits,
      short, if_false, Nat.ofDigitChars_ten_toDigits, Option.some.injEq]
    omega
  · have text : Utf8.signed i = Nat.toDigits 10 i.natAbs := by simp [Utf8.signed, negative]
    have minus := digits.head_ne (c := '-') (by decide)
    have plus := digits.head_ne (c := '+') (by decide)
    simp only [text, minus, plus, or_self, if_false, ungroup_digits digits, short,
      Nat.ofDigitChars_ten_toDigits, Option.some.injEq]
    omega

theorem lawful : (dialect py).Lawful id some where
  text t := by simp [dialect]
  space code message := rfl
  subset t := List.Subset.refl t
  integer i := by
    have low := i.le_toInt
    have high := i.toInt_lt
    refine ⟨Utf8.signed i.toInt, ?_, ?_⟩
    · simp [dialect, ← Utf8.encode_signed]
    · simp [dialect, int_signed py i.toInt (by omega)]
  size n small := by
    have text : Utf8.signed (n : Int) = Nat.toDigits 10 n := by simp [Utf8.signed]
    refine ⟨Nat.toDigits 10 n, ?_, ?_⟩
    · simp [dialect, ← Utf8.encode_toDigits]
    · simp [dialect, ← text, int_signed py n (by omega)]
  absent := by
    refine ⟨Utf8.signed (-1), ?_, ?_⟩
    · have bytes : ascii "-1" = Utf8.encode (Utf8.signed (-1)) := by rfl
      simp [dialect, bytes]
    · simp [dialect, int_signed py (-1) (by decide)]
  key t := by simp [dialect, asStr]
  fresh properties t v _ absent := assign_fresh properties (some t) v absent
  grows := assign_cases

end Python

end Sdk

end IndustrialRuntime
