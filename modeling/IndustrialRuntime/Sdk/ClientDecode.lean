import IndustrialRuntime.Codec.RoundTrip
import IndustrialRuntime.Sdk.ClientCodec

namespace IndustrialRuntime

namespace Irsp.IrspValue

/-- Nesting that `room` nested calls of a decoder can follow. -/
def NestsWithin : Nat → IrspValue → Prop
  | 0, _ => False
  | room + 1, v => ∀ w ∈ v.children, NestsWithin room w

instance decidableNestsWithin : ∀ room, DecidablePred (NestsWithin room)
  | 0, _ => isFalse id
  | room + 1, v =>
    have := decidableNestsWithin room
    inferInstanceAs (Decidable (∀ w ∈ v.children, NestsWithin room w))

/-- Line texts in UTF-8, and distinct keys that are bulks in UTF-8, none named `__proto__`. -/
def Legible : IrspValue → Prop
  | .simple text => ∃ t, Utf8.encode t = text
  | .error code message => (∃ t, Utf8.encode t = code) ∧ ∃ t, Utf8.encode t = message
  | .map entries => ∃ keys : List Text, keys.Nodup ∧ Sdk.JavaScript.proto ∉ keys ∧
    entries.map Prod.fst = keys.map fun t => .bulk (Utf8.encode t)
  | _ => True

/-- U+FEFF in UTF-8. -/
def byteOrderMark : Bytes := [0xEF, 0xBB, 0xBF]

/-- No line and no key begins with a byte order mark. -/
def Unmarked : IrspValue → Prop
  | .simple text => ¬byteOrderMark <+: text
  | .error code _ => ¬byteOrderMark <+: code
  | .map entries => ∀ e ∈ entries, ∀ data, e.1 = .bulk data → ¬byteOrderMark <+: data
  | _ => True

theorem nestsWithin_leaf {room : Nat} {v : IrspValue} (leaf : v.children = []) :
    NestsWithin (room + 1) v := by
  intro w child
  rw [leaf] at child
  cases child

theorem nestsWithin_map (room : Nat) (entries : List (IrspValue × IrspValue)) :
    NestsWithin (room + 1) (.map entries) ↔
      ∀ e ∈ entries, NestsWithin room e.1 ∧ NestsWithin room e.2 := by
  constructor
  · intro within e he
    exact ⟨within e.1 (List.mem_flatMap.mpr ⟨e, he, by simp⟩),
      within e.2 (List.mem_flatMap.mpr ⟨e, he, by simp⟩)⟩
  · intro within w hw
    obtain ⟨e, he, which⟩ := List.mem_flatMap.mp hw
    rcases List.mem_pair.mp which with rfl | rfl
    · exact (within e he).1
    · exact (within e he).2

end Irsp.IrspValue

namespace Sdk

open Irsp Irsp.IrspValue Irsp.Irsp1Codec

variable {K : Type}

/-- The text of a key. -/
def keyText : IrspValue → Text
  | .bulk data => Utf8.decode data
  | _ => []

section Image

variable (name : Text → K)

mutual

/-- The value with the same structure; `name` makes a key of a text. -/
def image : IrspValue → ClientValue K
  | .null => .null
  | .simple text => .text (Utf8.decode text)
  | .error code message => .error (Utf8.decode code) (Utf8.decode message)
  | .integer value => .integer value.toInt
  | .bulk data => .bytes data
  | .array items => .array (imageItems items)
  | .map entries => .map (imageEntries entries)

def imageItems : List IrspValue → List (ClientValue K)
  | [] => []
  | item :: items => image item :: imageItems items

def imageEntries : List (IrspValue × IrspValue) → List (K × ClientValue K)
  | [] => []
  | entry :: entries => imageEntry entry :: imageEntries entries

def imageEntry : IrspValue × IrspValue → K × ClientValue K
  | (key, val) => (name (keyText key), image val)

end

theorem imageItems_eq (items : List IrspValue) :
    imageItems name items = items.map (image name) := by
  induction items with
  | nil => rfl
  | cons item items ih => rw [imageItems, ih, List.map_cons]

theorem imageEntries_eq (entries : List (IrspValue × IrspValue)) :
    imageEntries name entries = entries.map fun e => (name (keyText e.1), image name e.2) := by
  induction entries with
  | nil => rfl
  | cons entry entries ih => rw [imageEntries, ih, List.map_cons, imageEntry]

end Image

section Seen

variable (D : Dialect K) (strip : Text → Text) (name : Text → K)

mutual

/-- What a decoder that makes `strip t` of a text `t` gets to see of a value. -/
def seen : IrspValue → ClientValue K
  | .null => .null
  | .simple text => .text (strip (Utf8.decode text))
  | .error code message => .error (strip (Utf8.decode code)) (Utf8.decode message)
  | .integer value => .integer value.toInt
  | .bulk data => .bytes data
  | .array items => .array (seenItems items)
  | .map entries => .map (seenEntries [] entries)

def seenItems : List IrspValue → List (ClientValue K)
  | [] => []
  | item :: items => seen item :: seenItems items

def seenEntries (done : List (K × ClientValue K)) :
    List (IrspValue × IrspValue) → List (K × ClientValue K)
  | [] => done
  | entry :: entries =>
    seenEntries (D.put done (name (strip (keyText entry.1))) (seenValue entry)) entries

def seenValue : IrspValue × IrspValue → ClientValue K
  | (_, val) => seen val

end

theorem seenItems_eq (items : List IrspValue) :
    seenItems D strip name items = items.map (seen D strip name) := by
  induction items with
  | nil => rfl
  | cons item items ih => rw [seenItems, ih, List.map_cons]

end Seen

/-- What the proofs use of a dialect: it makes `strip t` of a text `t`, `name (strip t)` of a key,
and reads the numbers that the server prints. -/
structure Dialect.Lawful (D : Dialect K) (strip : Text → Text) (name : Text → K) : Prop where
  text : ∀ t, D.text (Utf8.encode t) = .ok (strip t)
  space : ∀ code message, strip (code ++ ' ' :: message) = strip code ++ ' ' :: message
  subset : ∀ t, strip t ⊆ t
  integer : ∀ i : Int64, ∃ line, D.text (decimalInt i.toInt) = .ok line ∧
    D.integer line = .ok i.toInt
  size : ∀ n < 2 ^ 63, ∃ line, D.text (decimal n) = .ok line ∧
    D.length line = .ok (some (n : Int))
  absent : ∃ line, D.text (ascii "-1") = .ok line ∧ D.length line = .ok (some (-1))
  key : ∀ t, D.key (.bytes (Utf8.encode t)) = .ok (name (strip t))
  fresh : ∀ properties t v, t ≠ JavaScript.proto → name t ∉ properties.map Prod.fst →
    D.put properties (name t) v = properties ++ [(name t, v)]
  grows : ∀ properties key v, D.put properties key v = properties ++ [(key, v)] ∨
    (D.put properties key v).length = properties.length

theorem Dialect.Lawful.read {D : Dialect K} {strip : Text → Text} {name : Text → K}
    (lawful : D.Lawful strip name) {b : Bytes} (utf8 : ∃ t, Utf8.encode t = b) :
    D.text b = .ok (strip (Utf8.decode b)) := by
  obtain ⟨t, rfl⟩ := utf8
  rw [Utf8.decode_encode_text]
  exact lawful.text t

/-! ### Reading a line -/

theorem lineLength_of_crlf {l : Bytes} {k : Nat} (found : crlfOffset l = some k) :
    lineLength l = k := by
  induction l generalizing k with
  | nil => simp [crlfOffset] at found
  | cons c rest ih =>
    cases rest with
    | nil => simp [crlfOffset] at found
    | cons d rest =>
      rw [crlfOffset_cons] at found
      simp only [List.head?_cons, Option.some.injEq] at found
      rw [lineLength]
      split_ifs at found ⊢ with here
      · exact Option.some.inj found
      · obtain ⟨j, tail, rfl⟩ := Option.map_eq_some_iff.mp found
        rw [ih tail]

section Line

variable {D : Dialect K} {b : Bytes} {pos : Nat} {type : UInt8} {line rest : Bytes}

theorem readLine_eq (h : LineAt b pos type line rest) :
    readLine b (pos + 1) = (line, pos + 1 + line.length + 2) := by
  have length : lineLength (b.drop (pos + 1)) = line.length := by
    rw [h.drop_line]
    exact lineLength_of_crlf (crlfOffset_line h.clean rest)
  have bytes : substr b (pos + 1) line.length = line := by
    rw [substr, h.drop_line, List.append_assoc, List.take_left]
  rw [readLine, length, bytes]

theorem parseBody_line (h : LineAt b pos type line rest) {t : Text} (text : D.text line = .ok t)
    (parse : Option Nat → Except Failure (Parsed K)) :
    parseBody D b parse (some pos) =
      parseLine D b parse type t (pos + 1 + line.length + 2) := by
  simp only [parseBody, h.type_eq, readLine_eq h, text]

end Line

theorem ne_space_of_notMem {code : Text} (bare : ' ' ∉ code) : ∀ c ∈ code, (c != ' ') = true := by
  intro c hc
  simpa using ne_of_mem_of_not_mem hc bare

theorem splitError_bare {code : Text} (bare : ' ' ∉ code) :
    splitError code = (.error code [] : ClientValue K) := by
  rw [splitError, List.dropWhile_eq_nil_iff.mpr (ne_space_of_notMem bare)]

/-- The first space separates a code without spaces from the message. -/
theorem splitError_code {code : Text} (bare : ' ' ∉ code) (message : Text) :
    splitError (code ++ ' ' :: message) = (.error code message : ClientValue K) := by
  rw [splitError, List.dropWhile_append_of_pos (ne_space_of_notMem bare),
    List.takeWhile_append_of_pos (ne_space_of_notMem bare)]
  simp

section Loops

variable {b : Bytes} {parse : Option Nat → Except Failure (Parsed K)}

/-- Wherever the frame holds the encoding of `v`, the calls of `parse` make `out` of it, if they
fit in the stack. -/
def Makes (b : Bytes) (parse : Option Nat → Except Failure (Parsed K)) (fits : Prop)
    (v : IrspValue) (out : ClientValue K) : Prop :=
  ∀ cur s, b.drop cur = encode v ++ s →
    (fits → parse (some cur) = .ok (out, some (cur + (encode v).length))) ∧
      (¬fits → parse (some cur) = .error .stack)

theorem parseItems_makes {fits : IrspValue → Prop} {out : IrspValue → ClientValue K}
    (items : List IrspValue) (done : List (ClientValue K)) (cur : Nat) (s : Bytes)
    (makes : ∀ v ∈ items, Makes b parse (fits v) v (out v))
    (h : b.drop cur = encodeItems items ++ s) :
    ((∀ v ∈ items, fits v) → parseItems parse items.length done (some cur) =
      .ok (.array (done ++ items.map out), some (cur + (encodeItems items).length))) ∧
      (¬(∀ v ∈ items, fits v) → parseItems parse items.length done (some cur) =
        .error .stack) := by
  induction items generalizing done cur with
  | nil => simp [parseItems, encodeItems]
  | cons item items ih =>
    rw [encodeItems, List.append_assoc] at h
    obtain ⟨here, deep⟩ := makes item (by simp) cur _ h
    have rest : b.drop (cur + (encode item).length) = encodeItems items ++ s := by
      rw [← List.drop_drop, h, List.drop_left]
    by_cases fit : fits item
    · obtain ⟨tail, stuck⟩ := ih (done ++ [out item]) (cur + (encode item).length)
        (fun v hv => makes v (by simp [hv])) rest
      have all : (∀ v ∈ item :: items, fits v) ↔ ∀ v ∈ items, fits v := by simp [fit]
      simp only [List.length_cons, parseItems, here fit, all]
      refine ⟨fun every => ?_, stuck⟩
      rw [tail every]
      simp [encodeItems, Nat.add_assoc]
    · have some : ¬∀ v ∈ item :: items, fits v := fun every => fit (every item (by simp))
      simp only [List.length_cons, parseItems, deep fit, some, false_implies, true_and,
        not_false_eq_true, true_implies]

theorem parseEntries_makes {D : Dialect K} {strip : Text → Text} {name : Text → K}
    (lawful : D.Lawful strip name) {fits : IrspValue → Prop}
    (entries : List (IrspValue × IrspValue)) (done : List (K × ClientValue K)) (cur : Nat)
    (s : Bytes) (keys : ∀ e ∈ entries, ∃ t, e.1 = .bulk (Utf8.encode t))
    (makes : ∀ e ∈ entries, Makes b parse (fits e.1) e.1 (seen D strip name e.1) ∧
      Makes b parse (fits e.2) e.2 (seen D strip name e.2))
    (h : b.drop cur = encodeEntries entries ++ s) :
    ((∀ e ∈ entries, fits e.1 ∧ fits e.2) →
      parseEntries D parse entries.length done (some cur) =
        .ok (.map (seenEntries D strip name done entries),
          some (cur + (encodeEntries entries).length))) ∧
      (¬(∀ e ∈ entries, fits e.1 ∧ fits e.2) →
        parseEntries D parse entries.length done (some cur) = .error .stack) := by
  induction entries generalizing done cur with
  | nil => simp [parseEntries, encodeEntries, seenEntries]
  | cons entry entries ih =>
    obtain ⟨key, val⟩ := entry
    obtain ⟨t, rfl⟩ : ∃ t, key = .bulk (Utf8.encode t) := keys (key, val) (by simp)
    rw [encodeEntries, encodeEntry, List.append_assoc, List.append_assoc] at h
    obtain ⟨makes_key, makes_val⟩ := makes (.bulk (Utf8.encode t), val) (by simp)
    obtain ⟨at_key, deep_key⟩ := makes_key cur _ h
    by_cases fit_key : fits (.bulk (Utf8.encode t))
    · have val_drop : b.drop (cur + (encode (.bulk (Utf8.encode t))).length) =
          encode val ++ (encodeEntries entries ++ s) := by
        rw [← List.drop_drop, h, List.drop_left]
      obtain ⟨at_val, deep_val⟩ := makes_val _ _ val_drop
      by_cases fit_val : fits val
      · have rest : b.drop (cur + (encode (.bulk (Utf8.encode t))).length + (encode val).length) =
            encodeEntries entries ++ s := by
          rw [← List.drop_drop, val_drop, List.drop_left]
        obtain ⟨tail, stuck⟩ := ih (D.put done (name (strip t)) (seen D strip name val)) _
          (fun e he => keys e (by simp [he])) (fun e he => makes e (by simp [he])) rest
        have named : D.key (seen D strip name (.bulk (Utf8.encode t))) =
            .ok (name (strip t)) := lawful.key t
        have all : (∀ e ∈ (.bulk (Utf8.encode t), val) :: entries, fits e.1 ∧ fits e.2) ↔
            ∀ e ∈ entries, fits e.1 ∧ fits e.2 := by simp [fit_key, fit_val]
        simp only [List.length_cons, parseEntries, at_key fit_key, at_val fit_val, named, all]
        refine ⟨fun every => ?_, stuck⟩
        rw [tail every]
        simp [encodeEntries, encodeEntry, seenEntries, seenValue, keyText, Nat.add_assoc]
      · have some : ¬∀ e ∈ (.bulk (Utf8.encode t), val) :: entries, fits e.1 ∧ fits e.2 :=
          fun every => fit_val (every (.bulk (Utf8.encode t), val) (by simp)).2
        simp only [List.length_cons, parseEntries, at_key fit_key, deep_val fit_val, some,
          false_implies, true_and, not_false_eq_true, true_implies]
    · have some : ¬∀ e ∈ (.bulk (Utf8.encode t), val) :: entries, fits e.1 ∧ fits e.2 :=
        fun every => fit_key (every (.bulk (Utf8.encode t), val) (by simp)).1
      simp only [List.length_cons, parseEntries, deep_key fit_key, some, false_implies, true_and,
        not_false_eq_true, true_implies]

end Loops

/-- A frame that the server has encoded, at any position: the decoder makes of a value what its
dialect gets to see of it, and stops right after it, if the value nests within the call stack. -/
theorem parse_makes {D : Dialect K} {strip : Text → Text} {name : Text → K}
    (lawful : D.Lawful strip name) (b : Bytes) (room : Nat) (v : IrspValue)
    (printable : v.Encodable) (legible : Everywhere Legible v) :
    Makes b (parse D b room) (v.NestsWithin room) v (seen D strip name v) := by
  induction room generalizing v with
  | zero => exact fun _ _ _ => ⟨False.elim, fun _ => rfl⟩
  | succ room ih =>
    intro cur s h
    cases v with
    | null =>
      obtain ⟨text, read, number⟩ := lawful.absent
      rw [parse, parseBody_line (lineAt_null h) read]
      have flat : NestsWithin (room + 1) .null := nestsWithin_leaf rfl
      simp [flat, parseLine, number, seen, encode, ascii, crlf]
    | simple text =>
      have read := lawful.read legible.here
      rw [parse, parseBody_line (lineAt_simple printable.here h) read]
      have flat : NestsWithin (room + 1) (.simple text) := nestsWithin_leaf rfl
      simp [flat, parseLine, seen, encode, ascii, crlf]
      omega
    | error code message =>
      obtain ⟨⟨c, same_code⟩, m, same_message⟩ := legible.here
      obtain ⟨clean_code, clean_message, no_space⟩ := printable.here
      have flat : NestsWithin (room + 1) (.error code message) := nestsWithin_leaf rfl
      have bare : ' ' ∉ strip (Utf8.decode code) := by
        rw [← same_code] at no_space ⊢
        rw [Utf8.decode_encode_text]
        exact fun found => no_space (Utf8.mem_encode (lawful.subset c found) (by decide))
      cases message with
      | nil =>
        have read := lawful.read ⟨c, same_code⟩
        have empty : Utf8.decode [] = [] := rfl
        rw [parse, parseBody_line (lineAt_error_bare clean_code h) read]
        simp [flat, parseLine, splitError_bare bare, seen, empty, encode, ascii, crlf]
        omega
      | cons d message =>
        have read : D.text (code ++ 32 :: d :: message) =
            .ok (strip (Utf8.decode code) ++ ' ' :: Utf8.decode (d :: message)) := by
          rw [← same_code, ← same_message, Utf8.decode_encode_text, Utf8.decode_encode_text,
            ← lawful.space]
          have bytes : Utf8.encode c ++ 32 :: Utf8.encode m = Utf8.encode (c ++ ' ' :: m) := by
            rw [Utf8.encode_append, Utf8.encode_cons]
            rfl
          rw [bytes]
          exact lawful.text _
        rw [parse, parseBody_line (lineAt_error clean_code clean_message h) read]
        simp [flat, parseLine, splitError_code bare, seen, encode, ascii, crlf]
        omega
    | integer value =>
      obtain ⟨text, read, number⟩ := lawful.integer value
      rw [parse, parseBody_line (lineAt_integer h) read]
      have flat : NestsWithin (room + 1) (.integer value) := nestsWithin_leaf rfl
      simp [flat, parseLine, number, Except.map, seen, encode, ascii, crlf]
      omega
    | bulk data =>
      have size : data.length < 2 ^ 63 := printable.here
      obtain ⟨text, read, number⟩ := lawful.size data.length size
      have line := lineAt_bulk h
      have payload : substr b (cur + 1 + (decimal data.length).length + 2) data.length = data := by
        rw [substr, line.drop_rest, List.append_assoc, List.take_left]
      have positive : ¬(data.length : Int) < 0 := by omega
      rw [parse, parseBody_line line read]
      have flat : NestsWithin (room + 1) (.bulk data) := nestsWithin_leaf rfl
      simp [flat, parseLine, number, positive, payload, seen, encode, ascii, crlf]
      omega
    | array items =>
      have size : items.length < 2 ^ 63 := printable.here
      obtain ⟨text, read, number⟩ := lawful.size items.length size
      have line := lineAt_array h
      have makes : ∀ w ∈ items, Makes b (parse D b room) (w.NestsWithin room) w
          (seen D strip name w) :=
        fun w hw => ih w (printable.item hw) (legible.item hw)
      have loop := parseItems_makes items [] _ s makes line.drop_rest
      have positive : ¬(items.length : Int) < 0 := by omega
      rw [parse, parseBody_line line read]
      simp only [parseLine, number, positive, Int.toNat_natCast]
      refine ⟨fun within => ?_, fun deep => loop.2 deep⟩
      simp [loop.1 within, seen, seenItems_eq, encode, ascii, crlf]
      omega
    | map entries =>
      have size : entries.length < 2 ^ 63 := printable.here
      obtain ⟨text, read, number⟩ := lawful.size entries.length size
      have line := lineAt_map h
      have makes : ∀ e ∈ entries, Makes b (parse D b room) (e.1.NestsWithin room) e.1
          (seen D strip name e.1) ∧ Makes b (parse D b room) (e.2.NestsWithin room) e.2
          (seen D strip name e.2) := by
        intro e he
        obtain ⟨printable_key, printable_val⟩ := printable.entry he
        obtain ⟨legible_key, legible_val⟩ := legible.entry he
        exact ⟨ih e.1 printable_key legible_key, ih e.2 printable_val legible_val⟩
      have keys : ∀ e ∈ entries, ∃ t, e.1 = .bulk (Utf8.encode t) := by
        intro e he
        obtain ⟨texts, -, -, same⟩ := legible.here
        have found : e.1 ∈ entries.map Prod.fst := List.mem_map_of_mem he
        rw [same] at found
        obtain ⟨t, -, eq⟩ := List.mem_map.mp found
        exact ⟨t, eq.symm⟩
      have loop := parseEntries_makes lawful entries [] _ s keys makes line.drop_rest
      rw [parse, parseBody_line line read, nestsWithin_map]
      simp only [parseLine, number, Int.toNat_natCast]
      refine ⟨fun within => ?_, fun deep => loop.2 deep⟩
      simp [loop.1 within, seen, encode, ascii, crlf]
      omega

end Sdk

end IndustrialRuntime
