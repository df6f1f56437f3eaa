import IndustrialRuntime.Sdk.ClientDialects

namespace IndustrialRuntime.Sdk

open Irsp Irsp.IrspValue Irsp.Irsp1Codec

theorem everywhere_iff {P : IrspValue → Prop} (v : IrspValue) :
    Everywhere P v ↔ P v ∧ ∀ w ∈ v.children, Everywhere P w := by
  constructor
  · rintro ⟨here, inside⟩
    exact ⟨here, inside⟩
  · exact fun ⟨here, inside⟩ => ⟨here, inside⟩

theorem everywhere_leaf {P : IrspValue → Prop} {v : IrspValue} (leaf : v.children = []) :
    Everywhere P v ↔ P v := by
  rw [everywhere_iff, leaf]
  simp

theorem everywhere_map_iff {P : IrspValue → Prop} (entries : List (IrspValue × IrspValue)) :
    Everywhere P (.map entries) ↔
      P (.map entries) ∧ ∀ e ∈ entries, Everywhere P e.1 ∧ Everywhere P e.2 := by
  constructor
  · exact fun every => ⟨every.here, fun e he => every.entry he⟩
  · rintro ⟨here, inside⟩
    refine ⟨here, fun w hw => ?_⟩
    obtain ⟨e, he, which⟩ := List.mem_flatMap.mp hw
    rcases List.mem_pair.mp which with rfl | rfl
    · exact (inside e he).1
    · exact (inside e he).2

/-- The decoder keeps the texts of the value. -/
def KeptBy (strip : Text → Text) : IrspValue → Prop
  | .simple text => strip (Utf8.decode text) = Utf8.decode text
  | .error code _ => strip (Utf8.decode code) = Utf8.decode code
  | .map entries => ∀ e ∈ entries, strip (keyText e.1) = keyText e.1
  | _ => True

section

variable {K : Type} {D : Dialect K} {strip : Text → Text} {name : Text → K}

/-- Distinct keys that the decoder keeps give one property each. -/
theorem seenEntries_fresh (lawful : D.Lawful strip name) (inj : Function.Injective name)
    (keys : List Text) (entries : List (IrspValue × IrspValue)) (done : List (K × ClientValue K))
    (distinct : keys.Nodup) (plain : JavaScript.proto ∉ keys)
    (same : entries.map Prod.fst = keys.map fun t => .bulk (Utf8.encode t))
    (kept : ∀ e ∈ entries, strip (keyText e.1) = keyText e.1)
    (absent : ∀ t ∈ keys, name t ∉ done.map Prod.fst) :
    seenEntries D strip name done entries =
      done ++ entries.map fun e => (name (keyText e.1), seen D strip name e.2) := by
  induction keys generalizing entries done with
  | nil =>
    obtain rfl : entries = [] := by simpa using same
    simp [seenEntries]
  | cons t keys ih =>
    cases entries with
    | nil => simp at same
    | cons entry entries =>
      obtain ⟨key, val⟩ := entry
      rw [List.map_cons, List.map_cons] at same
      injection same with head rest
      obtain rfl : key = .bulk (Utf8.encode t) := head
      obtain ⟨fresh, distinct⟩ := List.nodup_cons.mp distinct
      have text : keyText (.bulk (Utf8.encode t)) = t := by simp [keyText]
      have put : D.put done (name t) (seen D strip name val) =
          done ++ [(name t, seen D strip name val)] :=
        lawful.fresh done t _ (fun own => plain (by simp [own])) (absent t (by simp))
      have here : strip t = t := by
        have := kept (.bulk (Utf8.encode t), val) (by simp)
        rwa [text] at this
      have later : ∀ u ∈ keys, name u ∉
          (done ++ [(name t, seen D strip name val)]).map Prod.fst := by
        intro u hu found
        rw [List.map_append, List.mem_append] at found
        rcases found with old | new
        · exact absent u (by simp [hu]) old
        · have own : name u = name t := by simpa using new
          exact fresh (inj own ▸ hu)
      have tail := ih entries _ distinct (fun own => plain (by simp [own])) rest
        (fun e he => kept e (by simp [he])) later
      simp only [seenEntries, seenValue, text, here, put, tail]
      simp [text]

/-- Each entry adds a property, or there are fewer of them. -/
theorem seenEntries_cases (lawful : D.Lawful strip name) (entries : List (IrspValue × IrspValue))
    (done : List (K × ClientValue K)) :
    seenEntries D strip name done entries =
      done ++ entries.map (fun e => (name (strip (keyText e.1)), seen D strip name e.2)) ∨
      (seenEntries D strip name done entries).length < done.length + entries.length := by
  induction entries generalizing done with
  | nil => simp [seenEntries]
  | cons entry entries ih =>
    obtain ⟨key, val⟩ := entry
    simp only [seenEntries, seenValue, List.length_cons]
    have both := ih (D.put done (name (strip (keyText key))) (seen D strip name val))
    rcases lawful.grows done (name (strip (keyText key))) (seen D strip name val) with new | old
    · rw [new] at both ⊢
      rcases both with every | fewer
      · exact .inl (by rw [every]; simp)
      · rw [List.length_append, List.length_singleton] at fewer
        exact .inr (by omega)
    · right
      rcases both with every | fewer
      · rw [every, List.length_append, List.length_map, old]
        omega
      · rw [old] at fewer
        omega

/-- A decoder sees the structure of a value just when it keeps the texts in it. -/
theorem seen_eq_image_iff (lawful : D.Lawful strip name) (inj : Function.Injective name)
    (v : IrspValue) (legible : Everywhere Legible v) :
    seen D strip name v = image name v ↔ Everywhere (KeptBy strip) v := by
  induction v using IrspValue.nested_induction with
  | null =>
    rw [everywhere_leaf rfl]
    simp [seen, image, KeptBy]
  | simple text =>
    rw [everywhere_leaf rfl]
    simp [seen, image, KeptBy]
  | error code message =>
    rw [everywhere_leaf rfl]
    simp [seen, image, KeptBy]
  | integer value =>
    rw [everywhere_leaf rfl]
    simp [seen, image, KeptBy]
  | bulk data =>
    rw [everywhere_leaf rfl]
    simp [seen, image, KeptBy]
  | array items ih =>
    have each : (∀ v ∈ items, seen D strip name v = image name v) ↔
        ∀ v ∈ items, Everywhere (KeptBy strip) v :=
      forall₂_congr fun v hv => ih v hv (legible.item hv)
    rw [everywhere_iff]
    simp only [seen, image, seenItems_eq, imageItems_eq, ClientValue.array.injEq,
      List.map_inj_left, each, KeptBy, children, true_and]
  | map entries ih =>
    obtain ⟨keys, distinct, plain, same⟩ := legible.here
    have leaf : ∀ e ∈ entries, Everywhere (KeptBy strip) e.1 := by
      intro e he
      have found : e.1 ∈ entries.map Prod.fst := List.mem_map_of_mem he
      rw [same] at found
      obtain ⟨t, -, eq⟩ := List.mem_map.mp found
      rw [← eq, everywhere_leaf rfl]
      trivial
    rw [everywhere_map_iff]
    simp only [seen, image, imageEntries_eq, ClientValue.map.injEq]
    constructor
    · intro eq
      have size := congrArg List.length eq
      rw [List.length_map] at size
      have every := (seenEntries_cases lawful entries []).resolve_right (by simp [size])
      rw [every, List.nil_append, List.map_inj_left] at eq
      refine ⟨fun e he => inj (congrArg Prod.fst (eq e he)), fun e he => ⟨leaf e he, ?_⟩⟩
      exact ((ih e he).2 (legible.entry he).2).mp (congrArg Prod.snd (eq e he))
    · rintro ⟨kept, inside⟩
      rw [seenEntries_fresh lawful inj keys entries [] distinct plain same kept (by simp),
        List.nil_append, List.map_inj_left]
      intro e he
      rw [((ih e he).2 (legible.entry he).2).mpr (inside e he).2]

/-- What a decoder makes of a frame that the server has encoded. -/
theorem decodeWith_encode_iff (lawful : D.Lawful strip name) (inj : Function.Injective name)
    (room : Nat) (v : IrspValue) (printable : v.Encodable) (legible : Everywhere Legible v) :
    decodeWith D room (encode v) = .ok (image name v) ↔
      Everywhere (KeptBy strip) v ∧ v.NestsWithin room := by
  have frame : (encode v).drop 0 = encode v ++ [] := by simp
  obtain ⟨made, stuck⟩ := parse_makes lawful (encode v) room v printable legible 0 [] frame
  rw [decodeWith, ← seen_eq_image_iff lawful inj v legible]
  by_cases within : v.NestsWithin room
  · simp [made within, within, Except.map]
  · simp [stuck within, within, Except.map]

end

/-! ### Requests -/

theorem encodeItems_bulk (parts : List Part) :
    encodeItems (parts.map fun p => .bulk p.sent) = parts.flatMap fun p =>
      ascii "$" ++ decimal p.sent.length ++ crlf ++ p.sent ++ crlf := by
  induction parts with
  | nil => rfl
  | cons p parts ih => rw [List.map_cons, encodeItems, ih, List.flatMap_cons, encode]

theorem JavaScript.encodeRequest_eq (parts : List Part) :
    JavaScript.encodeRequest parts = encode (.array (parts.map fun p => .bulk p.sent)) := by
  rw [encode, encodeItems_bulk, List.length_map, JavaScript.encodeRequest, JavaScript.concat,
    List.flatten_cons]
  congr 1
  induction parts with
  | nil => rfl
  | cons p parts ih =>
    rw [List.flatMap_cons, List.flatten_append, ih, List.flatMap_cons]
    simp

theorem Python.encodeRequest_eq (parts : List Part) :
    Python.encodeRequest parts = encode (.array (parts.map fun p => .bulk p.sent)) := by
  have run : ∀ (parts : List Part) (out : Bytes), parts.foldl (fun out p =>
      out ++ (ascii "$" ++ decimal p.sent.length ++ crlf) ++ p.sent ++ crlf) out =
      out ++ parts.flatMap fun p =>
        ascii "$" ++ decimal p.sent.length ++ crlf ++ p.sent ++ crlf := by
    intro parts
    induction parts with
    | nil => simp
    | cons p parts ih =>
      intro out
      rw [List.foldl_cons, ih, List.flatMap_cons]
      simp
  rw [encode, encodeItems_bulk, List.length_map, Python.encodeRequest, run]

/-- The server reads a request of either client as the array of its parts. -/
theorem decode_request (lim : VectorLimits) (parts : List Part)
    (held : parts.length ≤ lim.items) (sizes : ∀ p ∈ parts, p.sent.length < 2 ^ 63) :
    Irsp1Codec.decode lim (encode (.array (parts.map fun p => .bulk p.sent))) =
      .ok ⟨.ok, .array (parts.map fun p => .bulk p.sent),
        (encode (.array (parts.map fun p => .bulk p.sent))).length⟩ := by
  have few : parts.length < 2 ^ 63 := Nat.lt_of_le_of_lt held lim.items_lt
  have printable : Encodable (.array (parts.map fun p => .bulk p.sent)) := by
    refine ⟨by simpa [Printable] using few, fun w hw => ?_⟩
    obtain ⟨p, hp, rfl⟩ := List.mem_map.mp hw
    exact (everywhere_leaf rfl).mpr (sizes p hp)
  have storable : Storable lim (.array (parts.map fun p => .bulk p.sent)) := by
    refine ⟨by simpa [Fits] using held, fun w hw => ?_⟩
    obtain ⟨p, hp, rfl⟩ := List.mem_map.mp hw
    exact (everywhere_leaf rfl).mpr trivial
  let frame := encode (.array (parts.map fun p => .bulk p.sent))
  have whole : frame.drop 0 = frame ++ [] := (List.append_nil frame).symm
  have read := parseValue_encode _ printable storable frame 0 (frame.length + 1) [] whole (by omega)
  rw [Irsp1Codec.decode, read]
  simp [Except.map]

/-! ### Byte order marks -/

theorem JavaScript.dropMark_iff (t : Text) :
    JavaScript.dropMark t = t ↔ ¬byteOrderMark <+: Utf8.encode t := by
  have mark : byteOrderMark = String.utf8EncodeChar '\uFEFF' := by decide
  rw [mark, Utf8.encodeChar_prefix_iff]
  constructor
  · intro kept head
    cases t with
    | nil => simp at head
    | cons c t =>
      obtain rfl : c = '\uFEFF' := by simpa using head
      have size := congrArg List.length kept
      simp [JavaScript.dropMark_mark] at size
  · exact JavaScript.dropMark_of_head

theorem everywhere_congr {P Q R : IrspValue → Prop} (same : ∀ v, R v → (P v ↔ Q v))
    {v : IrspValue} (every : Everywhere R v) : Everywhere P v ↔ Everywhere Q v := by
  induction every with
  | intro here _ ih =>
    rw [everywhere_iff, everywhere_iff, same _ here]
    exact and_congr_right fun _ => forall₂_congr ih

theorem keptBy_dropMark_iff (v : IrspValue) (legible : Legible v) :
    KeptBy JavaScript.dropMark v ↔ Unmarked v := by
  have keeps (b : Bytes) (utf8 : ∃ t, Utf8.encode t = b) :
      JavaScript.dropMark (Utf8.decode b) = Utf8.decode b ↔ ¬byteOrderMark <+: b := by
    obtain ⟨t, rfl⟩ := utf8
    rw [Utf8.decode_encode_text]
    exact JavaScript.dropMark_iff t
  cases v with
  | simple text => exact keeps text legible
  | error code message => exact keeps code legible.1
  | map entries =>
    obtain ⟨keys, -, -, same⟩ := legible
    refine forall₂_congr fun e he => ?_
    have found : e.1 ∈ entries.map Prod.fst := List.mem_map_of_mem he
    rw [same] at found
    obtain ⟨t, -, eq⟩ := List.mem_map.mp found
    rw [← eq]
    simpa [keyText] using keeps (Utf8.encode t) ⟨t, rfl⟩
  | _ => exact Iff.rfl

theorem everywhere_keptBy_id (v : IrspValue) : Everywhere (KeptBy id) v := by
  have here (v : IrspValue) : KeptBy id v := by
    cases v <;> simp [KeptBy]
  induction v using IrspValue.nested_induction with
  | array items ih => exact ⟨here _, ih⟩
  | map entries ih => exact (everywhere_map_iff entries).mpr ⟨here _, ih⟩
  | _ => exact (everywhere_leaf rfl).mpr (here _)

/-- The codecs agree in both directions, as far as no line and no key begins with a byte order
mark, and the call stacks of the clients can follow the nesting. -/
theorem codecs_agree (lim : VectorLimits) (py : Python.Interpreter) (room room' : Nat) :
    (∀ parts : List Part, parts.length ≤ lim.items → (∀ p ∈ parts, p.sent.length < 2 ^ 63) →
      Irsp1Codec.decode lim (JavaScript.encodeRequest parts) =
        .ok ⟨.ok, .array (parts.map fun p => .bulk p.sent),
          (JavaScript.encodeRequest parts).length⟩ ∧
      Irsp1Codec.decode lim (Python.encodeRequest parts) =
        .ok ⟨.ok, .array (parts.map fun p => .bulk p.sent),
          (Python.encodeRequest parts).length⟩) ∧
    ∀ v : IrspValue, v.Encodable → Everywhere Legible v →
      (JavaScript.decode room (encode v) = .ok (image id v) ↔
        Everywhere Unmarked v ∧ v.NestsWithin room) ∧
      (Python.decode py room' (encode v) = .ok (image some v) ↔ v.NestsWithin room') := by
  refine ⟨fun parts held sizes => ?_, fun v printable legible => ⟨?_, ?_⟩⟩
  · rw [JavaScript.encodeRequest_eq, Python.encodeRequest_eq]
    exact ⟨decode_request lim parts held sizes, decode_request lim parts held sizes⟩
  · rw [← everywhere_congr keptBy_dropMark_iff legible]
    exact decodeWith_encode_iff JavaScript.lawful Function.injective_id room v printable legible
  · have read := decodeWith_encode_iff (Python.lawful py) (Option.some_injective Text) room' v
      printable legible
    rw [Python.decode, read]
    exact and_iff_right (everywhere_keptBy_id v)

/-- Python's default settings, for lines in ASCII. -/
def Python.asciiInterpreter : Python.Interpreter where
  isSpace _ := false
  toDecimal _ := none
  maxStrDigits := some 4300
  maxStrDigits_le := by simp
  str _ := []

theorem codecs_agree_map :
    JavaScript.decode 2 (encode (.map [(.bulk (ascii "a"), .integer (-7))])) =
        .ok (.map [("a".toList, .integer (-7))]) ∧
      Python.decode Python.asciiInterpreter 2 (encode (.map [(.bulk (ascii "a"), .integer (-7))])) =
        .ok (.map [(some "a".toList, .integer (-7))]) ∧
      Irsp1Codec.decode x64Limits (JavaScript.encodeRequest [.text "GET".toList, .bytes [255]]) =
        .ok ⟨.ok, .array [.bulk (ascii "GET"), .bulk [255]], 20⟩ := by
  have agree := codecs_agree x64Limits Python.asciiInterpreter 2 2
  have printable : Encodable (.map [(.bulk (ascii "a"), .integer (-7))]) := by
    refine (everywhere_map_iff _).mpr ⟨by decide, fun e he => ?_⟩
    obtain rfl := List.mem_singleton.mp he
    exact ⟨(everywhere_leaf rfl).mpr (by decide), (everywhere_leaf rfl).mpr trivial⟩
  have legible : Everywhere Legible (.map [(.bulk (ascii "a"), .integer (-7))]) := by
    refine (everywhere_map_iff _).mpr ⟨⟨["a".toList], by decide, by decide, rfl⟩, fun e he => ?_⟩
    obtain rfl := List.mem_singleton.mp he
    exact ⟨(everywhere_leaf rfl).mpr trivial, (everywhere_leaf rfl).mpr trivial⟩
  have unmarked : Everywhere Unmarked (.map [(.bulk (ascii "a"), .integer (-7))]) := by
    refine (everywhere_map_iff _).mpr ⟨fun e he data same => ?_, fun e he => ?_⟩
    · obtain rfl := List.mem_singleton.mp he
      obtain rfl : ascii "a" = data := by simpa using same
      decide
    · obtain rfl := List.mem_singleton.mp he
      exact ⟨(everywhere_leaf rfl).mpr trivial, (everywhere_leaf rfl).mpr trivial⟩
  obtain ⟨js, python⟩ := agree.2 _ printable legible
  have request := agree.1 [.text "GET".toList, .bytes [255]] (by decide) (by decide)
  exact ⟨js.mpr ⟨unmarked, by decide⟩, python.mpr (by decide), request.1⟩

/-- A line that begins with a byte order mark loses it, however large the call stack is. -/
theorem not_codecs_agree : ¬∀ v : IrspValue, v.Encodable → Everywhere Legible v →
    ∃ room, JavaScript.decode room (encode v) = .ok (image id v) := by
  intro claim
  have printable : Encodable (.simple (byteOrderMark ++ ascii "a")) :=
    (everywhere_leaf rfl).mpr (by decide)
  have legible : Everywhere Legible (.simple (byteOrderMark ++ ascii "a")) :=
    (everywhere_leaf rfl).mpr ⟨['\uFEFF', 'a'], by decide⟩
  obtain ⟨room, read⟩ := claim _ printable legible
  cases room with
  | zero => cases read
  | succ room =>
    have lost : JavaScript.decode (room + 1) (encode (.simple (byteOrderMark ++ ascii "a"))) =
        .ok (.text ['a']) := by rfl
    have kept : image id (.simple (byteOrderMark ++ ascii "a")) = .text ['\uFEFF', 'a'] := by rfl
    rw [lost, kept, Except.ok.injEq, ClientValue.text.injEq] at read
    exact absurd read (by decide)

end IndustrialRuntime.Sdk
