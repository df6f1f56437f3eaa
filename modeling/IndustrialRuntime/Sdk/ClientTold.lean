import IndustrialRuntime.Sdk.ClientRecords

namespace IndustrialRuntime.Sdk

open Core Irsp Irsp.IrspValue

/-! ### Tags -/

/-- The fields in which a tag is pushed, and in which `GET` answers with it. -/
def tagFields (tag : TagValue) : List (String × IrspValue) :=
  [("name", .bulk tag.name), ("type", .bulk (encodeVariant tag.value).1),
    ("ts", .integer tag.timestamp), ("value", .bulk (encodeVariant tag.value).2)]

def pushTagFields (tag : TagValue) : List (String × IrspValue) :=
  ("push", .bulk (ascii "tag")) :: tagFields tag

theorem encodePushTag_eq (tag : TagValue) : encodePushTag (CoreTagSource.toRecord tag) =
    Irsp1Codec.encode (recordValue (pushTagFields tag)) := rfl

theorem tagToMap_eq (tag : TagValue) :
    tagToMap (CoreTagSource.toRecord tag) = recordValue (tagFields tag) := rfl

/-- The name and the value are strings that fit in memory. -/
def FitsMemory (tag : TagValue) : Prop :=
  tag.name.length < 2 ^ 63 ∧ (encodeVariant tag.value).2.length < 2 ^ 63

theorem flat_tagFields {tag : TagValue} (fits : FitsMemory tag) :
    ∀ f ∈ tagFields tag, Flat f.2 := by
  have short : (encodeVariant tag.value).1.length ≤ 4 := by
    cases tag.value <;> simp [encodeVariant, ascii]
  have type : (encodeVariant tag.value).1.length < 2 ^ 63 := by omega
  intro f found
  simp only [tagFields, List.mem_cons, List.not_mem_nil, or_false] at found
  rcases found with rfl | rfl | rfl | rfl
  · exact .inl ⟨_, rfl, fits.1⟩
  · exact .inl ⟨_, rfl, type⟩
  · exact .inr ⟨_, rfl⟩
  · exact .inl ⟨_, rfl, fits.2⟩

theorem record_tagFields {tag : TagValue} (fits : FitsMemory tag) : Record (tagFields tag) where
  keys := by
    show Literals ["name", "type", "ts", "value"]
    exact ⟨by simp, by decide, by decide, by decide, by decide⟩
  flat := flat_tagFields fits

theorem record_pushTagFields {tag : TagValue} (fits : FitsMemory tag) :
    Record (pushTagFields tag) where
  keys := by
    show Literals ["push", "name", "type", "ts", "value"]
    exact ⟨by simp, by decide, by decide, by decide, by decide⟩
  flat := by
    intro f found
    rcases List.mem_cons.mp found with rfl | rest
    · exact .inl ⟨_, rfl, by decide⟩
    · exact flat_tagFields fits f rest

/-- The label is read back by both clients. -/
theorem JavaScript.textDecode_label (v : Variant) : textDecode (encodeVariant v).1 = label v := by
  rw [← encode_label, textDecode, Utf8.decode_encode_text]
  cases v <;> rfl

theorem JavaScript.decodeTag_fields (tag : TagValue) (fields : List (String × IrspValue))
    (record : Record fields) (held : tagFields tag ⊆ fields)
    (plain : "quality".toList ∉ (fields.map Prod.fst).map String.toList) :
    decodeTag (properties id fields) =
      (decodeValue (some (label tag.value)) (.bytes (encodeVariant tag.value).2)).map fun value =>
        ⟨some (textDecode tag.name), some (label tag.value), .integer tag.timestamp.toInt, value,
          none⟩ := by
  have field (k : String) (v : IrspValue) (found : (k, v) ∈ tagFields tag) :
      property (properties id fields) k.toList = image id v :=
    record.property_eq Function.injective_id (held found)
  have name := field "name" (.bulk tag.name) (by simp [tagFields])
  have type := field "type" (.bulk (encodeVariant tag.value).1) (by simp [tagFields])
  have ts := field "ts" (.integer tag.timestamp) (by simp [tagFields])
  have value := field "value" (.bulk (encodeVariant tag.value).2) (by simp [tagFields])
  have quality : property (properties id fields) "quality".toList = .null :=
    Record.property_missing Function.injective_id plain
  rw [decodeTag, type, name, value, quality, ts]
  simp only [image, asStr, textDecode_label]
  cases decodeValue (some (label tag.value)) (.bytes (encodeVariant tag.value).2) <;> rfl

theorem mem_texts {tag : TagValue} {P : Bytes → Prop} :
    (∀ b ∈ texts tag, P b) ↔ P tag.name ∧ ∀ s, tag.value = .string s → P s := by
  unfold texts
  cases tag.value <;> simp

theorem JavaScript.decodeTag_iff (tag : TagValue) (fields : List (String × IrspValue))
    (record : Record fields) (held : tagFields tag ⊆ fields)
    (plain : "quality".toList ∉ (fields.map Prod.fst).map String.toList) :
    (∃ told, decodeTag (properties id fields) = some told ∧ Faithful tag told) ↔
      ∀ b ∈ texts tag, Readable b := by
  rw [mem_texts, ← decodeValue_iff, ← encode_textDecode_iff,
    decodeTag_fields tag fields record held plain]
  constructor
  · rintro ⟨told, decoded, faithful⟩
    obtain ⟨d, value, rfl⟩ := Option.map_eq_some_iff.mp decoded
    obtain ⟨t, same, spelled⟩ := faithful.name
    injection same with same
    exact ⟨by rw [same]; exact spelled, d, value, faithful.value⟩
  · rintro ⟨name, d, value, denotes⟩
    rw [value]
    exact ⟨_, rfl, ⟨_, rfl, name⟩, ⟨_, rfl, encode_label tag.value⟩, rfl, denotes, rfl⟩

namespace Python

variable (py : Interpreter)

/-- A string field as a text. -/
theorem asStrOr_bytes (otherwise : Text) (b : Bytes) (kept : b = [] → otherwise = []) :
    asStrOr py otherwise (.bytes b) = match Utf8.decode? b with
      | none => .error .badText
      | some t => .ok t := by
  cases read : Utf8.decode? b with
  | none => simp only [asStrOr, asStr, read, Except.map]
  | some t =>
    cases t with
    | nil =>
      have empty : b = [] := ((Utf8.decode?_eq_some_iff b []).mp read).symm
      simp only [asStrOr, asStr, read, Except.map, kept empty]
    | cons c t => simp only [asStrOr, asStr, read, Except.map]

theorem asStrOr_label (v : Variant) :
    asStrOr py "null".toList (.bytes (encodeVariant v).1) = .ok (label v) := by
  have some_ : (encodeVariant v).1 ≠ [] := by
    cases v <;> simp [encodeVariant, ascii]
  rw [asStrOr_bytes py _ _ fun empty => absurd empty some_, ← encode_label, Utf8.decode?_encode]

theorem decodeTag_fields (tag : TagValue) (fields : List (String × IrspValue))
    (record : Record fields) (held : tagFields tag ⊆ fields)
    (plain : "quality".toList ∉ (fields.map Prod.fst).map String.toList) :
    decodeTag py (properties some fields) =
      (Utf8.decode? tag.name).bind fun name =>
        (decodeValue (label tag.value) (some (encodeVariant tag.value).2)).map fun value =>
          ⟨some name, some (label tag.value), .integer tag.timestamp.toInt, value, none⟩ := by
  have field (k : String) (v : IrspValue) (found : (k, v) ∈ tagFields tag) :
      property (properties some fields) (some k.toList) = image some v :=
    record.property_eq (Option.some_injective Text) (held found)
  have name := field "name" (.bulk tag.name) (by simp [tagFields])
  have type := field "type" (.bulk (encodeVariant tag.value).1) (by simp [tagFields])
  have ts := field "ts" (.integer tag.timestamp) (by simp [tagFields])
  have value := field "value" (.bulk (encodeVariant tag.value).2) (by simp [tagFields])
  have quality : property (properties some fields) (some "quality".toList) = .null :=
    Record.property_missing (Option.some_injective Text) plain
  have text := asStrOr_bytes py [] tag.name fun _ => rfl
  rw [decodeTag, type, name, value, quality, ts]
  simp only [image, asStrOr_label, text, asStr, intOrZero, bytesOf]
  cases Utf8.decode? tag.name with
  | none => rfl
  | some t =>
    cases read : decodeValue (label tag.value) (some (encodeVariant tag.value).2) with
    | none => simp [read]
    | some d => simp [read]

/-- A Python client is told the tag right or not at all. -/
theorem decodeTag_iff (tag : TagValue) (fields : List (String × IrspValue))
    (record : Record fields) (held : tagFields tag ⊆ fields)
    (plain : "quality".toList ∉ (fields.map Prod.fst).map String.toList) :
    (∀ told, decodeTag py (properties some fields) = some told → Faithful tag told) ∧
      ((decodeTag py (properties some fields)).isSome ↔ ∀ b ∈ texts tag, Readable b) := by
  have value := decodeValue_iff tag.value
  rw [mem_texts, ← decode?_iff, ← value.2, decodeTag_fields py tag fields record held plain]
  constructor
  · intro told same
    obtain ⟨t, name, rest⟩ := Option.bind_eq_some_iff.mp same
    obtain ⟨d, read, rfl⟩ := Option.map_eq_some_iff.mp rest
    exact ⟨⟨t, rfl, (Utf8.decode?_eq_some_iff _ _).mp name⟩, ⟨_, rfl, encode_label tag.value⟩,
      rfl, value.1 d read, rfl⟩
  · cases Utf8.decode? tag.name with
    | none => simp
    | some t => simp

end Python

/-! ### Events -/

def eventFields (event : Event) : List (String × IrspValue) :=
  [("push", .bulk (ascii "event")), ("source", .bulk event.source),
    ("category", .bulk event.category), ("severity", .bulk (severityLower event.severity)),
    ("ts", .integer event.timestamp), ("message", .bulk event.message)]

theorem encodePushEvent_eq (event : Event) :
    encodePushEvent event = Irsp1Codec.encode (recordValue (eventFields event)) := rfl

/-- The texts of an event. -/
def eventTexts (event : Event) : List Bytes := [event.source, event.category, event.message]

theorem record_eventFields {event : Event} (fits : ∀ b ∈ eventTexts event, b.length < 2 ^ 63) :
    Record (eventFields event) where
  keys := by
    show Literals ["push", "source", "category", "severity", "ts", "message"]
    exact ⟨by simp, by decide, by decide, by decide, by decide⟩
  flat := by
    have severity : (severityLower event.severity).length < 2 ^ 63 := by
      cases event.severity <;> decide
    intro f found
    simp only [eventFields, List.mem_cons, List.not_mem_nil, or_false] at found
    rcases found with rfl | rfl | rfl | rfl | rfl | rfl
    · exact .inl ⟨_, rfl, by decide⟩
    · exact .inl ⟨_, rfl, fits _ (by simp [eventTexts])⟩
    · exact .inl ⟨_, rfl, fits _ (by simp [eventTexts])⟩
    · exact .inl ⟨_, rfl, severity⟩
    · exact .inr ⟨_, rfl⟩
    · exact .inl ⟨_, rfl, fits _ (by simp [eventTexts])⟩

/-- The severity as a text. -/
def severityText : EventSeverity → Text
  | .warning => "warning".toList
  | .alarm => "alarm".toList
  | .critical => "critical".toList
  | .info => "info".toList

theorem encode_severityText (severity : EventSeverity) :
    Utf8.encode (severityText severity) = severityLower severity := by
  cases severity <;> exact encode_toList (by simp)

theorem JavaScript.decodeEvent_iff (event : Event) (record : Record (eventFields event)) :
    ∃ told, decodeEvent (properties id (eventFields event)) = some told ∧
      (FaithfulEvent event told ↔ ∀ b ∈ eventTexts event, Readable b) := by
  have field (k : String) (v : IrspValue) (found : (k, v) ∈ eventFields event) :
      property (properties id (eventFields event)) k.toList = image id v :=
    record.property_eq Function.injective_id found
  have source := field "source" (.bulk event.source) (by simp [eventFields])
  have category := field "category" (.bulk event.category) (by simp [eventFields])
  have severity := field "severity" (.bulk (severityLower event.severity)) (by simp [eventFields])
  have ts := field "ts" (.integer event.timestamp) (by simp [eventFields])
  have message := field "message" (.bulk event.message) (by simp [eventFields])
  have low : Utf8.encode (textDecode (severityLower event.severity)) =
      severityLower event.severity := by
    cases event.severity <;> decide
  refine ⟨⟨some (textDecode event.source), some (textDecode event.category),
    some (textDecode (severityLower event.severity)), .integer event.timestamp.toInt,
    some (textDecode event.message)⟩, ?_, ?_⟩
  · rw [decodeEvent, source, category, severity, message, ts]
    rfl
  · simp only [eventTexts, List.mem_cons, List.not_mem_nil, or_false, forall_eq_or_imp, forall_eq,
      ← encode_textDecode_iff]
    constructor
    · intro told
      obtain ⟨s, same, spelled⟩ := told.source
      obtain ⟨c, same', spelled'⟩ := told.category
      obtain ⟨m, same'', spelled''⟩ := told.message
      injection same with same
      injection same' with same'
      injection same'' with same''
      rw [same, same', same'']
      exact ⟨spelled, spelled', spelled''⟩
    · rintro ⟨source, category, message⟩
      exact ⟨⟨_, rfl, source⟩, ⟨_, rfl, category⟩, ⟨_, rfl, low⟩, rfl, ⟨_, rfl, message⟩⟩

theorem Python.decodeEvent_iff (py : Interpreter) (event : Event)
    (record : Record (eventFields event)) :
    (∀ told, decodeEvent py (properties some (eventFields event)) = some told →
      FaithfulEvent event told) ∧
      ((decodeEvent py (properties some (eventFields event))).isSome ↔
        ∀ b ∈ eventTexts event, Readable b) := by
  have field (k : String) (v : IrspValue) (found : (k, v) ∈ eventFields event) :
      property (properties some (eventFields event)) (some k.toList) = image some v :=
    record.property_eq (Option.some_injective Text) found
  have source := field "source" (.bulk event.source) (by simp [eventFields])
  have category := field "category" (.bulk event.category) (by simp [eventFields])
  have severity := field "severity" (.bulk (severityLower event.severity)) (by simp [eventFields])
  have ts := field "ts" (.integer event.timestamp) (by simp [eventFields])
  have message := field "message" (.bulk event.message) (by simp [eventFields])
  have text (b : Bytes) := asStrOr_bytes py [] b fun _ => rfl
  have low : asStrOr py "info".toList (.bytes (severityLower event.severity)) =
      .ok (severityText event.severity) := by
    have some_ : severityLower event.severity ≠ [] := by
      cases event.severity <;> decide
    rw [asStrOr_bytes py _ _ fun empty => absurd empty some_, ← encode_severityText,
      Utf8.decode?_encode]
  have decoded : decodeEvent py (properties some (eventFields event)) =
      (Utf8.decode? event.source).bind fun s => (Utf8.decode? event.category).bind fun c =>
        (Utf8.decode? event.message).map fun m => ⟨some s, some c,
          some (severityText event.severity), .integer event.timestamp.toInt, some m⟩ := by
    rw [decodeEvent, source, category, severity, message, ts]
    simp only [image, text, low, intOrZero]
    cases Utf8.decode? event.source with
    | none => rfl
    | some s =>
      cases Utf8.decode? event.category with
      | none => rfl
      | some c => cases Utf8.decode? event.message <;> rfl
  rw [decoded]
  constructor
  · intro told same
    obtain ⟨s, source, rest⟩ := Option.bind_eq_some_iff.mp same
    obtain ⟨c, category, rest⟩ := Option.bind_eq_some_iff.mp rest
    obtain ⟨m, message, rfl⟩ := Option.map_eq_some_iff.mp rest
    simp only [Utf8.decode?_eq_some_iff] at source category message
    exact ⟨⟨_, rfl, source⟩, ⟨_, rfl, category⟩, ⟨_, rfl, encode_severityText event.severity⟩, rfl,
      ⟨_, rfl, message⟩⟩
  · simp only [eventTexts, List.mem_cons, List.not_mem_nil, or_false, forall_eq_or_imp, forall_eq,
      ← decode?_iff]
    cases Utf8.decode? event.source with
    | none => simp
    | some s =>
      cases Utf8.decode? event.category with
      | none => simp
      | some c => cases Utf8.decode? event.message <;> simp

/-! ### Frames -/

theorem isPushFrame_properties {K : Type} [DecidableEq K] {name : Text → K}
    (inj : Function.Injective name) (fields : List (String × IrspValue)) :
    isPushFrame (name "push".toList) (.map (properties name fields)) =
      decide ("push".toList ∈ (fields.map Prod.fst).map String.toList) := by
  rw [isPushFrame, Bool.eq_iff_iff]
  simp only [properties, List.any_map, List.any_eq_true, decide_eq_true_eq, Function.comp_apply,
    List.map_map, List.mem_map, inj.eq_iff]

theorem JavaScript.onFrame_push {fields : List (String × IrspValue)} (record : Record fields)
    {kind : Bytes} (pushed : ("push", .bulk kind) ∈ fields) (room : Nat) :
    onFrame (room + 2) (Irsp1Codec.encode (recordValue fields)) =
      if some (textDecode kind) = some "tag".toList then
        (decodeTag (properties id fields)).elim .raised .tag
      else if some (textDecode kind) = some "event".toList then
        (decodeEvent (properties id fields)).elim .raised .event
      else .otherPush := by
  have push : isPushFrame "push".toList (.map (properties id fields)) = true := by
    have same := isPushFrame_properties Function.injective_id fields
    rw [id] at same
    rw [same, decide_eq_true_eq, List.map_map]
    exact List.mem_map_of_mem (f := String.toList ∘ Prod.fst) pushed
  have kind_ := record.property_eq Function.injective_id pushed
  rw [id] at kind_
  rw [onFrame, record.javaScript room]
  simp only [push, if_true, kind_, image, asStr]

theorem Python.onFrame_push (py : Interpreter) {fields : List (String × IrspValue)}
    (record : Record fields) {kind : Text} (pushed : ("push", .bulk (Utf8.encode kind)) ∈ fields)
    (room : Nat) :
    onFrame py (room + 2) (Irsp1Codec.encode (recordValue fields)) =
      if some kind = some "tag".toList then
        (decodeTag py (properties some fields)).elim .raised .tag
      else if some kind = some "event".toList then
        (decodeEvent py (properties some fields)).elim .raised .event
      else .otherPush := by
  have push : isPushFrame (some "push".toList) (.map (properties some fields)) = true := by
    rw [isPushFrame_properties (Option.some_injective Text) fields, decide_eq_true_eq, List.map_map]
    exact List.mem_map_of_mem (f := String.toList ∘ Prod.fst) pushed
  have kind_ := record.property_eq (Option.some_injective Text) pushed
  rw [onFrame, record.python py room]
  simp only [push, if_true, kind_, image, asStr, Utf8.decode?_encode]

theorem notPush_tagFields (tag : TagValue) {K : Type} [DecidableEq K] {name : Text → K}
    (inj : Function.Injective name) :
    isPushFrame (name "push".toList) (.map (properties name (tagFields tag))) = false := by
  rw [isPushFrame_properties inj, decide_eq_false_iff_not]
  show "push".toList ∉ ["name", "type", "ts", "value"].map String.toList
  decide

theorem quality_pushTagFields (tag : TagValue) :
    "quality".toList ∉ ((pushTagFields tag).map Prod.fst).map String.toList := by
  show "quality".toList ∉ ["push", "name", "type", "ts", "value"].map String.toList
  decide

theorem quality_tagFields (tag : TagValue) :
    "quality".toList ∉ ((tagFields tag).map Prod.fst).map String.toList := by
  show "quality".toList ∉ ["name", "type", "ts", "value"].map String.toList
  decide

section

variable (tag : TagValue) (fits : FitsMemory tag) (room : Nat)

include fits

theorem JavaScript.pushed_iff :
    (∃ told, onFrame (room + 2) (encodePushTag (CoreTagSource.toRecord tag)) = .tag told ∧
      Faithful tag told) ↔ ∀ b ∈ texts tag, Readable b := by
  have fields := record_pushTagFields fits
  have listed : ("push", IrspValue.bulk (ascii "tag")) ∈ pushTagFields tag := List.mem_cons_self
  have pushed := onFrame_push fields listed room
  have kind : textDecode (ascii "tag") = "tag".toList := by decide
  rw [kind, if_pos rfl] at pushed
  rw [encodePushTag_eq, pushed, ← decodeTag_iff tag _ fields (List.subset_cons_self _ _)
    (quality_pushTagFields tag)]
  cases decodeTag (properties id (pushTagFields tag)) <;> simp

theorem JavaScript.answered_iff :
    ∃ value, onFrame (room + 2) (Irsp1Codec.encode (tagToMap (CoreTagSource.toRecord tag))) =
        .reply value ∧
      ((∃ told, getReply value = some (some told) ∧ Faithful tag told) ↔
        ∀ b ∈ texts tag, Readable b) := by
  have fields := record_tagFields fits
  refine ⟨.map (properties id (tagFields tag)), ?_, ?_⟩
  · have plain := notPush_tagFields tag Function.injective_id
    rw [id] at plain
    rw [tagToMap_eq, onFrame, fields.javaScript room]
    simp only [plain, Bool.false_eq_true, if_false]
  · rw [← decodeTag_iff tag _ fields (List.Subset.refl _) (quality_tagFields tag), getReply]
    simp

theorem Python.pushed_iff (py : Interpreter) :
    ((∃ told, onFrame py (room + 2) (encodePushTag (CoreTagSource.toRecord tag)) = .tag told ∧
      Faithful tag told) ↔ ∀ b ∈ texts tag, Readable b) ∧
    (onFrame py (room + 2) (encodePushTag (CoreTagSource.toRecord tag)) = .raised ↔
      ¬∀ b ∈ texts tag, Readable b) := by
  have fields := record_pushTagFields fits
  have kind : Utf8.encode "tag".toList = ascii "tag" := encode_toList (by simp)
  have listed : ("push", .bulk (Utf8.encode "tag".toList)) ∈ pushTagFields tag := by
    rw [kind]
    exact List.mem_cons_self
  have pushed := onFrame_push py fields listed room
  rw [if_pos rfl] at pushed
  have told := decodeTag_iff py tag _ fields (List.subset_cons_self _ _)
    (quality_pushTagFields tag)
  rw [encodePushTag_eq, pushed, ← told.2]
  cases decoded : decodeTag py (properties some (pushTagFields tag)) with
  | none => simp
  | some t => simpa using told.1 t decoded

theorem Python.answered_iff (py : Interpreter) :
    ∃ value, onFrame py (room + 2) (Irsp1Codec.encode (tagToMap (CoreTagSource.toRecord tag))) =
        .reply value ∧
      ((∃ told, getReply py value = some (some told) ∧ Faithful tag told) ↔
        ∀ b ∈ texts tag, Readable b) ∧
      (getReply py value = none ↔ ¬∀ b ∈ texts tag, Readable b) := by
  have fields := record_tagFields fits
  refine ⟨.map (properties some (tagFields tag)), ?_, ?_⟩
  · have plain := notPush_tagFields tag (Option.some_injective Text)
    rw [tagToMap_eq, onFrame, fields.python py room]
    simp only [plain, Bool.false_eq_true, if_false]
  · have told := decodeTag_iff py tag _ fields (List.Subset.refl _) (quality_tagFields tag)
    rw [← told.2, getReply]
    cases decoded : decodeTag py (properties some (tagFields tag)) with
    | none => simp
    | some t => simpa using told.1 t decoded

end

/-- A push, and the answer to a `GET`, tell a client the stored tag, its value of the stored type,
exactly when the name and a string value are UTF-8 (for a JavaScript client, without a leading
byte order mark); where they are not, the Python client raises. -/
theorem tag_told_iff (py : Python.Interpreter) (room : Nat) (tag : TagValue)
    (fits : FitsMemory tag) :
    let record := CoreTagSource.toRecord tag
    let push := encodePushTag record
    let answer := Irsp1Codec.encode (tagToMap record)
    (((∃ told, JavaScript.onFrame (room + 2) push = .tag told ∧ Faithful tag told) ↔
        ∀ b ∈ texts tag, JavaScript.Readable b) ∧
      ∃ value, JavaScript.onFrame (room + 2) answer = .reply value ∧
        ((∃ told, JavaScript.getReply value = some (some told) ∧ Faithful tag told) ↔
          ∀ b ∈ texts tag, JavaScript.Readable b)) ∧
    ((∃ told, Python.onFrame py (room + 2) push = .tag told ∧ Faithful tag told) ↔
        ∀ b ∈ texts tag, Python.Readable b) ∧
    (Python.onFrame py (room + 2) push = .raised ↔ ¬∀ b ∈ texts tag, Python.Readable b) ∧
    ∃ value, Python.onFrame py (room + 2) answer = .reply value ∧
      ((∃ told, Python.getReply py value = some (some told) ∧ Faithful tag told) ↔
        ∀ b ∈ texts tag, Python.Readable b) ∧
      (Python.getReply py value = none ↔ ¬∀ b ∈ texts tag, Python.Readable b) := by
  have python := Python.pushed_iff tag fits room py
  exact ⟨⟨JavaScript.pushed_iff tag fits room, JavaScript.answered_iff tag fits room⟩, python.1,
    python.2, Python.answered_iff tag fits room py⟩

/-- A temperature with a name beyond ASCII. -/
def celsius : TagValue := ⟨[0xE6, 0xB8, 0xA9], .int16, 7, .int16 (-40)⟩

theorem tag_told_iff_celsius :
    ∃ told, JavaScript.onFrame 2 (encodePushTag (CoreTagSource.toRecord celsius)) = .tag told ∧
      Faithful celsius told := by
  apply (tag_told_iff Python.asciiInterpreter 0 celsius ⟨by decide, by decide⟩).1.1.mpr
  intro b found
  obtain rfl := List.mem_singleton.mp found
  exact ⟨⟨['温'], by decide⟩, by decide⟩

theorem JavaScript.event_pushed_iff (room : Nat) (event : Event)
    (fits : ∀ b ∈ eventTexts event, b.length < 2 ^ 63) :
    ∃ told, onFrame (room + 2) (encodePushEvent event) = .event told ∧
      (FaithfulEvent event told ↔ ∀ b ∈ eventTexts event, Readable b) := by
  have fields := record_eventFields fits
  have listed : ("push", IrspValue.bulk (ascii "event")) ∈ eventFields event := List.mem_cons_self
  have pushed := onFrame_push fields listed room
  have kind : textDecode (ascii "event") = "event".toList := by decide
  rw [kind, if_neg (by decide), if_pos rfl] at pushed
  obtain ⟨told, decoded, faithful⟩ := decodeEvent_iff event fields
  rw [decoded] at pushed
  exact ⟨told, pushed, faithful⟩

theorem Python.event_pushed_iff (py : Interpreter) (room : Nat) (event : Event)
    (fits : ∀ b ∈ eventTexts event, b.length < 2 ^ 63) :
    ((∃ told, onFrame py (room + 2) (encodePushEvent event) = .event told ∧
        FaithfulEvent event told) ↔ ∀ b ∈ eventTexts event, Readable b) ∧
      (onFrame py (room + 2) (encodePushEvent event) = .raised ↔
        ¬∀ b ∈ eventTexts event, Readable b) := by
  have fields := record_eventFields fits
  have kind : Utf8.encode "event".toList = ascii "event" := encode_toList (by simp)
  have listed : ("push", .bulk (Utf8.encode "event".toList)) ∈ eventFields event := by
    rw [kind]
    exact List.mem_cons_self
  have pushed := onFrame_push py fields listed room
  rw [if_neg (by decide), if_pos rfl] at pushed
  have told := decodeEvent_iff py event fields
  rw [encodePushEvent_eq, pushed, ← told.2]
  cases decoded : decodeEvent py (properties some (eventFields event)) with
  | none => simp
  | some t => simpa using told.1 t decoded

/-- An event tells a client what was published exactly when its texts are UTF-8 (for a JavaScript
client, without a leading byte order mark); where they are not, the Python client raises. -/
theorem event_told_iff (py : Python.Interpreter) (room : Nat) (event : Event)
    (fits : ∀ b ∈ eventTexts event, b.length < 2 ^ 63) :
    let push := encodePushEvent event
    (∃ told, JavaScript.onFrame (room + 2) push = .event told ∧
      (FaithfulEvent event told ↔ ∀ b ∈ eventTexts event, JavaScript.Readable b)) ∧
    ((∃ told, Python.onFrame py (room + 2) push = .event told ∧ FaithfulEvent event told) ↔
        ∀ b ∈ eventTexts event, Python.Readable b) ∧
    (Python.onFrame py (room + 2) push = .raised ↔
      ¬∀ b ∈ eventTexts event, Python.Readable b) :=
  ⟨JavaScript.event_pushed_iff room event fits, Python.event_pushed_iff py room event fits⟩

theorem event_told_iff_overheat :
    ∃ told, JavaScript.onFrame 2 (encodePushEvent ⟨ascii "s7", ascii "plc", [0xE6, 0xB8, 0xA9],
        .alarm, 5⟩) = .event told ∧
      FaithfulEvent ⟨ascii "s7", ascii "plc", [0xE6, 0xB8, 0xA9], .alarm, 5⟩ told := by
  obtain ⟨told, pushed, faithful⟩ := (event_told_iff Python.asciiInterpreter 0
    ⟨ascii "s7", ascii "plc", [0xE6, 0xB8, 0xA9], .alarm, 5⟩ (by decide)).1
  refine ⟨told, pushed, faithful.mpr fun b found => ?_⟩
  simp only [eventTexts, List.mem_cons, List.not_mem_nil, or_false] at found
  rcases found with rfl | rfl | rfl
  · exact ⟨⟨"s7".toList, by decide⟩, by decide⟩
  · exact ⟨⟨"plc".toList, by decide⟩, by decide⟩
  · exact ⟨⟨['温'], by decide⟩, by decide⟩

end IndustrialRuntime.Sdk
