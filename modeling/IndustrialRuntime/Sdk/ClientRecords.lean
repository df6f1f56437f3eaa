import IndustrialRuntime.Sdk.ClientTags

namespace IndustrialRuntime.Sdk

open Core Irsp Irsp.IrspValue

/-- Keys that a client makes properties of, as they are. -/
structure Literals (keys : List String) : Prop where
  low : ∀ k ∈ keys, ∀ c ∈ k.toList, c.toNat ≤ 127
  short : ∀ k ∈ keys, k.toList.length < 2 ^ 63
  distinct : (keys.map String.toList).Nodup
  plain : JavaScript.proto ∉ keys.map String.toList
  few : keys.length < 2 ^ 63

def recordValue (fields : List (String × IrspValue)) : IrspValue :=
  .map (fields.map fun f => (.bulk (ascii f.1), f.2))

/-- The values that the server makes: its own texts are ASCII, the keys of a map are literals that
are allowed together, and the number bounds the nesting. -/
inductive Form (allowed : List String → Prop) : Nat → IrspValue → Prop
  | null {n : Nat} : Form allowed n .null
  | integer {n : Nat} (value : Int64) : Form allowed n (.integer value)
  | bulk {n : Nat} (data : Bytes) : Form allowed n (.bulk data)
  | simple {n : Nat} {text : String} (low : ∀ c ∈ text.toList, c.toNat ≤ 127) :
    Form allowed n (.simple (ascii text))
  | error {n : Nat} {code message : String} (low : ∀ c ∈ code.toList, c.toNat ≤ 127)
    (low' : ∀ c ∈ message.toList, c.toNat ≤ 127) : Form allowed n (makeError code message)
  | array {n : Nat} {items : List IrspValue} (each : ∀ item ∈ items, Form allowed n item) :
    Form allowed (n + 1) (.array items)
  | map {n : Nat} {fields : List (String × IrspValue)} (keys : Literals (fields.map Prod.fst))
    (fine : allowed (fields.map Prod.fst)) (each : ∀ f ∈ fields, Form allowed n f.2) :
    Form allowed (n + 1) (recordValue fields)

/-- The properties that a client finds in a record. -/
def properties {K : Type} (name : Text → K) (fields : List (String × IrspValue)) :
    List (K × ClientValue K) :=
  fields.map fun f => (name f.1.toList, image name f.2)

theorem ascii_of_low {s : String} (low : ∀ c ∈ s.toList, c.toNat ≤ 127) :
    ∃ t, Utf8.encode t = ascii s := ⟨_, encode_toList low⟩

theorem unmarked_ascii {s : String} (low : ∀ c ∈ s.toList, c.toNat ≤ 127) :
    ¬byteOrderMark <+: ascii s := by
  intro marked
  have inside : (0xEF : UInt8) ∈ ascii s := marked.subset List.mem_cons_self
  obtain ⟨c, char, byte⟩ := List.mem_map.mp inside
  have small := low c char
  have value := congrArg UInt8.toNat byte
  rw [UInt8.toNat_ofNat', Nat.mod_eq_of_lt (by omega)] at value
  have high : (0xEF : UInt8).toNat = 239 := rfl
  omega

theorem everywhere_imp {P Q : IrspValue → Prop} (imp : ∀ v, P v → Q v) {v : IrspValue}
    (every : Everywhere P v) : Everywhere Q v := by
  induction every with
  | intro here _ ih => exact ⟨imp _ here, ih⟩

/-- What the clients make of the keys. -/
theorem image_recordValue {fields : List (String × IrspValue)}
    (keys : Literals (fields.map Prod.fst)) {K : Type} (name : Text → K) :
    image name (recordValue fields) = .map (properties name fields) := by
  rw [recordValue, image, imageEntries_eq, List.map_map, properties]
  congr 1
  apply List.map_congr_left
  intro f found
  have low := keys.low f.1 (List.mem_map_of_mem found)
  have key : keyText (.bulk (ascii f.1)) = f.1.toList := by
    rw [← encode_toList low, keyText, Utf8.decode_encode_text]
  rw [Function.comp_apply, key]

theorem legible_recordValue {fields : List (String × IrspValue)}
    (keys : Literals (fields.map Prod.fst)) : Legible (recordValue fields) := by
  refine ⟨(fields.map Prod.fst).map String.toList, keys.distinct, keys.plain, ?_⟩
  rw [List.map_map, List.map_map, List.map_map]
  apply List.map_congr_left
  intro f found
  have low := keys.low f.1 (List.mem_map_of_mem found)
  exact congrArg IrspValue.bulk (encode_toList low).symm

theorem unmarked_recordValue {fields : List (String × IrspValue)}
    (keys : Literals (fields.map Prod.fst)) : Unmarked (recordValue fields) := by
  intro e he data same
  obtain ⟨f, found, rfl⟩ := List.mem_map.mp he
  injection same with same
  rw [← same]
  exact unmarked_ascii (keys.low f.1 (List.mem_map_of_mem found))

namespace Form

variable {allowed : List String → Prop} {n : Nat} {v : IrspValue}

/-- The server's own texts are legible, and none begins with a byte order mark. -/
theorem plain (form : Form allowed n v) : Everywhere (fun w => Legible w ∧ Unmarked w) v := by
  induction form with
  | null | integer | bulk => exact (everywhere_leaf rfl).mpr ⟨trivial, trivial⟩
  | simple low => exact (everywhere_leaf rfl).mpr ⟨ascii_of_low low, unmarked_ascii low⟩
  | error low low' =>
    exact (everywhere_leaf rfl).mpr ⟨⟨ascii_of_low low, ascii_of_low low'⟩, unmarked_ascii low⟩
  | array _ ih => exact ⟨⟨trivial, trivial⟩, ih⟩
  | map keys _ _ ih =>
    apply (everywhere_map_iff _).mpr
    refine ⟨⟨legible_recordValue keys, unmarked_recordValue keys⟩, fun e he => ?_⟩
    obtain ⟨f, found, rfl⟩ := List.mem_map.mp he
    exact ⟨(everywhere_leaf rfl).mpr ⟨trivial, trivial⟩, ih f found⟩

theorem nests (form : Form allowed n v) (room : Nat) : v.NestsWithin (room + n + 1) := by
  induction form with
  | null | integer | bulk | simple | error => exact nestsWithin_leaf rfl
  | array _ ih => exact fun w child => ih w child
  | @map n fields _ _ _ ih =>
    refine (nestsWithin_map (room + n + 1) _).mpr fun e he => ?_
    obtain ⟨f, found, rfl⟩ := List.mem_map.mp he
    exact ⟨nestsWithin_leaf rfl, ih f found⟩

/-- Both clients make of it the value with the same structure. -/
theorem javaScript (form : Form allowed n v) (encodable : v.Encodable) (room : Nat) :
    JavaScript.decode (room + n + 1) (Irsp1Codec.encode v) = .ok (image id v) := by
  have legible := everywhere_imp (fun _ => And.left) form.plain
  have unmarked := everywhere_imp (fun _ => And.right) form.plain
  have kept := (everywhere_congr keptBy_dropMark_iff legible).mpr unmarked
  have read := decodeWith_encode_iff JavaScript.lawful Function.injective_id (room + n + 1) v
    encodable legible
  exact read.mpr ⟨kept, form.nests room⟩

theorem python (form : Form allowed n v) (encodable : v.Encodable) (py : Python.Interpreter)
    (room : Nat) :
    Python.decode py (room + n + 1) (Irsp1Codec.encode v) = .ok (image some v) := by
  have legible := everywhere_imp (fun _ => And.left) form.plain
  have read := decodeWith_encode_iff (Python.lawful py) (Option.some_injective Text)
    (room + n + 1) v encodable legible
  exact read.mpr ⟨everywhere_keptBy_id _, form.nests room⟩

end Form

/-! ### Frames that fit in memory -/

theorem length_encode_pos (v : IrspValue) : 0 < (Irsp1Codec.encode v).length := by
  cases v <;> simp [Irsp1Codec.encode, ascii, crlf]

theorem length_encodeItems (items : List IrspValue) :
    items.length ≤ (Irsp1Codec.encodeItems items).length ∧
      ∀ v ∈ items, (Irsp1Codec.encode v).length ≤ (Irsp1Codec.encodeItems items).length := by
  induction items with
  | nil => simp
  | cons item items ih =>
    have own := length_encode_pos item
    rw [Irsp1Codec.encodeItems, List.length_append, List.length_cons, List.forall_mem_cons]
    refine ⟨by omega, by omega, fun v found => ?_⟩
    have here := ih.2 v found
    omega

theorem encodeEntries_eq (entries : List (IrspValue × IrspValue)) :
    Irsp1Codec.encodeEntries entries =
      Irsp1Codec.encodeItems (IrspValue.map entries).children := by
  rw [children]
  induction entries with
  | nil => rfl
  | cons e entries ih =>
    obtain ⟨key, val⟩ := e
    rw [Irsp1Codec.encodeEntries, ih, List.flatMap_cons]
    simp [Irsp1Codec.encodeEntry, Irsp1Codec.encodeItems]

/-- A frame is longer than the frames in it, and than its strings and vectors. -/
theorem length_encode_nested {v w : IrspValue} (nested : w ∈ v.children) :
    (Irsp1Codec.encode w).length ≤ (Irsp1Codec.encode v).length := by
  cases v with
  | array items =>
    have inside := (length_encodeItems items).2 w nested
    rw [Irsp1Codec.encode, List.length_append]
    omega
  | map entries =>
    have inside := (length_encodeItems (IrspValue.map entries).children).2 w nested
    rw [Irsp1Codec.encode, List.length_append, encodeEntries_eq]
    omega
  | _ => exact absurd nested List.not_mem_nil

theorem printable_of_short {v : IrspValue} (line : v.OneLine)
    (short : (Irsp1Codec.encode v).length < 2 ^ 63) : v.Printable := by
  cases v with
  | simple | error => exact line
  | bulk data =>
    rw [Irsp1Codec.encode, List.length_append, List.length_append] at short
    show data.length < 2 ^ 63
    omega
  | array items =>
    have few := (length_encodeItems items).1
    rw [Irsp1Codec.encode, List.length_append] at short
    show items.length < 2 ^ 63
    omega
  | map entries =>
    have few := (length_encodeItems (IrspValue.map entries).children).1
    have pairs : (IrspValue.map entries).children.length = entries.length * 2 := by
      simp [children, List.length_flatMap]
    rw [Irsp1Codec.encode, List.length_append, encodeEntries_eq] at short
    show entries.length < 2 ^ 63
    omega
  | null | integer => trivial

theorem encodable_of_short {v : IrspValue} (lined : v.Lined)
    (short : (Irsp1Codec.encode v).length < 2 ^ 63) : v.Encodable := by
  induction lined with
  | intro here _ ih =>
    exact ⟨printable_of_short here short, fun w nested =>
      ih w nested (Nat.lt_of_le_of_lt (length_encode_nested nested) short)⟩

/-! ### Records -/

/-- A number, or a string that fits in memory. -/
def Flat (v : IrspValue) : Prop :=
  (∃ b : Bytes, v = .bulk b ∧ b.length < 2 ^ 63) ∨ ∃ n, v = .integer n

/-- A map with literal keys and flat values. -/
structure Record (fields : List (String × IrspValue)) : Prop where
  keys : Literals (fields.map Prod.fst)
  flat : ∀ f ∈ fields, Flat f.2

theorem Flat.encodable {v : IrspValue} (flat : Flat v) : v.Encodable := by
  rcases flat with ⟨b, same, size⟩ | ⟨n, same⟩
  · rw [same]
    exact (everywhere_leaf rfl).mpr size
  · rw [same]
    exact (everywhere_leaf rfl).mpr trivial

theorem Flat.form {v : IrspValue} (flat : Flat v) (n : Nat) : Form (fun _ => True) n v := by
  rcases flat with ⟨b, same, -⟩ | ⟨i, same⟩
  · rw [same]
    exact .bulk b
  · rw [same]
    exact .integer i

namespace Record

variable {fields : List (String × IrspValue)}

theorem encodable (h : Record fields) : (recordValue fields).Encodable := by
  refine (everywhere_map_iff _).mpr ⟨?_, fun e he => ?_⟩
  · show (fields.map _).length < 2 ^ 63
    rw [List.length_map, ← List.length_map Prod.fst]
    exact h.keys.few
  · obtain ⟨f, found, rfl⟩ := List.mem_map.mp he
    refine ⟨(everywhere_leaf rfl).mpr ?_, (h.flat f found).encodable⟩
    show (ascii f.1).length < 2 ^ 63
    rw [ascii, List.length_map]
    exact h.keys.short f.1 (List.mem_map_of_mem found)

theorem form (h : Record fields) : Form (fun _ => True) 1 (recordValue fields) :=
  .map h.keys trivial fun f found => (h.flat f found).form 0

theorem javaScript (h : Record fields) (room : Nat) :
    JavaScript.decode (room + 2) (Irsp1Codec.encode (recordValue fields)) =
      .ok (.map (properties id fields)) := by
  rw [← image_recordValue h.keys]
  exact h.form.javaScript h.encodable room

theorem python (h : Record fields) (py : Python.Interpreter) (room : Nat) :
    Python.decode py (room + 2) (Irsp1Codec.encode (recordValue fields)) =
      .ok (.map (properties some fields)) := by
  rw [← image_recordValue h.keys]
  exact h.form.python h.encodable py room

section

variable {K : Type} [DecidableEq K] {name : Text → K}

/-- A field is found under its key. -/
theorem property_eq (h : Record fields) (inj : Function.Injective name) {k : String} {v : IrspValue}
    (found : (k, v) ∈ fields) : property (properties name fields) (name k.toList) =
      image name v := by
  have distinct := h.keys.distinct
  rw [List.map_map] at distinct
  have first : (properties name fields).find? (fun e => e.1 = name k.toList) =
      some (name k.toList, image name v) := by
    clear h
    induction fields with
    | nil => cases found
    | cons f fields ih =>
      rw [List.map_cons, List.nodup_cons] at distinct
      rcases List.mem_cons.mp found with rfl | later
      · simp [properties]
      · have other : name f.1.toList ≠ name k.toList := by
          intro same
          apply distinct.1
          rw [Function.comp_apply, inj same]
          exact List.mem_map.mpr ⟨(k, v), later, rfl⟩
        rw [properties, List.map_cons, List.find?_cons_of_neg (by simpa using other)]
        exact ih later distinct.2
  rw [property, first]
  rfl

/-- A key without a field. -/
theorem property_missing (inj : Function.Injective name) {k : String}
    (absent : k.toList ∉ (fields.map Prod.fst).map String.toList) :
    property (properties name fields) (name k.toList) = .null := by
  have none : (properties name fields).find? (fun e => e.1 = name k.toList) = none := by
    rw [List.find?_eq_none]
    intro e he
    obtain ⟨f, found, rfl⟩ := List.mem_map.mp he
    simp only [decide_eq_true_eq]
    intro same
    exact absent (inj same ▸ List.mem_map_of_mem (List.mem_map_of_mem found))
  rw [property, none]
  rfl

end

end Record

end IndustrialRuntime.Sdk
