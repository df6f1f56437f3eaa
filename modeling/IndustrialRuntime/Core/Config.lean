import IndustrialRuntime.Lib.Bytes
import IndustrialRuntime.Lib.Split

namespace IndustrialRuntime.Core

/-- `nlohmann::json`; the keys of an object are distinct, and a `float` is its bit pattern. -/
inductive Json where
  | null
  | boolean (value : Bool)
  | integer (value : Int64)
  | unsigned (value : UInt64)
  | float (bits : UInt64)
  | string (value : Bytes)
  | array (items : List Json)
  | object (members : List (Bytes × Json))

namespace Json

/-- `find` of an object. -/
def member (name : Bytes) : Json → Option Json
  | .object members => (members.find? fun m => m.1 = name).map Prod.snd
  | _ => none

/-- The value under names inside one another. -/
def path : Json → List Bytes → Option Json
  | node, [] => some node
  | node, name :: names => (node.member name).bind fun next => next.path names

end Json

/-- `core::Config`; `parse` and the conversions of `get` are those of the JSON library. -/
structure Config where
  root : Json

namespace Config

def empty : Config := ⟨.object []⟩

/-- `'.'` -/
def dot : UInt8 := 46

/-- `loadString`, and `loadFile` of a file that can be opened. -/
def loadString (parse : Bytes → Option Json) (c : Config) (text : Bytes) : Bool × Config :=
  match parse text with
  | some parsed => (true, ⟨parsed⟩)
  | none => (false, c)

/-- `loadFile`; a file that cannot be opened has no text. -/
def loadFile (parse : Bytes → Option Json) (c : Config) (file : Option Bytes) : Bool × Config :=
  match file with
  | none => (false, c)
  | some text => c.loadString parse text

/-- The loop of `resolve` from a node and a position on. -/
def resolveFrom (dottedKey : Bytes) (node : Json) (start : Nat) : Option Json :=
  match found : Split.find dot dottedKey start with
  | none =>
    let segment := dottedKey.drop start
    if segment.isEmpty then none else node.member segment
  | some p =>
    let segment := (dottedKey.drop start).take (p - start)
    if segment.isEmpty then none
    else (node.member segment).bind fun next => resolveFrom dottedKey next (p + 1)
termination_by dottedKey.length - start
decreasing_by
  have := Split.find_bounds found
  omega

def resolve (c : Config) (dottedKey : Bytes) : Option Json := resolveFrom dottedKey c.root 0

def has (c : Config) (dottedKey : Bytes) : Bool := (c.resolve dottedKey).isSome

def tryGet {τ : Type*} (convert : Json → Option τ) (c : Config) (dottedKey : Bytes) : Option τ :=
  (c.resolve dottedKey).bind convert

def get {τ : Type*} (convert : Json → Option τ) (c : Config) (dottedKey : Bytes)
    (defaultValue : τ) : τ :=
  (c.tryGet convert dottedKey).getD defaultValue

/-! ### What a dotted key names -/

/-- The names of a path, joined by dots. -/
def dotted (names : List Bytes) : Bytes := [dot].intercalate names

/-- The names can be told apart in a dotted key. -/
def Addressable (names : List Bytes) : Prop := names ≠ [] ∧ ∀ name ∈ names, name ≠ [] ∧ dot ∉ name

instance decidableAddressable : DecidablePred Addressable := fun names =>
  inferInstanceAs (Decidable (names ≠ [] ∧ ∀ name ∈ names, name ≠ [] ∧ dot ∉ name))

/-- `resolve` follows the pieces of the key, none of which may be empty. -/
theorem resolveFrom_eq (dottedKey : Bytes) (node : Json) (start : Nat) :
    resolveFrom dottedKey node start =
      if [] ∈ Split.splitFrom dot dottedKey start then none
      else node.path (Split.splitFrom dot dottedKey start) := by
  induction start using Split.splitFrom.induct dot dottedKey generalizing node with
  | case1 start found =>
    rw [resolveFrom, Split.splitFrom, found]
    by_cases empty : dottedKey.drop start = []
    · simp [empty]
    · have other : [] ≠ dottedKey.drop start := Ne.symm empty
      cases named : node.member (dottedKey.drop start) <;>
        simp [Json.path, named, empty, other]
  | case2 start p found ih =>
    rw [resolveFrom, Split.splitFrom, found]
    dsimp only
    by_cases empty : (dottedKey.drop start).take (p - start) = []
    · have none : ((dottedKey.drop start).take (p - start)).isEmpty = true := by rw [empty]; rfl
      have first : [] ∈ (dottedKey.drop start).take (p - start) ::
          Split.splitFrom dot dottedKey (p + 1) := by
        rw [empty]
        exact List.mem_cons_self
      rw [if_pos none, if_pos first]
    · have some_ : ((dottedKey.drop start).take (p - start)).isEmpty = false := by
        rw [List.isEmpty_eq_false_iff]
        exact empty
      have rest : [] ∈ (dottedKey.drop start).take (p - start) ::
          Split.splitFrom dot dottedKey (p + 1) ↔ [] ∈ Split.splitFrom dot dottedKey (p + 1) := by
        rw [List.mem_cons, or_iff_right (Ne.symm empty)]
      simp only [some_, Bool.false_eq_true, if_false, rest, Json.path, ih]
      cases node.member ((dottedKey.drop start).take (p - start)) with
      | none => simp
      | some next => rfl

theorem resolve_eq (c : Config) (dottedKey : Bytes) :
    c.resolve dottedKey = if [] ∈ dottedKey.splitOn dot then none
      else c.root.path (dottedKey.splitOn dot) := by
  rw [resolve, resolveFrom_eq, Split.splitFrom_eq, List.drop_zero]

/-- The document that has only this path. -/
def along : List Bytes → Json
  | [] => .null
  | name :: names => .object [(name, along names)]

theorem path_along (names : List Bytes) : (along names).path names = some .null := by
  induction names with
  | nil => rfl
  | cons name names ih => simp [along, Json.path, Json.member, ih]

/-- No other path ends where it does. -/
theorem eq_of_path_along {names others : List Bytes}
    (reached : (along names).path others = some .null) : others = names := by
  induction names generalizing others with
  | nil =>
    cases others with
    | nil => rfl
    | cons other others => simp [along, Json.path, Json.member] at reached
  | cons name names ih =>
    cases others with
    | nil => simp [along, Json.path] at reached
    | cons other others =>
      by_cases same : name = other
      · have rest : (along names).path others = some .null := by
          simpa [along, Json.path, Json.member, same] using reached
        rw [same, ih rest]
      · simp [along, Json.path, Json.member, same] at reached

/-- In every document a dotted key finds what is under its names, if and only if the names are not
empty and hold no dot. -/
theorem resolve_dotted_iff (names : List Bytes) :
    (∀ c : Config, c.resolve (dotted names) = c.root.path names) ↔ Addressable names := by
  constructor
  · intro finds
    have found := finds ⟨along names⟩
    rw [path_along, resolve_eq] at found
    split_ifs at found with none
    have pieces := eq_of_path_along found
    rw [← pieces]
    refine ⟨List.splitOn_ne_nil _ _, fun name listed => ⟨?_, Split.notMem_of_mem_splitOn listed⟩⟩
    intro empty
    exact none (empty ▸ listed)
  · rintro ⟨some_, plain⟩ c
    have pieces : (dotted names).splitOn dot = names :=
      List.splitOn_intercalate dot (fun name listed => (plain name listed).2) some_
    have whole : [] ∉ names := fun empty => (plain [] empty).1 rfl
    rw [resolve_eq, pieces, if_neg whole]

/-- After any loads the configuration is the last document that could be parsed. -/
theorem root_loads (parse : Bytes → Option Json) (c : Config) (texts : List Bytes) :
    (texts.foldl (fun c text => (c.loadString parse text).2) c).root =
      ((texts.filterMap parse).getLast?).getD c.root := by
  induction texts generalizing c with
  | nil => rfl
  | cons text texts ih =>
    rw [List.foldl_cons, ih]
    cases parsed : parse text with
    | none => simp [loadString, parsed]
    | some root => simp [loadString, parsed, List.getLast?_cons]

end Config

end IndustrialRuntime.Core
