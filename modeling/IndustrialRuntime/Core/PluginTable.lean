import IndustrialRuntime.Core.PluginIdentity

namespace IndustrialRuntime.Core.PluginManager

/-- A C string up to its terminator. -/
structure CString where
  bytes : Bytes
  terminated : 0 ∉ bytes
  deriving DecidableEq

/-- What `getPluginInfo` returns; each string can be null. -/
structure IrPluginInfo where
  abiVersion : UInt32
  id : Option CString
  name : Option CString
  version : Option CString
  deriving DecidableEq

/-- An entry of `plugins_` with all that the plugin says of itself. -/
structure Entry where
  handle : Nat
  info : IrPluginInfo
  started : Bool
  path : Bytes
  configPath : Bytes
  owner : OwnerId
  deriving DecidableEq

/-- The description of a plugin, with strings of its own. -/
structure PluginDesc where
  id : Bytes
  name : Bytes
  version : Bytes
  started : Bool
  deriving DecidableEq

namespace Entry

def id (e : Entry) : Option Bytes := e.info.id.map CString.bytes

/-- What loading and unloading read of the entry. -/
def loaded (e : Entry) : Loaded := ⟨e.handle, e.id, e.started, e.path, e.configPath, e.owner⟩

def desc (e : Entry) : PluginDesc where
  id := (e.info.id.map CString.bytes).getD []
  name := (e.info.name.map CString.bytes).getD []
  version := (e.info.version.map CString.bytes).getD []
  started := e.started

theorem desc_id_of_id {e : Entry} {id : Bytes} (h : e.id = some id) : e.desc.id = id := by
  change e.id.getD [] = id
  rw [h]
  rfl

/-- An id that is shown with a character is not null. -/
theorem id_of_desc {e : Entry} (h : e.desc.id ≠ []) : e.id = some e.desc.id := by
  cases named : e.id with
  | some id => rw [desc_id_of_id named]
  | none =>
    have empty : e.id.getD [] = [] := by rw [named]; rfl
    exact absurd empty h

end Entry

abbrev PluginTable := List Entry

namespace PluginTable

def list (t : PluginTable) : List PluginDesc := t.map Entry.desc

def findIndexLocked (t : PluginTable) (id : Bytes) : Option Nat :=
  t.findIdx? (fun e => match e.info.id with
    | none => false
    | some pid => id == pid.bytes)

/-- `unload` with what it leaves in the table. -/
def unload (t : PluginTable) (id : Bytes) : Bool × PluginTable :=
  match t.findIndexLocked id with
  | none => (false, t)
  | some index => (true, t.eraseIdx index)

theorem findIndexLocked_eq (t : PluginTable) (id : Bytes) :
    t.findIndexLocked id = t.findIdx? (fun e => e.id == some id) := by
  apply congrArg fun p => t.findIdx? p
  funext e
  cases named : e.info.id with
  | none => simp [Entry.id, named]
  | some pid => simp [Entry.id, named, eq_comm]

/-- Where no plugin has the id `unload` does nothing; else it takes away one that has it. -/
theorem unload_cases (t : PluginTable) (id : Bytes) :
    ((∀ e ∈ t, e.id ≠ some id) ∧ t.unload id = (false, t)) ∨
      ∃ before e after, t = before ++ e :: after ∧ e.id = some id ∧
        t.unload id = (true, before ++ after) := by
  unfold unload
  rw [findIndexLocked_eq]
  cases found : t.findIdx? (fun e => e.id == some id) with
  | none =>
    refine .inl ⟨fun e listed => ?_, rfl⟩
    simpa using List.findIdx?_eq_none_iff.mp found e listed
  | some index =>
    obtain ⟨inside, reports, -⟩ := List.findIdx?_eq_some_iff_getElem.mp found
    refine .inr ⟨t.take index, t[index], t.drop (index + 1), ?_, by simpa using reports, ?_⟩
    · rw [List.getElem_cons_drop, List.take_append_drop]
    · change (true, t.eraseIdx index) = _
      rw [List.eraseIdx_eq_take_drop_succ]

/-- The table has the entries that the manager works with. -/
def Describes {τ : Type*} (t : PluginTable) (s : System τ) : Prop :=
  s.plugins = t.map Entry.loaded

theorem Describes.findIndexLocked {τ : Type*} {t : PluginTable} {s : System τ}
    (h : t.Describes s) (id : Bytes) : s.findIndexLocked id = t.findIndexLocked id := by
  rw [System.findIndexLocked, h, List.findIdx?_map, findIndexLocked_eq]
  rfl

/-- In every run of the manager, whatever writes and registrations go on meanwhile: when the
`unload` of an id returns, the table is the one that `unload` computes. -/
theorem unload_describes {τ : Type*} [DecidableEq τ] {as during : List (Action τ)}
    {s v u : System τ} {t : PluginTable} {id : Bytes} (run : (System.machine τ).run as = some s)
    (h : t.Describes s) (known : (t.unload id).1 = true)
    (begun : s.operation (.unload id) = some v)
    (continues : (System.machine τ).Steps (fun _ a => System.Continues a) v during)
    (later : (System.machine τ).runFrom v during = some u) (returned : ¬u.InOperation) :
    (t.unload id).2.Describes u := by
  unfold unload at known ⊢
  rw [← h.findIndexLocked] at known ⊢
  cases found : s.findIndexLocked id with
  | none =>
    rw [found] at known
    contradiction
  | some index =>
    obtain ⟨inside, -⟩ := List.findIdx?_eq_some_iff_getElem.mp found
    have entry : s.plugins[index]? = some s.plugins[index] := List.getElem?_eq_getElem inside
    obtain ⟨phase, -⟩ := System.unloadPhase_of_run run found entry begun continues later
    rw [System.InOperation, not_or, not_not, not_not] at returned
    cases phase with
    | queued stage jobs =>
      rw [returned.2] at jobs
      contradiction
    | leaving stage =>
      rw [returned.1] at stage
      contradiction
    | left stage jobs plugins =>
      change u.plugins = (t.eraseIdx index).map Entry.loaded
      rw [plugins, h, List.eraseIdx_map]

end PluginTable

end IndustrialRuntime.Core.PluginManager
