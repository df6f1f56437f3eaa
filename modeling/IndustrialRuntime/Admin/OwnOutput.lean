import IndustrialRuntime.Admin.IrpCli
import Mathlib.Data.Multiset.Defs

namespace IndustrialRuntime.Admin

open Core.PluginManager

section Table

variable (reload : PluginTable → Bytes → Bool × PluginTable)
  (scan : PluginTable → Nat × PluginTable)

def handleOnTable (t : PluginTable) (line : Bytes) : Bytes × PluginTable :=
  handleAdminCommand (tableManager reload scan) t line

/-- The reply to `PLUGIN LIST` is read as one row for each plugin. -/
def ListsRows (t : PluginTable) : Prop :=
  tableRows (handleOnTable reload scan t (ascii "PLUGIN LIST")).1 = t.list.map row

/-- `PLUGIN UNLOAD` of an id takes away a plugin with that id and replies `"OK"`. -/
def Unloads (t : PluginTable) (id : Bytes) : Prop :=
  ∃ before e after, t = before ++ e :: after ∧ e.desc.id = id ∧
    handleOnTable reload scan t (ascii "PLUGIN UNLOAD " ++ id) = (ascii "OK\n", before ++ after)

/-- The commands take what they put out. -/
def Closed (t : PluginTable) : Prop :=
  ListsRows reload scan t ∧ ∀ p ∈ t.list, Unloads reload scan t p.id

/-- The id is one word, and the other strings end neither a line nor a column. -/
def Manageable (p : PluginDesc) : Prop := OneWord p.id ∧ Plain p.name ∧ Plain p.version

theorem plain_of_oneWord {s : Bytes} (h : OneWord s) : Plain s := by
  constructor
  · intro inside
    exact absurd (h.2 tab inside) (by decide)
  · intro inside
    exact absurd (h.2 newline inside) (by decide)

theorem listsRows_iff (t : PluginTable) :
    ListsRows reload scan t ↔ ∀ p ∈ t.list, Plain p.id ∧ Plain p.name ∧ Plain p.version := by
  rw [ListsRows, handleOnTable, handle_list]
  exact tableRows_listReply_iff t.list

/-- What is left of a list says which element was taken away. -/
theorem eq_of_removed {α : Type*} {before before' after after' : List α} {a b : α}
    (same : before ++ a :: after = before' ++ b :: after')
    (left : before ++ after = before' ++ after') : a = b := by
  have first : (before ++ a :: after).Perm (a :: (before ++ after)) := List.perm_middle
  have second : (before' ++ b :: after').Perm (b :: (before' ++ after')) := List.perm_middle
  rw [same, left] at first
  have cancel : (a ::ₘ (↑(before' ++ after') : Multiset α)) = b ::ₘ ↑(before' ++ after') :=
    Multiset.coe_eq_coe.mpr (first.symm.trans second)
  exact (Multiset.cons_inj_left _).mp cancel

/-- A listed id can be unloaded just in case it is one word. -/
theorem unloads_iff (t : PluginTable) {p : PluginDesc} (listed : p ∈ t.list) :
    Unloads reload scan t p.id ↔ OneWord p.id := by
  constructor
  · intro unloads
    obtain ⟨before, e, after, split, id, handled⟩ := unloads
    have ok : (handleOnTable reload scan t (ascii "PLUGIN UNLOAD " ++ p.id)).1 = ascii "OK\n" := by
      rw [handled]
    obtain ⟨word, words, unloaded, left⟩ := unload_of_ok (tableManager reload scan) t ok
    change (t.unload word).1 = true at unloaded
    change (handleOnTable reload scan t (ascii "PLUGIN UNLOAD " ++ p.id)).2 =
      (t.unload word).2 at left
    rcases t.unload_cases word with ⟨-, refused⟩ | ⟨before', e', after', split', id', removed⟩
    · rw [refused] at unloaded
      contradiction
    · rw [handled, removed] at left
      obtain rfl : e = e' := eq_of_removed (split.symm.trans split') left
      obtain rfl : word = p.id := by rw [← id, Entry.desc_id_of_id id']
      have among : p.id ∈ tokenize p.id := by
        rw [words]
        exact List.mem_singleton_self p.id
      exact Split.of_mem_words among
  · intro oneWord
    obtain ⟨e, member, rfl⟩ := List.mem_map.mp listed
    rcases t.unload_cases e.desc.id with ⟨none, -⟩ | ⟨before, e', after, split, id, removed⟩
    · exact absurd (Entry.id_of_desc oneWord.1) (none e member)
    · refine ⟨before, e', after, split, Entry.desc_id_of_id id, ?_⟩
      rw [handleOnTable, handle_unload, tokenize_word oneWord]
      change (if (t.unload e.desc.id).1 then _ else _, (t.unload e.desc.id).2) = _
      rw [removed]
      rfl

/-- For every table, and whatever strings the plugins give: the commands take their own output if
and only if every id is one word and no name or version has a tab or a line break. -/
theorem closed_iff (t : PluginTable) :
    Closed reload scan t ↔ ∀ p ∈ t.list, Manageable p := by
  rw [Closed, listsRows_iff]
  constructor
  · intro closed p listed
    obtain ⟨plain, unloads⟩ := closed
    have oneWord := (unloads_iff reload scan t listed).mp (unloads p listed)
    exact ⟨oneWord, (plain p listed).2⟩
  · intro manageable
    refine ⟨fun p listed => ?_, fun p listed => ?_⟩
    · obtain ⟨oneWord, others⟩ := manageable p listed
      exact ⟨plain_of_oneWord oneWord, others⟩
    · exact (unloads_iff reload scan t listed).mpr (manageable p listed).1

end Table

/-- A plugin whose id is two words and whose name is two lines. -/
def twoWords : Entry where
  handle := 0
  info := ⟨3, some ⟨ascii "line 1", by decide⟩, some ⟨ascii "Line\nOne", by decide⟩,
    some ⟨ascii "1.0", by decide⟩⟩
  started := true
  path := ascii "plugins/line.so"
  configPath := ascii "config/line.json"
  owner := 1

/-- The plugin is listed as two rows and cannot be unloaded. -/
theorem not_closed :
    ¬ListsRows (fun t _ => (false, t)) (fun t => (0, t)) [twoWords] ∧
    ¬Unloads (fun t _ => (false, t)) (fun t => (0, t)) [twoWords] (ascii "line 1") := by
  constructor
  · unfold ListsRows
    decide +kernel
  · intro unloads
    obtain ⟨before, e, after, -, -, handled⟩ := unloads
    have reply : (handleOnTable (fun t _ => (false, t)) (fun t => (0, t)) [twoWords]
        (ascii "PLUGIN UNLOAD " ++ ascii "line 1")).1 =
        ascii "ERR usage: PLUGIN UNLOAD <id>\n" := by
      decide +kernel
    rw [handled] at reply
    change ascii "OK\n" = ascii "ERR usage: PLUGIN UNLOAD <id>\n" at reply
    exact absurd reply (by decide)

end IndustrialRuntime.Admin
