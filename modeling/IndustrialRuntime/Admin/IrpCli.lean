import IndustrialRuntime.Admin.AdminCommand

namespace IndustrialRuntime.Admin

open Core.PluginManager

/-- `split` of `irpcli` -/
def split (s : Bytes) (delim : UInt8) : List Bytes := Split.splitFrom delim s 0

/-- `f.resize(4)` -/
def resizeFour (f : List Bytes) : List Bytes := f.take 4 ++ List.replicate (4 - f.length) []

/-- A row of the table that `printPluginTable` shows. -/
def tableRow (line : Bytes) : List Bytes :=
  let f := resizeFour (split line tab)
  f.set 3 (if f[3]? = some (ascii "1") then ascii "yes" else ascii "no")

/-- The rows that `printPluginTable` reads from a reply: the first line is skipped, and every
empty one. -/
def tableRows (reply : Bytes) : List (List Bytes) :=
  (((split reply newline).drop 1).filter (· ≠ [])).map tableRow

/-- The row of a plugin: its id, name, version and whether it is started. -/
def row (p : PluginDesc) : List Bytes :=
  [p.id, p.name, p.version, if p.started then ascii "yes" else ascii "no"]

/-- A field that neither ends a line nor a column. -/
def Plain (field : Bytes) : Prop := tab ∉ field ∧ newline ∉ field

instance decidablePlain : DecidablePred Plain := fun field =>
  inferInstanceAs (Decidable (tab ∉ field ∧ newline ∉ field))

theorem split_eq (s : Bytes) (delim : UInt8) : split s delim = s.splitOn delim := by
  rw [split, Split.splitFrom_eq, List.drop_zero]

theorem listLine_eq (p : PluginDesc) :
    listLine p = [tab].intercalate
      [p.id, p.name, p.version, if p.started then ascii "1" else ascii "0"] := by
  simp [listLine, List.intercalate_cons_cons]

theorem plain_flag (started : Bool) : Plain (if started then ascii "1" else ascii "0") := by
  cases started <;> decide

theorem newline_notMem_listLine {p : PluginDesc} (id : Plain p.id) (name : Plain p.name)
    (version : Plain p.version) : newline ∉ listLine p := by
  rw [listLine_eq, Split.mem_intercalate (by decide)]
  intro broken
  obtain ⟨field, listed, stop⟩ := broken
  simp only [List.mem_cons, List.not_mem_nil, or_false] at listed
  rcases listed with rfl | rfl | rfl | rfl
  · exact id.2 stop
  · exact name.2 stop
  · exact version.2 stop
  · exact (plain_flag p.started).2 stop

/-- A plain line is read as the row of its plugin. -/
theorem tableRow_listLine {p : PluginDesc} (id : Plain p.id) (name : Plain p.name)
    (version : Plain p.version) : tableRow (listLine p) = row p := by
  have fields : split (listLine p) tab =
      [p.id, p.name, p.version, if p.started then ascii "1" else ascii "0"] := by
    rw [split_eq, listLine_eq]
    apply List.splitOn_intercalate tab ?_ (by simp)
    intro field listed
    simp only [List.mem_cons, List.not_mem_nil, or_false] at listed
    rcases listed with rfl | rfl | rfl | rfl
    · exact id.1
    · exact name.1
    · exact version.1
    · exact (plain_flag p.started).1
  simp only [tableRow, fields, row]
  cases p.started <;> rfl

theorem listLine_ne_nil (p : PluginDesc) : listLine p ≠ [] := by
  simp [listLine]

/-- The lines of a reply: the count, one for each plugin, and what follows the last `'\n'`. -/
theorem split_listReply {plugins : List PluginDesc}
    (whole : ∀ p ∈ plugins, newline ∉ listLine p) :
    split (listReply plugins) newline =
      (ascii "OK " ++ decimal plugins.length) :: (plugins.map listLine ++ [[]]) := by
  have count : newline ∉ ascii "OK " ++ decimal plugins.length := by
    rw [List.mem_append, not_or]
    refine ⟨by decide, fun inside => ?_⟩
    exact absurd (digit_of_mem_decimal inside) (by decide)
  have lines : (plugins.flatMap fun p => listLine p ++ [newline]) =
      (plugins.map listLine).flatMap fun line => line ++ [newline] := by
    rw [List.flatMap_map]
  rw [split_eq, listReply, lines, List.append_assoc, List.singleton_append,
    List.splitOn_append_cons_self_of_not_mem count, Split.splitOn_lines]
  intro line listed
  obtain ⟨p, found, rfl⟩ := List.mem_map.mp listed
  exact whole p found

/-- The fields of a row that is read are plain. -/
theorem plain_of_mem_tableRows {reply : Bytes} {r : List Bytes} (h : r ∈ tableRows reply)
    {field : Bytes} (inside : field ∈ r) : Plain field := by
  obtain ⟨line, kept, rfl⟩ := List.mem_map.mp h
  obtain ⟨listed, -⟩ := List.mem_filter.mp kept
  have whole : newline ∉ line := by
    have piece := List.mem_of_mem_drop listed
    rw [split_eq] at piece
    exact Split.notMem_of_mem_splitOn piece
  rcases List.mem_or_eq_of_mem_set inside with cut | rfl
  · rcases List.mem_append.mp cut with cut | padding
    · have piece : field ∈ line.splitOn tab := by
        rw [← split_eq]
        exact List.mem_of_mem_take cut
      refine ⟨Split.notMem_of_mem_splitOn piece, fun stop => whole ?_⟩
      have joined : newline ∈ [tab].intercalate (line.splitOn tab) :=
        (Split.mem_intercalate (by decide) _).mpr ⟨field, piece, stop⟩
      rwa [List.intercalate_splitOn] at joined
    · obtain ⟨-, rfl⟩ := List.mem_replicate.mp padding
      exact ⟨List.not_mem_nil, List.not_mem_nil⟩
  · split_ifs
    · exact ⟨by decide, by decide⟩
    · exact ⟨by decide, by decide⟩

/-- The reply is read as one row for each plugin if and only if all their strings are plain. -/
theorem tableRows_listReply_iff (plugins : List PluginDesc) :
    tableRows (listReply plugins) = plugins.map row ↔
      ∀ p ∈ plugins, Plain p.id ∧ Plain p.name ∧ Plain p.version := by
  constructor
  · intro rows p listed
    have shown : row p ∈ tableRows (listReply plugins) := by
      rw [rows]
      exact List.mem_map_of_mem listed
    exact ⟨plain_of_mem_tableRows shown (by simp [row]),
      plain_of_mem_tableRows shown (by simp [row]), plain_of_mem_tableRows shown (by simp [row])⟩
  · intro plain
    have whole : ∀ p ∈ plugins, newline ∉ listLine p := fun p listed => by
      obtain ⟨id, name, version⟩ := plain p listed
      exact newline_notMem_listLine id name version
    have kept : (plugins.map listLine ++ [[]]).filter (· ≠ []) = plugins.map listLine := by
      rw [List.filter_append, List.filter_eq_self.mpr]
      · simp
      · intro line listed
        obtain ⟨p, -, rfl⟩ := List.mem_map.mp listed
        simpa using listLine_ne_nil p
    rw [tableRows, split_listReply whole, List.drop_one, List.tail_cons, kept, List.map_map]
    apply List.map_congr_left
    intro p listed
    obtain ⟨id, name, version⟩ := plain p listed
    exact tableRow_listLine id name version

end IndustrialRuntime.Admin
