import IndustrialRuntime.Core.PluginTable
import IndustrialRuntime.Lib.Decimal
import IndustrialRuntime.Lib.Split

namespace IndustrialRuntime.Admin

open Core.PluginManager

/-- `'\t'` -/
def tab : UInt8 := 9

/-- `'\n'` -/
def newline : UInt8 := 10

/-- `std::isspace` in the "C" locale. -/
def isspace (c : UInt8) : Bool := c = 32 || 9 ≤ c && c ≤ 13

/-- `std::toupper` in the "C" locale. -/
def toupper (c : UInt8) : UInt8 := if 97 ≤ c ∧ c ≤ 122 then c - 32 else c

def tokenize (line : Bytes) : List Bytes := Split.words isspace line

def toUpper (s : Bytes) : Bytes := s.map toupper

/-- What the commands call of `core::PluginManager`. -/
structure Manager (σ : Type*) where
  list : σ → List PluginDesc
  unload : σ → Bytes → Bool × σ
  reload : σ → Bytes → Bool × σ
  scan : σ → Nat × σ

/-- The line of a plugin, without the `'\n'` at its end. -/
def listLine (p : PluginDesc) : Bytes :=
  p.id ++ [tab] ++ p.name ++ [tab] ++ p.version ++ [tab] ++
    (if p.started then ascii "1" else ascii "0")

def listReply (plugins : List PluginDesc) : Bytes :=
  ascii "OK " ++ decimal plugins.length ++ [newline] ++
    plugins.flatMap fun p => listLine p ++ [newline]

def handleAdminCommand {σ : Type*} (pm : Manager σ) (s : σ) (line : Bytes) : Bytes × σ :=
  match tokenize line with
  | [] => (ascii "ERR empty command\n", s)
  | command :: args =>
    if toUpper command ≠ ascii "PLUGIN" then
      (ascii "ERR unknown command (only PLUGIN supported)\n", s)
    else match args with
      | [] => (ascii "ERR usage: PLUGIN LIST | UNLOAD <id> | RELOAD <id>\n", s)
      | sub :: rest =>
        if toUpper sub = ascii "LIST" then
          if rest ≠ [] then (ascii "ERR usage: PLUGIN LIST\n", s)
          else (listReply (pm.list s), s)
        else if toUpper sub = ascii "UNLOAD" then
          match rest with
          | [id] =>
            let r := pm.unload s id
            (if r.1 then ascii "OK\n" else ascii "ERR not found\n", r.2)
          | _ => (ascii "ERR usage: PLUGIN UNLOAD <id>\n", s)
        else if toUpper sub = ascii "RELOAD" then
          match rest with
          | [id] =>
            let r := pm.reload s id
            (if r.1 then ascii "OK\n" else ascii "ERR reload failed or not found\n", r.2)
          | _ => (ascii "ERR usage: PLUGIN RELOAD <id>\n", s)
        else if toUpper sub = ascii "SCAN" then
          if rest ≠ [] then (ascii "ERR usage: PLUGIN SCAN\n", s)
          else
            let r := pm.scan s
            (ascii "OK " ++ decimal r.1 ++ [newline], r.2)
        else (ascii "ERR unknown PLUGIN subcommand\n", s)

/-! ### The words of a command line -/

/-- A string that the tokenizer keeps together. -/
def OneWord (s : Bytes) : Prop := s ≠ [] ∧ ∀ c ∈ s, isspace c = false

instance decidableOneWord : DecidablePred OneWord := fun s =>
  decidable_of_iff (s.isEmpty = false ∧ s.all (fun c => !isspace c) = true) (by simp [OneWord])

theorem tokenize_word {word : Bytes} (h : OneWord word) : tokenize word = [word] := by
  have alone : Split.words isspace (word ++ []) = word :: Split.words isspace [] :=
    Split.words_append h.1 h.2 (by simp)
  rwa [List.append_nil, Split.words_nil] at alone

theorem tokenize_word_space {word : Bytes} (h : OneWord word) (rest : Bytes) :
    tokenize (word ++ 32 :: rest) = word :: tokenize rest := by
  have first : tokenize (word ++ 32 :: rest) = word :: tokenize (32 :: rest) :=
    Split.words_append h.1 h.2 (by simp [isspace])
  have skip : tokenize (32 :: rest) = tokenize rest := Split.words_space (by decide) rest
  rw [first, skip]

theorem oneWord_plugin : OneWord (ascii "PLUGIN") := by decide

theorem toUpper_plugin : toUpper (ascii "PLUGIN") = ascii "PLUGIN" := by decide

/-- The words of `PLUGIN UNLOAD` and what follows. -/
theorem tokenize_unload (id : Bytes) :
    tokenize (ascii "PLUGIN UNLOAD " ++ id) =
      ascii "PLUGIN" :: ascii "UNLOAD" :: tokenize id := by
  have unload : OneWord (ascii "UNLOAD") := by decide
  have line : ascii "PLUGIN UNLOAD " ++ id =
      ascii "PLUGIN" ++ 32 :: (ascii "UNLOAD" ++ 32 :: id) := rfl
  rw [line, tokenize_word_space oneWord_plugin, tokenize_word_space unload]

variable {σ : Type*} (pm : Manager σ) (s : σ)

theorem handle_list :
    handleAdminCommand pm s (ascii "PLUGIN LIST") = (listReply (pm.list s), s) := by
  have list : OneWord (ascii "LIST") := by decide
  have line : ascii "PLUGIN LIST" = ascii "PLUGIN" ++ 32 :: ascii "LIST" := rfl
  have words : tokenize (ascii "PLUGIN LIST") = [ascii "PLUGIN", ascii "LIST"] := by
    rw [line, tokenize_word_space oneWord_plugin, tokenize_word list]
  have upperList : toUpper (ascii "LIST") = ascii "LIST" := by decide
  simp only [handleAdminCommand, words, toUpper_plugin, upperList, ne_eq, not_true_eq_false,
    if_false, if_true]

/-- `PLUGIN UNLOAD` goes to the manager when one word follows. -/
theorem handle_unload (line : Bytes) :
    handleAdminCommand pm s (ascii "PLUGIN UNLOAD " ++ line) =
      match tokenize line with
      | [id] =>
        (if (pm.unload s id).1 then ascii "OK\n" else ascii "ERR not found\n", (pm.unload s id).2)
      | _ => (ascii "ERR usage: PLUGIN UNLOAD <id>\n", s) := by
  have upperUnload : toUpper (ascii "UNLOAD") = ascii "UNLOAD" := by decide
  have other : ascii "UNLOAD" ≠ ascii "LIST" := by decide
  simp only [handleAdminCommand, tokenize_unload, toUpper_plugin, upperUnload, other, ne_eq,
    not_true_eq_false, if_false, if_true]

/-- A reply of `"OK"` comes from the manager, asked for the one word that follows. -/
theorem unload_of_ok {line : Bytes}
    (ok : (handleAdminCommand pm s (ascii "PLUGIN UNLOAD " ++ line)).1 = ascii "OK\n") :
    ∃ id, tokenize line = [id] ∧ (pm.unload s id).1 = true ∧
      (handleAdminCommand pm s (ascii "PLUGIN UNLOAD " ++ line)).2 = (pm.unload s id).2 := by
  have notFound : ascii "ERR not found\n" ≠ ascii "OK\n" := by decide
  have usage : ascii "ERR usage: PLUGIN UNLOAD <id>\n" ≠ ascii "OK\n" := by decide
  rw [handle_unload] at ok ⊢
  split at ok
  · rename_i id words
    refine ⟨id, words, ?_, rfl⟩
    by_contra refused
    exact notFound (by simpa [refused] using ok)
  · exact absurd ok usage

/-! ### The commands on a table -/

/-- The manager as a table of plugins; what `reload` and `scan` find on the disk is open. -/
def tableManager (reload : PluginTable → Bytes → Bool × PluginTable)
    (scan : PluginTable → Nat × PluginTable) : Manager PluginTable where
  list := PluginTable.list
  unload := PluginTable.unload
  reload := reload
  scan := scan

end IndustrialRuntime.Admin
