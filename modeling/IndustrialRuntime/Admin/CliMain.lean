import IndustrialRuntime.Admin.AdminServer
import IndustrialRuntime.Admin.IrpCli

namespace IndustrialRuntime.Admin

open Core.PluginManager

/-! ### `main` of `irpcli` -/

/-- `std::tolower` in the "C" locale. -/
def tolower (c : UInt8) : UInt8 := if 65 ≤ c ∧ c ≤ 90 then c + 32 else c

def iequals (a b : Bytes) : Bool := a.map tolower == b.map tolower

/-- What is printed; the layout of the table is left out. -/
inductive Printed where
  | usage
  | noConnection (endpoint : Bytes)
  /-- The reply, on `stderr`. -/
  | error (reply : Bytes)
  | table (rows : List (List Bytes))
  | scanned (count : Bytes)
  | reply (reply : Bytes)
  deriving DecidableEq

/-- The loop over `argv`: the endpoint and the parts of the command, or none for the help. -/
def readArgs (endpoint : Bytes) (parts : List Bytes) : List Bytes → Option (Bytes × List Bytes)
  | [] => some (endpoint, parts)
  | [a] => if a = ascii "-h" ∨ a = ascii "--help" then none else some (endpoint, parts ++ [a])
  | a :: b :: args =>
    if a = ascii "--endpoint" then readArgs b parts args
    else if a = ascii "-h" ∨ a = ascii "--help" then none
    else readArgs endpoint (parts ++ [a]) (b :: args)

def commandLine (parts : List Bytes) : Bytes := [32].intercalate parts

/-- The branches at the end of `main`. -/
def printReply (parts : List Bytes) (reply : Bytes) : Printed :=
  match parts with
  | plugin :: sub :: _ =>
    if iequals plugin (ascii "plugin") && iequals sub (ascii "list") then .table (tableRows reply)
    else if iequals plugin (ascii "plugin") && iequals sub (ascii "scan") then
      .scanned (((split ((split reply newline).head?.getD []) 32)[1]?).getD (ascii "0"))
    else .reply reply
  | _ => .reply reply

/-- The exit code and what is printed. `sendCommand` is given the endpoint and the request, and
returns nothing if it cannot connect. -/
def main (defaultEndpoint : Bytes) (sendCommand : Bytes → Bytes → Option Bytes)
    (args : List Bytes) : Nat × Printed :=
  match readArgs defaultEndpoint [] args with
  | none => (0, .usage)
  | some (_, []) => (2, .usage)
  | some (endpoint, parts) =>
    match sendCommand endpoint (commandLine parts ++ [newline]) with
    | none => (3, .noConnection endpoint)
    | some reply =>
      if (ascii "ERR").isPrefixOf reply then (1, .error reply) else (0, printReply parts reply)

/-! ### What a command does -/

/-- The commands of the admin channel. -/
inductive Command where
  | list
  | scan
  | unload (id : Bytes)
  | reload (id : Bytes)
  deriving DecidableEq

/-- The command that the words make. -/
def Command.ofWords : List Bytes → Option Command
  | [command, sub] =>
    if toUpper command = ascii "PLUGIN" then
      if toUpper sub = ascii "LIST" then some .list
      else if toUpper sub = ascii "SCAN" then some .scan else none
    else none
  | [command, sub, id] =>
    if toUpper command = ascii "PLUGIN" then
      if toUpper sub = ascii "UNLOAD" then some (.unload id)
      else if toUpper sub = ascii "RELOAD" then some (.reload id) else none
    else none
  | _ => none

variable {σ : Type*} (pm : Manager σ) (s : σ)

/-- Whether the command succeeds, and what it leaves. -/
def Command.perform : Command → Bool × σ
  | .list => (true, s)
  | .scan => (true, (pm.scan s).2)
  | .unload id => pm.unload s id
  | .reload id => pm.reload s id

/-- The reply to a command that succeeds. -/
def Command.reply : Command → Bytes
  | .list => listReply (pm.list s)
  | .scan => ascii "OK " ++ decimal (pm.scan s).1 ++ [newline]
  | .unload _ | .reload _ => ascii "OK\n"

/-- A reply that `main` prints on `stderr`. -/
def IsError (reply : Bytes) : Prop := (ascii "ERR").isPrefixOf reply = true

instance decidableIsError : DecidablePred IsError := fun reply =>
  inferInstanceAs (Decidable ((ascii "ERR").isPrefixOf reply = true))

/-- The answer to a command, or to a line that makes none: an error that changes nothing, or what
the command does and its reply. -/
def Answered : Option Command → Bytes × σ → Prop
  | none, answer => IsError answer.1 ∧ answer.2 = s
  | some c, answer => answer.2 = (c.perform pm s).2 ∧
    if (c.perform pm s).1 then answer.1 = c.reply pm s else IsError answer.1

theorem reply_ok (c : Command) : ¬IsError (c.reply pm s) := by
  cases c <;> simp [IsError, Command.reply, listReply, ascii, List.isPrefixOf]

theorem answered_error {reply : Bytes} (error : IsError reply) : Answered pm s none (reply, s) :=
  ⟨error, rfl⟩

/-- A command that the manager can refuse. -/
theorem answered_id {c : Command} {done : Bool × σ} {refused : Bytes}
    (performed : c.perform pm s = done) (ok : c.reply pm s = ascii "OK\n")
    (error : IsError refused) :
    Answered pm s (some c) (if done.1 then ascii "OK\n" else refused, done.2) := by
  refine ⟨by rw [performed], ?_⟩
  rw [performed, ok]
  cases done.1
  · exact error
  · rfl

theorem handle_words (line : Bytes) :
    Answered pm s (Command.ofWords (tokenize line)) (handleAdminCommand pm s line) := by
  rw [handleAdminCommand]
  cases tokenize line with
  | nil => exact answered_error pm s (by decide)
  | cons command args =>
    by_cases plugin : toUpper command = ascii "PLUGIN"
    case neg =>
      have other : Command.ofWords (command :: args) = none := by
        unfold Command.ofWords
        split <;> simp_all
      rw [other]
      simp only [ne_eq, plugin, not_false_eq_true, if_true]
      exact answered_error pm s (by decide)
    simp only [ne_eq, plugin, not_true_eq_false, if_false]
    cases args with
    | nil => exact answered_error pm s (by decide)
    | cons sub rest =>
      have differ : ascii "LIST" ≠ ascii "UNLOAD" ∧ ascii "LIST" ≠ ascii "RELOAD" ∧
          ascii "UNLOAD" ≠ ascii "RELOAD" ∧ ascii "UNLOAD" ≠ ascii "LIST" ∧
          ascii "UNLOAD" ≠ ascii "SCAN" ∧ ascii "RELOAD" ≠ ascii "LIST" ∧
          ascii "RELOAD" ≠ ascii "UNLOAD" ∧ ascii "RELOAD" ≠ ascii "SCAN" ∧
          ascii "SCAN" ≠ ascii "LIST" ∧ ascii "SCAN" ≠ ascii "UNLOAD" ∧
          ascii "SCAN" ≠ ascii "RELOAD" := by decide
      by_cases list : toUpper sub = ascii "LIST"
      · simp only [list, if_true]
        rcases rest with - | ⟨id, - | ⟨id', rest⟩⟩
        · simp only [Command.ofWords, plugin, list, if_true, not_true_eq_false, if_false]
          exact ⟨rfl, rfl⟩
        · simp only [Command.ofWords, plugin, list, if_true, differ, if_false]
          exact answered_error pm s (by decide)
        · exact answered_error pm s (by decide)
      by_cases unload : toUpper sub = ascii "UNLOAD"
      · simp only [unload, differ, if_false, if_true]
        rcases rest with - | ⟨id, - | ⟨id', rest⟩⟩
        · simp only [Command.ofWords, plugin, unload, if_true, differ, if_false]
          exact answered_error pm s (by decide)
        · simp only [Command.ofWords, plugin, unload, if_true]
          exact answered_id pm s rfl rfl (by decide)
        · exact answered_error pm s (by decide)
      by_cases reload : toUpper sub = ascii "RELOAD"
      · simp only [reload, differ, if_false, if_true]
        rcases rest with - | ⟨id, - | ⟨id', rest⟩⟩
        · simp only [Command.ofWords, plugin, reload, if_true, differ, if_false]
          exact answered_error pm s (by decide)
        · simp only [Command.ofWords, plugin, reload, if_true, differ, if_false]
          exact answered_id pm s rfl rfl (by decide)
        · exact answered_error pm s (by decide)
      by_cases scan : toUpper sub = ascii "SCAN"
      · simp only [scan, differ, if_false, if_true]
        rcases rest with - | ⟨id, - | ⟨id', rest⟩⟩
        · simp only [Command.ofWords, plugin, scan, if_true, differ, not_true_eq_false, if_false]
          exact ⟨rfl, rfl⟩
        · simp only [Command.ofWords, plugin, scan, if_true, differ, if_false]
          exact answered_error pm s (by decide)
        · exact answered_error pm s (by decide)
      · have other : Command.ofWords (command :: sub :: rest) = none := by
          rcases rest with - | ⟨id, - | ⟨id', rest⟩⟩
          · simp only [Command.ofWords, plugin, list, scan, if_true, if_false]
          · simp only [Command.ofWords, plugin, unload, reload, if_true, if_false]
          · rfl
        rw [other]
        simp only [list, unload, reload, scan, if_false]
        exact answered_error pm s (by decide)

/-! ### From the command line to the manager and back -/

theorem tokenize_commandLine (parts : List Bytes) :
    tokenize (commandLine parts) = parts.flatMap tokenize := by
  induction parts with
  | nil => exact Split.words_nil
  | cons part parts ih =>
    cases parts with
    | nil => simp [commandLine, List.intercalate_singleton]
    | cons next parts =>
      have joined : commandLine (part :: next :: parts) =
          part ++ 32 :: commandLine (next :: parts) := by
        simp [commandLine, List.intercalate_cons_cons]
      have apart : tokenize (part ++ 32 :: commandLine (next :: parts)) =
          tokenize part ++ tokenize (commandLine (next :: parts)) :=
        Split.words_append_space (by decide) _ _
      rw [joined, apart, ih]
      exact List.flatMap_cons.symm

theorem flatMap_tokenize {parts : List Bytes} (words : ∀ p ∈ parts, OneWord p) :
    parts.flatMap tokenize = parts := by
  induction parts with
  | nil => rfl
  | cons part parts ih =>
    rw [List.flatMap_cons, tokenize_word (words part List.mem_cons_self),
      ih fun p later => words p (List.mem_cons_of_mem part later)]
    rfl

theorem tolower_toupper (c : UInt8) : tolower (toupper c) = tolower c := by
  have all : ∀ n : Fin 256, tolower (toupper (UInt8.ofNat n)) = tolower (UInt8.ofNat n) := by
    decide +kernel
  have here := all ⟨c.toNat, c.toNat_lt⟩
  rwa [UInt8.ofNat_toNat] at here

/-- The client recognises what the server recognises. -/
theorem iequals_iff {a : Bytes} {upper lower : Bytes} (same : toUpper a = upper) :
    iequals a lower = (upper.map tolower == lower.map tolower) := by
  have folded : tolower ∘ toupper = tolower := funext tolower_toupper
  rw [iequals, ← same, toUpper, List.map_map, folded]

theorem scanned_count (n : Nat) :
    (split ((split (ascii "OK " ++ decimal n ++ [newline]) newline).head?.getD []) 32)[1]? =
      some (decimal n) := by
  have digit (c : UInt8) (other : isDigit c = false) : c ∉ decimal n := by
    intro inside
    rw [digit_of_mem_decimal inside] at other
    cases other
  have line : newline ∉ ascii "OK " ++ decimal n := by
    rw [List.mem_append, not_or]
    exact ⟨by decide, digit newline (by decide)⟩
  have count : ascii "OK " ++ decimal n = [32].intercalate [ascii "OK", decimal n] := by
    simp [List.intercalate_cons_cons, ascii]
  have head : (split (ascii "OK " ++ decimal n ++ [newline]) newline).head?.getD [] =
      ascii "OK " ++ decimal n := by
    rw [split_eq, List.splitOn_append_cons_self_of_not_mem line]
    rfl
  have apart : ∀ field ∈ [ascii "OK", decimal n], (32 : UInt8) ∉ field := by
    simp only [List.mem_cons, List.not_mem_nil, or_false, forall_eq_or_imp, forall_eq]
    exact ⟨by decide, digit 32 (by decide)⟩
  rw [head, split_eq, count, List.splitOn_intercalate 32 apart (by simp)]
  rfl

/-- What is printed when a command of single words succeeds. -/
def Command.printed : Command → Printed
  | .list => .table (tableRows (listReply (pm.list s)))
  | .scan => .scanned (decimal (pm.scan s).1)
  | .unload _ | .reload _ => .reply (ascii "OK\n")

theorem printReply_words {parts : List Bytes} {c : Command}
    (made : Command.ofWords parts = some c) :
    printReply parts (c.reply pm s) = c.printed pm s := by
  have plugin {command : Bytes} (same : toUpper command = ascii "PLUGIN") :
      iequals command (ascii "plugin") = true := by
    rw [iequals_iff same]
    decide
  unfold Command.ofWords at made
  split at made
  · rename_i command sub
    split_ifs at made with named list scan <;> cases made
    · have isList : iequals sub (ascii "list") = true := by
        rw [iequals_iff list]
        decide
      simp only [printReply, plugin named, isList, Bool.and_self, if_true]
      rfl
    · have notList : iequals sub (ascii "list") = false := by
        rw [iequals_iff scan]
        decide
      have isScan : iequals sub (ascii "scan") = true := by
        rw [iequals_iff scan]
        decide
      simp only [printReply, plugin named, notList, isScan, Bool.and_false, Bool.and_self,
        Bool.false_eq_true, if_false, if_true, Command.reply, scanned_count]
      rfl
  · rename_i command sub id
    split_ifs at made with named unload reload <;> cases made
    · have notList : iequals sub (ascii "list") = false := by
        rw [iequals_iff unload]
        decide
      have notScan : iequals sub (ascii "scan") = false := by
        rw [iequals_iff unload]
        decide
      simp only [printReply, notList, notScan, Bool.and_false, Bool.false_eq_true, if_false]
      rfl
    · have notList : iequals sub (ascii "list") = false := by
        rw [iequals_iff reload]
        decide
      have notScan : iequals sub (ascii "scan") = false := by
        rw [iequals_iff reload]
        decide
      simp only [printReply, notList, notScan, Bool.and_false, Bool.false_eq_true, if_false]
      rfl
  · cases made

/-- What the server answers to a request that arrives in chunks. -/
def sendTo (arrival : Bytes → List Bytes) (_ request : Bytes) : Option Bytes :=
  some (serveOne pm s (arrival request)).1

/-- The command that the arguments make, whichever of them are quoted together. -/
def Command.ofParts (parts : List Bytes) : Option Command :=
  Command.ofWords (parts.flatMap tokenize)

/-- The arguments make a command, and it succeeds. -/
def Command.succeeds (c : Option Command) : Bool := c.elim false fun c => (c.perform pm s).1

/-- What becomes of the manager. -/
def Command.leaves (c : Option Command) : σ := c.elim s fun c => (c.perform pm s).2

/-- From the arguments to the manager and back: `irpcli` exits with 0 if they make a command that
succeeds and with 1 otherwise, the command is what happens to the manager, and the result is what
is printed if each argument is one word. -/
theorem main_serve {defaultEndpoint endpoint : Bytes} {args parts : List Bytes}
    (given : readArgs defaultEndpoint [] args = some (endpoint, parts)) (some_ : parts ≠ [])
    (clean : newline ∉ commandLine parts) (short : (commandLine parts).length ≤ kMaxRequest)
    (arrival : Bytes → List Bytes) (arrives : ∀ request, Arrives request (arrival request)) :
    let ended := main defaultEndpoint (sendTo pm s arrival) args
    let command := Command.ofParts parts
    (ended.1 = if Command.succeeds pm s command then 0 else 1) ∧
      (serveOne pm s (arrival (commandLine parts ++ [newline]))).2 =
        Command.leaves pm s command ∧
      ∀ c, command = some c → (c.perform pm s).1 = true → (∀ p ∈ parts, OneWord p) →
        ended.2 = c.printed pm s := by
  intro ended command
  have served : serveOne pm s (arrival (commandLine parts ++ [newline])) =
      handleAdminCommand pm s (commandLine parts) := by
    rw [serveOne, firstLine_readRequest clean short (arrives _)]
  have answered : Answered pm s command (handleAdminCommand pm s (commandLine parts)) := by
    have words := handle_words pm s (commandLine parts)
    rw [tokenize_commandLine] at words
    exact words
  have printed : ended = if IsError (handleAdminCommand pm s (commandLine parts)).1 then
      (1, .error (handleAdminCommand pm s (commandLine parts)).1) else
      (0, printReply parts (handleAdminCommand pm s (commandLine parts)).1) := by
    obtain ⟨part, parts, rfl⟩ := List.exists_cons_of_ne_nil some_
    show main defaultEndpoint (sendTo pm s arrival) args = _
    simp only [main, given, sendTo, served, IsError]
    rfl
  rw [served]
  cases made : command with
  | none =>
    rw [made] at answered
    rw [printed, if_pos answered.1]
    refine ⟨rfl, answered.2, ?_⟩
    intro c none
    cases none
  | some c =>
    rw [made] at answered
    have succeeds : Command.succeeds pm s (some c) = (c.perform pm s).1 := rfl
    cases ok : (c.perform pm s).1 with
    | false =>
      have error := answered.2
      rw [ok, if_neg Bool.false_ne_true] at error
      rw [printed, if_pos error, succeeds, ok]
      refine ⟨rfl, answered.1, ?_⟩
      intro d same done
      rw [← Option.some.inj same, ok] at done
      cases done
    | true =>
      have reply := answered.2
      rw [ok, if_pos rfl] at reply
      rw [printed, reply, if_neg (reply_ok pm s c), succeeds, ok]
      refine ⟨rfl, answered.1, ?_⟩
      intro d same _ words
      rw [← Option.some.inj same]
      apply printReply_words
      rw [← made]
      show Command.ofWords parts = Command.ofWords (parts.flatMap tokenize)
      rw [flatMap_tokenize words]

/-- A manager of one plugin, that can be unloaded. -/
def oneManager : Manager Bool where
  list loaded := if loaded then [⟨ascii "s7", ascii "S7", ascii "1.0", true⟩] else []
  unload loaded id := (loaded && id == ascii "s7", loaded && id != ascii "s7")
  reload loaded id := (loaded && id == ascii "s7", loaded)
  scan loaded := (if loaded then 0 else 1, true)

/-- `irpcli plugin "unload s7"`, the request byte by byte. -/
theorem main_serve_quoted :
    let ended := main [] (sendTo oneManager true fun request => request.map fun c => [c])
      [ascii "plugin", ascii "unload s7"]
    ended.1 = 0 ∧ (serveOne oneManager true ((ascii "plugin unload s7" ++ [newline]).map
      fun c => [c])).2 = false := by
  have arrives (request : Bytes) : Arrives request (request.map fun c => [c]) := by
    refine ⟨by rw [← List.flatMap_def, List.flatMap_singleton'], fun c found => ?_⟩
    obtain ⟨b, -, rfl⟩ := List.mem_map.mp found
    exact ⟨List.cons_ne_nil b [], by simp⟩
  have given : readArgs [] [] [ascii "plugin", ascii "unload s7"] =
      some ([], [ascii "plugin", ascii "unload s7"]) := rfl
  have done := main_serve oneManager true given (by simp) (by decide) (by decide)
    (fun request => request.map fun c => [c]) arrives
  have succeeds : Command.succeeds oneManager true
      (Command.ofParts [ascii "plugin", ascii "unload s7"]) = true := by decide +kernel
  have leaves : Command.leaves oneManager true
      (Command.ofParts [ascii "plugin", ascii "unload s7"]) = false := by decide +kernel
  exact ⟨by rw [done.1, succeeds, if_pos rfl], by rw [← leaves]; exact done.2.1⟩

end IndustrialRuntime.Admin
