import IndustrialRuntime.Semantic.Branches
import IndustrialRuntime.Server.CoreTagSource

namespace IndustrialRuntime.Irsp

open IndustrialRuntime.Core

/-! ### The client's loop -/

/-- `SCAN <cursor> <pattern>`, with `COUNT <n>` when a count is given. -/
def scanCommand (cursor pattern : Bytes) (count : Option UInt64) : IrspValue :=
  .array ([.bulk (ascii "SCAN"), .bulk cursor, .bulk pattern] ++
    count.elim [] (fun n => [.bulk (ascii "COUNT"), .bulk (decimal n.toNat)]))

/-- The next cursor and the names of a `SCAN` reply. -/
def scanReply : IrspValue → Option (Bytes × List Bytes)
  | .array [.bulk next, .array names] =>
    (Dispatcher.commandParts names).map (fun topics => (next, topics))
  | _ => none

variable {ω : Type*}

/-- Repeats `SCAN` from a cursor until the next cursor is `"0"`, and joins the
batches. `none` is a reply of another shape, or more calls than `fuel`. -/
def iterateScan (tags : TagSource ω) (writer : Option (TagWriter ω)) (pattern : Bytes)
    (count : Option UInt64) : Nat → Dispatcher → Session → ω → Bytes → Option (List Bytes)
  | 0, _, _, _, _ => none
  | fuel + 1, d, session, store, cursor =>
    let handled := d.handle tags writer session store (scanCommand cursor pattern count)
    match scanReply handled.reply with
    | none => none
    | some (next, names) =>
      if next = CoreTagSource.zero then some names
      else
        (iterateScan tags writer pattern count fuel handled.dispatcher handled.session
          handled.store next).map (names ++ ·)

theorem parseCount_decimal (n : UInt64) : parseCount (decimal n.toNat) = some n := by
  have digits : (decimal n.toNat).all isDigit := by
    rw [List.all_eq_true]
    exact fun b hb => digit_of_mem_decimal hb
  have small : decimalValue (decimal n.toNat) < 2 ^ 64 := by
    rw [decimalValue_decimal]
    exact n.toNat_lt
  rw [parseCount, if_pos ⟨decimal_ne_nil _, digits, small⟩, decimalValue_decimal,
    UInt64.ofNat_toNat]

theorem scan_valid (tags : TagSource ω) (store : ω) (cursor : Bytes) {pattern : Bytes}
    (hp : TopicMatcher.isValidPattern pattern) (count : Option UInt64) :
    Dispatcher.scan tags store
      ([cursor, pattern] ++ count.elim [] (fun n => [ascii "COUNT", decimal n.toNat])) =
      .array [.bulk (tags.scan store cursor pattern (count.getD 0)).nextCursor,
        .array ((tags.scan store cursor pattern (count.getD 0)).names.map .bulk)] := by
  have keyword : toUpper (ascii "COUNT") = ascii "COUNT" := by decide
  cases count with
  | none => simp [Dispatcher.scan, hp]
  | some n => simp [Dispatcher.scan, hp, parseCount_decimal, keyword]

theorem scan_invalid (tags : TagSource ω) (store : ω) (cursor : Bytes) {pattern : Bytes}
    (hp : ¬TopicMatcher.isValidPattern pattern) (count : Option UInt64) :
    Dispatcher.scan tags store
      ([cursor, pattern] ++ count.elim [] (fun n => [ascii "COUNT", decimal n.toNat])) =
      makeError "ERR" "invalid scan pattern" := by
  have keyword : toUpper (ascii "COUNT") = ascii "COUNT" := by decide
  cases count with
  | none => simp [Dispatcher.scan, hp]
  | some n => simp [Dispatcher.scan, hp, parseCount_decimal, keyword]

/-- A greeted session's `SCAN` changes nothing. -/
theorem handle_scan (tags : TagSource ω) (writer : Option (TagWriter ω)) (d : Dispatcher)
    (id : SubscriberId) (store : ω) (cursor pattern : Bytes) (count : Option UInt64) :
    d.handle tags writer ⟨id, true⟩ store (scanCommand cursor pattern count) =
      ⟨Dispatcher.scan tags store ([cursor, pattern] ++
        count.elim [] (fun n => [ascii "COUNT", decimal n.toNat])), ⟨id, true⟩, d, store⟩ := by
  have parts : Dispatcher.commandParts ([.bulk (ascii "SCAN"), .bulk cursor, .bulk pattern] ++
      count.elim [] (fun n => [.bulk (ascii "COUNT"), .bulk (decimal n.toNat)])) =
      some (ascii "SCAN" ::
        ([cursor, pattern] ++ count.elim [] (fun n => [ascii "COUNT", decimal n.toNat]))) := by
    cases count <;> rfl
  have spelt : (scanCommand cursor pattern count).words = _ := Dispatcher.words_array parts
  rw [Dispatcher.handle_command tags writer d ⟨id, true⟩ store spelt (by decide) rfl]
  rfl

/-- With a valid pattern it answers with one `scan` call. -/
theorem handle_scanCommand (tags : TagSource ω) (writer : Option (TagWriter ω)) (d : Dispatcher)
    (id : SubscriberId) (store : ω) (cursor : Bytes) {pattern : Bytes}
    (hp : TopicMatcher.isValidPattern pattern) (count : Option UInt64) :
    d.handle tags writer ⟨id, true⟩ store (scanCommand cursor pattern count) =
      ⟨.array [.bulk (tags.scan store cursor pattern (count.getD 0)).nextCursor,
        .array ((tags.scan store cursor pattern (count.getD 0)).names.map .bulk)],
        ⟨id, true⟩, d, store⟩ := by
  rw [handle_scan, scan_valid tags store cursor hp count]

/-! ### Batches of an ascending list -/

namespace CoreTagSource

variable {hash : Bytes → UInt64}

/-- Some batch but the last one ends in the name `"0"`. -/
def ZeroEndsBatch (names : List Bytes) (limit : Nat) : Prop :=
  ∃ m, (m + 1) * limit < names.length ∧ names[(m + 1) * limit - 1]? = some zero

theorem not_zeroEndsBatch_of_le {names : List Bytes} {limit : Nat} (h : names.length ≤ limit) :
    ¬ZeroEndsBatch names limit := by
  intro hz
  obtain ⟨m, hm, -⟩ := hz
  have : limit ≤ (m + 1) * limit := Nat.le_mul_of_pos_left limit (Nat.succ_pos m)
  omega

theorem zeroEndsBatch_drop {names : List Bytes} {limit : Nat} (hl : 0 < limit)
    (h : limit < names.length) :
    ZeroEndsBatch names limit ↔
      names[limit - 1]? = some zero ∨ ZeroEndsBatch (names.drop limit) limit := by
  have shift (m : Nat) : limit + ((m + 1) * limit - 1) = (m + 1 + 1) * limit - 1 := by
    have : (m + 1 + 1) * limit = (m + 1) * limit + limit := Nat.succ_mul (m + 1) limit
    have : limit ≤ (m + 1) * limit := Nat.le_mul_of_pos_left limit (Nat.succ_pos m)
    omega
  have grow (m : Nat) : (m + 1 + 1) * limit = (m + 1) * limit + limit := Nat.succ_mul (m + 1) limit
  constructor
  · intro hz
    obtain ⟨m, hm, hz⟩ := hz
    cases m with
    | zero => exact Or.inl (by simpa using hz)
    | succ m =>
      refine Or.inr ⟨m, ?_, ?_⟩
      · rw [List.length_drop]
        have := grow m
        omega
      · rw [List.getElem?_drop, shift]
        exact hz
  · intro hz
    cases hz with
    | inl first => exact ⟨0, by simpa using h, by simpa using first⟩
    | inr later =>
      obtain ⟨m, hm, hz⟩ := later
      rw [List.length_drop] at hm
      rw [List.getElem?_drop, shift] at hz
      exact ⟨m + 1, by have := grow m; omega, hz⟩

/-- The cursor that asks for the names after `done`. -/
def Reached (done : List Bytes) (cursor : Bytes) : Prop :=
  (done = [] ∧ cursor = zero) ∨ (cursor ≠ zero ∧ done.getLast? = some cursor)

theorem scan_of_reached (engine : TagEngine hash) (pattern : Bytes) (count : UInt64)
    {done rest : List Bytes} {cursor : Bytes} (split : matching engine pattern = done ++ rest)
    (at_cursor : Reached done cursor) :
    scan engine cursor pattern count =
      if rest.length ≤ batchLimit count then ⟨zero, rest⟩
      else ⟨((rest.take (batchLimit count)).getLast?).getD [], rest.take (batchLimit count)⟩ := by
  have ascending := matching_ascending engine pattern
  have remaining : (matching engine pattern).filter
      (fun name => decide ((if cursor = zero then [] else cursor) < name)) = rest := by
    cases at_cursor with
    | inl first =>
      obtain ⟨rfl, rfl⟩ := first
      rw [if_pos rfl, split, List.nil_append, List.filter_eq_self]
      intro name hn
      have stored : name ∈ matching engine pattern := by
        rw [split]
        exact hn
      cases name with
      | nil => exact absurd rfl (ne_nil_of_mem_matching stored)
      | cons b bs => exact decide_eq_true (List.nil_lt_cons b bs)
    | inr later =>
      obtain ⟨hz, hlast⟩ := later
      have init_last := List.dropLast_append_getLast? cursor hlast
      rw [split, List.pairwise_append] at ascending
      obtain ⟨sorted, -, below⟩ := ascending
      rw [if_neg hz, split, List.filter_append]
      have past : done.filter (fun name => decide (cursor < name)) = [] := by
        rw [List.filter_eq_nil_iff]
        intro name hn
        rw [decide_eq_true_eq, not_lt]
        rw [← init_last, List.mem_append, List.mem_singleton] at hn
        cases hn with
        | inl earlier =>
          rw [← init_last, List.pairwise_append] at sorted
          exact (sorted.2.2 name earlier cursor (List.mem_singleton_self _)).le
        | inr same => exact same.le
      have future : rest.filter (fun name => decide (cursor < name)) = rest := by
        rw [List.filter_eq_self]
        intro name hn
        rw [decide_eq_true_eq]
        exact below cursor (List.mem_of_getLast? hlast) name hn
      rw [past, future, List.nil_append]
  have names := scan_names engine (if cursor = zero then [] else cursor) pattern
  simp only [scan, names, remaining]

/-! ### The whole iteration -/

/-- The loop of a greeted session over a fixed store. -/
def iterateStore (engine : TagEngine hash) (writer : Option (TagWriter (TagEngine hash)))
    (d : Dispatcher) (id : SubscriberId) (pattern : Bytes) (count : Option UInt64) (fuel : Nat)
    (cursor : Bytes) : Option (List Bytes) :=
  iterateScan (tagSource hash) writer pattern count fuel d ⟨id, true⟩ engine cursor

variable (engine : TagEngine hash) (writer : Option (TagWriter (TagEngine hash))) (d : Dispatcher)
  (id : SubscriberId) {pattern : Bytes} (count : Option UInt64)

theorem iterateStore_succ (hp : TopicMatcher.isValidPattern pattern) (fuel : Nat)
    (cursor : Bytes) :
    iterateStore engine writer d id pattern count (fuel + 1) cursor =
      if (scan engine cursor pattern (count.getD 0)).nextCursor = zero then
        some (scan engine cursor pattern (count.getD 0)).names
      else
        (iterateStore engine writer d id pattern count fuel
          (scan engine cursor pattern (count.getD 0)).nextCursor).map
            ((scan engine cursor pattern (count.getD 0)).names ++ ·) := by
  unfold iterateStore
  rw [iterateScan, handle_scanCommand _ _ _ _ _ _ hp]
  simp only [scanReply, Dispatcher.commandParts_bulk, Option.map_some]
  rfl

/-- More calls than needed change nothing. -/
theorem iterateStore_unique (hp : TopicMatcher.isValidPattern pattern) {fuel fuel' : Nat}
    {cursor : Bytes} {out out' : List Bytes}
    (h : iterateStore engine writer d id pattern count fuel cursor = some out)
    (h' : iterateStore engine writer d id pattern count fuel' cursor = some out') : out = out' := by
  induction fuel generalizing fuel' cursor out out' with
  | zero => contradiction
  | succ fuel ih =>
    cases fuel' with
    | zero => contradiction
    | succ fuel' =>
      rw [iterateStore_succ engine writer d id count hp] at h h'
      split_ifs at h h' with last
      · exact Option.some_inj.mp (h.symm.trans h')
      · obtain ⟨rest, hr, rfl⟩ := Option.map_eq_some_iff.mp h
        obtain ⟨rest', hr', rfl⟩ := Option.map_eq_some_iff.mp h'
        rw [ih hr hr']

/-- The iteration ends and returns the remaining names in order, all of them
exactly when no batch but the last ends in the name `"0"`. -/
theorem iterateStore_returns (hp : TopicMatcher.isValidPattern pattern) (rest : List Bytes) :
    ∀ (done : List Bytes) (cursor : Bytes), matching engine pattern = done ++ rest →
      Reached done cursor →
      ∃ fuel n, iterateStore engine writer d id pattern count fuel cursor = some (rest.take n) ∧
        (rest.length ≤ n ↔ ¬ZeroEndsBatch rest (batchLimit (count.getD 0))) := by
  induction hlen : rest.length using Nat.strong_induction_on generalizing rest with
  | _ len ih =>
    intro done cursor split at_cursor
    have limit_pos := batchLimit_pos (count.getD 0)
    have answer := scan_of_reached engine pattern (count.getD 0) split at_cursor
    subst hlen
    by_cases short : rest.length ≤ batchLimit (count.getD 0)
    · rw [if_pos short] at answer
      refine ⟨1, rest.length, ?_, ?_⟩
      · rw [iterateStore_succ engine writer d id count hp, answer, if_pos rfl, List.take_length]
      · exact iff_of_true le_rfl (not_zeroEndsBatch_of_le short)
    · rw [if_neg short] at answer
      rw [not_le] at short
      have inside : batchLimit (count.getD 0) - 1 < rest.length := by omega
      have last : (rest.take (batchLimit (count.getD 0))).getLast? =
          rest[batchLimit (count.getD 0) - 1]? := by
        rw [List.getLast?_eq_getElem?, List.length_take, min_eq_left short.le,
          List.getElem?_take_of_lt (by omega)]
      have cases_drop := zeroEndsBatch_drop limit_pos short
      rw [last, List.getElem?_eq_getElem inside, Option.getD_some] at answer
      rw [List.getElem?_eq_getElem inside] at cases_drop last
      by_cases hz : rest[batchLimit (count.getD 0) - 1] = zero
      · refine ⟨1, batchLimit (count.getD 0), ?_, ?_⟩
        · rw [iterateStore_succ engine writer d id count hp, answer, if_pos hz]
        · rw [cases_drop, hz]
          simpa using short
      · have further : matching engine pattern =
            (done ++ rest.take (batchLimit (count.getD 0))) ++
              rest.drop (batchLimit (count.getD 0)) := by
          rw [List.append_assoc, List.take_append_drop, split]
        have reached : Reached (done ++ rest.take (batchLimit (count.getD 0)))
            rest[batchLimit (count.getD 0) - 1] := by
          refine Or.inr ⟨hz, ?_⟩
          rw [List.getLast?_append, last, Option.some_or]
        obtain ⟨fuel, n, returned, all⟩ := ih _ (by rw [List.length_drop]; omega) _ rfl _ _
          further reached
        refine ⟨fuel + 1, batchLimit (count.getD 0) + n, ?_, ?_⟩
        · rw [iterateStore_succ engine writer d id count hp, answer, if_neg hz, returned,
            Option.map_some, List.take_add]
        · rw [cases_drop, not_or, ← all, List.length_drop]
          have other : some rest[batchLimit (count.getD 0) - 1] ≠ some zero := by
            simpa using hz
          constructor
          · intro h
            exact ⟨other, by omega⟩
          · intro h
            have := h.2
            omega

/-- The iteration from `"0"` ends, having returned every matching name in order. -/
def ScanComplete (engine : TagEngine hash) (writer : Option (TagWriter (TagEngine hash)))
    (d : Dispatcher) (id : SubscriberId) (pattern : Bytes) (count : Option UInt64) : Prop :=
  ∃ fuel, iterateStore engine writer d id pattern count fuel zero = some (matching engine pattern)

/-- An iteration over fixed names is complete if and only if no batch but the
last one ends in a topic named `"0"`. -/
theorem scanComplete_iff (hp : TopicMatcher.isValidPattern pattern) :
    ScanComplete engine writer d id pattern count ↔
      ¬ZeroEndsBatch (matching engine pattern) (batchLimit (count.getD 0)) := by
  obtain ⟨fuel, n, returned, all⟩ := iterateStore_returns engine writer d id count hp
    (matching engine pattern) [] zero rfl (Or.inl ⟨rfl, rfl⟩)
  rw [← all]
  constructor
  · intro complete
    obtain ⟨fuel', whole⟩ := complete
    have same := iterateStore_unique engine writer d id count hp returned whole
    exact List.take_eq_self_iff _ |>.mp same
  · intro long
    exact ⟨fuel, by rw [returned, List.take_of_length_le long]⟩

/-- Three batches, the first of which holds the topic `"0"` and ends in another. -/
theorem scanComplete_batches :
    let engine := [ascii "1", ascii "4", ascii "0", ascii "3", ascii "2"].foldl
      (fun (engine : TagEngine fun _ => 0) name => (engine.writeImpl (.of name .null 0)).2) .empty
    ScanComplete engine none Dispatcher.empty 1 (ascii "#") (some 2) := by
  intro engine
  have stored : matching engine (ascii "#") =
      [ascii "0", ascii "1", ascii "2", ascii "3", ascii "4"] := by decide
  apply (scanComplete_iff engine none Dispatcher.empty 1 (some 2) (by decide)).mpr
  rw [stored]
  rintro ⟨m, before, zeroth⟩
  have few : (m + 1) * 2 < 5 := before
  obtain rfl | rfl : m = 0 ∨ m = 1 := by omega
  · exact absurd zeroth (by decide)
  · exact absurd zeroth (by decide)

/-- An engine that holds the topics `"0"` and `"1"`. -/
def zeroAndOne : TagEngine (fun _ => 0) :=
  ((TagEngine.empty.writeImpl (.of (ascii "0") .null 0)).2.writeImpl (.of (ascii "1") .null 0)).2

/-- With pattern `"#"` and `COUNT 1` the first batch is the topic `"0"`, whose
name as next cursor ends the iteration before `"1"`. -/
theorem not_scanComplete_zero :
    ¬ScanComplete zeroAndOne none Dispatcher.empty 1 (ascii "#") (some 1) := by
  intro complete
  obtain ⟨fuel, h⟩ := complete
  have first : scan zeroAndOne zero (ascii "#") 1 = ⟨zero, [zero]⟩ := by decide
  have stored : matching zeroAndOne (ascii "#") = [ascii "0", ascii "1"] := by decide
  cases fuel with
  | zero => contradiction
  | succ fuel =>
    rw [iterateStore_succ _ _ _ _ _ (by decide), Option.getD_some, first, if_pos rfl, stored] at h
    contradiction

end CoreTagSource

end IndustrialRuntime.Irsp
