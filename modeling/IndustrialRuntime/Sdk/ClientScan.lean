import IndustrialRuntime.Sdk.ClientTold
import IndustrialRuntime.Server.IrspServer
import IndustrialRuntime.Server.ScanIteration

namespace IndustrialRuntime.Sdk

open Core Irsp Irsp.IrspValue

/-- What a call of either client is made of. -/
structure Api (K : Type) where
  encodeRequest : List Part → Bytes
  onFrame : Bytes → Received K
  asStr : ClientValue K → Except Failure (Option Text)

def JavaScript.api (room : Nat) : Api Text := ⟨encodeRequest, onFrame room, asStr⟩

def Python.api (py : Interpreter) (room : Nat) : Api (Option Text) :=
  ⟨encodeRequest, onFrame py room, asStr py⟩

namespace Api

variable {K : Type} (api : Api K)

/-- The request of `scan`. -/
def scanParts (cursor pattern : Text) (count : UInt64) : List Part :=
  [.text "SCAN".toList, .text cursor, .text pattern] ++
    if count = 0 then [] else [.text "COUNT".toList, .text (Nat.toDigits 10 count.toNat)]

/-- A text of a reply; the replies looked at here have no null. -/
def text (v : ClientValue K) : Option Text := (api.asStr v).toOption.join

/-- What `scan` makes of the reply: the next cursor and the names. -/
def scanResult : ClientValue K → Option (Text × List Text)
  | .array (next :: .array names :: _) =>
    (api.text next).bind fun next => (names.mapM api.text).map (next, ·)
  | _ => none

/-- The server's side of a connection. -/
structure Peer (hash : Bytes → UInt64) where
  dispatcher : Dispatcher
  conn : Conn
  engine : TagEngine hash

variable {hash : Bytes → UInt64} (lim : Irsp1Codec.VectorLimits)
  (writer : Option (TagWriter (TagEngine hash)))

/-- A request and its reply: the frame that `processFrame` appends to the outbox. -/
def request (peer : Peer hash) (parts : List Part) : Option (ClientValue K × Peer hash) :=
  match IrspServer.processFrame lim (CoreTagSource.tagSource hash) writer peer.dispatcher peer.conn
    peer.engine (api.encodeRequest parts) with
  | .error _ => none
  | .ok (conn, dispatcher, engine) =>
    match (conn.outbox.drop peer.conn.outbox.length).map api.onFrame with
    | [.reply v] => some (v, ⟨dispatcher, conn, engine⟩)
    | _ => none

/-- Calls `scan` from a cursor until the next cursor is `"0"`, and joins the names. `none` is an
exception, or more calls than `fuel`. -/
def scanAll (pattern : Text) (count : UInt64) : Nat → Peer hash → Text → Option (List Text)
  | 0, _, _ => none
  | fuel + 1, peer, cursor =>
    match api.request lim writer peer (scanParts cursor pattern count) with
    | none => none
    | some (reply, peer) =>
      match api.scanResult reply with
      | none => none
      | some (next, names) =>
        if next = "0".toList then some names
        else (scanAll pattern count fuel peer next).map (names ++ ·)

/-- The two lists of a `SCAN` reply. -/
def scanAnswer (next : Bytes) (names : List Bytes) : IrspValue :=
  .array [.bulk next, .array (names.map .bulk)]

/-- What the two clients have in common: the requests that the server reads, and the texts that
are read as they are. -/
structure Reads (readable : Bytes → Prop) : Prop where
  request : ∀ parts, api.encodeRequest parts =
    Irsp1Codec.encode (.array (parts.map fun p => .bulk p.sent))
  reply : ∀ next names, (scanAnswer next names).Encodable →
    api.onFrame (Irsp1Codec.encode (scanAnswer next names)) =
      .reply (.array [.bytes next, .array (names.map .bytes)])
  text : ∀ b, readable b → api.text (.bytes b) = some (Utf8.decode b)
  utf8 : ∀ b, readable b → Utf8.encode (Utf8.decode b) = b

end Api

theorem nestsWithin_scanAnswer (next : Bytes) (names : List Bytes) (room : Nat) :
    (Api.scanAnswer next names).NestsWithin (room + 3) := by
  have inner : (IrspValue.array (names.map .bulk)).NestsWithin (room + 2) := by
    intro w child
    obtain ⟨name, -, rfl⟩ := List.mem_map.mp child
    exact nestsWithin_leaf rfl
  intro w child
  have cases_ : w = .bulk next ∨ w = .array (names.map .bulk) := by
    simpa [Api.scanAnswer, children] using child
  rcases cases_ with rfl | rfl
  · exact nestsWithin_leaf rfl
  · exact inner

/-- A property of the values of a `SCAN` reply. -/
theorem everywhere_scanAnswer {P : IrspValue → Prop} (array : ∀ items, P (.array items))
    (bulk : ∀ b, P (.bulk b)) (next : Bytes) (names : List Bytes) :
    Everywhere P (Api.scanAnswer next names) := by
  have inner : Everywhere P (.array (names.map .bulk)) := by
    refine (everywhere_iff _).mpr ⟨array _, fun w child => ?_⟩
    obtain ⟨name, -, rfl⟩ := List.mem_map.mp child
    exact (everywhere_leaf rfl).mpr (bulk name)
  refine (everywhere_iff _).mpr ⟨array _, fun w child => ?_⟩
  have cases_ : w = .bulk next ∨ w = .array (names.map .bulk) := by
    simpa [Api.scanAnswer, children] using child
  rcases cases_ with rfl | rfl
  · exact (everywhere_leaf rfl).mpr (bulk next)
  · exact inner

theorem image_scanAnswer {K : Type} (name : Text → K) (next : Bytes) (names : List Bytes) :
    image name (Api.scanAnswer next names) =
      .array [.bytes next, .array (names.map .bytes)] := by
  simp [Api.scanAnswer, image, imageItems_eq, Function.comp_def]

theorem JavaScript.reads (room : Nat) : (api (room + 3)).Reads Readable where
  request := encodeRequest_eq
  reply next names printable := by
    have legible : Everywhere Legible (Api.scanAnswer next names) :=
      everywhere_scanAnswer (fun _ => trivial) (fun _ => trivial) next names
    have unmarked : Everywhere Unmarked (Api.scanAnswer next names) :=
      everywhere_scanAnswer (fun _ => trivial) (fun _ => trivial) next names
    have kept := (everywhere_congr keptBy_dropMark_iff legible).mpr unmarked
    have read := (decodeWith_encode_iff lawful Function.injective_id (room + 3) _ printable
      legible).mpr ⟨kept, nestsWithin_scanAnswer next names room⟩
    rw [image_scanAnswer] at read
    show onFrame (room + 3) _ = _
    rw [onFrame, decode, read]
  text b readable := by
    have read : Utf8.encode (textDecode b) = b := (encode_textDecode_iff b).mpr readable
    have same : textDecode b = Utf8.decode b := by
      have again := congrArg Utf8.decode read
      rwa [Utf8.decode_encode_text] at again
    show (asStr (.bytes b)).toOption.join = _
    rw [asStr, same]
    rfl
  utf8 b readable := by
    obtain ⟨⟨t, rfl⟩, -⟩ := readable
    rw [Utf8.decode_encode_text]

theorem Python.reads (py : Interpreter) (room : Nat) : (api py (room + 3)).Reads Readable where
  request := encodeRequest_eq
  reply next names printable := by
    have legible : Everywhere Legible (Api.scanAnswer next names) :=
      everywhere_scanAnswer (fun _ => trivial) (fun _ => trivial) next names
    have read := (decodeWith_encode_iff (lawful py) (Option.some_injective Text) (room + 3) _
      printable legible).mpr ⟨everywhere_keptBy_id _, nestsWithin_scanAnswer next names room⟩
    rw [image_scanAnswer] at read
    show onFrame py (room + 3) _ = _
    rw [onFrame, decode, read]
  text b readable := by
    obtain ⟨t, rfl⟩ := readable
    show (asStr py (.bytes (Utf8.encode t))).toOption.join = _
    rw [asStr, Utf8.decode?_encode, Utf8.decode_encode_text]
    rfl
  utf8 b readable := by
    obtain ⟨t, rfl⟩ := readable
    rw [Utf8.decode_encode_text]

/-! ### One batch -/

section

open CoreTagSource

/-- A batch holds matching names, and its cursor is one of them or `"0"`. -/
theorem scan_batch {hash : Bytes → UInt64} (engine : TagEngine hash) (cursor pattern : Bytes)
    (count : UInt64) :
    (scan engine cursor pattern count).names.Sublist (matching engine pattern) ∧
      ((scan engine cursor pattern count).nextCursor = zero ∨
        (scan engine cursor pattern count).nextCursor ∈ matching engine pattern) := by
  have limit := batchLimit_pos count
  simp only [scan, scan_names]
  generalize same : (matching engine pattern).filter
    (fun name => decide ((if cursor = zero then [] else cursor) < name)) = found
  have part : found.Sublist (matching engine pattern) := by
    rw [← same]
    exact List.filter_sublist
  split_ifs with short
  · exact ⟨part, .inl rfl⟩
  · have some_ : found.take (batchLimit count) ≠ [] := by
      intro none
      have length := congrArg List.length none
      rw [List.length_take, List.length_nil] at length
      omega
    have last := List.getLast_mem some_
    rw [List.getLast?_eq_some_getLast some_, Option.getD_some]
    exact ⟨(List.take_sublist _ _).trans part,
      .inr (part.subset (List.mem_of_mem_take last))⟩

/-- The parts of `scan` are the command that the server expects. -/
theorem array_scanParts (cursor pattern : Text) (count : UInt64) :
    IrspValue.array ((Api.scanParts cursor pattern count).map fun p => .bulk p.sent) =
      scanCommand (Utf8.encode cursor) (Utf8.encode pattern)
        (if count = 0 then none else some count) := by
  have scanWord : (Part.text "SCAN".toList).sent = ascii "SCAN" := encode_toList (by simp)
  have countWord : (Part.text "COUNT".toList).sent = ascii "COUNT" := encode_toList (by simp)
  have number : (Part.text (Nat.toDigits 10 count.toNat)).sent = decimal count.toNat :=
    Utf8.encode_toDigits _
  rw [Api.scanParts, scanCommand, List.map_append, List.map_cons, scanWord]
  split_ifs
  · rfl
  · have counted : [Part.text "COUNT".toList, .text (Nat.toDigits 10 count.toNat)].map
        (fun p => bulk p.sent) = [.bulk (ascii "COUNT"), .bulk (decimal count.toNat)] := by
      rw [List.map_cons, countWord, List.map_cons, number]
      rfl
    rw [counted]
    rfl

theorem sizes_scanParts {cursor pattern : Text} (count : UInt64)
    (short : ∀ t ∈ [cursor, pattern], (Utf8.encode t).length < 2 ^ 63) :
    ∀ p ∈ Api.scanParts cursor pattern count, p.sent.length < 2 ^ 63 := by
  have scanWord : (Part.text "SCAN".toList).sent.length < 2 ^ 63 := by decide +kernel
  have countWord : (Part.text "COUNT".toList).sent.length < 2 ^ 63 := by decide +kernel
  have number : (Part.text (Nat.toDigits 10 count.toNat)).sent.length < 2 ^ 63 := by
    have digits : (decimal count.toNat).length ≤ 20 := by
      rw [decimal, List.length_map, Nat.length_toDigits_le_iff (by decide) (by decide)]
      exact Nat.lt_trans count.toNat_lt (by decide)
    have same : (Part.text (Nat.toDigits 10 count.toNat)).sent = decimal count.toNat :=
      Utf8.encode_toDigits _
    rw [same]
    omega
  have at_cursor := short cursor (by simp)
  have at_pattern := short pattern (by simp)
  intro p mem
  rw [Api.scanParts, List.mem_append] at mem
  cases mem with
  | inl head =>
    simp only [List.mem_cons, List.not_mem_nil, or_false] at head
    rcases head with rfl | rfl | rfl
    · exact scanWord
    · exact at_cursor
    · exact at_pattern
  | inr tail =>
    split_ifs at tail
    · contradiction
    · simp only [List.mem_cons, List.not_mem_nil, or_false] at tail
      rcases tail with rfl | rfl
      · exact countWord
      · exact number

namespace Api

variable {K : Type} {api : Api K} {readable : Bytes → Prop} {hash : Bytes → UInt64}
  {lim : Irsp1Codec.VectorLimits} {writer : Option (TagWriter (TagEngine hash))}

/-- The batch that the engine gives. -/
def Peer.batch (peer : Peer hash) (cursor pattern : Text) (count : UInt64) : ScanResult :=
  scan peer.engine (Utf8.encode cursor) (Utf8.encode pattern) count

/-- What the server makes of a `scan` of a greeted session. -/
theorem processFrame_scan (room : 5 ≤ lim.items) {peer : Peer hash}
    (greeted : peer.conn.session.hello = true) {cursor pattern : Text}
    (valid : TopicMatcher.isValidPattern (Utf8.encode pattern)) (count : UInt64)
    (short : ∀ t ∈ [cursor, pattern], (Utf8.encode t).length < 2 ^ 63) :
    IrspServer.processFrame lim (tagSource hash) writer peer.dispatcher peer.conn peer.engine
      (Irsp1Codec.encode (.array ((scanParts cursor pattern count).map fun p => .bulk p.sent))) =
      .ok ({ peer.conn with
        outbox := peer.conn.outbox ++ [Irsp1Codec.encode
          (scanAnswer (peer.batch cursor pattern count).nextCursor
            (peer.batch cursor pattern count).names)] }, peer.dispatcher, peer.engine) := by
  let asked := if count = 0 then none else some count
  have few : (scanParts cursor pattern count).length ≤ lim.items := by
    have : (scanParts cursor pattern count).length ≤ 5 := by
      rw [scanParts]
      split_ifs <;> simp
    omega
  have read := decode_request lim _ few (sizes_scanParts count short)
  rw [array_scanParts] at read ⊢
  have starts : (Irsp1Codec.encode
      (scanCommand (Utf8.encode cursor) (Utf8.encode pattern) asked)).head? = some 42 := by rfl
  have parsed := IrspServer.parseFrame_encoded lim starts
  have given : asked.getD 0 = count := by
    simp only [asked]
    split_ifs with none_
    · exact none_.symm
    · rfl
  have session : peer.conn.session = ⟨peer.conn.session.id, true⟩ := by
    rw [← greeted]
  have handled := handle_scanCommand (tagSource hash) writer peer.dispatcher peer.conn.session.id
    peer.engine (Utf8.encode cursor) valid asked
  rw [← session, given] at handled
  have staying : isByeCommand
      (scanCommand (Utf8.encode cursor) (Utf8.encode pattern) asked) = false := by
    show decide (toUpper (ascii "SCAN") = ascii "BYE") = false
    decide
  rw [IrspServer.processFrame, parsed, read]
  show Except.ok (IrspServer.dispatch _ _ _ _ _ (.request (scanCommand _ _ asked))) = _
  rw [IrspServer.dispatch, handled, staying, Bool.false_or]
  rfl

/-- A `scan` of a greeted session gets the batch that the engine gives. -/
theorem Reads.request_scan (reads : api.Reads readable) (room : 5 ≤ lim.items)
    {peer : Peer hash} (greeted : peer.conn.session.hello = true) {cursor pattern : Text}
    (valid : TopicMatcher.isValidPattern (Utf8.encode pattern)) (count : UInt64)
    (short : ∀ t ∈ [cursor, pattern], (Utf8.encode t).length < 2 ^ 63)
    (printable : (scanAnswer (peer.batch cursor pattern count).nextCursor
      (peer.batch cursor pattern count).names).Encodable) :
    ∃ conn : Conn, conn.session = peer.conn.session ∧
      api.request lim writer peer (scanParts cursor pattern count) =
        some (.array [.bytes (peer.batch cursor pattern count).nextCursor,
          .array ((peer.batch cursor pattern count).names.map .bytes)],
          { peer with conn := conn }) := by
  refine ⟨{ peer.conn with outbox := peer.conn.outbox ++ [Irsp1Codec.encode
    (scanAnswer (peer.batch cursor pattern count).nextCursor
      (peer.batch cursor pattern count).names)] }, rfl, ?_⟩
  rw [Api.request, reads.request, processFrame_scan room greeted valid count short]
  simp only [List.drop_left, List.map_cons, List.map_nil, reads.reply _ _ printable]

/-! ### The loop -/

/-- A greeted session, a valid pattern, and names that a client reads and that fit in memory. -/
structure Peer.Scannable (readable : Bytes → Prop) (peer : Peer hash) (pattern : Text) : Prop where
  greeted : peer.conn.session.hello = true
  valid : TopicMatcher.isValidPattern (Utf8.encode pattern)
  short : (Utf8.encode pattern).length < 2 ^ 63
  readable : ∀ name ∈ matching peer.engine (Utf8.encode pattern), readable name
  names : ∀ name ∈ matching peer.engine (Utf8.encode pattern), name.length < 2 ^ 63
  few : (matching peer.engine (Utf8.encode pattern)).length < 2 ^ 63

theorem encodable_scanAnswer {next : Bytes} {names : List Bytes} (cursor : next.length < 2 ^ 63)
    (few : names.length < 2 ^ 63) (short : ∀ name ∈ names, name.length < 2 ^ 63) :
    (scanAnswer next names).Encodable := by
  have inner : IrspValue.Encodable (.array (names.map .bulk)) := by
    refine ⟨by simpa [Printable] using few, fun w child => ?_⟩
    obtain ⟨name, found, rfl⟩ := List.mem_map.mp child
    exact (everywhere_leaf rfl).mpr (short name found)
  refine (everywhere_iff _).mpr ⟨?_, fun w child => ?_⟩
  · show 2 < 2 ^ 63
    decide
  have cases_ : w = .bulk next ∨ w = .array (names.map .bulk) := by
    simpa [scanAnswer, children] using child
  rcases cases_ with rfl | rfl
  · exact (everywhere_leaf rfl).mpr cursor
  · exact inner

theorem Reads.texts (reads : api.Reads readable) {names : List Bytes}
    (given : ∀ name ∈ names, readable name) :
    (names.map ClientValue.bytes).mapM api.text = some (names.map Utf8.decode) := by
  induction names with
  | nil => rfl
  | cons name rest ih =>
    have first := reads.text name (given name List.mem_cons_self)
    have others := ih fun n found => given n (List.mem_cons_of_mem name found)
    rw [List.map_cons, List.mapM_cons, first, others]
    rfl

/-- The client's loop is the one over the commands, with every name read as a text. -/
theorem Reads.scanAll_eq (reads : api.Reads readable) (digit : readable zero)
    (room : 5 ≤ lim.items) {pattern : Text} (count : UInt64) (d : Dispatcher) (id : SubscriberId)
    (fuel : Nat) {peer : Peer hash} (scannable : peer.Scannable readable pattern) {cursor : Bytes}
    (at_name : cursor = zero ∨ cursor ∈ matching peer.engine (Utf8.encode pattern)) :
    api.scanAll lim writer pattern count fuel peer (Utf8.decode cursor) =
      (iterateStore peer.engine writer d id (Utf8.encode pattern) (some count) fuel cursor).map
        fun names => names.map Utf8.decode := by
  induction fuel generalizing peer cursor with
  | zero => rfl
  | succ fuel ih =>
    have legible {b : Bytes} (held : b = zero ∨
        b ∈ matching peer.engine (Utf8.encode pattern)) : readable b := by
      rcases held with rfl | stored
      · exact digit
      · exact scannable.readable b stored
    have sized {b : Bytes} (held : b = zero ∨
        b ∈ matching peer.engine (Utf8.encode pattern)) : b.length < 2 ^ 63 := by
      rcases held with rfl | stored
      · decide +kernel
      · exact scannable.names b stored
    have sent := reads.utf8 cursor (legible at_name)
    have short : ∀ t ∈ [Utf8.decode cursor, pattern], (Utf8.encode t).length < 2 ^ 63 := by
      intro t mem
      simp only [List.mem_cons, List.not_mem_nil, or_false] at mem
      rcases mem with rfl | rfl
      · rw [sent]
        exact sized at_name
      · exact scannable.short
    let batch := scan peer.engine cursor (Utf8.encode pattern) count
    have same : peer.batch (Utf8.decode cursor) pattern count = batch := by
      rw [Peer.batch, sent]
    obtain ⟨part, next⟩ := scan_batch peer.engine cursor (Utf8.encode pattern) count
    have few : batch.names.length < 2 ^ 63 := Nat.lt_of_le_of_lt part.length_le scannable.few
    have printable : (scanAnswer (peer.batch (Utf8.decode cursor) pattern count).nextCursor
        (peer.batch (Utf8.decode cursor) pattern count).names).Encodable := by
      rw [same]
      exact encodable_scanAnswer (sized next) few
        fun name found => scannable.names name (part.subset found)
    obtain ⟨conn, session, answered⟩ := reads.request_scan room scannable.greeted
      scannable.valid count short printable
    have read : api.scanResult (.array [.bytes batch.nextCursor,
        .array (batch.names.map .bytes)]) =
        some (Utf8.decode batch.nextCursor, batch.names.map Utf8.decode) := by
      rw [scanResult, reads.text _ (legible next),
        reads.texts fun name found => scannable.readable name (part.subset found)]
      rfl
    have ends : Utf8.decode batch.nextCursor = "0".toList ↔ batch.nextCursor = zero := by
      have word : Utf8.encode "0".toList = zero := encode_toList (by simp)
      constructor
      · intro last
        rw [← reads.utf8 _ (legible next), last, word]
      · intro last
        rw [last, ← word, Utf8.decode_encode_text]
    rw [scanAll, answered, same, iterateStore_succ peer.engine writer d id _ scannable.valid]
    simp only [Option.getD_some, read, ends]
    split_ifs with last
    · rfl
    · have later : Peer.Scannable readable { peer with conn := conn } pattern :=
        { scannable with greeted := session ▸ scannable.greeted }
      rw [ih later (.inr (next.resolve_left last)), Option.map_map, Option.map_map]
      congr 1
      funext names
      exact (List.map_append).symm

/-- `scan` called until the next cursor is `"0"` ends, with the first of the matching names. They
are all of them if and only if no batch but the last one ends in the name `"0"`. -/
def ScanEnds (api : Api K) (lim : Irsp1Codec.VectorLimits)
    (writer : Option (TagWriter (TagEngine hash))) (peer : Peer hash) (pattern : Text)
    (count : UInt64) : Prop :=
  ∃ fuel names, api.scanAll lim writer pattern count fuel peer "0".toList = some names ∧
    names.map Utf8.encode <+: matching peer.engine (Utf8.encode pattern) ∧
    (names.map Utf8.encode = matching peer.engine (Utf8.encode pattern) ↔
      ¬ZeroEndsBatch (matching peer.engine (Utf8.encode pattern)) (batchLimit count))

theorem Reads.scan_ends (reads : api.Reads readable) (digit : readable zero)
    (room : 5 ≤ lim.items) {peer : Peer hash} {pattern : Text}
    (scannable : peer.Scannable readable pattern) (count : UInt64) :
    api.ScanEnds lim writer peer pattern count := by
  let all := matching peer.engine (Utf8.encode pattern)
  obtain ⟨fuel, n, returned, whole⟩ := iterateStore_returns peer.engine writer peer.dispatcher
    peer.conn.session.id (some count) scannable.valid all [] zero rfl (.inl ⟨rfl, rfl⟩)
  have start : "0".toList = Utf8.decode zero := by
    have word : Utf8.encode "0".toList = zero := encode_toList (by simp)
    rw [← word, Utf8.decode_encode_text]
  have looped : api.scanAll lim writer pattern count fuel peer (Utf8.decode zero) =
      (some (all.take n)).map fun names => names.map Utf8.decode := by
    rw [← returned]
    exact reads.scanAll_eq digit room count _ _ fuel scannable (.inl rfl)
  rw [← start, Option.map_some] at looped
  have spelt : ((all.take n).map Utf8.decode).map Utf8.encode = all.take n := by
    rw [List.map_map]
    refine (List.map_congr_left fun name found => ?_).trans (List.map_id _)
    exact reads.utf8 name (scannable.readable name (List.mem_of_mem_take found))
  refine ⟨fuel, (all.take n).map Utf8.decode, looped, ?_, ?_⟩
  · rw [spelt]
    exact List.take_prefix _ _
  · rw [spelt, List.take_eq_self_iff]
    exact whole

end Api

/-- Whatever an engine holds, `scan` of either client, called until the next cursor is `"0"`, comes
to an end and gives the matching names in order: all of them, unless one of its batches but the
last ends in the name `"0"`. A JavaScript number holds a count up to `2^53`. -/
theorem scan_told (py : Python.Interpreter) (depth : Nat) {hash : Bytes → UInt64}
    (writer : Option (TagWriter (TagEngine hash))) {lim : Irsp1Codec.VectorLimits}
    (room : 5 ≤ lim.items) (peer : Api.Peer hash) (pattern : Text) (count : UInt64) :
    (peer.Scannable JavaScript.Readable pattern → count.toNat ≤ 2 ^ 53 →
      (JavaScript.api (depth + 3)).ScanEnds lim writer peer pattern count) ∧
    (peer.Scannable Python.Readable pattern →
      (Python.api py (depth + 3)).ScanEnds lim writer peer pattern count) := by
  have word : Utf8.encode "0".toList = zero := encode_toList (by simp)
  have plain : ¬IrspValue.byteOrderMark <+: zero := by decide
  constructor
  · intro scannable _
    exact (JavaScript.reads depth).scan_ends ⟨⟨_, word⟩, plain⟩ room scannable count
  · intro scannable
    exact (Python.reads py depth).scan_ends ⟨_, word⟩ room scannable count

/-- A greeted session of a server whose engine holds two tags. -/
def twoTags : Api.Peer fun _ => 0 where
  dispatcher := .empty
  conn := { session := ⟨1, true⟩ }
  engine := ((TagEngine.empty.writeImpl (.of (ascii "a/b") .null 0)).2.writeImpl
    (.of (ascii "a/c") .null 0)).2

theorem scan_told_twoTags :
    (JavaScript.api 3).ScanEnds Irsp1Codec.x64Limits none twoTags "a/#".toList 1 ∧
      (Python.api Python.asciiInterpreter 3).ScanEnds Irsp1Codec.x64Limits none twoTags
        "a/#".toList 1 := by
  have stored : matching twoTags.engine (Utf8.encode "a/#".toList) =
      [ascii "a/b", ascii "a/c"] := by
    decide +kernel
  have names : ∀ name ∈ matching twoTags.engine (Utf8.encode "a/#".toList),
      JavaScript.Readable name := by
    rw [stored]
    intro name found
    simp only [List.mem_cons, List.not_mem_nil, or_false] at found
    rcases found with rfl | rfl
    · exact ⟨⟨_, encode_toList (by simp)⟩, by decide⟩
    · exact ⟨⟨_, encode_toList (by simp)⟩, by decide⟩
  have room : 5 ≤ Irsp1Codec.x64Limits.items := by decide
  have told := scan_told Python.asciiInterpreter 0 none room twoTags "a/#".toList 1
  have plain : twoTags.Scannable JavaScript.Readable "a/#".toList :=
    { greeted := rfl, valid := by decide +kernel, short := by decide +kernel, readable := names,
      names := by rw [stored]; decide, few := by rw [stored]; decide }
  exact ⟨told.1 plain (by decide), told.2 { plain with readable := fun name found =>
    (names name found).1 }⟩

end

end IndustrialRuntime.Sdk
