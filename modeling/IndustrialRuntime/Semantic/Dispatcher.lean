import IndustrialRuntime.Codec.IrspValue
import IndustrialRuntime.Semantic.TagSource
import IndustrialRuntime.Semantic.TopicTrie

namespace IndustrialRuntime.Irsp

structure EventFilter where
  minSeverityRank : Nat := 0
  category : Bytes := []
  deriving DecidableEq, Repr

structure Session where
  id : SubscriberId
  hello : Bool := false
  deriving DecidableEq, Repr

/-- `std::toupper` of the C locale. -/
def toUpperByte (b : UInt8) : UInt8 := if 97 ≤ b ∧ b ≤ 122 then b - 32 else b

def toUpper (s : Bytes) : Bytes := s.map toUpperByte

/-- `none` is the answer -1. -/
def severityRank (s : Bytes) : Option Nat :=
  if s = ascii "info" then some 0
  else if s = ascii "warning" then some 1
  else if s = ascii "alarm" then some 2
  else if s = ascii "critical" then some 3
  else none

/-- `from_chars` into `std::size_t` that has to consume the whole string. -/
def parseCount (s : Bytes) : Option UInt64 :=
  if s ≠ [] ∧ s.all isDigit ∧ decimalValue s < 2 ^ 64 then
    some (UInt64.ofNat (decimalValue s))
  else none

def tagToMap (rec : TagRecord) : IrspValue :=
  .map [(.bulk (ascii "name"), .bulk rec.name), (.bulk (ascii "type"), .bulk rec.type),
    (.bulk (ascii "ts"), .integer rec.ts), (.bulk (ascii "value"), .bulk rec.value)]

def makeError (code message : String) : IrspValue := .error (ascii code) (ascii message)

/-- The subscription registry of a `Dispatcher`. -/
structure Dispatcher where
  tagSubs : TopicTrie
  eventSubs : Finmap (fun _ : SubscriberId => EventFilter)

namespace Dispatcher

def empty : Dispatcher := ⟨TopicTrie.empty, ∅⟩

/-- What a call of `handle` leaves behind, and its reply. -/
structure Handled (ω : Type*) where
  reply : IrspValue
  session : Session
  dispatcher : Dispatcher
  store : ω

/-- The data of the elements when every element is a bulk string. -/
def commandParts : List IrspValue → Option (List Bytes)
  | [] => some []
  | .bulk data :: items => (commandParts items).map (data :: ·)
  | _ :: _ => none

variable {ω : Type*}

def helloReply : IrspValue :=
  .map [(.bulk (ascii "server"), .bulk (ascii "industrial-runtime/1.0.0")),
    (.bulk (ascii "version"), .bulk (ascii "1")), (.bulk (ascii "encoding"), .bulk (ascii "irsp1")),
    (.bulk (ascii "transports"), .bulk (ascii "websocket")),
    (.bulk (ascii "capabilities"), .bulk (ascii "tag,event"))]

def getTag (tags : TagSource ω) (store : ω) (topic : Bytes) : IrspValue :=
  (tags.read store topic).elim .null tagToMap

/-- `SCAN <cursor> <pattern> [COUNT <n>]` -/
def scan (tags : TagSource ω) (store : ω) (args : List Bytes) : IrspValue :=
  let run (cursor pattern : Bytes) (count : UInt64) : IrspValue :=
    if !TopicMatcher.isValidPattern pattern then makeError "ERR" "invalid scan pattern"
    else
      let res := tags.scan store cursor pattern count
      .array [.bulk res.nextCursor, .array (res.names.map .bulk)]
  match args with
  | [cursor, pattern] => run cursor pattern 0
  | [cursor, pattern, keyword, n] =>
    if toUpper keyword ≠ ascii "COUNT" then makeError "ERR" "expected COUNT <n>"
    else
      match parseCount n with
      | none => makeError "ERR" "expected COUNT <n>"
      | some count => run cursor pattern count
  | _ => makeError "WRONG_ARITY" "SCAN <cursor> <pattern> [COUNT <n>]"

def subscribeEach (tagSubs : TopicTrie) (topics : List Bytes) (id : SubscriberId) : TopicTrie :=
  topics.foldl (fun t topic => (t.subscribe topic id).2) tagSubs

def unsubscribeEach (tagSubs : TopicTrie) (topics : List Bytes) (id : SubscriberId) : TopicTrie :=
  topics.foldl (fun t topic => (t.unsubscribe topic id).2) tagSubs

def countReply (tagSubs : TopicTrie) (id : SubscriberId) : IrspValue :=
  .integer (Int64.ofNat (tagSubs.countFor id))

/-- The common shape of `WATCH` and `SUBSCRIBE`: every argument is checked
before the first one is subscribed. -/
def subscribeCommand (d : Dispatcher) (id : SubscriberId) (accepts : Bytes → Bool)
    (arity invalid : String) (args : List Bytes) : IrspValue × Dispatcher :=
  if args.isEmpty then (makeError "WRONG_ARITY" arity, d)
  else if !args.all accepts then (makeError "ERR" invalid, d)
  else
    let tagSubs := subscribeEach d.tagSubs args id
    (countReply tagSubs id, { d with tagSubs := tagSubs })

def watch (d : Dispatcher) (id : SubscriberId) (args : List Bytes) : IrspValue × Dispatcher :=
  d.subscribeCommand id TopicMatcher.isConcrete "WATCH requires <topic>..."
    "WATCH requires concrete topics" args

def subscribe (d : Dispatcher) (id : SubscriberId) (args : List Bytes) : IrspValue × Dispatcher :=
  d.subscribeCommand id TopicMatcher.isValidPattern "SUBSCRIBE requires <pattern>..."
    "invalid subscribe pattern" args

/-- `UNWATCH` and `UNSUBSCRIBE` -/
def unsubscribe (d : Dispatcher) (id : SubscriberId) (args : List Bytes) :
    IrspValue × Dispatcher :=
  let tagSubs :=
    if args.isEmpty then d.tagSubs.unsubscribeAll id else unsubscribeEach d.tagSubs args id
  (countReply tagSubs id, { d with tagSubs := tagSubs })

def subEvent (d : Dispatcher) (id : SubscriberId) (args : List Bytes) : IrspValue × Dispatcher :=
  let store (filter : EventFilter) : IrspValue × Dispatcher :=
    (.integer 1, { d with eventSubs := d.eventSubs.insert id filter })
  match args with
  | [] => store {}
  | severity :: rest =>
    match severityRank severity with
    | none => (makeError "ERR" "unknown severity", d)
    | some rank => store { minSeverityRank := rank, category := rest.head?.getD [] }

def unsubEvent (d : Dispatcher) (id : SubscriberId) : IrspValue × Dispatcher :=
  (.integer 0, { d with eventSubs := d.eventSubs.erase id })

/-- `SET <topic> <type> <value>` -/
def set (writer : Option (TagWriter ω)) (store : ω) (args : List Bytes) : IrspValue × ω :=
  match args with
  | [topic, type, value] =>
    match writer with
    | none => (makeError "NOT_IMPLEMENTED" "write-back not available", store)
    | some write =>
      let written := write store topic type value
      match written.1 with
      | .accepted => (.simple (ascii "OK"), written.2)
      | .notHandled => (makeError "NOT_FOUND" "no writer for topic", written.2)
      | .error => (makeError "ERR" "write failed", written.2)
  | _ => (makeError "WRONG_ARITY" "SET <topic> <type> <value>", store)

def hello (session : Session) (args : List Bytes) : IrspValue × Session :=
  match args with
  | [] => (makeError "WRONG_ARITY" "HELLO requires <version>", session)
  | version :: _ =>
    if version ≠ ascii "1" then
      (makeError "UNSUPPORTED_VERSION" "only version 1 is supported", session)
    else (helloReply, { session with hello := true })

/-- The commands allowed after the handshake. -/
def command (tags : TagSource ω) (writer : Option (TagWriter ω)) (d : Dispatcher)
    (session : Session) (store : ω) (word : Bytes) (args : List Bytes) : Handled ω :=
  let name := toUpper word
  let answer (reply : IrspValue) : Handled ω := ⟨reply, session, d, store⟩
  let update (r : IrspValue × Dispatcher) : Handled ω := ⟨r.1, session, r.2, store⟩
  if name = ascii "PING" then
    answer (match args with | [] => .simple (ascii "PONG") | payload :: _ => .bulk payload)
  else if name = ascii "BYE" then answer (.simple (ascii "OK"))
  else if name = ascii "AUTH" then answer (makeError "NOT_IMPLEMENTED" "auth is reserved")
  else if name = ascii "GET" then
    answer (match args with
      | [topic] => getTag tags store topic
      | _ => makeError "WRONG_ARITY" "GET requires <topic>")
  else if name = ascii "MGET" then
    answer (if args.isEmpty then makeError "WRONG_ARITY" "MGET requires <topic>..."
      else .array (args.map (getTag tags store)))
  else if name = ascii "EXISTS" then
    answer (match args with
      | [topic] => .integer (if tags.contains store topic then 1 else 0)
      | _ => makeError "WRONG_ARITY" "EXISTS requires <topic>")
  else if name = ascii "SCAN" then answer (scan tags store args)
  else if name = ascii "WATCH" then update (d.watch session.id args)
  else if name = ascii "SUBSCRIBE" then update (d.subscribe session.id args)
  else if name = ascii "UNWATCH" ∨ name = ascii "UNSUBSCRIBE" then
    update (d.unsubscribe session.id args)
  else if name = ascii "SUBEVENT" then update (d.subEvent session.id args)
  else if name = ascii "UNSUBEVENT" then update (d.unsubEvent session.id)
  else if name = ascii "SET" then
    let r := set writer store args
    ⟨r.1, session, d, r.2⟩
  else if name = ascii "SUBSTREAM" ∨ name = ascii "UNSUBSTREAM" then
    answer (makeError "NOT_IMPLEMENTED" "stream subscription is reserved for V2")
  else answer (.error (ascii "UNKNOWN_COMMAND") word)

def handle (tags : TagSource ω) (writer : Option (TagWriter ω)) (d : Dispatcher)
    (session : Session) (store : ω) (request : IrspValue) : Handled ω :=
  let answer (reply : IrspValue) : Handled ω := ⟨reply, session, d, store⟩
  match request with
  | .array (item :: items) =>
    match commandParts (item :: items) with
    | some (word :: args) =>
      if toUpper word ≠ ascii "HELLO" ∧ !session.hello then
        answer (makeError "NOT_READY" "HELLO required first")
      else if toUpper word = ascii "HELLO" then
        let r := hello session args
        ⟨r.1, r.2, d, store⟩
      else command tags writer d session store word args
    | _ => answer (makeError "PROTOCOL_ERROR" "command elements must be bulk strings")
  | _ => answer (makeError "PROTOCOL_ERROR" "expected non-empty command array")

def onSessionClosed (d : Dispatcher) (id : SubscriberId) : Dispatcher :=
  ⟨d.tagSubs.unsubscribeAll id, d.eventSubs.erase id⟩

def tagSubscribers (d : Dispatcher) (topic : Bytes) : List SubscriberId :=
  d.tagSubs.matchTopic topic

/-- `eventSubscribers`, ascending as the source sorts them. -/
def eventSubscribers (d : Dispatcher) (severityRank : Int) (category : Bytes) :
    List SubscriberId :=
  let selected (id : SubscriberId) : Prop := ∃ filter, d.eventSubs.lookup id = some filter ∧
    (filter.minSeverityRank : Int) ≤ severityRank ∧
      (filter.category = [] ∨ filter.category = category)
  (d.eventSubs.keys.filter (fun id => decide (selected id))).sort (· ≤ ·)

end Dispatcher

end IndustrialRuntime.Irsp
