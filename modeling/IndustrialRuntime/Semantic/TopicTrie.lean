import IndustrialRuntime.Semantic.TopicLemmas
import Mathlib.Data.Finmap
import Mathlib.Data.Finset.Sort
import Mathlib.Algebra.BigOperators.Group.Finset.Basic

namespace IndustrialRuntime.Irsp

abbrev SubscriberId := Nat

/-- `TopicTrie::Node`. Only `find` and `operator[]` are used on `children`,
so the map is the partial function they look up. -/
structure Node where
  children : Bytes → Option Node
  hashChild : Option Node
  subscribers : Finset SubscriberId

namespace Node

def empty : Node := ⟨fun _ => none, none, ∅⟩

/-- The walk of `subscribe`: creates the missing nodes and inserts `id`. -/
def insertAt (id : SubscriberId) : List Bytes → Node → Node
  | [], n => { n with subscribers := insert id n.subscribers }
  | seg :: segs, n =>
    if seg = hash then
      let child := n.hashChild.getD empty
      { n with hashChild := some { child with subscribers := insert id child.subscribers } }
    else
      let child := (n.children seg).getD empty
      { n with children := Function.update n.children seg (some (insertAt id segs child)) }

/-- The walk of `unsubscribe`; `none` is a missing node or an absent `id`. -/
def eraseAt (id : SubscriberId) : List Bytes → Node → Option Node
  | [], n =>
    if id ∈ n.subscribers then some { n with subscribers := n.subscribers.erase id } else none
  | seg :: segs, n =>
    if seg = hash then
      n.hashChild.bind fun child =>
        if id ∈ child.subscribers then
          some { n with hashChild := some { child with subscribers := child.subscribers.erase id } }
        else none
    else
      (n.children seg).bind fun child =>
        (eraseAt id segs child).map fun c =>
          { n with children := Function.update n.children seg (some c) }

def hashSubscribers (n : Node) : Finset SubscriberId :=
  n.hashChild.elim ∅ Node.subscribers

def collect (node : Node) : List Bytes → Finset SubscriberId → Finset SubscriberId
  | [], out => (out ∪ node.hashSubscribers) ∪ node.subscribers
  | seg :: segs, out =>
    let out := out ∪ node.hashSubscribers
    let out := (node.children seg).elim out (fun child => collect child segs out)
    (node.children plus).elim out (fun child => collect child segs out)

end Node

/-- `idPatterns` is the reverse index `std::unordered_map<SubscriberId, std::set<std::string>>`. -/
structure TopicTrie where
  root : Node
  idPatterns : Finmap (fun _ : SubscriberId => Finset Bytes)

namespace TopicTrie

def empty : TopicTrie := ⟨Node.empty, ∅⟩

/-- `idPatterns_[id]`, read without creating the entry. -/
def patterns (t : TopicTrie) (id : SubscriberId) : Finset Bytes :=
  (t.idPatterns.lookup id).getD ∅

def subscribe (t : TopicTrie) (pattern : Bytes) (id : SubscriberId) : Bool × TopicTrie :=
  if !TopicMatcher.isValidPattern pattern then (false, t)
  else
    (true,
      { root := t.root.insertAt id (splitTopic pattern)
        idPatterns := t.idPatterns.insert id (insert pattern (t.patterns id)) })

/-- Reverse-index part of `unsubscribe`: an entry left empty is erased. -/
def dropPattern (idPatterns : Finmap (fun _ : SubscriberId => Finset Bytes))
    (pattern : Bytes) (id : SubscriberId) : Finmap (fun _ : SubscriberId => Finset Bytes) :=
  match idPatterns.lookup id with
  | none => idPatterns
  | some ps =>
    if ps.erase pattern = ∅ then idPatterns.erase id
    else idPatterns.insert id (ps.erase pattern)

def unsubscribe (t : TopicTrie) (pattern : Bytes) (id : SubscriberId) : Bool × TopicTrie :=
  match t.root.eraseAt id (splitTopic pattern) with
  | none => (false, t)
  | some root => (true, { root := root, idPatterns := dropPattern t.idPatterns pattern id })

/-- The loop runs over a copy of the pattern set, in the set's ascending order. -/
def unsubscribeAll (t : TopicTrie) (id : SubscriberId) : TopicTrie :=
  match t.idPatterns.lookup id with
  | none => t
  | some patterns =>
    (patterns.sort (· ≤ ·)).foldl (fun t pattern => (t.unsubscribe pattern id).2) t

/-- `TopicTrie::match` -/
def matchTopic (t : TopicTrie) (topic : Bytes) : List SubscriberId :=
  let found := if TopicMatcher.isConcrete topic then t.root.collect (splitTopic topic) ∅ else ∅
  found.sort (· ≤ ·)

def countFor (t : TopicTrie) (id : SubscriberId) : Nat :=
  (t.idPatterns.lookup id).elim 0 Finset.card

def size (t : TopicTrie) : Nat := ∑ id ∈ t.idPatterns.keys, t.countFor id

end TopicTrie

end IndustrialRuntime.Irsp
