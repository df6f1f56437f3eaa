import IndustrialRuntime.Lib.Bytes
import Mathlib.Data.List.Basic

namespace IndustrialRuntime.Irsp

/-- `'/'` -/
def slash : UInt8 := 47

/-- The segment `"+"`. -/
def plus : Bytes := [43]

/-- The segment `"#"`. -/
def hash : Bytes := [35]

/-- Splits at every `'/'`; the empty string has no segments at all. -/
def splitTopic (topic : Bytes) : List Bytes :=
  if topic.isEmpty then [] else topic.splitOn slash

def segmentHasWildcardChar (seg : Bytes) : Bool := seg.contains 43 || seg.contains 35

namespace TopicMatcher

/-- The loop of `isValidPattern`; `i != segs.size() - 1` is a nonempty rest. -/
def validSegments : List Bytes → Bool
  | [] => true
  | seg :: segs =>
    if seg.isEmpty then false
    else if seg = hash then
      if segs ≠ [] then false else validSegments segs
    else if seg = plus then validSegments segs
    else if segmentHasWildcardChar seg then false
    else validSegments segs

def isValidPattern (pattern : Bytes) : Bool :=
  if pattern.isEmpty then false else validSegments (splitTopic pattern)

def isConcrete (topic : Bytes) : Bool :=
  if !isValidPattern topic then false
  else (splitTopic topic).all (fun seg => !(seg = plus || seg = hash))

/-- The loop of `matches` over the remaining segments `p[i..]` and `t[j..]`. -/
def matchSegments : List Bytes → List Bytes → Bool
  | [], t => t.isEmpty
  | p :: ps, t =>
    if p = hash then true
    else
      match t with
      | [] => false
      | s :: ts => if p = plus ∨ p = s then matchSegments ps ts else false

def «matches» (pattern topic : Bytes) : Bool :=
  if !isValidPattern pattern || !isConcrete topic then false
  else matchSegments (splitTopic pattern) (splitTopic topic)

end TopicMatcher

end IndustrialRuntime.Irsp
