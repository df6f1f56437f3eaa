import IndustrialRuntime.Codec.IrspValue

namespace IndustrialRuntime.Irsp.Irsp1Codec

inductive Status where
  | ok
  | incomplete
  | error
  deriving DecidableEq

structure ParseState where
  status : Status
  value : IrspValue
  pos : Nat

/-- `max_size()` of `std::vector<IrspValue>` and of the vector of map entries. -/
structure VectorLimits where
  items : Nat
  entries : Nat
  items_lt : items < 2 ^ 63
  entries_lt : entries < 2 ^ 63

/-- x86-64 with libstdc++: a value takes 72 bytes and a map entry 144. -/
def x64Limits : VectorLimits where
  items := (2 ^ 63 - 1) / 72
  entries := (2 ^ 63 - 1) / 144
  items_lt := by decide
  entries_lt := by decide

/-- A request for memory: the elements of a vector, or the bytes of a `std::string`. -/
inductive Request where
  | items (count : Nat)
  | entries (count : Nat)
  | text (size : Nat)
  deriving DecidableEq

namespace Request

def size : Request → Nat
  | .items n | .entries n | .text n => n

/-- More than `max_size()`. A text is cut from a buffer and never is. -/
def TooLong (lim : VectorLimits) : Request → Prop
  | .items count => lim.items < count
  | .entries count => lim.entries < count
  | .text _ => False

instance decidableTooLong (lim : VectorLimits) : DecidablePred (TooLong lim)
  | .items count => inferInstanceAs (Decidable (lim.items < count))
  | .entries count => inferInstanceAs (Decidable (lim.entries < count))
  | .text _ => inferInstanceAs (Decidable False)

end Request

/-- How a parse can fail to return: `std::length_error` and `std::bad_alloc`.
`depth` is no behaviour of the code: it marks an exhausted recursion bound. -/
inductive Raised where
  | lengthError
  | badAlloc
  | depth
  deriving DecidableEq

/-- The memory under `decode`. What is asked for is a vector or a text that the buffer holds at
some place: there it is asked for once, place after place, and nothing is asked for once something
was freed. So an answer for each place is an answer for each state the allocator can be in. -/
structure Heap where
  limits : VectorLimits
  grants : Nat → Request → Bool

namespace Heap

variable (mem : Heap)

/-- `std::vector::reserve` on an empty vector, or the constructor of a `std::string`. Nothing is
allocated for a size of 0. -/
def allocate (place : Nat) (r : Request) : Except Raised Unit :=
  if r.TooLong mem.limits then .error .lengthError
  else if r.size = 0 ∨ mem.grants place r then .ok ()
  else .error .badAlloc

/-- The request is answered with an exception. -/
def Refuses (place : Nat) (r : Request) : Prop :=
  r.TooLong mem.limits ∨ r.size ≠ 0 ∧ mem.grants place r = false

instance decidableRefuses (place : Nat) : DecidablePred (mem.Refuses place) := fun r =>
  inferInstanceAs (Decidable (r.TooLong mem.limits ∨ r.size ≠ 0 ∧ mem.grants place r = false))

end Heap

/-- A heap that refuses nothing a vector can hold. -/
def VectorLimits.roomy (lim : VectorLimits) : Heap := ⟨lim, fun _ _ => true⟩

instance : Coe VectorLimits Heap := ⟨VectorLimits.roomy⟩

/-- `std::string_view::substr` -/
def substr (b : Bytes) (pos n : Nat) : Bytes := (b.drop pos).take n

/-- Offset of the first CRLF. -/
def crlfOffset : Bytes → Option Nat
  | [] => none
  | c :: rest => if c = 13 ∧ rest.head? = some 10 then some 0 else (crlfOffset rest).map (· + 1)

/-- Index of the `'\r'` of the first CRLF from `pos` on. -/
def findCrlf (b : Bytes) (pos : Nat) : Option Nat := (crlfOffset (b.drop pos)).map (pos + ·)

/-- The whole line must be the number. -/
def parseInt (s : Bytes) : Option Int64 :=
  match fromChars s with
  | some (v, []) => some v
  | _ => none

/-- An error line up to its first space. -/
def errorCode (line : Bytes) : Bytes := line.takeWhile (· != 32)

/-- What stands behind the first space. -/
def errorMessage (line : Bytes) : Bytes := (line.dropWhile (· != 32)).tail

/-- The element loop of the `'*'` branch, `count` elements still to come. -/
def parseItems (parse : Nat → Except Raised ParseState) (pos : Nat) :
    Nat → List IrspValue → Nat → Except Raised ParseState
  | 0, items, cur => .ok ⟨.ok, .array items, cur⟩
  | count + 1, items, cur =>
    match parse cur with
    | .error e => .error e
    | .ok st =>
      if st.status ≠ .ok then .ok ⟨st.status, .null, pos⟩
      else parseItems parse pos count (items ++ [st.value]) st.pos

/-- The pair loop of the `'%'` branch, `pairs` pairs still to come. -/
def parseEntries (parse : Nat → Except Raised ParseState) (pos : Nat) :
    Nat → List (IrspValue × IrspValue) → Nat → Except Raised ParseState
  | 0, entries, cur => .ok ⟨.ok, .map entries, cur⟩
  | pairs + 1, entries, cur =>
    match parse cur with
    | .error e => .error e
    | .ok k =>
      if k.status ≠ .ok then .ok ⟨k.status, .null, pos⟩
      else
        match parse k.pos with
        | .error e => .error e
        | .ok v =>
          if v.status ≠ .ok then .ok ⟨v.status, .null, pos⟩
          else parseEntries parse pos pairs (entries ++ [(k.value, v.value)]) v.pos

section

variable (mem : Heap)

/-- The `'$'` branch. Both summands of `need` are below `2^63` (a buffer's size
and a non-negative `int64_t`), so the sum does not wrap. -/
def parseBulk (b line : Bytes) (pos afterLine : Nat) : Except Raised ParseState :=
  match parseInt line with
  | none => .ok ⟨.error, .null, pos⟩
  | some len =>
    if len.toInt < 0 then .ok ⟨.ok, .null, afterLine⟩
    else
      let ulen := len.toInt.toNat
      let need := afterLine + ulen + 2
      if b.length < need then .ok ⟨.incomplete, .null, pos⟩
      else if b[afterLine + ulen]? ≠ some 13 ∨ b[afterLine + ulen + 1]? ≠ some 10 then
        .ok ⟨.error, .null, pos⟩
      else do
        mem.allocate afterLine (.text ulen)
        .ok ⟨.ok, .bulk (substr b afterLine ulen), need⟩

/-- The `switch` over the type byte, once the line is complete. A vector is asked for at its type
byte, a text at its first byte. -/
def parseLine (b : Bytes) (parse : Nat → Except Raised ParseState) (type : UInt8) (line : Bytes)
    (pos afterLine : Nat) : Except Raised ParseState :=
  if type = 43 then do
    mem.allocate (pos + 1) (.text line.length)
    .ok ⟨.ok, .simple line, afterLine⟩
  else if type = 45 then do
    let code := errorCode line
    let message := errorMessage line
    mem.allocate (pos + 1) (.text code.length)
    mem.allocate (pos + 1 + code.length + 1) (.text message.length)
    .ok ⟨.ok, .error code message, afterLine⟩
  else if type = 58 then
    match parseInt line with
    | none => .ok ⟨.error, .null, pos⟩
    | some v => .ok ⟨.ok, .integer v, afterLine⟩
  else if type = 36 then parseBulk mem b line pos afterLine
  else if type = 42 then
    match parseInt line with
    | none => .ok ⟨.error, .null, pos⟩
    | some count =>
      if count.toInt < 0 then .ok ⟨.ok, .null, afterLine⟩
      else do
        mem.allocate pos (.items count.toInt.toNat)
        parseItems parse pos count.toInt.toNat [] afterLine
  else if type = 37 then
    match parseInt line with
    | none => .ok ⟨.error, .null, pos⟩
    | some pairs =>
      if pairs.toInt < 0 then .ok ⟨.error, .null, pos⟩
      else do
        mem.allocate pos (.entries pairs.toInt.toNat)
        parseEntries parse pos pairs.toInt.toNat [] afterLine
  else .ok ⟨.error, .null, pos⟩

/-- `parseValue`, with the recursive calls as a parameter. -/
def parseBody (b : Bytes) (parse : Nat → Except Raised ParseState) (pos : Nat) :
    Except Raised ParseState :=
  match b[pos]? with
  | none => .ok ⟨.incomplete, .null, pos⟩
  | some type =>
    match findCrlf b (pos + 1) with
    | none => .ok ⟨.incomplete, .null, pos⟩
    | some lineEnd =>
      parseLine mem b parse type (substr b (pos + 1) (lineEnd - (pos + 1))) pos (lineEnd + 2)

/-- The recursion goes one level of nesting down, and every level starts after
the line of the one above, so the length of the buffer bounds the depth, for which
the call stack is taken to have room. -/
def parseValue (b : Bytes) : Nat → Nat → Except Raised ParseState
  | 0, _ => .error .depth
  | depth + 1, pos => parseBody mem b (parseValue b depth) pos

structure DecodeResult where
  status : Status
  value : IrspValue
  consumed : Nat

def decode (buffer : Bytes) : Except Raised DecodeResult :=
  (parseValue mem buffer (buffer.length + 1) 0).map fun st => ⟨st.status, st.value, st.pos⟩

end

def isSpace (c : UInt8) : Bool := c = 32 || c = 9 || c = 13 || c = 10

/-- The scan of `decodeInline`; `word` is the argument being read. -/
def inlineWords (word : Bytes) : Bytes → List Bytes
  | [] => if word.isEmpty then [] else [word]
  | c :: rest =>
    if isSpace c then
      if word.isEmpty then inlineWords [] rest else word :: inlineWords [] rest
    else inlineWords (word ++ [c]) rest

def decodeInline (line : Bytes) : List IrspValue := (inlineWords [] line).map .bulk

end IndustrialRuntime.Irsp.Irsp1Codec
