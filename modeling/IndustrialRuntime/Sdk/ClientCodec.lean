import IndustrialRuntime.Codec.Irsp1Codec
import IndustrialRuntime.Lib.Utf8

namespace IndustrialRuntime.Sdk

/-- What `decode` makes of a frame, in JavaScript and in Python; `K` are the keys of an object or
a dict. A map holds its properties in the order in which they were added. -/
inductive ClientValue (K : Type) where
  | null
  | text (value : Text)
  | error (code message : Text)
  | integer (value : Int)
  | bytes (value : Bytes)
  | array (items : List (ClientValue K))
  | map (properties : List (K × ClientValue K))

/-- An exception out of `decode`: the frame is incomplete, its type byte unknown (with the byte
that the message shows), a line or a key is no UTF-8, a number no number, a key no string or
bytes, or the nesting is too deep for the call stack. -/
inductive Failure where
  | incomplete
  | unknownType (shown : Option UInt8)
  | badText
  | badNumber
  | badKey
  | stack
  deriving DecidableEq

/-- Where the two implementations of `decode` differ. A length that is `none` is a NaN, and
`shown` is the type byte as the message for an unknown one has it, given the frame, the byte,
the position after the line and the line. -/
structure Dialect (K : Type) where
  text : Bytes → Except Failure Text
  integer : Text → Except Failure Int
  length : Text → Except Failure (Option Int)
  key : ClientValue K → Except Failure K
  put : List (K × ClientValue K) → K → ClientValue K → List (K × ClientValue K)
  shown : Bytes → UInt8 → Nat → Text → Option UInt8

/-- How far the scan of `readLine` gets: to a CRLF, else to the last byte. -/
def lineLength : Bytes → Nat
  | c :: d :: rest => if c = 13 ∧ d = 10 then 0 else lineLength (d :: rest) + 1
  | _ => 0

/-- `readLine`: the next line, and the position two bytes after its end. -/
def readLine (b : Bytes) (i : Nat) : Bytes × Nat :=
  (Irsp.Irsp1Codec.substr b i (lineLength (b.drop i)), i + lineLength (b.drop i) + 2)

section

variable {K : Type}

/-- The line of an error splits at its first space. -/
def splitError (line : Text) : ClientValue K :=
  match line.dropWhile (· != ' ') with
  | [] => .error line []
  | _ :: message => .error (line.takeWhile (· != ' ')) message

/-- `obj[key] = val`: the property keeps its place if it is there. -/
def assign [DecidableEq K] (properties : List (K × ClientValue K)) (key : K)
    (val : ClientValue K) : List (K × ClientValue K) :=
  if properties.any (fun e => e.1 = key) then
    properties.map fun e => if e.1 = key then (key, val) else e
  else properties ++ [(key, val)]

/-- A decoded value and the position after it; a position that is `none` is a NaN. -/
abbrev Parsed (K : Type) := ClientValue K × Option Nat

/-- The loop over the items of an array, `count` items still to come. -/
def parseItems (parse : Option Nat → Except Failure (Parsed K)) :
    Nat → List (ClientValue K) → Option Nat → Except Failure (Parsed K)
  | 0, items, i => .ok (.array items, i)
  | count + 1, items, i =>
    match parse i with
    | .error e => .error e
    | .ok (v, i) => parseItems parse count (items ++ [v]) i

variable (D : Dialect K)

/-- The loop over the pairs of a map, `count` pairs still to come. -/
def parseEntries (parse : Option Nat → Except Failure (Parsed K)) :
    Nat → List (K × ClientValue K) → Option Nat → Except Failure (Parsed K)
  | 0, properties, i => .ok (.map properties, i)
  | count + 1, properties, i =>
    match parse i with
    | .error e => .error e
    | .ok (k, i) =>
      match parse i with
      | .error e => .error e
      | .ok (v, i) =>
        match D.key k with
        | .error e => .error e
        | .ok key => parseEntries parse count (D.put properties key v) i

/-- What follows the type byte and its line; `i` is the position after the line. -/
def parseLine (b : Bytes) (parse : Option Nat → Except Failure (Parsed K)) (type : UInt8)
    (line : Text) (i : Nat) : Except Failure (Parsed K) :=
  if type = 43 then .ok (.text line, some i)
  else if type = 45 then .ok (splitError line, some i)
  else if type = 58 then (D.integer line).map fun n => (.integer n, some i)
  else if type = 36 then
    match D.length line with
    | .error e => .error e
    | .ok none => .ok (.bytes [], none)
    | .ok (some n) =>
      if n < 0 then .ok (.null, some i)
      else .ok (.bytes (Irsp.Irsp1Codec.substr b i n.toNat), some (i + n.toNat + 2))
  else if type = 42 then
    match D.length line with
    | .error e => .error e
    | .ok none => .ok (.array [], some i)
    | .ok (some n) =>
      if n < 0 then .ok (.null, some i) else parseItems parse n.toNat [] (some i)
  else if type = 37 then
    match D.length line with
    | .error e => .error e
    | .ok none => .ok (.map [], some i)
    | .ok (some n) => parseEntries D parse n.toNat [] (some i)
  else .error (.unknownType (D.shown b type i line))

/-- `parse`, with the recursive calls as a parameter. A NaN is not beyond the end of the frame,
and no byte is at it. -/
def parseBody (b : Bytes) (parse : Option Nat → Except Failure (Parsed K)) :
    Option Nat → Except Failure (Parsed K)
  | none => .error (.unknownType none)
  | some i =>
    match b[i]? with
    | none => .error .incomplete
    | some type =>
      match D.text (readLine b (i + 1)).1 with
      | .error e => .error e
      | .ok line => parseLine D b parse type line (readLine b (i + 1)).2

/-- The call stack has room for so many nested calls of `parse`. -/
def parse (b : Bytes) : Nat → Option Nat → Except Failure (Parsed K)
  | 0, _ => .error .stack
  | room + 1, i => parseBody D b (parse b room) i

def decodeWith (room : Nat) (b : Bytes) : Except Failure (ClientValue K) :=
  (parse D b room (some 0)).map Prod.fst

end

/-- A command name or an argument: a text, or raw bytes. -/
inductive Part where
  | text (value : Text)
  | bytes (value : Bytes)

/-- The bytes that a part is sent as. -/
def Part.sent : Part → Bytes
  | .text value => Utf8.encode value
  | .bytes value => value

/-- The value of a run of digits in a base, if each is one. -/
def digitsIn (base : Nat) (digits : Text) : Option Nat :=
  digits.foldl (fun value c =>
    let digit := if c.isDigit then c.toNat - 48
      else if c.isLower then c.toNat - 87
      else if c.isUpper then c.toNat - 55
      else base
    if digit < base then value.map (base * · + digit) else none) (some 0)

namespace JavaScript

def concat (chunks : List Bytes) : Bytes := chunks.flatten

def encodeRequest (parts : List Part) : Bytes :=
  concat ((ascii "*" ++ decimal parts.length ++ Irsp.crlf) :: parts.flatMap fun p =>
    [ascii "$" ++ decimal p.sent.length ++ Irsp.crlf, p.sent, Irsp.crlf])

def dropMark : Text → Text
  | '\uFEFF' :: rest => rest
  | text => text

/-- `new TextDecoder().decode`: without `ignoreBOM` it drops a leading byte order mark. -/
def textDecode (b : Bytes) : Text := dropMark (Utf8.decode b)

def asStr : ClientValue Text → Except Failure (Option Text)
  | .null => .ok none
  | .text value => .ok (some value)
  | .bytes value => .ok (some (textDecode value))
  | _ => .error .badKey

/-- White space and line terminators of ECMAScript. -/
def isWhiteSpace (c : Char) : Bool :=
  c ∈ ['\t', '\n', '\x0b', '\x0c', '\r', ' ', '\u00a0', '\u1680', '\u2028', '\u2029', '\u202f',
    '\u205f', '\u3000', '\uFEFF'] || ('\u2000' ≤ c && c ≤ '\u200a')

/-- `parseInt(line, 10)`; `none` is NaN. A number above `2^53` is not rounded to a `double` here:
as a length it is beyond the end of every frame, before and after. -/
def parseInt (line : Text) : Option Int :=
  let trimmed := line.dropWhile isWhiteSpace
  let body := if trimmed.head? = some '-' ∨ trimmed.head? = some '+' then trimmed.tail else trimmed
  let digits := body.takeWhile Char.isDigit
  if digits = [] then none
  else if trimmed.head? = some '-' then some (-(Nat.ofDigitChars 10 digits 0 : Int))
  else some (Nat.ofDigitChars 10 digits 0)

/-- `BigInt(line)`; `none` is a `SyntaxError`. -/
def bigInt (line : Text) : Option Int :=
  let trimmed := ((line.dropWhile isWhiteSpace).reverse.dropWhile isWhiteSpace).reverse
  let digits (base : Nat) (text : Text) : Option Int :=
    if text = [] then none else (digitsIn base text).map Int.ofNat
  match trimmed with
  | [] => some 0
  | '-' :: rest => (digits 10 rest).map fun n => -n
  | '+' :: rest => digits 10 rest
  | '0' :: c :: rest =>
    if c = 'x' ∨ c = 'X' then digits 16 rest
    else if c = 'o' ∨ c = 'O' then digits 8 rest
    else if c = 'b' ∨ c = 'B' then digits 2 rest
    else digits 10 trimmed
  | _ => digits 10 trimmed

def proto : Text := "__proto__".toList

/-- `obj[key] = val` on an object made by `{}`. An assignment to `__proto__` calls the setter that
the object inherits, and adds no property. -/
def assignProperty (properties : List (Text × ClientValue Text)) (key : Text)
    (val : ClientValue Text) : List (Text × ClientValue Text) :=
  if key = proto then properties else assign properties key val

/-- The `length` of a string counts UTF-16 code units. -/
def utf16Length (text : Text) : Nat := (text.map fun c => if c.toNat < 0x10000 then 1 else 2).sum

def dialect : Dialect Text where
  text b := .ok (textDecode b)
  integer line :=
    match bigInt line with
    | none => .error .badNumber
    | some n => .ok n
  length line := .ok (parseInt line)
  key v := (asStr v).map fun key => key.getD "null".toList
  put := assignProperty
  shown b _ i line := if i < utf16Length line + 3 then none else b[i - 1 - utf16Length line - 2]?

def decode (room : Nat) (b : Bytes) : Except Failure (ClientValue Text) := decodeWith dialect room b

end JavaScript

namespace Python

/-- What depends on the version and the settings of Python: which characters beyond ASCII are
spaces or decimal digits, how many digits `int` reads, unless it reads any number of them, and
`str` of a value that is no string, bytes or `None`. -/
structure Interpreter where
  isSpace : Char → Bool
  toDecimal : Char → Option (Fin 10)
  maxStrDigits : Option Nat
  maxStrDigits_le : ∀ n ∈ maxStrDigits, 640 ≤ n
  str : ClientValue (Option Text) → Text

def encodeRequest (parts : List Part) : Bytes :=
  parts.foldl (fun out p =>
    out ++ (ascii "$" ++ decimal p.sent.length ++ Irsp.crlf) ++ p.sent ++ Irsp.crlf)
    (ascii "*" ++ decimal parts.length ++ Irsp.crlf)

variable (py : Interpreter)

def asStr : ClientValue (Option Text) → Except Failure (Option Text)
  | .null => .ok none
  | .text value => .ok (some value)
  | .bytes value =>
    match Utf8.decode? value with
    | none => .error .badText
    | some text => .ok (some text)
  | v => .ok (some (py.str v))

def isAsciiSpace (c : Char) : Bool := ('\t' ≤ c && c ≤ '\r') || c = ' '

/-- What `int` reads a character as; `?` stands for one that no number has. -/
def transform (c : Char) : Char :=
  if c.toNat < 127 then c
  else if py.isSpace c then ' '
  else
    match py.toDecimal c with
    | none => '?'
    | some d => Nat.digitChar d

/-- The digits of a number in which single underscores may stand between two digits. -/
def ungroup : Text → Option Text
  | [] => none
  | [c] => if c.isDigit then some [c] else none
  | c :: d :: rest =>
    if c.isDigit then (if d = '_' then ungroup rest else ungroup (d :: rest)).map (c :: ·) else none

/-- `int(line)`; `none` is a `ValueError`. -/
def int (line : Text) : Option Int :=
  let ascii := line.map (transform py)
  let trimmed := ((ascii.dropWhile isAsciiSpace).reverse.dropWhile isAsciiSpace).reverse
  let body := if trimmed.head? = some '-' ∨ trimmed.head? = some '+' then trimmed.tail else trimmed
  match ungroup body with
  | none => none
  | some digits =>
    if ∃ most ∈ py.maxStrDigits, most < digits.length then none
    else if trimmed.head? = some '-' then some (-(Nat.ofDigitChars 10 digits 0 : Int))
    else some (Nat.ofDigitChars 10 digits 0)

def dialect : Dialect (Option Text) where
  text b :=
    match Utf8.decode? b with
    | none => .error .badText
    | some text => .ok text
  integer line :=
    match int py line with
    | none => .error .badNumber
    | some n => .ok n
  length line :=
    match int py line with
    | none => .error .badNumber
    | some n => .ok (some n)
  key := asStr py
  put := assign
  shown _ type _ _ := some type

def decode (room : Nat) (b : Bytes) : Except Failure (ClientValue (Option Text)) :=
  decodeWith (dialect py) room b

end Python

end IndustrialRuntime.Sdk
