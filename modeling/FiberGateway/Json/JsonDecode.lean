import FiberGateway.Json.DecodedString
import FiberGateway.Json.ObjectTable

namespace FiberGateway.Json

/-- A value with everything it refers to: an array by its elements, an object by its entries in their order. -/
inductive Tree (F : Type)
  | undefined
  | null
  | boolean (b : Bool)
  | integer (i : Int)
  | float (f : F)
  | heapString (str : GcString)
  | nativeString (ns : List UInt8)
  | array (elems : List (Tree F))
  | object (entries : List (GcString × Tree F))
  | iterator
  | exception (position : Int) (name message : Option GcString) (metaValue : Tree F)
  | nativeBinary (nb : List UInt8)
  | heapBinary (data : List UInt8)

/-- What `strtod` reports on a text: the value, whether `errno` is `ERANGE`, and where it stopped. -/
structure StrtodResult (F : Type) where
  value : F
  erange : Bool
  consumed : Nat

inductive FromCharsResult
  | ok (value : Int)
  | outOfRange
  | invalidArgument
  deriving DecidableEq, Repr

def isWs (ch : UInt8) : Bool := ch = 0x20 || ch = 0x09 || ch = 0x0A || ch = 0x0D

def isDigit (ch : UInt8) : Bool := 0x30 ≤ ch && ch ≤ 0x39

def decimal (digits : List UInt8) : Nat := digits.foldl (fun value ch => 10 * value + (ch.toNat - 0x30)) 0

/-- `std::from_chars` into an `int64_t`. -/
def fromChars (text : List UInt8) : FromCharsResult :=
  let negative := text.head? = some 0x2D
  let digits := (if negative then text.tail else text).takeWhile isDigit
  let value : Int := if negative then - decimal digits else decimal digits
  if digits = [] then .invalidArgument
  else if value < - 2 ^ 63 ∨ 2 ^ 63 ≤ value then .outOfRange
  else .ok value

/-- The input from the position on. -/
structure Cursor where
  pos : Nat
  rest : List UInt8
  deriving DecidableEq, Repr

def Cursor.advance (c : Cursor) (n : Nat) : Cursor := ⟨c.pos + n, c.rest.drop n⟩

def Cursor.skipWs (c : Cursor) : Cursor := c.advance (c.rest.takeWhile isWs).length

def Cursor.skipDigits (c : Cursor) : Cursor := c.advance (c.rest.takeWhile isDigit).length

def Cursor.at (c : Cursor) (p : UInt8 → Bool) : Bool := c.rest.head?.any p

/-- A parse ends with an error, or it does not come to an end that the model can see. -/
inductive Stop
  | error (e : ParseError)
  | fault
  deriving DecidableEq, Repr

def setError {α : Type} (message : String) (offset : Nat) : Except Stop α := .error (.error ⟨message, offset⟩)

namespace ParserImpl

def hexLoop : Nat → Nat → List UInt8 → Except Nat Nat
  | value, _, [] => .ok value
  | value, i, ch :: rest =>
    match hexValue ch with
    | none => .error i
    | some digit => hexLoop (value <<< 4 ||| digit) (i + 1) rest

def parseHex (c : Cursor) : Except Stop (Nat × Cursor) :=
  if c.rest.length < 4 then setError "invalid unicode escape" c.pos
  else
    match hexLoop 0 0 (c.rest.take 4) with
    | .error i => setError "invalid unicode escape" (c.pos + i)
    | .ok value => .ok (value, c.advance 4)

def simpleEscape : UInt8 → Option UInt16
  | 0x22 => some 0x22  -- "
  | 0x5C => some 0x5C  -- backslash
  | 0x2F => some 0x2F  -- /
  | 0x62 => some 0x08  -- b
  | 0x66 => some 0x0C  -- f
  | 0x6E => some 0x0A  -- n
  | 0x72 => some 0x0D  -- r
  | 0x74 => some 0x09  -- t
  | _ => none

/-- The second half of a surrogate pair, behind its first half `code`. -/
def parseLowSurrogate (code : Nat) (c : Cursor) : Except Stop (Nat × Cursor) :=
  if c.rest.take 2 ≠ [0x5C, 0x75] then setError "invalid unicode surrogate pair" c.pos
  else do
    let (low, c) ← parseHex (c.advance 2)
    if low < 0xDC00 ∨ low > 0xDFFF then setError "invalid unicode surrogate pair" c.pos
    else return (0x10000 + ((code - 0xD800) <<< 10) + (low - 0xDC00), c)

def parseUnicodeEscape (c : Cursor) : Except Stop (Nat × Cursor) := do
  let (code, c) ← parseHex c
  if 0xD800 ≤ code ∧ code ≤ 0xDBFF then parseLowSurrogate code c
  else if 0xDC00 ≤ code ∧ code ≤ 0xDFFF then setError "invalid unicode surrogate pair" c.pos
  else return (code, c)

/-- What follows a backslash. -/
def parseEscape (c : Cursor) (out : DecodedString) : Except Stop (DecodedString × Cursor) :=
  match c.rest with
  | [] => setError "unterminated escape sequence" c.pos
  | esc :: _ =>
    match simpleEscape esc with
    | some unit => .ok (out.appendCodeUnit unit, c.advance 1)
    | none =>
      if esc = 0x75 then do
        let (code, c) ← parseUnicodeEscape (c.advance 1)
        if code > 0x10FFFF then setError "invalid unicode codepoint" c.pos
        else return (out.appendCodepoint code, c)
      else setError "invalid escape sequence" c.pos

def parseStringLoop : Nat → Cursor → DecodedString → Except Stop (DecodedString × Cursor)
  | 0, _, _ => .error .fault
  | fuel + 1, c, out =>
    match c.rest with
    | [] => setError "unterminated string" c.pos
    | ch :: _ =>
      if ch = 0x22 then .ok (out, c.advance 1)
      else if ch = 0x5C then do
        let (out, c) ← parseEscape (c.advance 1) out
        parseStringLoop fuel c out
      else if ch < 0x20 then setError "invalid control character in string" c.pos
      else
        match decodeUtf8Codepoint true c.rest with
        | .error offset => setError "invalid utf-8 sequence" (c.pos + offset)
        -- the decoder was told that this is all; if not, the code point would be read as zero
        | .needMore => setError "invalid control character in string" c.pos
        | .ok codepoint consumed =>
          if codepoint < 0x20 then setError "invalid control character in string" c.pos
          else parseStringLoop fuel (c.advance consumed) (out.appendCodepoint codepoint)

def parseString (c : Cursor) : Except Stop (DecodedString × Cursor) :=
  if ¬ c.at (· = 0x22) then setError "expected string" c.pos
  else parseStringLoop (c.rest.length + 1) (c.advance 1) {}

def parseLiteral {α : Type} (literal : List UInt8) (value : α) (c : Cursor) : Except Stop (α × Cursor) :=
  if literal.isPrefixOf c.rest then .ok (value, c.advance literal.length) else setError "invalid literal" c.pos

/-- The sign and the digits before the point. -/
def parseWhole (start : Nat) (c : Cursor) : Except Stop Cursor :=
  let c := if c.at (· = 0x2D) then c.advance 1 else c
  match c.rest with
  | [] => setError "invalid number" start
  | ch :: _ =>
    if ch = 0x30 then
      if (c.advance 1).at isDigit then setError "leading zero in number" start else .ok (c.advance 1)
    else if 0x31 ≤ ch ∧ ch ≤ 0x39 then .ok c.skipDigits
    else setError "invalid number" start

def parseDigits (start : Nat) (c : Cursor) : Except Stop Cursor :=
  if c.at isDigit then .ok c.skipDigits else setError "invalid number" start

def parseFraction (start : Nat) (c : Cursor) : Except Stop (Bool × Cursor) :=
  if c.at (· = 0x2E) then do
    let c ← parseDigits start (c.advance 1)
    return (true, c)
  else .ok (false, c)

def parseExponent (start : Nat) (c : Cursor) : Except Stop (Bool × Cursor) :=
  if c.at (fun ch => ch = 0x65 || ch = 0x45) then do
    let c := c.advance 1
    let c := if c.at (fun ch => ch = 0x2B || ch = 0x2D) then c.advance 1 else c
    let c ← parseDigits start c
    return (true, c)
  else .ok (false, c)

variable {F : Type} (strtod : List UInt8 → StrtodResult F)

/-- The text of a number is turned into its value. -/
def convertNumber (start : Nat) (isFloat : Bool) (number : List UInt8) : Except Stop (Tree F) :=
  if isFloat then
    let result := strtod number
    if result.erange then setError "floating point overflow" start
    else if result.consumed ≠ number.length then setError "invalid number" start
    else .ok (.float result.value)
  else
    match fromChars number with
    | .outOfRange => setError "integer overflow" start
    | .invalidArgument => setError "invalid number" start
    | .ok value => .ok (.integer value)

def parseNumber (c : Cursor) : Except Stop (Tree F × Cursor) := do
  let whole ← parseWhole c.pos c
  let (hasFraction, fraction) ← parseFraction c.pos whole
  let (hasExponent, exponent) ← parseExponent c.pos fraction
  let value ← convertNumber strtod c.pos (hasFraction || hasExponent) (c.rest.take (exponent.pos - c.pos))
  return (value, exponent)

def kInitialContainerCapacity : Nat := 4

def kTrue : List UInt8 := [0x74, 0x72, 0x75, 0x65]
def kFalse : List UInt8 := [0x66, 0x61, 0x6C, 0x73, 0x65]
def kNull : List UInt8 := [0x6E, 0x75, 0x6C, 0x6C]

/-- A key and the colon behind it. -/
def parseKey (c : Cursor) : Except Stop (DecodedString × Cursor) :=
  let c := c.skipWs
  match c.rest with
  | [] => setError "unexpected end of input" c.pos
  | ch :: _ =>
    if ch ≠ 0x22 then setError "object key must be a string" c.pos
    else do
      let (key, c) ← parseString c
      let c := c.skipWs
      if ¬ c.at (· = 0x3A) then setError "expected ':' after object key" c.pos
      else return (key, c.advance 1)

def storeEntry (obj : ObjectTable (Tree F)) (key : DecodedString) (value : Tree F) (pos : Nat) :
    Except Stop (ObjectTable (Tree F)) :=
  match ObjectTable.gcObjectSet {} obj (makeGcString key) value with
  | none => .error .fault
  | some (false, _) => setError "out of memory" pos
  | some (true, obj) => .ok obj

def entriesOf (obj : ObjectTable (Tree F)) : Except Stop (Tree F) :=
  match obj.toList with
  | none => .error .fault
  | some entries => .ok (.object entries)

mutual

def parseValue : Nat → Cursor → Except Stop (Tree F × Cursor)
  | 0, _ => .error .fault
  | fuel + 1, c =>
    let c := c.skipWs
    match c.rest with
    | [] => setError "unexpected end of input" c.pos
    | ch :: _ =>
      if ch = 0x22 then do
        let (value, c) ← parseString c
        return (.heapString (makeGcString value), c)
      else if ch = 0x7B then
        let c := (c.advance 1).skipWs
        if c.at (· = 0x7D) then .ok (.object [], c.advance 1)
        else parseMembers fuel (ObjectTable.gcNewObject kInitialContainerCapacity) c
      else if ch = 0x5B then
        let c := (c.advance 1).skipWs
        if c.at (· = 0x5D) then .ok (.array [], c.advance 1)
        else parseElements fuel [] c
      else if ch = 0x74 then parseLiteral kTrue (.boolean true) c
      else if ch = 0x66 then parseLiteral kFalse (.boolean false) c
      else if ch = 0x6E then parseLiteral kNull .null c
      else if ch = 0x2D ∨ isDigit ch then parseNumber strtod c
      else setError "invalid token" c.pos

/-- The loop of `parse_object`. -/
def parseMembers : Nat → ObjectTable (Tree F) → Cursor → Except Stop (Tree F × Cursor)
  | 0, _, _ => .error .fault
  | fuel + 1, obj, c => do
    let (key, c) ← parseKey c
    let (value, c) ← parseValue fuel c
    let obj ← storeEntry obj key value c.pos
    let c := c.skipWs
    match c.rest with
    | [] => setError "unexpected end of input" c.pos
    | ch :: _ =>
      if ch = 0x2C then parseMembers fuel obj (c.advance 1)
      else if ch = 0x7D then do
        let value ← entriesOf obj
        return (value, c.advance 1)
      else setError "expected ',' or '\x7d' after object value" c.pos

/-- The loop of `parse_array`. -/
def parseElements : Nat → List (Tree F) → Cursor → Except Stop (Tree F × Cursor)
  | 0, _, _ => .error .fault
  | fuel + 1, elems, c => do
    let (value, c) ← parseValue fuel c
    let elems := elems ++ [value]
    let c := c.skipWs
    match c.rest with
    | [] => setError "unexpected end of input" c.pos
    | ch :: _ =>
      if ch = 0x2C then parseElements fuel elems (c.advance 1)
      else if ch = 0x5D then .ok (.array elems, c.advance 1)
      else setError "expected ',' or ']' after array value" c.pos

end

def parse (c : Cursor) : Except Stop (Tree F) := do
  let (value, c) ← parseValue strtod (2 * c.rest.length + 2) c.skipWs
  let c := c.skipWs
  if c.rest ≠ [] then setError "trailing characters after JSON value" c.pos else return value

end ParserImpl

/-- `Parser::parse`. -/
def Parser.parse {F : Type} (strtod : List UInt8 → StrtodResult F) (data : List UInt8) : Except Stop (Tree F) :=
  ParserImpl.parse strtod ⟨0, data⟩

end FiberGateway.Json
