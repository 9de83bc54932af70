import FiberGateway.Json.Utf

namespace FiberGateway.Json

open Unicode

inductive JsUnaryOp
  | plus | negate | logicalNot
  deriving DecidableEq, Repr

inductive JsBinaryOp
  | add | sub | mul | div | mod | eq | ne | strictEq | strictNe | lt | le | gt | ge | logicalAnd | logicalOr
  deriving DecidableEq, Repr

inductive JsOpError
  | typeError | divisionByZero | heapRequired | outOfMemory | invalidUtf8
  deriving DecidableEq, Repr

/-- A value, a string allocated for the result, an error, or an operation that C++ leaves undefined. -/
inductive JsOpResult
  | value (value : JsValue)
  | newString (str : GcString)
  | error (error : JsOpError)
  | undefined
  deriving DecidableEq, Repr

/-- The arithmetic of doubles, `strtod` with the place where it stops, and whether two native buffers are the same one. -/
structure Machine where
  add : UInt64 → UInt64 → UInt64
  sub : UInt64 → UInt64 → UInt64
  mul : UInt64 → UInt64 → UInt64
  div : UInt64 → UInt64 → UInt64
  fmod : UInt64 → UInt64 → UInt64
  negate : UInt64 → UInt64
  fabs : UInt64 → UInt64
  truncate : UInt64 → Int
  strtod : List UInt8 → UInt64 × Nat
  sameBuffer : List UInt8 → List UInt8 → Bool

/-- A shift to the right that rounds to the nearest, and to the even one between two. -/
def roundShift (n shift : Nat) : Nat :=
  if 2 ^ shift < n % 2 ^ shift * 2 ∨ n % 2 ^ shift * 2 = 2 ^ shift ∧ n / 2 ^ shift % 2 = 1 then n / 2 ^ shift + 1
  else n / 2 ^ shift

/-- Exponent and fraction of the double nearest to a natural number; a carry of the rounding goes to the exponent. -/
def magnitude (n : Nat) : Nat :=
  if n = 0 then 0
  else (n.log2 + 1022) * 2 ^ 52 + if n.log2 ≤ 52 then n * 2 ^ (52 - n.log2) else roundShift n (n.log2 - 52)

/-- The conversion of an `int64_t` to a double. -/
def toDouble (i : Int) : UInt64 := .ofNat (magnitude i.natAbs + if i < 0 then 2 ^ 63 else 0)

def isNan (f : UInt64) : Bool := 0x7FF0000000000000 < f.toNat % 2 ^ 63

/-- Doubles that are numbers are ordered like this; the two zeros are equal. -/
def orderKey (f : UInt64) : Int := if f.toNat < 2 ^ 63 then f.toNat else - (f.toNat - 2 ^ 63 : Nat)

def fitsInt64 (i : Int) : Bool := - 2 ^ 63 ≤ i && i < 2 ^ 63

namespace JsValue

def isStringType : JsValue → Bool
  | heapString _ | nativeString _ => true
  | _ => false

def isFloat : JsValue → Bool
  | float _ => true
  | _ => false

def isNumberType : JsValue → Bool
  | integer _ | float _ => true
  | _ => false

def isNumericLike : JsValue → Bool
  | integer _ | float _ | boolean _ | null => true
  | _ => false

def toNumber : JsValue → Option UInt64
  | integer i => some (toDouble i)
  | float f => some f
  | boolean b => some (toDouble b.toNat)
  | null => some (toDouble 0)
  | _ => none

def toInt64 (machine : Machine) : JsValue → Option Int
  | integer i => some i
  | float f => some (machine.truncate f)
  | boolean b => some b.toNat
  | null => some 0
  | _ => none

def isTruthy (heap : GcHeap) : JsValue → Bool
  | undefined | null => false
  | boolean b => b
  | integer i => i ≠ 0
  | float f => orderKey f ≠ 0 && !isNan f
  | heapString gc => (heap.stringAt gc).any (·.units ≠ [])
  | nativeString ns => ns ≠ []
  | nativeBinary nb => nb ≠ []
  | _ => true

/-- The alternative of the value, as `type_` has it. -/
def sameType : JsValue → JsValue → Bool
  | undefined, undefined | null, null | boolean _, boolean _ | integer _, integer _ | float _, float _
  | heapString _, heapString _ | nativeString _, nativeString _ | array _, array _ | object _, object _
  | iterator _, iterator _ | exception _, exception _ | nativeBinary _, nativeBinary _ | heapBinary _, heapBinary _ => true
  | _, _ => false

end JsValue

inductive StringSource
  | heapByte (units : List UInt16)
  | heapUtf16 (units : List UInt16)
  | nativeUtf8 (data : List UInt8) (scan : Utf8ScanResult)

def buildStringSource (heap : GcHeap) : JsValue → Except JsOpError StringSource
  | .heapString gc =>
    match heap.stringAt gc with
    | none => .error .typeError
    | some ⟨.byte, units⟩ => .ok (.heapByte units)
    | some ⟨.utf16, units⟩ => .ok (.heapUtf16 units)
  | .nativeString data =>
    match utf8Scan data with
    | none => .error .invalidUtf8
    | some scan => .ok (.nativeUtf8 data scan)
  | _ => .error .typeError

namespace StringSource

def allByte : StringSource → Bool
  | heapByte _ => true
  | heapUtf16 _ => false
  | nativeUtf8 _ scan => scan.allByte

def totalLen : StringSource → Nat
  | heapByte units | heapUtf16 units => units.length
  | nativeUtf8 _ scan => scan.utf16Len

/-- `append_part` of the result in bytes. -/
def appendBytes : StringSource → Option (List UInt16)
  | heapByte units => some units
  | heapUtf16 _ => none
  | nativeUtf8 data scan => (utf8WriteBytes data scan.utf16Len).map (·.map (·.toUInt16))

def appendUtf16 : StringSource → Option (List UInt16)
  | heapByte units | heapUtf16 units => some units
  | nativeUtf8 data scan => utf8WriteUtf16 data scan.utf16Len

end StringSource

/-- A result of the two parts; `allocates` says whether the heap has room for it. -/
def appendParts (allocates : Bool) (encoding : GcStringEncoding) (lhs rhs : Option (List UInt16)) :
    Except JsOpError GcString :=
  if !allocates then .error .outOfMemory
  else
    match lhs, rhs with
    | some lhs, some rhs => .ok ⟨encoding, lhs ++ rhs⟩
    | _, _ => .error .invalidUtf8

def concatStrings (allocates : Bool) (lhs rhs : StringSource) : Except JsOpError GcString :=
  if lhs.totalLen + rhs.totalLen = 0 then
    match allocates, gcNewString [] with
    | true, some str => .ok str
    | _, _ => .error .outOfMemory
  else if lhs.allByte && rhs.allByte then appendParts allocates .byte lhs.appendBytes rhs.appendBytes
  else appendParts allocates .utf16 lhs.appendUtf16 rhs.appendUtf16

/-- Where a comparison is in a string. -/
inductive StringCursor
  | heap (rest : List UInt16)
  | native (rest : List UInt8) (pending : Option UInt16)

def initStringCursor (heap : GcHeap) : JsValue → Except JsOpError StringCursor
  | .heapString gc =>
    match heap.stringAt gc with
    | none => .error .typeError
    | some str => .ok (.heap str.units)
  | .nativeString data => .ok (.native data none)
  | _ => .error .typeError

/-- The next code unit, or none at the end. -/
def cursorNext : StringCursor → Except JsOpError (Option (UInt16 × StringCursor))
  | .native rest (some unit) => .ok (some (unit, .native rest none))
  | .heap [] => .ok none
  | .heap (unit :: rest) => .ok (some (unit, .heap rest))
  | .native [] none => .ok none
  | .native (ch :: rest) none =>
    match utf8NextCodepoint (ch :: rest) with
    | none => .error .invalidUtf8
    | some (codepoint, rest) =>
      if codepoint ≤ 0xFFFF then .ok (some (.ofNat codepoint, .native rest none))
      else
        let value := codepoint - 0x10000
        .ok (some (.ofNat (0xD800 + (value >>> 10)), .native rest (some (.ofNat (0xDC00 + (value &&& 0x3FF))))))

/-- The loop of `compare_strings` over two cursors; every round takes a unit off the left one. -/
def compareCursors : Nat → StringCursor → StringCursor → Except JsOpError Int
  | 0, _, _ => .error .typeError
  | fuel + 1, lhs, rhs => do
    match ← cursorNext lhs, ← cursorNext rhs with
    | some _, none => return 1
    | none, some _ => return -1
    | none, none => return 0
    | some (l, lhs), some (r, rhs) => if l < r then return -1 else if r < l then return 1 else compareCursors fuel lhs rhs

/-- The sign of the first difference within the common length: `memcmp`, and the loop over 16-bit units. -/
def compareUnits : List UInt16 → List UInt16 → Int
  | l :: lhs, r :: rhs => if l < r then -1 else if r < l then 1 else compareUnits lhs rhs
  | _, _ => 0

def compareSameEncoding (lhs rhs : List UInt16) : Int :=
  let cmp := compareUnits lhs rhs
  if cmp = 0 then if lhs.length < rhs.length then -1 else if rhs.length < lhs.length then 1 else 0 else cmp

def StringCursor.size : StringCursor → Nat
  | heap rest => rest.length
  | native rest _ => rest.length

def compareByCursors (heap : GcHeap) (lhs rhs : JsValue) : Except JsOpError Int := do
  let left ← initStringCursor heap lhs
  compareCursors (left.size + 1) left (← initStringCursor heap rhs)

def compareStrings (heap : GcHeap) (lhs rhs : JsValue) : Except JsOpError Int :=
  match lhs, rhs with
  | .heapString l, .heapString r =>
    match heap.stringAt l, heap.stringAt r with
    | some left, some right =>
      if left.encoding = right.encoding then .ok (compareSameEncoding left.units right.units)
      else compareByCursors heap lhs rhs
    | _, _ => .error .typeError
  | _, _ => compareByCursors heap lhs rhs

def stringToUtf8Copy (heap : GcHeap) : JsValue → Except JsOpError (List UInt8)
  | .nativeString data => if utf8Validate data then .ok data else .error .invalidUtf8
  | .heapString gc =>
    match (heap.stringAt gc).bind gcStringToUtf8 with
    | none => .error .invalidUtf8
    | some bytes => .ok bytes
  | _ => .error .typeError

def asciiIsSpace (ch : UInt8) : Bool := ch ∈ [0x20, 0x09, 0x0A, 0x0D, 0x0C, 0x0B]

/-- A quiet NaN. -/
def quietNan : UInt64 := 0x7FF8000000000000

def stringToNumber (machine : Machine) (heap : GcHeap) (value : JsValue) : Except JsOpError UInt64 := do
  let buffer ← stringToUtf8Copy heap value
  let view := ((buffer.dropWhile asciiIsSpace).reverse.dropWhile asciiIsSpace).reverse
  if view = [] then return 0
  let (number, stopped) := machine.strtod view
  return if stopped = view.length then number else quietNan

def JsValue.numberValue : JsValue → UInt64
  | .integer i => toDouble i
  | .float f => f
  | _ => 0

def numbersEqual (lhs rhs : UInt64) : Bool := !isNan lhs && !isNan rhs && orderKey lhs = orderKey rhs

def strictEqual (machine : Machine) (heap : GcHeap) (lhs rhs : JsValue) : Except JsOpError Bool :=
  if lhs.isStringType && rhs.isStringType then (compareStrings heap lhs rhs).map (· = 0)
  else if lhs.isNumberType && rhs.isNumberType then .ok (numbersEqual lhs.numberValue rhs.numberValue)
  else .ok <| match lhs, rhs with
    | .undefined, .undefined | .null, .null => true
    | .boolean l, .boolean r => l = r
    | .nativeBinary l, .nativeBinary r => machine.sameBuffer l r && l.length = r.length
    | .heapBinary l, .heapBinary r | .array l, .array r | .object l, .object r | .iterator l, .iterator r
    | .exception l, .exception r => l = r
    | _, _ => false

def looseEqualNumber (machine : Machine) (heap : GcHeap) (number : UInt64) (other : JsValue) : Except JsOpError Bool :=
  if other.isNumberType then .ok (numbersEqual number other.numberValue)
  else if other.isStringType then (stringToNumber machine heap other).map (numbersEqual number)
  else .ok false

def looseEqual (machine : Machine) (heap : GcHeap) (lhs rhs : JsValue) : Except JsOpError Bool :=
  if lhs.isStringType && rhs.isStringType then (compareStrings heap lhs rhs).map (· = 0)
  else if lhs.isNumberType && rhs.isNumberType then .ok (numbersEqual lhs.numberValue rhs.numberValue)
  else if lhs.sameType rhs then strictEqual machine heap lhs rhs
  else
    match lhs, rhs with
    | .null, .undefined | .undefined, .null => .ok true
    | .boolean b, other | other, .boolean b => looseEqualNumber machine heap (toDouble b.toNat) other
    | _, _ =>
      if lhs.isNumberType && rhs.isStringType then (stringToNumber machine heap rhs).map (numbersEqual lhs.numberValue)
      else if lhs.isStringType && rhs.isNumberType then
        (stringToNumber machine heap lhs).map (numbersEqual · rhs.numberValue)
      else .ok false

/-- `add_numeric`, `sub_numeric` and `mul_numeric`: with a float operand on doubles, else exactly as long as it fits. -/
def numeric (machine : Machine) (onFloats : UInt64 → UInt64 → UInt64) (exact : Int → Int → Int) (lhs rhs : JsValue) :
    JsOpResult :=
  if !lhs.isNumericLike || !rhs.isNumericLike then .error .typeError
  else if lhs.isFloat || rhs.isFloat then
    match lhs.toNumber, rhs.toNumber with
    | some a, some b => .value (.float (onFloats a b))
    | _, _ => .error .typeError
  else
    match lhs.toInt64 machine, rhs.toInt64 machine with
    | some a, some b =>
      if fitsInt64 (exact a b) then .value (.integer (exact a b)) else .value (.float (onFloats (toDouble a) (toDouble b)))
    | _, _ => .error .typeError

def addNumeric (machine : Machine) : JsValue → JsValue → JsOpResult := numeric machine machine.add (· + ·)

def subNumeric (machine : Machine) : JsValue → JsValue → JsOpResult := numeric machine machine.sub (· - ·)

def mulNumeric (machine : Machine) : JsValue → JsValue → JsOpResult := numeric machine machine.mul (· * ·)

def divNumeric (machine : Machine) (lhs rhs : JsValue) : JsOpResult :=
  if !lhs.isNumericLike || !rhs.isNumericLike then .error .typeError
  else
    match lhs.toNumber, rhs.toNumber with
    | some a, some b =>
      if !isNan b && orderKey b = 0 then .error .divisionByZero else .value (.float (machine.div a b))
    | _, _ => .error .typeError

/-- The case `Mod`; `%` on the least `int64_t` and -1 is undefined. -/
def modNumeric (machine : Machine) (lhs rhs : JsValue) : JsOpResult :=
  if !lhs.isNumericLike || !rhs.isNumericLike then .error .typeError
  else if lhs.isFloat || rhs.isFloat then
    match lhs.toNumber, rhs.toNumber with
    | some a, some b =>
      if !isNan b && orderKey b = 0 then .error .divisionByZero else .value (.float (machine.fmod a b))
    | _, _ => .error .typeError
  else
    match lhs.toInt64 machine, rhs.toInt64 machine with
    | some a, some b =>
      if b = 0 then .error .divisionByZero
      else if a = - 2 ^ 63 ∧ b = -1 then .undefined
      else .value (.integer (a.tmod b))
    | _, _ => .error .typeError

def jsUnaryOp (machine : Machine) (heap : GcHeap) (op : JsUnaryOp) (value : JsValue) : JsOpResult :=
  match op with
  | .logicalNot => .value (.boolean !value.isTruthy heap)
  | .plus =>
    if !value.isNumericLike then .error .typeError
    else if value.isFloat then .value value
    else
      match value.toInt64 machine with
      | some i => .value (.integer i)
      | none => .error .typeError
  | .negate =>
    if !value.isNumericLike then .error .typeError
    else
      match value with
      | .float f => .value (.float (machine.negate f))
      | _ =>
        match value.toInt64 machine with
        | some i =>
          if i = - 2 ^ 63 then .value (.float (machine.negate (toDouble i)))
          -- any other negation is defined
          else .value (.integer (-i))
        | none => .error .typeError

/-- What a comparison says of the sign it found, or of the order of two numbers. -/
def JsBinaryOp.orders (op : JsBinaryOp) (cmp : Int) : Bool :=
  match op with
  | lt => cmp < 0
  | le => cmp ≤ 0
  | gt => 0 < cmp
  | _ => 0 ≤ cmp

def orderOp (heap : GcHeap) (op : JsBinaryOp) (lhs rhs : JsValue) : JsOpResult :=
  if lhs.isStringType && rhs.isStringType then
    match compareStrings heap lhs rhs with
    | .error error => .error error
    | .ok cmp => .value (.boolean (op.orders cmp))
  else if !lhs.isNumericLike || !rhs.isNumericLike then .error .typeError
  else
    match lhs.toNumber, rhs.toNumber with
    | some a, some b =>
      if isNan a || isNan b then .value (.boolean false) else .value (.boolean (op.orders (orderKey a - orderKey b)))
    | _, _ => .error .typeError

def equalityOp (equal : Except JsOpError Bool) (positive : Bool) : JsOpResult :=
  match equal with
  | .error error => .error error
  | .ok equal => .value (.boolean (if positive then equal else !equal))

def addOp (machine : Machine) (heap : GcHeap) (allocates : Bool) (lhs rhs : JsValue) : JsOpResult :=
  if lhs.isStringType || rhs.isStringType then
    if !lhs.isStringType || !rhs.isStringType then .error .typeError
    else
      match (do concatStrings allocates (← buildStringSource heap lhs) (← buildStringSource heap rhs) :
        Except JsOpError GcString) with
      | .error error => .error error
      | .ok str => .newString str
  else addNumeric machine lhs rhs

def jsBinaryOp (machine : Machine) (heap : GcHeap) (allocates : Bool) (op : JsBinaryOp) (lhs rhs : JsValue) : JsOpResult :=
  match op with
  | .logicalAnd => .value (if lhs.isTruthy heap then rhs else lhs)
  | .logicalOr => .value (if lhs.isTruthy heap then lhs else rhs)
  | .add => addOp machine heap allocates lhs rhs
  | .sub => subNumeric machine lhs rhs
  | .mul => mulNumeric machine lhs rhs
  | .div => divNumeric machine lhs rhs
  | .mod => modNumeric machine lhs rhs
  | .eq => equalityOp (looseEqual machine heap lhs rhs) true
  | .ne => equalityOp (looseEqual machine heap lhs rhs) false
  | .strictEq => equalityOp (strictEqual machine heap lhs rhs) true
  | .strictNe => equalityOp (strictEqual machine heap lhs rhs) false
  | .lt | .le | .gt | .ge => orderOp heap op lhs rhs

/-- `math.abs` of the library; the absolute value of the least `int64_t` is undefined. -/
def mathAbs (machine : Machine) (args : List JsValue) : Except String JsOpResult :=
  match args with
  | .integer i :: _ => .ok (if i = - 2 ^ 63 then .undefined else .value (.integer i.natAbs))
  | .float f :: _ => .ok (.value (.float (machine.fabs f)))
  | _ => .error "require numeric value. and len 1"

end FiberGateway.Json
