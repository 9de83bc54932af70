import FiberGateway.Json.JsonDecode

/-!
The grammar of JSON texts with the values they denote.
-/

namespace FiberGateway.Json

open Unicode

def Blank (text : List UInt8) : Prop := ∀ ch ∈ text, ch ∈ [0x20, 0x09, 0x0A, 0x0D]

def Digits (text : List UInt8) : Prop := text ≠ [] ∧ ∀ ch ∈ text, 0x30 ≤ ch ∧ ch ≤ 0x39

/-- The marker, the sign and the digits of an exponent. -/
structure Exponent where
  marker : UInt8
  sign : Option UInt8
  digits : List UInt8
  marked : marker = 0x65 ∨ marker = 0x45
  signed : ∀ ch ∈ sign, ch = 0x2B ∨ ch = 0x2D
  valid : Digits digits

def Exponent.bytes (exponent : Exponent) : List UInt8 := exponent.marker :: (exponent.sign.toList ++ exponent.digits)

structure NumberText where
  negative : Bool
  whole : List UInt8
  fraction : Option (List UInt8)
  exponent : Option Exponent
  wholeValid : Digits whole
  noLeadingZero : whole.head? = some 0x30 → whole = [0x30]
  fractionValid : ∀ digits ∈ fraction, Digits digits

namespace NumberText

def bytes (number : NumberText) : List UInt8 :=
  (if number.negative then [0x2D] else []) ++ number.whole ++ (number.fraction.elim [] (0x2E :: ·)) ++
    number.exponent.elim [] Exponent.bytes

def isFloat (number : NumberText) : Bool := number.fraction.isSome || number.exponent.isSome

def toInt (number : NumberText) : Int := if number.negative then - decimal number.whole else decimal number.whole

end NumberText

/-- The escapes of one character, with what they stand for. -/
def escapes : List (UInt8 × UInt16) :=
  [(0x22, 0x22), (0x5C, 0x5C), (0x2F, 0x2F), (0x62, 0x08), (0x66, 0x0C), (0x6E, 0x0A), (0x72, 0x0D), (0x74, 0x09)]

/-- Four hexadecimal digits and their value. -/
def Hex (digits : List UInt8) (code : Nat) : Prop :=
  digits.length = 4 ∧ digits.foldlM (fun value ch => (hexValue ch).map (16 * value + ·)) 0 = some code

/-- What stands between the quotes of a string, and its code units. -/
inductive StringBody : List UInt8 → List UInt16 → Prop
  | done : StringBody [] []
  | plain {code : Nat} {rest : List UInt8} {units : List UInt16} (scalar : IsScalar code) (printable : 0x20 ≤ code)
      (noQuote : code ≠ 0x22) (noBackslash : code ≠ 0x5C) (later : StringBody rest units) :
      StringBody (utf8 code ++ rest) (utf16 code ++ units)
  | escape {ch : UInt8} {unit : UInt16} {rest : List UInt8} {units : List UInt16} (known : (ch, unit) ∈ escapes)
      (later : StringBody rest units) : StringBody (0x5C :: ch :: rest) (unit :: units)
  | unicode {digits : List UInt8} {code : Nat} {rest : List UInt8} {units : List UInt16} (hex : Hex digits code)
      (scalar : IsScalar code) (later : StringBody rest units) :
      StringBody (0x5C :: 0x75 :: digits ++ rest) (.ofNat code :: units)
  | pair {first second : List UInt8} {high low : Nat} {rest : List UInt8} {units : List UInt16} (hex : Hex first high)
      (hex' : Hex second low) (isHigh : 0xD800 ≤ high ∧ high ≤ 0xDBFF) (isLow : 0xDC00 ≤ low ∧ low ≤ 0xDFFF)
      (later : StringBody rest units) :
      StringBody (0x5C :: 0x75 :: first ++ 0x5C :: 0x75 :: second ++ rest) (.ofNat high :: .ofNat low :: units)

/-- A value with the blanks around it. -/
structure Item (F : Type) where
  before : List UInt8
  text : List UInt8
  after : List UInt8
  value : Tree F
  blankBefore : Blank before
  blankAfter : Blank after

def Item.bytes {F : Type} (item : Item F) : List UInt8 := item.before ++ item.text ++ item.after

/-- A member of an object. -/
structure Member (F : Type) extends Item F where
  lead : List UInt8
  key : List UInt8
  units : List UInt16
  gap : List UInt8
  blankLead : Blank lead
  blankGap : Blank gap
  named : StringBody key units

def Member.bytes {F : Type} (member : Member F) : List UInt8 :=
  member.lead ++ 0x22 :: member.key ++ 0x22 :: member.gap ++ 0x3A :: member.toItem.bytes

def Member.entry {F : Type} (member : Member F) : GcString × Tree F := (.ofUnits member.units, member.value)

def commaSeparated (texts : List (List UInt8)) : List UInt8 := [0x2C].intercalate texts

/-- The keys, each where it first appears. -/
def firstKeys : List GcString → List GcString
  | [] => []
  | key :: rest => key :: (firstKeys rest).filter (· ≠ key)

def lastValue {F : Type} (entries : List (GcString × Tree F)) (key : GcString) : Option (Tree F) :=
  (entries.filter (·.1 = key)).getLast?.map Prod.snd

/-- The object of these members: every key where it first appears, with its last value. -/
def objectOf {F : Type} (entries : List (GcString × Tree F)) : List (GcString × Tree F) :=
  (firstKeys (entries.map Prod.fst)).filterMap fun key => (lastValue entries key).map (key, ·)

section

variable {F : Type} (strtod : List UInt8 → StrtodResult F)

/-- The text of one value, and the value it denotes. -/
inductive Value : List UInt8 → Tree F → Prop
  | nullLiteral : Value [0x6E, 0x75, 0x6C, 0x6C] .null
  | trueLiteral : Value [0x74, 0x72, 0x75, 0x65] (.boolean true)
  | falseLiteral : Value [0x66, 0x61, 0x6C, 0x73, 0x65] (.boolean false)
  | integer (number : NumberText) (plain : number.isFloat = false) (fits : - 2 ^ 63 ≤ number.toInt ∧ number.toInt < 2 ^ 63) :
      Value number.bytes (.integer number.toInt)
  | float (number : NumberText) (isFloat : number.isFloat = true) (inRange : (strtod number.bytes).erange = false)
      (accepted : (strtod number.bytes).consumed = number.bytes.length) :
      Value number.bytes (.float (strtod number.bytes).value)
  | string {body : List UInt8} {units : List UInt16} (valid : StringBody body units) :
      Value (0x22 :: body ++ [0x22]) (.heapString (.ofUnits units))
  | emptyArray {blank : List UInt8} (isBlank : Blank blank) : Value (0x5B :: blank ++ [0x5D]) (.array [])
  | array (items : List (Item F)) (nonempty : items ≠ []) (values : ∀ item ∈ items, Value item.text item.value) :
      Value (0x5B :: commaSeparated (items.map Item.bytes) ++ [0x5D]) (.array (items.map Item.value))
  | emptyObject {blank : List UInt8} (isBlank : Blank blank) : Value (0x7B :: blank ++ [0x7D]) (.object [])
  | object (members : List (Member F)) (nonempty : members ≠ [])
      (values : ∀ member ∈ members, Value member.text member.value) :
      Value (0x7B :: commaSeparated (members.map Member.bytes) ++ [0x7D]) (.object (objectOf (members.map Member.entry)))

/-- A JSON text: one value between blanks. -/
def Denotes (data : List UInt8) (value : Tree F) : Prop :=
  ∃ before text after, data = before ++ text ++ after ∧ Blank before ∧ Blank after ∧ Value strtod text value

end

end FiberGateway.Json
