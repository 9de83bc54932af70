import FiberGateway.Mem.IoBuf

namespace FiberGateway.Http1

inductive ParseCode
  | ok | error | again | done | invalidMethod | invalidRequest | invalidVersion | invalid09Method
  | invalidHeader | headerDone | headerTooLarge | bodyDone
  deriving DecidableEq, Repr

abbrev tab : UInt8 := 9
abbrev lf : UInt8 := 10
abbrev cr : UInt8 := 13
abbrev space : UInt8 := 32
abbrev colon : UInt8 := 58
abbrev semicolon : UInt8 := 59

inductive ChunkState
  | chunkStart | chunkSize | chunkExtension | chunkExtensionAlmostDone | chunkData | afterData
  | afterDataAlmostDone | lastChunkExtension | lastChunkExtensionAlmostDone | trailer
  | trailerAlmostDone | trailerHeader | trailerHeaderAlmostDone
  deriving DecidableEq, Repr

/-- `size` is the size read so far while a chunk-size line is open, and the data left afterwards. -/
structure ChunkedBodyParser where
  state : ChunkState := .chunkStart
  size : Nat := 0
  length : Nat := 0
  deriving DecidableEq, Repr

/-- Value of a hexadecimal digit; folding the case bit in first admits both letter cases. -/
def hexDigit (ch : UInt8) : Option Nat :=
  if 48 ≤ ch ∧ ch ≤ 57 then some (ch.toNat - 48)
  else
    let c := ch ||| 0x20
    if 97 ≤ c ∧ c ≤ 102 then some (c.toNat - 97 + 10) else none

def appendHexDigit (size digit : Nat) : Option Nat :=
  if size > (kMaxSize - digit) / 16 then none else some (size * 16 + digit)

def isExtensionStart (ch : UInt8) : Bool := ch = semicolon ∨ ch = space ∨ ch = tab

namespace ChunkedBodyParser

/-- Where one byte leads: on to the next byte, out of the loop at `data` (after skipping the byte
or in front of it), or to `invalid`. -/
inductive Jump
  | next (state : ChunkState) (size : Nat)
  | data (rc : ParseCode) (state : ChunkState) (size : Nat) (skip : Bool)
  | invalid (size : Nat)

def step (state : ChunkState) (size : Nat) (ch : UInt8) : Jump :=
  match state with
  | .chunkStart =>
    match hexDigit ch with
    | some digit => .next .chunkSize digit
    | none => .invalid size
  | .chunkSize =>
    match hexDigit ch with
    | some digit =>
      match appendHexDigit size digit with
      | some size' => .next .chunkSize size'
      | none => .invalid size
    | none =>
      if size = 0 then
        if ch = cr then .next .lastChunkExtensionAlmostDone size
        else if ch = lf then .data .bodyDone .trailer size true
        else if isExtensionStart ch then .next .lastChunkExtension size
        else .invalid size
      else
        if ch = cr then .next .chunkExtensionAlmostDone size
        else if ch = lf then .next .chunkData size
        else if isExtensionStart ch then .next .chunkExtension size
        else .invalid size
  | .chunkExtension =>
    if ch = cr then .next .chunkExtensionAlmostDone size
    else if ch = lf then .next .chunkData size
    else .next .chunkExtension size
  | .chunkExtensionAlmostDone => if ch = lf then .next .chunkData size else .invalid size
  | .chunkData => .data .ok .chunkData size false
  | .afterData =>
    if ch = cr then .next .afterDataAlmostDone size
    else if ch = lf then .next .chunkStart size
    else .invalid size
  | .afterDataAlmostDone => if ch = lf then .next .chunkStart size else .invalid size
  | .lastChunkExtension =>
    if ch = cr then .next .lastChunkExtensionAlmostDone size
    else if ch = lf then .data .bodyDone .trailer size true
    else .next .lastChunkExtension size
  | .lastChunkExtensionAlmostDone =>
    if ch = lf then .data .bodyDone .trailer size true else .invalid size
  | .trailer => .data .bodyDone .trailer size false
  | .trailerAlmostDone => .data .bodyDone .trailerAlmostDone size false
  | .trailerHeader => .data .bodyDone .trailerHeader size false
  | .trailerHeaderAlmostDone => .data .bodyDone .trailerHeaderAlmostDone size false

inductive Scan
  | data (rc : ParseCode) (state : ChunkState) (size consumed : Nat)
  | invalid (size : Nat)
  deriving DecidableEq

/-- The byte loop of `execute`, started after `consumed` bytes. -/
def scan (state : ChunkState) (size consumed : Nat) : List UInt8 → Scan
  | [] => .data .again state size consumed
  | ch :: rest =>
    match step state size ch with
    | .next state' size' => scan state' size' (consumed + 1) rest
    | .data rc state' size' skip => .data rc state' size' (if skip then consumed + 1 else consumed)
    | .invalid size' => .invalid size'

def lengthHint (state : ChunkState) (size : Nat) : Nat :=
  match state with
  | .chunkStart => 3
  | .chunkSize => 1 + (if size ≠ 0 then size + 4 else 1)
  | .chunkExtension | .chunkExtensionAlmostDone => 1 + size + 4
  | .chunkData => size + 4
  | .afterData | .afterDataAlmostDone => 4
  | .lastChunkExtension | .lastChunkExtensionAlmostDone => 2
  | .trailer | .trailerAlmostDone | .trailerHeader | .trailerHeaderAlmostDone => 0

/-- State the byte loop starts in: a chunk whose data has all been consumed is behind it. -/
def resumeState (parser : ChunkedBodyParser) : ChunkState :=
  if parser.state = .chunkData ∧ parser.size = 0 then .afterData else parser.state

/-- The code, the parser afterwards, and the number of bytes taken from the buffer. An invalid byte
leaves the buffer and `state_` alone, though not `size_`. -/
def execute (parser : ChunkedBodyParser) (bytes : List UInt8) : ParseCode × ChunkedBodyParser × Nat :=
  match scan parser.resumeState parser.size 0 bytes with
  | .invalid size => (.error, { parser with size := size }, 0)
  | .data rc state size consumed =>
    if size > kMaxSize - 5 then (.error, { parser with state := state, size := size }, consumed)
    else (rc, ⟨state, size, lengthHint state size⟩, consumed)

def consume (parser : ChunkedBodyParser) (n : Nat) : ChunkedBodyParser :=
  if n ≥ parser.size then { parser with size := 0 } else { parser with size := parser.size - n }

end ChunkedBodyParser

inductive BodyType
  | none | contentLength | chunked
  deriving DecidableEq, Repr

structure BodyParser where
  type : BodyType := .none
  remainingLength : Nat := 0
  done : Bool := true
  chunkedParser : ChunkedBodyParser := {}
  deriving DecidableEq, Repr

namespace BodyParser

def setNone : BodyParser := {}

def setContentLength (length : Nat) : BodyParser :=
  { type := .contentLength, remainingLength := length, done := length = 0 }

def setChunked : BodyParser := { type := .chunked, done := false }

def remaining (parser : BodyParser) : Nat :=
  match parser.type with
  | .none => 0
  | .contentLength => parser.remainingLength
  | .chunked => parser.chunkedParser.size

def consume (parser : BodyParser) (n : Nat) : BodyParser :=
  match parser.type with
  | .none => parser
  | .contentLength =>
    if n ≥ parser.remainingLength then { parser with remainingLength := 0, done := true }
    else { parser with remainingLength := parser.remainingLength - n }
  | .chunked => { parser with chunkedParser := parser.chunkedParser.consume n }

def finishChunkedTrailers (parser : BodyParser) : BodyParser :=
  if parser.type = .chunked then { parser with done := true, chunkedParser := {} } else parser

def execute (parser : BodyParser) (bytes : List UInt8) : ParseCode × BodyParser × Nat :=
  match parser.type with
  | .none => (.done, parser, 0)
  | .contentLength => (if parser.done then .done else .ok, parser, 0)
  | .chunked =>
    if parser.done then (.done, parser, 0)
    else
      match parser.chunkedParser.execute bytes with
      | (code, chunkedParser, consumed) =>
        (code, { parser with chunkedParser := chunkedParser, done := code = .done }, consumed)

end BodyParser

end FiberGateway.Http1
