import FiberGateway.Http1.HeaderLineParser

namespace FiberGateway.Http1

abbrev byte (c : Char) : UInt8 := c.toNat.toUInt8

inductive HttpMethod
  | unknown | get | head | post | put | delete | mkcol | copy | move | options | propFind | propPatch
  | lock | unlock | patch | trace | connect
  deriving DecidableEq, Repr

/-- `detail::parse_method`. -/
def parseMethod (text : List UInt8) : HttpMethod :=
  let is (name : String) : Bool := text = name.toList.map byte
  if is "GET" then .get
  else if is "PUT" then .put
  else if is "POST" then .post
  else if is "HEAD" then .head
  else if is "COPY" then .copy
  else if is "MOVE" then .move
  else if is "LOCK" then .lock
  else if is "MKCOL" then .mkcol
  else if is "PATCH" then .patch
  else if is "TRACE" then .trace
  else if is "DELETE" then .delete
  else if is "UNLOCK" then .unlock
  else if is "OPTIONS" then .options
  else if is "CONNECT" then .connect
  else if is "PROPFIND" then .propFind
  else if is "PROPPATCH" then .propPatch
  else .unknown

/-- `detail::kUsual`, one bit per byte value. -/
def kUsual : List UInt32 :=
  [0x00000000, 0x7fff37d6, 0xffffffff, 0x7fffffff, 0xffffffff, 0xffffffff, 0xffffffff, 0xffffffff]

def isUsual (ch : UInt8) : Bool :=
  kUsual.getD (ch >>> 5).toNat 0 &&& (1 <<< (ch &&& 0x1f).toUInt32) ≠ 0

inductive RequestState
  | start | method | spacesBeforeUri | schema | schemaSlash | schemaSlashSlash | hostStart | host
  | hostEnd | hostIpLiteral | port | afterSlashInUri | checkUri | uri | http09 | httpH | httpHT
  | httpHTT | httpHTTP | firstMajorDigit | majorDigit | firstMinorDigit | minorDigit
  | spacesAfterDigit | almostDone
  deriving DecidableEq, Repr

/-- As in `HeaderLineState`, pointers are offsets from the start of the parse buffer. -/
structure RequestLineState where
  uriStart : Option Nat := none
  uriEnd : Option Nat := none
  uriExt : Option Nat := none
  argsStart : Option Nat := none
  requestStart : Option Nat := none
  requestEnd : Option Nat := none
  methodEnd : Option Nat := none
  schemaStart : Option Nat := none
  schemaEnd : Option Nat := none
  hostStart : Option Nat := none
  hostEnd : Option Nat := none
  httpProtocolStart : Option Nat := none
  httpMajor : Nat := 0
  httpMinor : Nat := 0
  httpVersion : Nat := 0
  method : HttpMethod := .unknown
  complexUri : Bool := false
  quotedUri : Bool := false
  plusInUri : Bool := false
  emptyPathInUri : Bool := false

def RequestLineState.rebase (line : RequestLineState) (old new : Nat) : RequestLineState :=
  let shift : Option Nat → Option Nat := Option.map (· - old + new)
  { line with
    uriStart := shift line.uriStart
    uriEnd := shift line.uriEnd
    uriExt := shift line.uriExt
    argsStart := shift line.argsStart
    requestStart := shift line.requestStart
    requestEnd := shift line.requestEnd
    methodEnd := shift line.methodEnd
    schemaStart := shift line.schemaStart
    schemaEnd := shift line.schemaEnd
    hostStart := shift line.hostStart
    hostEnd := shift line.hostEnd
    httpProtocolStart := shift line.httpProtocolStart }

structure RequestLineParser where
  state : RequestState := .start
  line : RequestLineState := {}

namespace RequestLineParser

inductive Jump
  | next (state : RequestState) (line : RequestLineState)
  | done (line : RequestLineState)
  | fail (code : ParseCode)

def isMethodByte (ch : UInt8) : Bool :=
  (byte 'A' ≤ ch ∧ ch ≤ byte 'Z') ∨ ch = byte '_' ∨ ch = byte '-'

def isLetter (ch : UInt8) : Bool := byte 'a' ≤ ch ||| 0x20 ∧ ch ||| 0x20 ≤ byte 'z'

def isDigit (ch : UInt8) : Bool := byte '0' ≤ ch ∧ ch ≤ byte '9'

def digitValue (ch : UInt8) : Nat := ch.toNat - 48

/-- A request without a path: the target is the slash behind the schema, or empty. -/
def emptyTarget (line : RequestLineState) (p : Nat) : RequestLineState :=
  match line.schemaEnd with
  | some schemaEnd => { line with uriStart := some (schemaEnd + 1), uriEnd := some (schemaEnd + 2) }
  | none => { line with uriStart := some p, uriEnd := some p }

/-- What may follow an authority. -/
def afterAuthority (line : RequestLineState) (p : Nat) (ch : UInt8) : Jump :=
  if ch = byte '/' then .next .afterSlashInUri { line with uriStart := some p }
  else if ch = byte '?' then
    .next .uri { line with uriStart := some p, argsStart := some (p + 1), emptyPathInUri := true }
  else if ch = space then .next .http09 (emptyTarget line p)
  else .fail .invalidRequest

def stepHostEnd (line : RequestLineState) (p : Nat) (ch : UInt8) : Jump :=
  let line := { line with hostEnd := some p }
  if ch = colon then .next .port line else afterAuthority line p ch

def stepHost (line : RequestLineState) (p : Nat) (ch : UInt8) : Jump :=
  if isLetter ch ∨ isDigit ch ∨ ch = byte '.' ∨ ch = byte '-' then .next .host line
  else stepHostEnd line p ch

def stepHostIpLiteral (line : RequestLineState) (ch : UInt8) : Jump :=
  if isDigit ch ∨ isLetter ch ∨ ch = colon then .next .hostIpLiteral line
  else if ch = byte ']' then .next .hostEnd line
  else if ch ∈ "-._~!$&'()*+,;=".toList.map byte then .next .hostIpLiteral line
  else .fail .invalidRequest

def stepAfterSlashInUri (line : RequestLineState) (p : Nat) (ch : UInt8) : Jump :=
  if isUsual ch then .next .checkUri line
  else if ch = space then .next .http09 { line with uriEnd := some p }
  else if ch = cr then .next .almostDone { line with uriEnd := some p, httpMinor := 9 }
  else if ch = lf then .done { line with uriEnd := some p, httpMinor := 9 }
  else if ch = byte '.' ∨ ch = byte '/' ∨ ch = byte '#' then .next .uri { line with complexUri := true }
  else if ch = byte '%' then .next .uri { line with quotedUri := true }
  else if ch = byte '?' then .next .uri { line with argsStart := some (p + 1) }
  else if ch = byte '+' then .next .afterSlashInUri { line with plusInUri := true }
  else if ch < 0x20 ∨ ch = 0x7f then .fail .invalidRequest
  else .next .checkUri line

def stepCheckUri (line : RequestLineState) (p : Nat) (ch : UInt8) : Jump :=
  if isUsual ch then .next .checkUri line
  else if ch = byte '/' then .next .afterSlashInUri { line with uriExt := none }
  else if ch = byte '.' then .next .checkUri { line with uriExt := some (p + 1) }
  else if ch = space then .next .http09 { line with uriEnd := some p }
  else if ch = cr then .next .almostDone { line with uriEnd := some p, httpMinor := 9 }
  else if ch = lf then .done { line with uriEnd := some p, httpMinor := 9 }
  else if ch = byte '%' then .next .uri { line with quotedUri := true }
  else if ch = byte '?' then .next .uri { line with argsStart := some (p + 1) }
  else if ch = byte '#' then .next .uri { line with complexUri := true }
  else if ch = byte '+' then .next .checkUri { line with plusInUri := true }
  else if ch < 0x20 ∨ ch = 0x7f then .fail .invalidRequest
  else .next .checkUri line

def stepUri (line : RequestLineState) (p : Nat) (ch : UInt8) : Jump :=
  if isUsual ch then .next .uri line
  else if ch = space then .next .http09 { line with uriEnd := some p }
  else if ch = cr then .next .almostDone { line with uriEnd := some p, httpMinor := 9 }
  else if ch = lf then .done { line with uriEnd := some p, httpMinor := 9 }
  else if ch = byte '#' then .next .uri { line with complexUri := true }
  else if ch < 0x20 ∨ ch = 0x7f then .fail .invalidRequest
  else .next .uri line

def expect (expected : Char) (ch : UInt8) (state : RequestState) (line : RequestLineState) : Jump :=
  if ch = byte expected then .next state line else .fail .invalidRequest

/-- One byte of a request line, at offset `p` of the buffer whose bytes are `data`. -/
def step (data : List UInt8) (state : RequestState) (line : RequestLineState) (p : Nat) (ch : UInt8) : Jump :=
  match state with
  | .start =>
    let line := { line with requestStart := some p }
    if ch = cr ∨ ch = lf then .next .start line
    else if isMethodByte ch then .next .method line
    else .fail .invalidMethod
  | .method =>
    if ch = space then
      let start := line.requestStart.getD 0
      .next .spacesBeforeUri { line with
        methodEnd := some (p - 1), method := parseMethod ((data.take p).drop start) }
    else if isMethodByte ch then .next .method line
    else .fail .invalidMethod
  | .spacesBeforeUri =>
    if ch = byte '/' then .next .afterSlashInUri { line with uriStart := some p }
    else if isLetter ch then .next .schema { line with schemaStart := some p }
    else if ch = space then .next .spacesBeforeUri line
    else .fail .invalidRequest
  | .schema =>
    if isLetter ch ∨ isDigit ch ∨ ch = byte '+' ∨ ch = byte '-' ∨ ch = byte '.' then .next .schema line
    else if ch = colon then .next .schemaSlash { line with schemaEnd := some p }
    else .fail .invalidRequest
  | .schemaSlash => expect '/' ch .schemaSlashSlash line
  | .schemaSlashSlash => expect '/' ch .hostStart line
  | .hostStart =>
    let line := { line with hostStart := some p }
    if ch = byte '[' then .next .hostIpLiteral line else stepHost line p ch
  | .host => stepHost line p ch
  | .hostEnd => stepHostEnd line p ch
  | .hostIpLiteral => stepHostIpLiteral line ch
  | .port => if isDigit ch then .next .port line else afterAuthority line p ch
  | .afterSlashInUri => stepAfterSlashInUri line p ch
  | .checkUri => stepCheckUri line p ch
  | .uri => stepUri line p ch
  | .http09 =>
    if ch = space then .next .http09 line
    else if ch = cr then .next .almostDone { line with httpMinor := 9 }
    else if ch = lf then .done { line with httpMinor := 9 }
    else if ch = byte 'H' then .next .httpH { line with httpProtocolStart := some p }
    else .fail .invalidRequest
  | .httpH => expect 'T' ch .httpHT line
  | .httpHT => expect 'T' ch .httpHTT line
  | .httpHTT => expect 'P' ch .httpHTTP line
  | .httpHTTP => expect '/' ch .firstMajorDigit line
  | .firstMajorDigit =>
    if ch < byte '1' ∨ byte '9' < ch then .fail .invalidRequest
    else if digitValue ch > 1 then .fail .invalidVersion
    else .next .majorDigit { line with httpMajor := digitValue ch }
  | .majorDigit =>
    if ch = byte '.' then .next .firstMinorDigit line
    else if ¬isDigit ch then .fail .invalidRequest
    else if line.httpMajor * 10 + digitValue ch > 1 then .fail .invalidVersion
    else .next .majorDigit { line with httpMajor := line.httpMajor * 10 + digitValue ch }
  | .firstMinorDigit =>
    if ¬isDigit ch then .fail .invalidRequest
    else .next .minorDigit { line with httpMinor := digitValue ch }
  | .minorDigit =>
    if ch = cr then .next .almostDone line
    else if ch = lf then .done line
    else if ch = space then .next .spacesAfterDigit line
    else if ¬isDigit ch then .fail .invalidRequest
    else if line.httpMinor > 99 then .fail .invalidRequest
    else .next .minorDigit { line with httpMinor := line.httpMinor * 10 + digitValue ch }
  | .spacesAfterDigit =>
    if ch = space then .next .spacesAfterDigit line
    else if ch = cr then .next .almostDone line
    else if ch = lf then .done line
    else .fail .invalidRequest
  | .almostDone =>
    if ch = lf then .done { line with requestEnd := some (p - 1) } else .fail .invalidRequest

inductive Scan
  | again (state : RequestState) (line : RequestLineState) (p : Nat)
  | done (line : RequestLineState) (p : Nat)
  | fail (code : ParseCode)

/-- The byte loop; `done` carries the offset of the line feed. -/
def scan (data : List UInt8) (state : RequestState) (line : RequestLineState) (p : Nat) : List UInt8 → Scan
  | [] => .again state line p
  | ch :: rest =>
    match step data state line p ch with
    | .next state' line' => scan data state' line' (p + 1) rest
    | .done line' => .done line' p
    | .fail code => .fail code

/-- `request_end` for a line that ended without passing `AlmostDone`. -/
def endOfRequest (data : List UInt8) (line : RequestLineState) (p : Nat) : RequestLineState :=
  match line.requestEnd with
  | some _ => line
  | none =>
    if 0 < p ∧ data.getD (p - 1) 0 = cr then
      { line with requestEnd := some (if 1 < p then p - 2 else 0) }
    else { line with requestEnd := some (if 0 < p then p - 1 else 0) }

/-- The checks behind the label `done`. -/
def finishLine (line : RequestLineState) : ParseCode :=
  if line.httpVersion = 9 ∧ line.method ≠ .get then .invalid09Method
  else if line.requestStart = none ∨ line.methodEnd = none ∨ line.uriStart = none ∨ line.uriEnd = none then
    .invalidRequest
  else .ok

def execute (parser : RequestLineParser) (buf : IoBuf) : ParseCode × RequestLineParser × IoBuf :=
  if buf.readable = [] then (.again, parser, buf)
  else
    match scan buf.data parser.state parser.line buf.pos buf.readable with
    | .again state line p => (.again, ⟨state, line⟩, buf.consume (p - buf.pos))
    | .done line p =>
      let line := endOfRequest buf.data line p
      let line := { line with httpVersion := line.httpMajor * 1000 + line.httpMinor }
      (finishLine line, ⟨.start, line⟩, buf.consume (p + 1 - buf.pos))
    | .fail code => (code, parser, buf)

def replaceBufPtr (parser : RequestLineParser) (old new : IoBuf) :
    Except Fault (ParseCode × RequestLineParser × IoBuf) :=
  match parser.line.requestStart with
  | none => .error .assertion
  | some start =>
    if parser.state = .start ∨ old.pos ≤ start then .error .assertion
    else if new.writable < old.pos - start then .ok (.headerTooLarge, parser, new)
    else
      .ok (.ok, { parser with line := parser.line.rebase start new.data.length },
        (new.fill ((old.data.take old.pos).drop start)).consume (old.pos - start))

end RequestLineParser

end FiberGateway.Http1
