import FiberGateway.Http.HttpTransport
import FiberGateway.Http1.Connection

namespace FiberGateway.Http1

inductive ResponseBodyMode
  | auto | contentLength | chunked
  deriving DecidableEq, Repr

inductive ResponseConnectionMode
  | auto | close
  deriving DecidableEq, Repr

inductive ResponsePhase
  | init | headerSent | bodyStreaming | finished
  deriving DecidableEq, Repr

inductive TransportKind
  | tcp | tls
  deriving DecidableEq, Repr

def TransportKind.writev : TransportKind → BufChain → Except IoErr Nat → Except Fault Transfer
  | .tcp => TcpTransport.writev
  | .tls => TlsTransport.writev

def kInlineFirstWriteBodyLimit : Nat := 128
def kHttpStatusDigits : Nat := 3
def kMaxContentLengthDigits : Nat := 20
def kMaxChunkSizeHexDigits : Nat := 16

abbrev text (s : String) : List UInt8 := s.toList.map byte

def defaultReasonPhrase (status : Nat) : List UInt8 :=
  match status with
  | 100 => text "Continue"
  | 101 => text "Switching Protocols"
  | 200 => text "OK"
  | 201 => text "Created"
  | 202 => text "Accepted"
  | 204 => text "No Content"
  | 301 => text "Moved Permanently"
  | 302 => text "Found"
  | 304 => text "Not Modified"
  | 400 => text "Bad Request"
  | 401 => text "Unauthorized"
  | 403 => text "Forbidden"
  | 404 => text "Not Found"
  | 405 => text "Method Not Allowed"
  | 408 => text "Request Timeout"
  | 409 => text "Conflict"
  | 413 => text "Payload Too Large"
  | 429 => text "Too Many Requests"
  | 500 => text "Internal Server Error"
  | 501 => text "Not Implemented"
  | 502 => text "Bad Gateway"
  | 503 => text "Service Unavailable"
  | 504 => text "Gateway Timeout"
  | _ => text "OK"

def digitChar (digit : Nat) : UInt8 := if digit < 10 then 48 + digit.toUInt8 else 87 + digit.toUInt8

/-- The last `fuel` digits of a number, without leading zeros. -/
def toCharsLoop (base : Nat) : Nat → Nat → List UInt8
  | 0, _ => []
  | fuel + 1, value =>
    if value < base then [digitChar value]
    else toCharsLoop base fuel (value / base) ++ [digitChar (value % base)]

/-- `std::to_chars`. -/
def toChars (base value : Nat) : List UInt8 := toCharsLoop base (value + 1) value

def crLf : List UInt8 := [cr, lf]

/-- A header block entry; a field without a name is passed over. -/
def encodeField (field : List UInt8 × List UInt8) : List UInt8 :=
  if field.1 = [] then [] else field.1 ++ text ": " ++ field.2 ++ crLf

/-- `write_all` over a buffer: how far it gets with the answers of the layer below. -/
def writeBuffer : List (Except IoErr Nat) → List UInt8 → WriteAll
  | answers, bytes =>
    if bytes = [] then ⟨some (.ok ()), []⟩
    else
      match answers with
      | [] => ⟨none, []⟩
      | .error err :: _ => ⟨some (.error err), []⟩
      | .ok accepted :: answers =>
        if accepted = 0 then ⟨some (.error .connReset), []⟩
        else
          let rest := writeBuffer answers (bytes.drop accepted)
          { rest with wire := bytes.take accepted ++ rest.wire }

/-- The response half of an `HttpExchange`, the `Http1ExchangeIo` that writes it, and what is read of the request and of
the connection. `answers` has the transport's answers to each `write_all` to come, `wire` the bytes that went out. -/
structure Response where
  version : Nat := 1001
  requestKeepAlive : Bool := false
  requestClose : Bool := false
  statusCode : Nat := 200
  reason : List UInt8 := []
  headers : List (List UInt8 × List UInt8) := []
  trailers : List (List UInt8 × List UInt8) := []
  bodyMode : ResponseBodyMode := .auto
  contentLength : UInt64 := 0
  connectionMode : ResponseConnectionMode := .auto
  phase : ResponsePhase := .init
  bodySent : UInt64 := 0
  closeAfterResponse : Bool := false
  requestBodyDone : Bool := true
  drainUnreadBody : Bool := false
  stopping : Bool := false
  transport : TransportKind := .tcp
  answers : List (List (Except IoErr Nat)) := []
  wire : List UInt8 := []

namespace Response

def containsHeader (r : Response) (name : String) : Bool := r.headers.any fun field => equalsAsciiCi field.1 (text name)

/-- The body mode and the content length that a header is written for. -/
def inferBodyMode (r : Response) (bodyEnd : Bool) (firstBodyLen : Nat) (infer : Bool) : Response :=
  if r.bodyMode = .auto then
    if infer then
      if bodyEnd then { r with bodyMode := .contentLength, contentLength := firstBodyLen.toUInt64 }
      else { r with bodyMode := .chunked }
    else { r with bodyMode := .contentLength, contentLength := 0 }
  else r

def closeConn (r : Response) : Bool :=
  r.connectionMode = .close || r.stopping ||
    if !r.drainUnreadBody && !r.requestBodyDone then true
    else if r.version = 1000 then !r.requestKeepAlive
    else r.requestClose

def reasonPhrase (r : Response) : List UInt8 :=
  if r.reason = [] then defaultReasonPhrase r.statusCode else r.reason

def statusLine (r : Response) : List UInt8 :=
  text (if r.version = 1000 then "HTTP/1.0 " else "HTTP/1.1 ") ++ toChars 10 r.statusCode ++ [space] ++ r.reasonPhrase ++
    crLf

/-- The fields the server adds to those of the exchange. -/
def framingFields (r : Response) (closeConn : Bool) : List UInt8 :=
  (if r.bodyMode = .contentLength ∧ ¬r.containsHeader "Content-Length" then
    text "Content-Length: " ++ toChars 10 r.contentLength.toNat ++ crLf else []) ++
  (if r.bodyMode = .chunked ∧ ¬r.containsHeader "Transfer-Encoding" then text "Transfer-Encoding: chunked\r\n" else []) ++
  (if closeConn ∧ ¬r.containsHeader "Connection" then text "Connection: close\r\n" else [])

def headerBlock (r : Response) (closeConn : Bool) : List UInt8 :=
  r.statusLine ++ r.framingFields closeConn ++ r.headers.flatMap encodeField ++ crLf

/-- The size of the buffer for a header block. -/
def headerLen (r : Response) (closeConn : Bool) : Nat :=
  (text "HTTP/1.1 ").length + kHttpStatusDigits + (1 + r.reasonPhrase.length + crLf.length) +
  (if r.bodyMode = .contentLength ∧ ¬r.containsHeader "Content-Length" then
    (text "Content-Length: ").length + kMaxContentLengthDigits + crLf.length else 0) +
  (if r.bodyMode = .chunked ∧ ¬r.containsHeader "Transfer-Encoding" then (text "Transfer-Encoding: chunked\r\n").length
    else 0) +
  (if closeConn ∧ ¬r.containsHeader "Connection" then (text "Connection: close\r\n").length else 0) +
  (r.headers.map fun field => (encodeField field).length).sum + crLf.length

end Response

/-- A call on the response. A call that fails leaves what it has written; `outOfFuel` is a call that waits for the
transport. -/
abbrev ResponseM := EStateM Fault Response

namespace Response

/-- A buffer of some capacity with the bytes that have been put into it. -/
def filledView (capacity : Nat) (bytes : List UInt8) : IoView where
  storage := bytes ++ List.replicate (capacity - bytes.length) 0
  pos := 0
  last := bytes.length
  pos_le := Nat.zero_le _
  last_le := by simp

def nextAnswers : ResponseM (List (Except IoErr Nat)) :=
  modifyGet fun r => (r.answers.headD [], { r with answers := r.answers.tail })

def sent (done : WriteAll) : ResponseM Unit := do
  modify fun r => { r with wire := r.wire ++ done.wire }
  match done.returned with
  | some (.ok ()) => return
  | some (.error err) => throw (.io err)
  | none => throw .outOfFuel

def writeAllBytes (bytes : List UInt8) : ResponseM Unit := do
  sent (writeBuffer (← nextAnswers) bytes)

def writeAllChain (chain : BufChain) : ResponseM Unit := do
  let answers ← nextAnswers
  match writeAll (← get).transport.writev answers chain with
  | .error fault => throw fault
  | .ok done => sent done

/-- `build_response_header`: the buffer with the block, and whether the connection is to be closed. -/
def buildResponseHeader (bodyEnd : Bool) (firstBodyLen : Nat) (infer : Bool) : ResponseM (IoView × Bool) := do
  modify fun r => r.inferBodyMode bodyEnd firstBodyLen infer
  let r ← get
  let closeConn := r.closeConn
  match IoBuf.allocate (r.headerLen closeConn) with
  | none => throw (.io .noMem)
  | some _ => return (filledView (r.headerLen closeConn) (r.headerBlock closeConn), closeConn)

def headerWritten (closeConn : Bool) : ResponseM Unit :=
  modify fun r => { r with
    closeAfterResponse := closeConn
    connectionMode := if closeConn then .close else r.connectionMode }

/-- `send_response_header`, that is `write_response_header` without a body to infer from. -/
def sendResponseHeader : ResponseM Unit := do
  if (← get).phase ≠ .init then throw (.io .already)
  modify fun r => r.inferBodyMode true 0 false
  let r ← get
  writeAllBytes (r.headerBlock r.closeConn)
  modify fun r => { r with phase := .headerSent }
  headerWritten r.closeConn

def writeChunkedTrailerBlock : ResponseM Unit := do
  writeAllBytes ((← get).trailers.flatMap encodeField ++ crLf)

def finishResponse : ResponseM Unit := do
  let r ← get
  if r.phase = .init then throw (.io .invalid)
  if r.phase = .finished then throw (.io .already)
  if r.bodyMode = .chunked then
    writeAllBytes (text "0" ++ crLf)
    writeChunkedTrailerBlock
    modify fun r => { r with phase := .finished }
  else
    if r.trailers.length > 0 then throw (.io .invalid)
    if r.bodyMode = .contentLength ∧ r.bodySent ≠ r.contentLength then throw (.io .invalid)
    modify fun r => { r with phase := .finished }

/-- A length that does not fit into what is left of the content length is refused. -/
def checkRemaining (len : Nat) : ResponseM Unit := do
  let r ← get
  if r.bodyMode = .contentLength ∧ len > (r.contentLength - r.bodySent).toNat then throw (.io .invalid)

/-- The end of every `write_body` that writes behind a header. -/
def bodyWritten (len : Nat) (last : Bool) : ResponseM Unit := do
  modify fun r => { r with
    bodySent := r.bodySent + len.toUInt64
    phase := if len > 0 then .bodyStreaming else r.phase }
  if last then finishResponse

/-- The end of every `write_body` that writes the header as well. -/
def firstWritten (closeConn : Bool) (len : Nat) (last : Bool) : ResponseM Unit := do
  headerWritten closeConn
  modify fun r => { r with
    bodySent := r.bodySent + len.toUInt64
    phase := if len > 0 then .bodyStreaming else .headerSent }
  if last then finishResponse

/-- The size line, the data and the line end of a chunk. -/
def writeChunk (len : Nat) (data : ResponseM Unit) : ResponseM Unit := do
  writeAllBytes (toChars 16 len)
  writeAllBytes crLf
  data
  writeAllBytes crLf

/-- `write_body` behind a header; `data` writes the bytes themselves. -/
def streamBody (len : Nat) (data : ResponseM Unit) (last : Bool) : ResponseM Unit := do
  if (← get).bodyMode = .chunked then
    if len > 0 then writeChunk len data
  else
    checkRemaining len
    if len > 0 then data
  bodyWritten len last

/-- `write_body` for a `BodyChunk`. -/
def writeBodyChunk (chain : BufChain) (last : Bool) : ResponseM Unit := do
  if (← get).phase = .finished then throw (.io .already)
  let len := chain.readableBytes
  if (← get).phase = .init then
    let (header, closeConn) ← buildResponseHeader last len true
    checkRemaining len
    let chain := if (← get).bodyMode = .chunked ∧ len > 0 then
        (chain.append (filledView 2 crLf)).prepend (filledView (kMaxChunkSizeHexDigits + 2) (toChars 16 len ++ crLf))
      else chain
    writeAllChain (chain.prepend header)
    firstWritten closeConn len last
  else streamBody len (writeAllChain chain) last

/-- `write_body` for a buffer. -/
def writeBody (buf : List UInt8) (last : Bool) : ResponseM Unit := do
  if (← get).phase = .finished then throw (.io .already)
  let len := buf.length
  if (← get).phase = .init then
    let (header, closeConn) ← buildResponseHeader last len true
    checkRemaining len
    let chunked := (← get).bodyMode = .chunked ∧ len > 0
    if len ≤ kInlineFirstWriteBodyLimit then
      writeAllBytes (header.readable ++ if chunked then toChars 16 len ++ crLf ++ buf ++ crLf else buf)
    else
      writeAllBytes header.readable
      if chunked then writeChunk len (writeAllBytes buf)
      else if len > 0 then writeAllBytes buf
    firstWritten closeConn len last
  else streamBody len (writeAllBytes buf) last

/-- What a handler does with its response once the body mode is settled. -/
inductive Call
  | setTrailers (trailers : List (List UInt8 × List UInt8))
  | sendResponseHeader
  | writeBody (buf : List UInt8) (last : Bool)
  | writeBodyChunk (chain : BufChain) (last : Bool)
  | finishResponse

def call : Call → ResponseM Unit
  | .setTrailers trailers => modify fun r => { r with trailers := trailers }
  | .sendResponseHeader => sendResponseHeader
  | .writeBody buf last => writeBody buf last
  | .writeBodyChunk chain last => writeBodyChunk chain last
  | .finishResponse => finishResponse

def run : List Call → ResponseM Unit
  | [] => pure ()
  | c :: calls => do
    call c
    run calls

end Response

end FiberGateway.Http1
