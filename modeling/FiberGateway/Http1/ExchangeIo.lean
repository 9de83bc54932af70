import FiberGateway.Http1.HeaderLineParser

namespace FiberGateway.Http1

def kMaxDirectBodyRead : Nat := 64 * 1024

structure BodyChunk where
  last : Bool := false
  data : List UInt8 := []
  deriving DecidableEq, Repr

/-- Everything a body read can reach: the connection's transport and `inbound_bufs_`, the
`Http1ExchangeIo` with its `read_buf_`, and the trailer fields of the exchange. `consumed` logs the
bytes taken out of the buffers for good, in the order in which that happened. -/
structure Exchange where
  options : HttpServerOptions
  transport : Transport
  inbound : IoBufChain := []
  readBuf : List UInt8 := []
  bodyParser : BodyParser := {}
  readCallUsedIo : Bool := false
  trailers : List (List UInt8 × List UInt8) := []
  trailersComplete : Bool := false
  consumed : List UInt8 := []

/-- The first `len` bytes of a chain, the chain behind them, and how many of the bytes it lacks. -/
def takeChain : IoBufChain → Nat → List UInt8 × IoBufChain × Nat
  | [], len => ([], [], len)
  | node :: rest, len =>
    if len = 0 then ([], node :: rest, 0)
    else if len < node.length then (node.take len, node.drop len :: rest, 0)
    else
      match takeChain rest (len - node.length) with
      | (bytes, chain, missing) => (node ++ bytes, chain, missing)

/-- Offsets delimiting a piece of the parse buffer, as a `string_view` built from two pointers. -/
def slice (data : List UInt8) (first last : Nat) : List UInt8 := (data.take last).drop first

/-- `HttpHeaders::add` refuses names and values whose length does not fit in 32 bits. -/
def addField (fields : List (List UInt8 × List UInt8)) (name value : List UInt8) :
    Option (List (List UInt8 × List UInt8)) :=
  if name.length > 2 ^ 32 - 1 ∨ value.length > 2 ^ 32 - 1 then none
  else some (fields ++ [(name, value)])

/-- Name and value of the line the parser has just finished. -/
def fieldOf (line : HeaderLineState) (data : List UInt8) : Option (List UInt8 × List UInt8) :=
  match line.headerNameStart, line.headerNameEnd with
  | some nameStart, some nameEnd =>
    if nameEnd < nameStart then none
    else
      match line.headerStart, line.headerEnd with
      | some valueStart, some valueEnd =>
        if valueStart ≤ valueEnd then
          some (slice data nameStart nameEnd, slice data valueStart valueEnd)
        else some (slice data nameStart nameEnd, [])
      | _, _ => some (slice data nameStart nameEnd, [])
  | _, _ => none

namespace Exchange

/-- The bytes still to be consumed, in arrival order. -/
def input (x : Exchange) : List UInt8 := x.inbound.flatten ++ x.readBuf ++ x.transport.bytes

def bodyInputReadable (x : Exchange) : Nat := x.inbound.readableBytes + x.readBuf.length

/-- Fill a parse buffer from `inbound_bufs_` and then from `read_buf_`, up to its capacity. -/
def drainBodyInput (x : Exchange) (buffer : IoBuf) : Nat × Exchange × IoBuf :=
  match takeChain x.inbound buffer.writable with
  | (bytes, chain, missing) =>
    let copied := bytes ++ x.readBuf.take missing
    (copied.length, { x with inbound := chain, readBuf := x.readBuf.drop missing },
      buffer.fill copied)

def frontBodyInput (x : Exchange) : Option (List UInt8) :=
  match x.inbound with
  | front :: _ => some front
  | [] => if x.readBuf = [] then none else some x.readBuf

/-- Drop bytes from the buffer `frontBodyInput` has found. -/
def consumeFront (x : Exchange) (bytes : Nat) : Exchange :=
  match x.inbound with
  | [] =>
    { x with readBuf := x.readBuf.drop bytes, consumed := x.consumed ++ x.readBuf.take bytes }
  | front :: rest =>
    { x with
      inbound := IoBufChain.consumeAndCompact bytes (front :: rest)
      consumed := x.consumed ++ front.take bytes }

def compactInbound (x : Exchange) : Exchange :=
  { x with inbound := IoBufChain.dropEmptyFront x.inbound }

def spillReadBufToInbound (x : Exchange) : Exchange :=
  if x.readBuf = [] then x else { x with inbound := x.inbound ++ [x.readBuf], readBuf := [] }

def readMore (x : Exchange) (maxBytes : Nat) : Nat × Exchange :=
  let readSize := min maxBytes kMaxDirectBodyRead
  if readSize = 0 then (0, x)
  else
    match x.transport.read readSize with
    | (bytes, transport) =>
      (bytes.length,
        { x with transport := transport, readBuf := x.readBuf ++ bytes, readCallUsedIo := true })

/-- One round of the chunk parser, over the buffer in front. -/
def parseFront (x : Exchange) (front : List UInt8) : ParseCode × Exchange × Nat :=
  match x.bodyParser.execute front with
  | (code, bodyParser, consumed) =>
    (code, ({ x with bodyParser := bodyParser }).consumeFront consumed, consumed)

/-- Run the chunk parser over the buffered input, and over at most one read after it. -/
def advanceChunkedBody (maxBytes : Nat) : Nat → Exchange → Bool → Except Fault ParseCode × Exchange
  | 0, x, _ => (.error .outOfFuel, x)
  | fuel + 1, x, allowRead =>
    let x := x.compactInbound
    match x.frontBodyInput with
    | none =>
      if allowRead then
        match x.readMore maxBytes with
        | (0, x) => (.error (.io .connReset), x)
        | (_ + 1, x) => advanceChunkedBody maxBytes fuel x false
      else (.ok .again, x)
    | some front =>
      match x.parseFront front with
      | (code, x, consumed) =>
        if code = .again then
          if consumed = 0 then (.error (.io .invalid), x)
          else advanceChunkedBody maxBytes fuel x allowRead
        else if code = .ok ∨ code = .done ∨ code = .bodyDone then (.ok code, x)
        else (.error (.io .invalid), x)

/-- Enough for a round per byte, the round that reads, and the one that finds nothing left. -/
def advanceFuel (x : Exchange) : Nat := x.input.length + 3

def takePrefix (x : Exchange) (len : Nat) : Except Fault (List UInt8) × Exchange :=
  match takeChain x.inbound len with
  | (bytes, chain, missing) =>
    let data := bytes ++ x.readBuf.take missing
    let x' := { x with
      inbound := chain, readBuf := x.readBuf.drop missing, consumed := x.consumed ++ data }
    if x.readBuf.length < missing then (.error (.io .invalid), x') else (.ok data, x')

/-- Make sure there is input for the body data. A call that has already read does not read again. -/
def awaitBodyInput (x : Exchange) (limit : Nat) : Except Fault Bool × Exchange :=
  if x.bodyInputReadable = 0 then
    if x.readCallUsedIo then (.ok false, x)
    else
      match x.readMore limit with
      | (0, x) => (.error (.io .connReset), x)
      | (_ + 1, x) => (.ok true, x)
  else (.ok true, x)

def takeBody (x : Exchange) (budget : Nat) : Except Fault (List UInt8) × Exchange :=
  let take := min budget (min x.bodyParser.remaining x.bodyInputReadable)
  match x.takePrefix take with
  | (.error fault, x) => (.error fault, x)
  | (.ok data, x) => (.ok data, { x with bodyParser := x.bodyParser.consume take })

/-- What the chunked part of a call ends with: a chunk to return, or the body's end, from where the
trailers have to be read before the data can be returned. -/
inductive BodyStep
  | chunk (out : BodyChunk)
  | trailers (data : List UInt8)
  deriving DecidableEq

/-- The part of a round that takes chunk data; `again` is the next round. -/
def takeData (again : Exchange → Nat → List UInt8 → Except Fault BodyStep × Exchange) (x : Exchange)
    (budget : Nat) (out : List UInt8) : Except Fault BodyStep × Exchange :=
  match x.awaitBodyInput (min budget x.bodyParser.remaining) with
  | (.error fault, x) => (.error fault, x)
  | (.ok false, x) => (.ok (.chunk ⟨false, out⟩), x)
  | (.ok true, x) =>
    match x.takeBody budget with
    | (.error fault, x) => (.error fault, x)
    | (.ok data, x) =>
      if budget - data.length = 0 ∨ x.bodyParser.remaining > 0 then
        (.ok (.chunk ⟨false, out ++ data⟩), x)
      else again x (budget - data.length) (out ++ data)

def readChunked : Nat → Exchange → Nat → List UInt8 → Except Fault BodyStep × Exchange
  | 0, x, _, _ => (.error .outOfFuel, x)
  | fuel + 1, x, budget, out =>
    if x.bodyParser.remaining = 0 then
      match advanceChunkedBody budget x.advanceFuel x !x.readCallUsedIo with
      | (.error fault, x) => (.error fault, x)
      | (.ok .bodyDone, x) => (.ok (.trailers out), x)
      | (.ok .again, x) => (.ok (.chunk ⟨false, out⟩), x)
      | (.ok _, x) => takeData (readChunked fuel) x budget out
    else takeData (readChunked fuel) x budget out

/-- Enough for a round per byte. -/
def readFuel (x : Exchange) : Nat := x.input.length + 1

/-- Bring more input into a parse buffer: what is at hand, or else one read. -/
def fillParseBuf (x : Exchange) (parseBuf : IoBuf) : Except Fault IoBuf × Exchange :=
  match x.drainBodyInput parseBuf with
  | (0, x, parseBuf) =>
    match x.transport.read parseBuf.writable with
    | ([], _) => (.error (.io .connReset), x)
    | (bytes, transport) => (.ok (parseBuf.fill bytes), { x with transport := transport })
  | (_ + 1, x, parseBuf) => (.ok parseBuf, x)

/-- Log what the header parser has taken out of a parse buffer. -/
def logParsed (x : Exchange) (parseBuf rest : IoBuf) : Exchange :=
  { x with consumed := x.consumed ++ parseBuf.readable.take (rest.pos - parseBuf.pos) }

/-- A call that fails takes its parse buffer with it, and with that the bytes it had put there. -/
def dropParseBuf (x : Exchange) (parseBuf : IoBuf) : Exchange :=
  { x with consumed := x.consumed ++ parseBuf.readable }

/-- Parse trailer lines up to the empty one, growing the parse buffer on the way. Yields the buffer
with whatever follows the trailers. -/
def readTrailerLines : Nat → Exchange → IoBuf → Nat → HeaderLineParser → Except Fault IoBuf × Exchange
  | 0, x, parseBuf, _, _ => (.error .outOfFuel, x.dropParseBuf parseBuf)
  | fuel + 1, x, parseBuf, growthCount, parser =>
    match parser.execute parseBuf with
    | (code, parser, rest) =>
      let x := x.logParsed parseBuf rest
      match code with
      | .again =>
        match ensureRoom HeaderLineParser.replaceBufPtr x.options rest growthCount parser with
        | .error fault => (.error fault, x.dropParseBuf rest)
        | .ok (room, growthCount, parser) =>
          match x.fillParseBuf room with
          | (.error fault, x) => (.error fault, x.dropParseBuf room)
          | (.ok parseBuf, x) => readTrailerLines fuel x parseBuf growthCount parser
      | .ok =>
        match fieldOf parser.line rest.data with
        | none => (.error (.io .invalid), x.dropParseBuf rest)
        | some (name, value) =>
          match addField x.trailers name value with
          | none => (.error (.io .noMem), x.dropParseBuf rest)
          | some trailers =>
            readTrailerLines fuel { x with trailers := trailers } rest growthCount parser
      | .headerDone => (.ok rest, x)
      | _ => (.error (.io .invalid), x.dropParseBuf rest)

/-- Enough for one round per byte to be moved into the buffer and one per byte parsed there. -/
def trailerFuel (x : Exchange) : Nat := 2 * x.input.length + 2

/-- What follows the trailers goes back to the connection, for the next request. -/
def handBackTrailers (x : Exchange) (parseBuf : IoBuf) : Exchange :=
  let x :=
    if parseBuf.readable = [] then x else { x with inbound := x.inbound ++ [parseBuf.readable] }
  let x := x.spillReadBufToInbound
  { x with trailersComplete := true, bodyParser := x.bodyParser.finishChunkedTrailers }

/-- `read_request_trailers` up to the point where it hands the rest back. -/
def parseTrailers (x : Exchange) : Except Fault IoBuf × Exchange :=
  match IoBuf.allocate x.options.headerInitSize with
  | none => (.error (.io .noMem), x)
  | some parseBuf => readTrailerLines x.trailerFuel x parseBuf 0 {}

def readContentLength (x : Exchange) (maxBytes : Nat) : Except Fault BodyChunk × Exchange :=
  match x.awaitBodyInput (min maxBytes x.bodyParser.remaining) with
  | (.error fault, x) => (.error fault, x)
  | (.ok _, x) =>
    match x.takeBody maxBytes with
    | (.error fault, x) => (.error fault, x)
    | (.ok data, x) =>
      if x.bodyParser.done then (.ok ⟨true, data⟩, { x with trailersComplete := true })
      else (.ok ⟨false, data⟩, x)

/-- What a body read comes to before anything is handed back: its result, or a parse buffer behind
the trailers together with the data to return. -/
inductive ReadStep
  | finished (result : Except Fault BodyChunk)
  | trailersDone (parseBuf : IoBuf) (data : List UInt8)

def readBodyStep (x : Exchange) (maxBytes : Nat) : ReadStep × Exchange :=
  if x.bodyParser.done then (.finished (.ok ⟨true, []⟩), { x with trailersComplete := true })
  else if maxBytes = 0 then (.finished (.ok {}), x)
  else
    let x := { x with readCallUsedIo := false }
    if x.bodyParser.type = .chunked then
      match readChunked x.readFuel x maxBytes [] with
      | (.error fault, x) => (.finished (.error fault), x)
      | (.ok (.chunk out), x) => (.finished (.ok out), x)
      | (.ok (.trailers data), x) =>
        match x.parseTrailers with
        | (.error fault, x) => (.finished (.error fault), x)
        | (.ok parseBuf, x) => (.trailersDone parseBuf data, x)
    else
      match x.readContentLength maxBytes with
      | (result, x) => (.finished result, x)

def readBody (x : Exchange) (maxBytes : Nat) : Except Fault BodyChunk × Exchange :=
  match x.readBodyStep maxBytes with
  | (.finished result, x) => (result, x)
  | (.trailersDone parseBuf data, x) => (.ok ⟨true, data⟩, x.handBackTrailers parseBuf)

end Exchange

end FiberGateway.Http1
