import FiberGateway.Http1.ExchangeIo
import FiberGateway.Http1.RequestLineParser

namespace FiberGateway.Http1

/-- A `string_view` into a parse buffer: the bytes it shows, and which of the request's parse
buffers they lie in (the first one is number zero, every growth starts the next). -/
structure View where
  block : Option Nat := none
  text : List UInt8 := []
  deriving DecidableEq, Repr

structure HttpUri where
  path : View := {}
  query : View := {}
  exten : View := {}
  unparsedUri : View := {}
  deriving DecidableEq, Repr

structure HeaderField where
  name : View
  value : View
  lowcaseName : List UInt8
  nameHash : UInt32
  deriving DecidableEq, Repr

/-- The request half of an `HttpExchange`. `headerBufs` are the parse buffers it keeps alive. -/
structure Request where
  method : HttpMethod := .unknown
  methodView : View := {}
  version : Nat := 0
  versionView : View := {}
  uri : HttpUri := {}
  headers : List HeaderField := []
  headerBufs : List Nat := []
  chunked : Bool := false
  contentLengthSet : Bool := false
  contentLength : Nat := 0
  close : Bool := false
  keepAlive : Bool := false
  deriving DecidableEq, Repr

def asciiLower (ch : UInt8) : UInt8 := if byte 'A' ≤ ch ∧ ch ≤ byte 'Z' then ch + 32 else ch

def equalsAsciiCi (a b : List UInt8) : Bool := a.map asciiLower = b.map asciiLower

def isLws (ch : UInt8) : Bool := ch = space ∨ ch = tab

def trimLws (value : List UInt8) : List UInt8 :=
  ((value.dropWhile isLws).reverse.dropWhile isLws).reverse

/-- The tokens `for_each_token` visits. -/
def tokens (value : List UInt8) : List (List UInt8) :=
  ((value.splitOn (byte ',')).map trimLws).filter (· ≠ [])

/-- `std::from_chars` to the end of the text, for a 64 bit unsigned number. -/
def fromChars (text : List UInt8) : Option Nat :=
  if text = [] ∨ ¬text.all RequestLineParser.isDigit then none
  else
    let value := text.foldl (fun acc ch => acc * 10 + RequestLineParser.digitValue ch) 0
    if value > kMaxSize then none else some value

def handleContentLength (request : Request) (value : List UInt8) : Option Request :=
  match fromChars value with
  | none => none
  | some length =>
    if request.contentLengthSet ∧ request.contentLength ≠ length then none
    else if request.chunked then some request
    else some { request with contentLengthSet := true, contentLength := length }

def handleTransferEncoding (request : Request) (value : List UInt8) : Option Request :=
  if (tokens value).any (equalsAsciiCi · ("chunked".toList.map byte)) then
    some { request with chunked := true, contentLengthSet := false, contentLength := 0 }
  else some request

def handleConnection (request : Request) (value : List UInt8) : Option Request :=
  some ((tokens value).foldl (fun request token =>
    if equalsAsciiCi token ("close".toList.map byte) then { request with close := true }
    else if equalsAsciiCi token ("keep-alive".toList.map byte) then { request with keepAlive := true }
    else request) request)

def hashName (name : List UInt8) : UInt32 :=
  name.foldl (fun hash ch => hash * 31 + (asciiLower ch).toUInt32) 0

/-- `header_handler_map`. -/
def headerHandlers : List (List UInt8 × (Request → List UInt8 → Option Request)) :=
  [("content-length".toList.map byte, handleContentLength),
    ("transfer-encoding".toList.map byte, handleTransferEncoding),
    ("connection".toList.map byte, handleConnection)]

/-- `HeaderMap::get`: both the hash and the name have to agree. -/
def headerHandler (lowcase : List UInt8) (hash : UInt32) : Option (Request → List UInt8 → Option Request) :=
  (headerHandlers.find? fun entry => hashName entry.1 = hash ∧ equalsAsciiCi entry.1 lowcase).map Prod.snd

structure Connection where
  options : HttpServerOptions
  transport : Transport
  inbound : IoBufChain := []
  consumed : List UInt8 := []

/-- How `parse_request` ends without a request: with an error or with a parse code. -/
inductive Stop
  | error (fault : Fault)
  | code (code : ParseCode)
  deriving DecidableEq, Repr

/-- The bytes `drain_inbound` moves and the chain behind them. It does not look behind an empty node. -/
def drainChain : IoBufChain → Nat → List UInt8 × IoBufChain
  | [], _ => ([], [])
  | node :: rest, room =>
    if room = 0 ∨ node = [] then ([], node :: rest)
    else if room < node.length then (node.take room, node.drop room :: rest)
    else
      match drainChain rest (room - node.length) with
      | (bytes, chain) => (node ++ bytes, chain)

/-- The text between two pointers, where both are set and in order. -/
def viewBetween (block : Nat) (data : List UInt8) (first last : Option Nat) : View :=
  match first, last with
  | some first, some last => if first ≤ last then ⟨some block, slice data first last⟩ else {}
  | _, _ => {}

/-- Fill in the request line from a parser that has accepted it. -/
def describeRequest (line : RequestLineState) (data : List UInt8) (block : Nat) (request : Request) : Request :=
  let uri : HttpUri :=
    match line.uriStart, line.uriEnd with
    | some uriStart, some uriEnd =>
      if uriStart ≤ uriEnd then
        let view (first last : Nat) : View := ⟨some block, slice data first last⟩
        let uri : HttpUri := { request.uri with unparsedUri := view uriStart uriEnd }
        let uri : HttpUri :=
          match line.argsStart with
          | some argsStart =>
            if argsStart ≤ uriEnd then
              { uri with path := view uriStart (argsStart - 1), query := view argsStart uriEnd }
            else { uri with path := uri.unparsedUri }
          | none => { uri with path := uri.unparsedUri }
        match line.uriExt with
        | some uriExt => if uriExt < uriEnd then { uri with exten := view uriExt uriEnd } else uri
        | none => uri
      else request.uri
    | _, _ => request.uri
  { request with
    method := line.method
    -- `method_end` is the last byte of the method, not the one behind it
    methodView :=
      match line.requestStart, line.methodEnd with
      | some first, some last => if first ≤ last then ⟨some block, slice data first (last + 1)⟩ else {}
      | _, _ => {}
    version := line.httpVersion
    versionView := viewBetween block data line.httpProtocolStart line.requestEnd
    uri := uri }

/-- Store one header field and run its handler. -/
def storeHeader (line : HeaderLineState) (data : List UInt8) (block : Nat) (request : Request) :
    Except Stop Request :=
  match fieldOf line data with
  | none => .error (.code .invalidHeader)
  | some (name, value) =>
    let lowcase :=
      if line.lowcaseIndex = name.length then line.lowcaseHeader.take name.length else name.map asciiLower
    if name.length > 2 ^ 32 - 1 ∨ value.length > 2 ^ 32 - 1 then .error (.error (.io .noMem))
    else
      let field : HeaderField := ⟨⟨some block, name⟩, ⟨some block, value⟩, lowcase, line.headerHash⟩
      let request := { request with headers := request.headers ++ [field] }
      match headerHandler lowcase line.headerHash with
      | none => .ok request
      | some handler =>
        match handler request value with
        | none => .error (.code .invalidHeader)
        | some request => .ok request

namespace Connection

def drainInbound (c : Connection) (buffer : IoBuf) : Nat × Connection × IoBuf :=
  match drainChain c.inbound buffer.writable with
  | (bytes, chain) => (bytes.length, { c with inbound := chain }, buffer.fill bytes)

def fillParseBuf (c : Connection) (parseBuf : IoBuf) : Except Fault IoBuf × Connection :=
  match c.drainInbound parseBuf with
  | (0, c, parseBuf) =>
    match c.transport.read parseBuf.writable with
    | ([], _) => (.error (.io .connReset), c)
    | (bytes, transport) => (.ok (parseBuf.fill bytes), { c with transport := transport })
  | (_ + 1, c, parseBuf) => (.ok parseBuf, c)

def logParsed (c : Connection) (parseBuf rest : IoBuf) : Connection :=
  { c with consumed := c.consumed ++ parseBuf.readable.take (rest.pos - parseBuf.pos) }

def dropParseBuf (c : Connection) (parseBuf : IoBuf) : Connection :=
  { c with consumed := c.consumed ++ parseBuf.readable }

/-- Growth that is used up is reported as a parse code, every other failure as an error. -/
def growthStop (c : Connection) (parseBuf : IoBuf) (growthCount : Nat) (fault : Fault) : Stop :=
  if fault ≠ .assertion ∧ nextHeaderCapacity c.options parseBuf.capacity growthCount = 0 then
    .code .headerTooLarge
  else .error fault

/-- Make room in a parse buffer the parser has used up, and bring in more input. -/
def refill {Parser : Type} (replace : Parser → IoBuf → IoBuf → Except Fault (ParseCode × Parser × IoBuf))
    (c : Connection) (parseBuf : IoBuf) (growthCount : Nat) (parser : Parser) :
    Except Stop (IoBuf × Nat × Parser) × Connection :=
  match ensureRoom replace c.options parseBuf growthCount parser with
  | .error fault => (.error (c.growthStop parseBuf growthCount fault), c.dropParseBuf parseBuf)
  | .ok (room, growthCount, parser) =>
    match c.fillParseBuf room with
    | (.error fault, c) => (.error (.error fault), c.dropParseBuf room)
    | (.ok filled, c) => (.ok (filled, growthCount, parser), c)

def readRequestLine : Nat → Connection → IoBuf → Nat → RequestLineParser →
    Except Stop (IoBuf × Nat × RequestLineState) × Connection
  | 0, c, parseBuf, _, _ => (.error (.error .outOfFuel), c.dropParseBuf parseBuf)
  | fuel + 1, c, parseBuf, growthCount, parser =>
    match parser.execute parseBuf with
    | (code, parser, rest) =>
      let c := c.logParsed parseBuf rest
      match code with
      | .again =>
        match c.refill RequestLineParser.replaceBufPtr rest growthCount parser with
        | (.error stop, c) => (.error stop, c)
        | (.ok (parseBuf, growthCount, parser), c) => readRequestLine fuel c parseBuf growthCount parser
      | .ok => (.ok (rest, growthCount, parser.line), c)
      | _ => (.error (.code code), c.dropParseBuf rest)

def readHeaders : Nat → Connection → IoBuf → Nat → HeaderLineParser → Request →
    Except Stop (IoBuf × Request) × Connection
  | 0, c, parseBuf, _, _, _ => (.error (.error .outOfFuel), c.dropParseBuf parseBuf)
  | fuel + 1, c, parseBuf, growthCount, parser, request =>
    match parser.execute parseBuf with
    | (code, parser, rest) =>
      let c := c.logParsed parseBuf rest
      match code with
      | .again =>
        match c.refill HeaderLineParser.replaceBufPtr rest growthCount parser with
        | (.error stop, c) => (.error stop, c)
        | (.ok (parseBuf, growthCount, parser), c) =>
          readHeaders fuel c parseBuf growthCount parser request
      | .ok =>
        match storeHeader parser.line rest.data growthCount request with
        | .error stop => (.error stop, c.dropParseBuf rest)
        | .ok request => readHeaders fuel c rest growthCount parser request
      | .headerDone => (.ok (rest, { request with headerBufs := [growthCount] }), c)
      | _ => (.error (.code code), c.dropParseBuf rest)

/-- Enough for one round per byte to be moved into the buffer and one per byte parsed there. -/
def parseFuel (c : Connection) (parseBuf : IoBuf) : Nat :=
  2 * (c.inbound.flatten.length + c.transport.bytes.length) + parseBuf.readable.length + 1

/-- `parse_request` up to the point where it hands the rest back. -/
def parseHead (c : Connection) : Except Stop (IoBuf × Request) × Connection :=
  match IoBuf.allocate c.options.headerInitSize with
  | none => (.error (.error (.io .noMem)), c)
  | some parseBuf =>
    match readRequestLine (c.parseFuel parseBuf) c parseBuf 0 {} with
    | (.error stop, c) => (.error stop, c)
    | (.ok (rest, growthCount, line), c) =>
      readHeaders (c.parseFuel rest) c rest growthCount {}
        (describeRequest line rest.data growthCount {})

/-- What follows the headers goes back to the connection. -/
def handBackHead (c : Connection) (parseBuf : IoBuf) : Connection :=
  if parseBuf.readable = [] then c else { c with inbound := c.inbound ++ [parseBuf.readable] }

def parseRequest (c : Connection) : Except Stop Request × Connection :=
  match c.parseHead with
  | (.error stop, c) => (.error stop, c)
  | (.ok (parseBuf, request), c) => (.ok request, c.handBackHead parseBuf)

/-- The `Http1ExchangeIo` of a request. -/
def openExchange (c : Connection) (request : Request) : Exchange where
  options := c.options
  transport := c.transport
  inbound := c.inbound
  bodyParser :=
    if request.chunked then .setChunked
    else if ¬request.contentLengthSet ∨ request.contentLength = 0 then .setNone
    else .setContentLength request.contentLength
  consumed := c.consumed

end Connection

/-- What is left of an exchange for the connection's next request. -/
def Exchange.connection (x : Exchange) : Connection where
  options := x.options
  transport := x.transport
  inbound := x.inbound
  consumed := x.consumed

end FiberGateway.Http1
