import FiberGateway.Http2.Connection

namespace FiberGateway.Http2

namespace Conn

/-- Runs the rest of a handler unless an error was returned. -/
def andThen (result : Option IoErr × Conn) (rest : Conn → Option IoErr × Conn) : Option IoErr × Conn :=
  match result with
  | (none, c) => rest c
  | (some err, c) => (some err, c)

/-- `Http2Stream::on_data_recv`. -/
def onDataRecv (c : Conn) (streamId dataOffset : Nat) (bytes : List UInt8) (endStream : Bool) : Option IoErr × Conn :=
  match (c.streams.find streamId).bind (·.state.onRecvData endStream) with
  | none => (some .invalid, c)
  | some state =>
    (none, { c.setState streamId state with
      received := c.received ++ bytes.mapIdx (fun i byte => .data streamId (dataOffset + i) byte) ++
        if endStream then [.endStream streamId] else [] })

/-- `Http2Stream::on_header_recv`. -/
def onHeaderRecv (c : Conn) (streamId blockOffset : Nat) (bytes : List UInt8) (endStream : Bool) :
    Option IoErr × Conn :=
  match (c.streams.find streamId).bind (·.state.onRecvHeaders endStream) with
  | none => (some .invalid, c)
  | some state =>
    (none, { c.setState streamId state with
      received := c.received ++ bytes.mapIdx (fun i byte => .header streamId (blockOffset + i) byte) ++
        if endStream then [.endStream streamId] else [] })

/-- The bytes of a chunk that lie between `first` and `last` of the frame's payload. -/
def overlap (chunk : List UInt8) (offset first last : Nat) : List UInt8 :=
  let deliverBegin := max offset first
  let deliverEnd := min (offset + chunk.length) last
  (chunk.drop (deliverBegin - offset)).take (deliverEnd - deliverBegin)

def dataPrefix (fhr : FrameHeader) : Nat := if fhr.has kFlagPadded then 1 else 0

def headersPrefix (fhr : FrameHeader) : Nat :=
  (if fhr.has kFlagPadded then 1 else 0) + (if fhr.has kFlagPriority then 5 else 0)

/-- The checks of `handle_data_payload` at the start of a frame. The pad length is the first byte of the chunk; a
padded frame without payload is refused whatever is read in its place. -/
def beginData (c : Conn) (fhr : FrameHeader) (chunk : List UInt8) : Option IoErr × Conn :=
  let c := { c with incomingPadLength := 0 }
  if fhr.streamId = 0 then (some .invalid, c)
  else if fhr.has kFlagPadded then
    let c := { c with incomingPadLength := byteAt chunk 0 }
    if fhr.length < 1 + c.incomingPadLength then (some .invalid, c) else (none, c)
  else (none, c)

def deliverData (fhr : FrameHeader) (offset : Nat) (chunk : List UInt8) (c : Conn) : Option IoErr × Conn :=
  match c.streams.find fhr.streamId with
  | none => (some .invalid, c)
  | some _ =>
    let dataBegin := dataPrefix fhr
    let dataEnd := fhr.length - c.incomingPadLength
    let bytes := overlap chunk offset dataBegin dataEnd
    let endStream := fhr.has kFlagEndStream && decide (dataEnd ≤ offset + chunk.length)
    if bytes ≠ [] ∨ endStream then
      match c.onDataRecv fhr.streamId (max offset dataBegin - dataBegin) bytes endStream with
      | (some err, c) => (none, c.handleStreamError fhr.streamId .streamClosed err)
      | (none, c) => (none, c.maybeDestroyStream fhr.streamId)
    else (none, c)

def handleDataPayload (c : Conn) (fhr : FrameHeader) (offset : Nat) (chunk : List UInt8) : Option IoErr × Conn :=
  if offset = 0 then andThen (c.beginData fhr chunk) (deliverData fhr offset chunk)
  else c.deliverData fhr offset chunk

/-- The checks of `handle_headers_payload` at the start of a frame. -/
def beginHeaders (c : Conn) (fhr : FrameHeader) (chunk : List UInt8) : Option IoErr × Conn :=
  let c := { c with incomingPadLength := 0 }
  if fhr.streamId = 0 then (some .invalid, c)
  else
    let c := if fhr.has kFlagPadded then { c with incomingPadLength := byteAt chunk 0 } else c
    if fhr.length < headersPrefix fhr + c.incomingPadLength then (some .invalid, c)
    else if c.expectingContinuation then (some .invalid, c)
    else if c.isIdleStream fhr.streamId then
      match c.createPeerStream fhr.streamId with
      | none => (some .invalid, c)
      | some c => (none, c)
    else (none, c)

/-- The header-assembly state after the last byte of a fragment. -/
def endFragment (c : Conn) (fragmentBytes : Nat) (endHeaders : Bool) : Conn :=
  if endHeaders then
    { c with
      expectingContinuation := false
      inboundHeaderStreamId := 0
      inboundHeaderBlockBytes := 0
      inboundHeaderEndStream := false }
  else
    { c with
      expectingContinuation := true
      inboundHeaderBlockBytes := c.inboundHeaderBlockBytes + fragmentBytes }

/-- Hands a part of a header block to its stream; an error is the stream's own. -/
def recvFragment (c : Conn) (streamId blockOffset : Nat) (bytes : List UInt8) (endStream : Bool)
    (finish : Conn → Conn) : Option IoErr × Conn :=
  match c.onHeaderRecv streamId blockOffset bytes endStream with
  | (some err, c) => (none, c.handleStreamError streamId .protocolError err)
  | (none, c) => (none, finish (c.maybeDestroyStream streamId))

/-- The start of a header block. -/
def beginBlock (fhr : FrameHeader) (c : Conn) : Conn :=
  { c with inboundHeaderStreamId := fhr.streamId, inboundHeaderEndStream := fhr.has kFlagEndStream }

def deliverHeaders (fhr : FrameHeader) (offset : Nat) (chunk : List UInt8) (c : Conn) : Option IoErr × Conn :=
  match c.streams.find fhr.streamId with
  | none => (some .invalid, c)
  | some _ =>
    let fragmentBegin := headersPrefix fhr
    let fragmentEnd := fhr.length - c.incomingPadLength
    let bytes := overlap chunk offset fragmentBegin fragmentEnd
    let blockOffset := c.inboundHeaderBlockBytes + (max offset fragmentBegin - fragmentBegin)
    let last : Bool := fragmentEnd ≤ offset + chunk.length
    let endHeaders := fhr.has kFlagEndHeaders && last
    let c := if offset = 0 then c.beginBlock fhr else c
    let finish (c : Conn) : Conn :=
      if last then c.endFragment (fragmentEnd - fragmentBegin) (fhr.has kFlagEndHeaders) else c
    if bytes ≠ [] ∨ endHeaders then
      c.recvFragment fhr.streamId blockOffset bytes (fhr.has kFlagEndStream && endHeaders) finish
    else (none, finish c)

def handleHeadersPayload (c : Conn) (fhr : FrameHeader) (offset : Nat) (chunk : List UInt8) : Option IoErr × Conn :=
  if offset = 0 then andThen (c.beginHeaders fhr chunk) (deliverHeaders fhr offset chunk)
  else c.deliverHeaders fhr offset chunk

def deliverContinuation (fhr : FrameHeader) (offset : Nat) (chunk : List UInt8) (c : Conn) : Option IoErr × Conn :=
  match c.streams.find fhr.streamId with
  | none => (some .invalid, c)
  | some _ =>
    let last : Bool := fhr.length ≤ offset + chunk.length
    let endHeaders := fhr.has kFlagEndHeaders && last
    let finish (c : Conn) : Conn := if last then c.endFragment fhr.length (fhr.has kFlagEndHeaders) else c
    if chunk ≠ [] ∨ endHeaders then
      c.recvFragment fhr.streamId (c.inboundHeaderBlockBytes + offset) chunk (endHeaders && c.inboundHeaderEndStream)
        finish
    else (none, finish c)

def handleContinuationPayload (c : Conn) (fhr : FrameHeader) (offset : Nat) (chunk : List UInt8) :
    Option IoErr × Conn :=
  if offset = 0 ∧ (!c.expectingContinuation || fhr.streamId ≠ c.inboundHeaderStreamId) then (some .invalid, c)
  else c.deliverContinuation fhr offset chunk

/-- Whether a stream's send window stays a 32-bit value under a change of the initial window. -/
def windowFits (delta : Int) (s : Stream) : Bool :=
  s.sendWindow + delta ≤ kMaxFlowControlWindow && -kMaxFlowControlWindow - 1 ≤ s.sendWindow + delta

def applyPeerInitialStreamWindow (c : Conn) (value : Nat) : Option IoErr × Conn :=
  if kMaxFlowControlWindow < value then (some .invalid, c)
  else
    let delta : Int := value - c.peerInitialStreamSendWindow
    if delta ≠ 0 then
      if c.streams.entries.all fun entry => windowFits delta entry.2 then
        let c := c.streamIds.foldl (fun c streamId => c.updateSendWindow streamId delta) c
        (none, { c with peerInitialStreamSendWindow := value })
      else (some .invalid, c)
    else (none, { c with peerInitialStreamSendWindow := value })

def applySettingsParameter (c : Conn) (id value : Nat) : Option IoErr × Conn :=
  if id = 0x1 then (none, { c with peerHeaderTableSize := value })
  else if id = 0x2 then
    if 1 < value then (some .invalid, c) else (none, { c with peerEnablePush := value ≠ 0 })
  else if id = 0x3 then (none, { c with peerAdvertisedMaxConcurrentStreams := value })
  else if id = 0x4 then c.applyPeerInitialStreamWindow value
  else if id = 0x5 then
    if value < kDefaultMaxFrameSize ∨ kMaxFrameSizeLimit < value then (some .invalid, c)
    else (none, { c with peerMaxOutboundFrameSize := value })
  else if id = 0x6 then (none, { c with peerMaxHeaderListSize := value })
  else (none, c)

/-- The copy loop of `handle_settings_payload`, byte by byte: a full scratch is one parameter. -/
def feedSettings (c : Conn) : List UInt8 → Option IoErr × Conn
  | [] => (none, c)
  | byte :: rest =>
    let scratch := c.settingsScratch ++ [byte]
    let c := { c with settingsScratch := scratch }
    if scratch.length = kSettingsParameterSize then
      match c.applySettingsParameter (parseU16 scratch) (parseU32 (scratch.drop 2)) with
      | (some err, c) => (some err, c)
      | (none, c) => feedSettings { c with settingsScratch := [] } rest
    else feedSettings c rest

def beginSettings (c : Conn) (fhr : FrameHeader) : Option IoErr × Conn :=
  let c := { c with settingsScratch := [] }
  if fhr.streamId ≠ 0 then (some .invalid, c)
  else if fhr.has kFlagAck then
    if fhr.length ≠ 0 then (some .invalid, c) else (none, { c with localSettingsAcknowledged := true })
  else if fhr.length % kSettingsParameterSize ≠ 0 then (some .invalid, c)
  else (none, c)

def deliverSettings (fhr : FrameHeader) (offset : Nat) (chunk : List UInt8) (c : Conn) : Option IoErr × Conn :=
  if fhr.has kFlagAck then (none, c)
  else andThen (c.feedSettings chunk) fun c =>
    if offset + chunk.length = fhr.length then
      if c.settingsScratch ≠ [] then (some .invalid, c) else c.sendSettingsAck
    else (none, c)

def handleSettingsPayload (c : Conn) (fhr : FrameHeader) (offset : Nat) (chunk : List UInt8) : Option IoErr × Conn :=
  if offset = 0 then andThen (c.beginSettings fhr) (deliverSettings fhr offset chunk)
  else c.deliverSettings fhr offset chunk

/-- The frames whose payload is collected in `control_payload_scratch_` and acted on when complete. -/
def collect (valid : Bool) (limit : Nat) (act : Conn → Option IoErr × Conn) (c : Conn) (fhr : FrameHeader)
    (offset : Nat) (chunk : List UInt8) : Option IoErr × Conn :=
  let c := if offset = 0 then { c with controlPayloadScratch := [] } else c
  if offset = 0 ∧ !valid then (some .invalid, c)
  else
    let c := { c with
      controlPayloadScratch := c.controlPayloadScratch ++ chunk.take (limit - c.controlPayloadScratch.length) }
    if offset + chunk.length ≠ fhr.length then (none, c) else act c

def handlePingPayload (c : Conn) (fhr : FrameHeader) (offset : Nat) (chunk : List UInt8) : Option IoErr × Conn :=
  collect (fhr.streamId = 0 && fhr.length = kPingPayloadSize) kPingPayloadSize
    (fun c => if fhr.has kFlagAck then (none, c) else c.sendPingAck c.controlPayloadScratch) c fhr offset chunk

/-- A complete WINDOW_UPDATE. -/
def applyWindowUpdate (fhr : FrameHeader) (c : Conn) : Option IoErr × Conn :=
  let increment : Nat := parseU32 c.controlPayloadScratch % 2 ^ 31
  if increment = 0 then
    if fhr.streamId = 0 then (some .invalid, c)
    else (none, c.handleStreamError fhr.streamId .protocolError .invalid)
  else if fhr.streamId = 0 then
    if kMaxFlowControlWindow < c.connSendWindow + increment then (some .invalid, c)
    else (none, { c with credits := c.credits ++ [(0, increment)] }.updateConnectionSendWindow increment)
  else
    match c.streams.find fhr.streamId with
    | none => (if c.isIdleStream fhr.streamId then some .invalid else none, c)
    | some s =>
      if kMaxFlowControlWindow < s.sendWindow + increment then
        (none, c.handleStreamError fhr.streamId .flowControlError .invalid)
      else
        (none, { c with credits := c.credits ++ [(fhr.streamId, increment)] }.updateSendWindow fhr.streamId increment)

def handleWindowUpdatePayload (c : Conn) (fhr : FrameHeader) (offset : Nat) (chunk : List UInt8) :
    Option IoErr × Conn :=
  collect (fhr.length = kWindowUpdatePayloadSize) kWindowUpdatePayloadSize (applyWindowUpdate fhr) c fhr offset chunk

/-- A complete RST_STREAM. -/
def applyRstStream (fhr : FrameHeader) (c : Conn) : Option IoErr × Conn :=
  match c.streams.find fhr.streamId with
  | none => (if c.isIdleStream fhr.streamId then some .invalid else none, c)
  | some _ => (none, (c.closeStream fhr.streamId .canceled).maybeDestroyStream fhr.streamId)

def handleRstStreamPayload (c : Conn) (fhr : FrameHeader) (offset : Nat) (chunk : List UInt8) :
    Option IoErr × Conn :=
  collect (fhr.streamId ≠ 0 && fhr.length = kRstStreamPayloadSize) kRstStreamPayloadSize (applyRstStream fhr)
    c fhr offset chunk

def handleGoawayPayload (c : Conn) (fhr : FrameHeader) (offset : Nat) (chunk : List UInt8) : Option IoErr × Conn :=
  collect (fhr.streamId = 0 && kGoawayMinimumPayloadSize ≤ fhr.length) kGoawayMinimumPayloadSize
    (fun c => (none, c.onPeerGoaway (parseStreamId c.controlPayloadScratch)
      (.ofNat (parseU32 (c.controlPayloadScratch.drop 4))))) c fhr offset chunk

/-- `consume_incoming_frame_payload`: one chunk of a frame's payload, `offset` bytes of which came before. -/
def consumeIncomingFramePayload (c : Conn) (fhr : FrameHeader) (offset : Nat) (chunk : List UInt8) :
    Option IoErr × Conn :=
  if c.expectingContinuation ∧ fhr.type ≠ .continuation then (some .invalid, c)
  else if ¬c.expectingContinuation ∧ fhr.type = .continuation then (some .invalid, c)
  else
    match fhr.type with
    | .data => c.handleDataPayload fhr offset chunk
    | .headers => c.handleHeadersPayload fhr offset chunk
    | .continuation => c.handleContinuationPayload fhr offset chunk
    | .settings => c.handleSettingsPayload fhr offset chunk
    | .ping => c.handlePingPayload fhr offset chunk
    | .windowUpdate => c.handleWindowUpdatePayload fhr offset chunk
    | .rstStream => c.handleRstStreamPayload fhr offset chunk
    | .goaway => c.handleGoawayPayload fhr offset chunk
    | .priority => (none, c)
    | .pushPromise => (none, c)
    | .unknown _ => (none, c)

end Conn

inductive ParsePhase
  | preface | frameHeader | framePayload
  deriving DecidableEq, Repr

/-- The locals of the parse loop of `run`: the phase, the current frame, and the unread bytes of `read_buf`. -/
structure Reader where
  phase : ParsePhase
  header : FrameHeader
  payloadRemaining : Nat
  payloadOffset : Nat
  buf : List UInt8
  conn : Conn

/-- One round of the inner loop: wait for more bytes, go on, or end the run with an error. -/
inductive ParseStep
  | wait
  | next (r : Reader)
  | fail (err : IoErr) (conn : Conn)

namespace Reader

def start (c : Conn) : Reader where
  phase := if c.options.role = .server then .preface else .frameHeader
  header := ⟨0, .data, 0, 0⟩
  payloadRemaining := 0
  payloadOffset := 0
  buf := []
  conn := c

def parsePreface (r : Reader) : ParseStep :=
  if r.buf.length < kClientPreface.length then .wait
  else if r.buf.take kClientPreface.length ≠ kClientPreface then .fail .invalid r.conn
  else
    let started := if r.conn.options.autoStartConnectionPreface ∧ ¬r.conn.localConnectionPrefaceSent then
      r.conn.sendConnectionPreface else (none, r.conn)
    match started with
    | (some err, c) => .fail err c
    | (none, c) => .next { r with phase := .frameHeader, buf := r.buf.drop kClientPreface.length, conn := c }

def parseHeader (r : Reader) : ParseStep :=
  if r.buf.length < kFrameHeaderSize then .wait
  else
    let header := parseFrameHeader r.buf
    if r.conn.options.maxFrameSize < header.length then .fail .invalid r.conn
    else
      let r := { r with
        header := header
        buf := r.buf.drop kFrameHeaderSize
        payloadRemaining := header.length
        payloadOffset := 0 }
      if header.length = 0 then
        match r.conn.consumeIncomingFramePayload header 0 [] with
        | (some err, c) => .fail err c
        | (none, c) => .next { r with conn := c }
      else .next { r with phase := .framePayload }

def parsePayload (r : Reader) : ParseStep :=
  if r.buf = [] then .wait
  else
    let chunk := r.buf.take r.payloadRemaining
    match r.conn.consumeIncomingFramePayload r.header r.payloadOffset chunk with
    | (some err, c) => .fail err c
    | (none, c) => .next { r with
        buf := r.buf.drop r.payloadRemaining
        payloadRemaining := r.payloadRemaining - chunk.length
        payloadOffset := r.payloadOffset + chunk.length
        phase := if r.payloadRemaining - chunk.length = 0 then .frameHeader else .framePayload
        conn := c }

def parseStep (r : Reader) : ParseStep :=
  match r.phase with
  | .preface => r.parsePreface
  | .frameHeader => r.parseHeader
  | .framePayload => r.parsePayload

/-- The inner loop: it ends when it has to wait for bytes, or with the error of the run. -/
def parse : Nat → Reader → Except (IoErr × Conn) Reader
  | 0, r => .ok r
  | fuel + 1, r =>
    match r.parseStep with
    | .wait => .ok r
    | .next r => parse fuel r
    | .fail err c => .error (err, c)

/-- Each round but the last takes a byte. -/
def parseFuel (r : Reader) : Nat := r.buf.length + 1

/-- What one read adds to the buffer is parsed as far as possible. -/
def feed (r : Reader) (bytes : List UInt8) : Except (IoErr × Conn) Reader :=
  parse ({ r with buf := r.buf ++ bytes } : Reader).parseFuel { r with buf := r.buf ++ bytes }

def readFuel (transport : Transport) : Nat := transport.bytes.length + 1

end Reader

namespace Conn

/-- What `finish_run` does before it waits for the send loop and the streams. -/
def finishRun (result : Option IoErr) (c : Conn) : Option IoErr × Conn :=
  let c := if result.isSome ∧ ¬c.stopSendingRequested ∧ c.closeState ≠ .abortClosing ∧ c.closeState ≠ .closed then
    c.abortConnection (result.getD .invalid) else c
  let c := if result.isNone ∧ ¬c.stopSendingRequested then
    { c with stopKeepalive := true, sendQueueClosed := true }.closeAllStreams .canceled else c
  (result, c)

end Conn

end FiberGateway.Http2
