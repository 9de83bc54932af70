import FiberGateway.Http2.Inbound

namespace FiberGateway.Http2

namespace SendEntry

/-- The bytes of an entry as they go out: the frame header, if it is kept apart, and the payload. -/
def bytes (entry : SendEntry) : List UInt8 :=
  (match entry.frameHeader with
    | none => []
    | some fhr => encodeFrameHeader fhr) ++ entry.payload

/-- Everything is written. -/
def complete (entry : SendEntry) : Bool :=
  entry.frameHeaderSize ≤ entry.writtenBytes && entry.payload.length ≤ entry.writtenBytes - entry.frameHeaderSize

/-- What the next write offers to the transport: the rest of the frame header, or the rest of the payload. -/
def offered (entry : SendEntry) : List UInt8 :=
  if entry.writtenBytes < entry.frameHeaderSize then
    (match entry.frameHeader with
      | none => []
      | some fhr => encodeFrameHeader fhr).drop entry.writtenBytes
  else entry.payload.drop (entry.writtenBytes - entry.frameHeaderSize)

/-- The payload bytes `handle_send_done` counts as written. -/
def payloadWritten (entry : SendEntry) : Nat :=
  if entry.frameHeaderSize < entry.writtenBytes then
    min entry.logicalBytes (entry.writtenBytes - entry.frameHeaderSize) else 0

end SendEntry

namespace Conn

/-- The bytes a frame of a pending entry got onto the wire. -/
def recordWritten (c : Conn) (streamId : Nat) (entry : PendingEntry) (bytes : Nat) : Conn :=
  if bytes = 0 then c
  else
    (c.modifyStream streamId (·.modifyEntry entry.id fun entry =>
      { entry with writtenBytes := entry.writtenBytes + bytes })).notify entry.id
        ({ entry with writtenBytes := entry.writtenBytes + bytes }.change .written bytes none)

def queues (c : Conn) (streamId entryId : Nat) : Bool :=
  match c.streams.find streamId with
  | none => false
  | some s => entryId ∈ s.pending

/-- A frame of a pending entry is no longer on its way; the first error stays with the entry. -/
def landSend (c : Conn) (streamId entryId : Nat) (result : Option IoErr) : Conn :=
  { c.modifyStream streamId (·.modifyEntry entryId fun entry =>
      { entry with
        result := if entry.result = none then result else entry.result
        inflightSends := entry.inflightSends - 1 }) with
    failedQueued := c.failedQueued || (result.isSome && c.queues streamId entryId) }

/-- `handle_send_done`. -/
def handleSendDone (c : Conn) (streamId entryId : Nat) (sent : SendEntry) (result : Option IoErr) : Conn :=
  match (c.streams.find streamId).bind (·.entry entryId) with
  | none => c.touchErased
  | some entry =>
    let c := c.recordWritten streamId entry sent.payloadWritten
    let c := c.landSend streamId entryId result
    let c := c.maybeFinishPending streamId entryId
    match c.streams.find streamId with
    | none => c.touchErased
    | some s => if s.state ≠ .closed then c.trySchedulePending streamId else c

/-- `notify_send_done`, as far as the connection goes. -/
def notifySendDone (c : Conn) (sent : SendEntry) (result : Option IoErr) : Conn :=
  match sent.owner with
  | none => c
  | some (streamId, entryId) => c.handleSendDone streamId entryId sent result

/-- `handle_send_loop_timeout`. -/
def handleSendLoopTimeout (c : Conn) : Conn :=
  if c.stopSendingRequested ∨ c.stopKeepalive ∨ c.closeState ≠ .open ∨ c.options.keepalivePingInterval = 0 then c
  else
    match c.sendControlFrame .ping 0 0 (List.replicate kPingPayloadSize 0) with
    | (some err, c) => c.abortConnection err
    | (none, c) => c

/-- `start_send_loop`. -/
def startSendLoop (c : Conn) : Conn :=
  if c.sendLoopRunning ∨ c.stopSendingRequested then c
  else { c with lifetime := c.lifetime + 1, sendLoopRunning := true }

end Conn

/-- A connection in use: the parse loop of `run` around the connection, and a record of the send loop: the bytes the
transport took, and the entries finished, in that order. -/
structure Session where
  reader : Reader
  reading : Bool := false
  wire : List UInt8 := []
  finished : List (SendEntry × Option IoErr) := []

namespace Session

def conn (s : Session) : Conn := s.reader.conn

def withConn (s : Session) (c : Conn) : Session := { s with reader := { s.reader with conn := c } }

def init (options : Options) : Session where
  reader := .start (.init options)

/-- `finish_run` up to the point where it waits for the send loop and the streams. -/
def endRun (s : Session) (result : Option IoErr) : Session :=
  { s.withConn (Conn.finishRun result s.conn).2 with reading := false }

/-- `run` up to its first read. -/
def startRun (s : Session) : Session :=
  if s.conn.runStarted ∨ ¬s.conn.transportValid then s
  else
    let c := { s.conn with runStarted := true }.startSendLoop
    if c.options.role = .client ∧ c.options.autoStartConnectionPreface ∧ ¬c.localConnectionPrefaceSent then
      match c.sendConnectionPreface with
      | (some err, c) => (s.withConn c).endRun (some err)
      | (none, c) => { s.withConn c with reading := true }
    else { s.withConn c with reading := true }

/-- A read that brought bytes. -/
def receive (s : Session) (bytes : List UInt8) : Session :=
  if s.reading ∧ bytes ≠ [] then
    match s.reader.feed bytes with
    | .ok r => { s with reader := r }
    | .error (err, c) => (s.withConn c).endRun (some err)
  else s

/-- A read that failed, or the end of the input. -/
def endInput (s : Session) (failed : Option IoErr) : Session :=
  if s.reading then
    match failed with
    | some err => s.endRun (some err)
    | none => s.endRun (if s.reader.phase = .frameHeader ∧ s.reader.buf = [] then none else some .connReset)
  else s

/-- `finish_send_entry`. -/
def finishSendEntry (s : Session) (sent : SendEntry) (result : Option IoErr) : Session :=
  { s.withConn (s.conn.notifySendDone sent result) with finished := s.finished ++ [(sent, result)] }

/-- `drain_send_queue`; a completion during the drain finds the queue closed, so nothing is added. -/
def drainSendQueue (result : IoErr) : Nat → Session → Session
  | 0, s => s
  | fuel + 1, s =>
    match s.conn.sendQueue with
    | [] => s
    | sent :: rest =>
      drainSendQueue result fuel ((s.withConn { s.conn with sendQueue := rest }).finishSendEntry sent (some result))

/-- The end of `run_send_loop`. -/
def leaveSendLoop (s : Session) : Session :=
  let s := s.withConn { s.conn with sendLoopRunning := false }
  let s :=
    if s.conn.stopSendingRequested then
      let s := drainSendQueue s.conn.stopSendingReason s.conn.sendQueue.length s
      s.withConn (s.conn.closeAllStreams s.conn.stopSendingReason)
    else s
  s.withConn { s.conn with lifetime := s.conn.lifetime - 1 }

/-- The send loop asks for an entry: it takes the next one, or ends with the queue. -/
def pollToSend (s : Session) : Session :=
  if s.conn.sendLoopRunning ∧ s.conn.sending = none then
    match s.conn.sendQueue with
    | sent :: rest =>
      let c := { s.conn with sendQueue := rest }
      if sent.complete then (s.withConn c).finishSendEntry sent none
      else s.withConn { c with sending := some sent }
    | [] => if s.conn.sendQueueClosed then s.leaveSendLoop else s
  else s

/-- The transport took `n` of the bytes offered. -/
def written (s : Session) (n : Nat) : Session :=
  match s.conn.sending with
  | none => s
  | some sent =>
    if 0 < n ∧ n ≤ sent.offered.length then
      let s := { s with wire := s.wire ++ sent.offered.take n }
      let sent := { sent with writtenBytes := sent.writtenBytes + n }
      if sent.complete then (s.withConn { s.conn with sending := none }).finishSendEntry sent none
      else s.withConn { s.conn with sending := some sent }
    else s

/-- A write failed, or took nothing (`ConnReset`). -/
def writeFailed (s : Session) (err : IoErr) : Session :=
  match s.conn.sending with
  | none => s
  | some sent =>
    let err := if s.conn.stopSendingRequested then s.conn.stopSendingReason else err
    let s := (s.withConn { s.conn with sending := none }).finishSendEntry sent (some err)
    (s.withConn (s.conn.abortConnection err)).leaveSendLoop

/-- The poll of the send loop ran into its timeout. -/
def pollTimedOut (s : Session) : Session :=
  if s.conn.sendLoopRunning ∧ s.conn.sending = none ∧ s.conn.sendQueue = [] ∧ ¬s.conn.sendQueueClosed then
    s.withConn s.conn.handleSendLoopTimeout
  else s

/-- The rest of `finish_run`, once nothing holds the connection any more. -/
def join (s : Session) : Session :=
  if s.conn.runStarted ∧ ¬s.reading ∧ s.conn.lifetime = 0 then
    s.withConn { s.conn with transportValid := false, closeState := .closed }
  else s

end Session

/-- What happens to a connection between two points where it waits: `run`, the transport, the send loop, and the calls
of the program, which are made on streams in the table. -/
inductive Event
  | startRun
  | receive (bytes : List UInt8)
  | endInput (failed : Option IoErr)
  | pollToSend
  | written (n : Nat)
  | writeFailed (err : IoErr)
  | pollTimedOut
  | join
  | createLocalStream (streamId : Nat)
  | enqueuePending (streamId : Nat) (kind : PendingKind) (payload : List UInt8) (firstFrameFlags lastFrameFlags : UInt8)
  | sendHeader (streamId : Nat) (payload : List UInt8) (endStream : Bool)
  | sendData (streamId : Nat) (payload : List UInt8) (endStream : Bool)
  | closeRst (streamId : Nat) (errorCode : ErrorCode) (result : IoErr)
  | gracefulShutdown
  | shutdown (reason : IoErr)

namespace Session

/-- A call on a stream of the table. -/
def onStream (s : Session) (streamId : Nat) (call : Conn → Option IoErr × Conn) : Session :=
  if (s.conn.streams.find streamId).isSome then s.withConn (call s.conn).2 else s

def step (s : Session) : Event → Session
  | .startRun => s.startRun
  | .receive bytes => s.receive bytes
  | .endInput failed => s.endInput failed
  | .pollToSend => s.pollToSend
  | .written n => s.written n
  | .writeFailed err => s.writeFailed err
  | .pollTimedOut => s.pollTimedOut
  | .join => s.join
  | .createLocalStream streamId => s.withConn ((s.conn.createLocalStream streamId).getD s.conn)
  | .enqueuePending streamId kind payload first last =>
    s.onStream streamId fun c => c.enqueuePending streamId kind payload first last
  | .sendHeader streamId payload endStream => s.onStream streamId fun c => c.sendHeader streamId payload endStream
  | .sendData streamId payload endStream => s.onStream streamId fun c => c.sendData streamId payload endStream
  | .closeRst streamId errorCode result => s.onStream streamId fun c => c.closeRst streamId errorCode result
  | .gracefulShutdown => s.withConn s.conn.gracefulShutdown
  | .shutdown reason => s.withConn (s.conn.shutdown reason)

def run (s : Session) (events : List Event) : Session := events.foldl step s

end Session

end FiberGateway.Http2
