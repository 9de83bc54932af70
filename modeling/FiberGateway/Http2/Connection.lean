import FiberGateway.Http2.Stream

namespace FiberGateway.Http2

inductive ConnectionRole
  | client | server
  deriving DecidableEq, Repr

inductive CloseState
  | open | peerDraining | localDraining | bothDraining | abortClosing | closed
  deriving DecidableEq, Repr

def CloseState.rank : CloseState → Nat
  | .open => 0
  | .peerDraining => 1
  | .localDraining => 1
  | .bothDraining => 2
  | .abortClosing => 3
  | .closed => 4

/-- Nothing moves, or forward. -/
def CloseState.Leads (a b : CloseState) : Prop := a = b ∨ a.rank < b.rank

instance (a b : CloseState) : Decidable (a.Leads b) := inferInstanceAs (Decidable (_ ∨ _))

structure Options where
  role : ConnectionRole := .server
  readBufferSize : Nat := 64 * 1024
  keepalivePingInterval : Nat := 0
  maxFrameSize : Nat := 16384
  maxPeerConcurrentStreams : Nat := 100
  localMaxConcurrentStreams : Nat := 128
  maxLocalPushStreams : Nat := 0
  initialConnectionRecvWindow : Nat := 0x7fffffff
  initialConnectionSendWindow : Int := 65535
  initialStreamSendWindow : Int := 65535
  autoStartConnectionPreface : Bool := true
  deriving DecidableEq, Repr

/-- An entry of the send queue. A stream's frame has its header beside the payload and names the pending entry it
was cut from (`user_data`); a control frame has its header in the payload. -/
structure SendEntry where
  frameHeader : Option FrameHeader
  payload : List UInt8
  totalBytes : Nat
  writtenBytes : Nat := 0
  logicalBytes : Nat := 0
  owner : Option (Nat × Nat) := none
  deriving DecidableEq, Repr

def SendEntry.frameHeaderSize (entry : SendEntry) : Nat := if entry.frameHeader.isSome then kFrameHeaderSize else 0

/-- What `on_data_recv` and `on_header_recv` are handed, a byte at a time with its offset in the frame's data or in
the header block. -/
inductive Received
  | data (streamId offset : Nat) (byte : UInt8)
  | header (streamId offset : Nat) (byte : UInt8)
  | endStream (streamId : Nat)
  deriving DecidableEq, Repr

/-- The connection. The last block of fields only records what happened: what the streams were handed, the entries
accepted from them, every entry put on the send queue, the accepted window increments (stream 0 is the connection), the
changes notified, and whether a stream was used after it was erased, an entry went back to the pool while its stream
still queued it, a stream was closed before all its entries had ended, or a frame failed while its stream still queued
a part of the entry. -/
structure Conn where
  options : Options
  streams : StreamTable
  peerAdvertisedMaxConcurrentStreams : Nat
  lastPeerStreamId : Nat := 0
  lastLocalStreamId : Nat := 0
  peerActiveStreamCount : Nat := 0
  localPushStreamCount : Nat := 0
  connSendWindow : Int
  peerInitialStreamSendWindow : Int
  peerHeaderTableSize : Nat := kDefaultHeaderTableSize
  peerMaxOutboundFrameSize : Nat
  peerMaxHeaderListSize : Nat := 0xffffffff
  peerEnablePush : Bool := true
  localConnectionPrefaceSent : Bool := false
  localSettingsAcknowledged : Bool := false
  localGoawaySent : Bool := false
  localGoawayLastStreamId : Nat := 0
  peerSentGoaway : Bool := false
  peerLastStreamId : Nat := 0
  peerGoawayErrorCode : ErrorCode := .noError
  expectingContinuation : Bool := false
  inboundHeaderStreamId : Nat := 0
  inboundHeaderBlockBytes : Nat := 0
  inboundHeaderEndStream : Bool := false
  incomingPadLength : Nat := 0
  controlPayloadScratch : List UInt8 := []
  settingsScratch : List UInt8 := []
  sendQueue : List SendEntry := []
  sendQueueClosed : Bool := false
  sending : Option SendEntry := none
  connWaitStreams : List Nat := []
  closeState : CloseState := .open
  transportValid : Bool := true
  runStarted : Bool := false
  sendLoopRunning : Bool := false
  gracefulSendQueueCloseRequested : Bool := false
  stopKeepalive : Bool := false
  stopSendingRequested : Bool := false
  stopSendingReason : IoErr := .canceled
  lifetime : Int := 0
  nextPendingId : Nat := 0
  received : List Received := []
  accepted : List (Nat × PendingEntry) := []
  enqueued : List SendEntry := []
  credits : List (Nat × Nat) := []
  changes : List (Nat × PendingChange) := []
  staleAccess : Bool := false
  queuedReturn : Bool := false
  unfinishedClose : Bool := false
  failedQueued : Bool := false

inductive ScheduleResult
  | noPending | blockedByStreamWindow | blockedByConnWindow | scheduled
  deriving DecidableEq, Repr

namespace Conn

/-- The constructor. -/
def init (options : Options) : Conn where
  options := options
  streams := .init (options.maxPeerConcurrentStreams + options.maxLocalPushStreams)
  peerAdvertisedMaxConcurrentStreams := options.maxPeerConcurrentStreams
  connSendWindow := options.initialConnectionSendWindow
  peerInitialStreamSendWindow := options.initialStreamSendWindow
  peerMaxOutboundFrameSize := options.maxFrameSize

def touchErased (c : Conn) : Conn := { c with staleAccess := true }

def modifyStream (c : Conn) (streamId : Nat) (f : Stream → Stream) : Conn :=
  { c with streams := c.streams.modify streamId f }

def hasEntries (c : Conn) (streamId : Nat) : Bool :=
  match c.streams.find streamId with
  | none => false
  | some s => s.entries ≠ []

/-- The end of the `transition_on_...` functions. -/
def setState (c : Conn) (streamId : Nat) (state : StreamState) : Conn :=
  { c.modifyStream streamId fun s => { s with state := state } with
    unfinishedClose := c.unfinishedClose || (state = .closed && c.hasEntries streamId) }

def notify (c : Conn) (entryId : Nat) (change : PendingChange) : Conn :=
  { c with changes := c.changes ++ [(entryId, change)] }

def isLocalStreamId (c : Conn) (streamId : Nat) : Bool :=
  streamId ≠ 0 && (if c.options.role = .client then streamId % 2 = 1 else streamId % 2 = 0)

def isPeerStreamId (c : Conn) (streamId : Nat) : Bool := streamId ≠ 0 && !c.isLocalStreamId streamId

def isIdleStream (c : Conn) (streamId : Nat) : Bool :=
  if streamId = 0 || (c.streams.find streamId).isSome then false
  else if c.isLocalStreamId streamId then c.lastLocalStreamId < streamId
  else if c.isPeerStreamId streamId then c.lastPeerStreamId < streamId
  else false

def abortConnection (c : Conn) (reason : IoErr) : Conn :=
  if c.stopSendingRequested then c
  else { c with
    closeState := .abortClosing
    stopSendingRequested := true
    stopSendingReason := reason
    stopKeepalive := true
    sendQueueClosed := true
    transportValid := false }

def enqueueSendEntry (c : Conn) (entry : SendEntry) : Option IoErr × Conn :=
  if !c.runStarted || !c.transportValid then (some .invalid, c)
  else if c.stopSendingRequested then (some c.stopSendingReason, c)
  else if c.sendQueueClosed then (some .canceled, c)
  else (none, { c with sendQueue := c.sendQueue ++ [entry], enqueued := c.enqueued ++ [entry] })

def controlFrame (type : FrameType) (flags : UInt8) (streamId : Nat) (payload : List UInt8) : SendEntry :=
  let bytes := encodeFrameHeader ⟨payload.length, type, flags, streamId⟩ ++ payload
  { frameHeader := none, payload := bytes, totalBytes := bytes.length }

def sendControlFrame (c : Conn) (type : FrameType) (flags : UInt8) (streamId : Nat) (payload : List UInt8) :
    Option IoErr × Conn :=
  c.enqueueSendEntry (controlFrame type flags streamId payload)

def sendSettingsAck (c : Conn) : Option IoErr × Conn := c.sendControlFrame .settings kFlagAck 0 []

def sendPingAck (c : Conn) (opaqueData : List UInt8) : Option IoErr × Conn :=
  c.sendControlFrame .ping kFlagAck 0 opaqueData

def sendRstStream (c : Conn) (streamId : Nat) (errorCode : ErrorCode) : Option IoErr × Conn :=
  c.sendControlFrame .rstStream 0 streamId (appendU32 errorCode.toNat)

def sendGoaway (c : Conn) (lastStreamId : Nat) (errorCode : ErrorCode) : Option IoErr × Conn :=
  c.sendControlFrame .goaway 0 0 (appendU31 lastStreamId ++ appendU32 errorCode.toNat)

def sendConnectionPreface (c : Conn) : Option IoErr × Conn :=
  let settings := appendU16 0x3 ++ appendU32 c.options.localMaxConcurrentStreams ++
    appendU16 0x4 ++ appendU32 (c.options.initialStreamSendWindow % 2 ^ 32).toNat ++
    appendU16 0x5 ++ appendU32 c.options.maxFrameSize
  let windowUpdate :=
    if kInitialFlowControlWindow < c.options.initialConnectionRecvWindow then
      encodeFrameHeader ⟨kWindowUpdatePayloadSize, .windowUpdate, 0, 0⟩ ++
        appendU31 (c.options.initialConnectionRecvWindow - kInitialFlowControlWindow)
    else []
  let bytes := (if c.options.role = .client then kClientPreface else []) ++
    encodeFrameHeader ⟨settings.length, .settings, 0, 0⟩ ++ settings ++ windowUpdate
  match c.enqueueSendEntry { frameHeader := none, payload := bytes, totalBytes := bytes.length } with
  | (none, c) => (none, { c with localConnectionPrefaceSent := true, localSettingsAcknowledged := false })
  | failed => failed

def maybeFinishGracefulShutdown (c : Conn) : Conn :=
  if c.stopSendingRequested || c.gracefulSendQueueCloseRequested then c
  else if c.closeState ≠ .peerDraining ∧ c.closeState ≠ .localDraining ∧ c.closeState ≠ .bothDraining then c
  else if c.streams.size ≠ 0 then c
  else if !c.localGoawaySent then c
  else { c with gracefulSendQueueCloseRequested := true, sendQueueClosed := true }

/-- `conn_wait_streams_.push_back` and `erase`: a stream is linked at most once. -/
def linkWaiting (c : Conn) (streamId : Nat) : Conn :=
  if streamId ∈ c.connWaitStreams then c else { c with connWaitStreams := c.connWaitStreams ++ [streamId] }

def unlinkWaiting (c : Conn) (streamId : Nat) : Conn :=
  { c with connWaitStreams := c.connWaitStreams.erase streamId }

def eraseStream (c : Conn) (streamId : Nat) : Conn :=
  let c := c.unlinkWaiting streamId
  let c := { c with streams := c.streams.erase streamId }
  let c := if c.isPeerStreamId streamId && c.peerActiveStreamCount ≠ 0 then
    { c with peerActiveStreamCount := c.peerActiveStreamCount - 1 } else c
  let c := if c.streams.size = 0 then { c with lifetime := c.lifetime - 1 } else c
  c.maybeFinishGracefulShutdown

def maybeDestroyStream (c : Conn) (streamId : Nat) : Conn :=
  match c.streams.find streamId with
  | none => c.touchErased
  | some s =>
    if s.state ≠ .closed then c
    else if s.pending ≠ [] ∨ s.entries ≠ [] then c
    else c.eraseStream streamId

/-- `finish_pending`: the last change of an entry, which then returns to the pool. -/
def finishPending (c : Conn) (streamId entryId : Nat) (result : Option IoErr) : Conn :=
  match c.streams.find streamId with
  | none => c.touchErased
  | some s =>
    match s.entry entryId with
    | none => c.touchErased
    | some entry =>
      let kind := match result with
        | none => .completed
        | some err => if err = .canceled then .canceled else .failed
      let c := c.notify entryId (entry.change kind 0 result)
      let c := c.modifyStream streamId (·.removeActivePending entryId)
      let c := { c with queuedReturn := c.queuedReturn || entryId ∈ s.pending }
      c.maybeDestroyStream streamId

def maybeFinishPending (c : Conn) (streamId entryId : Nat) : Conn :=
  match (c.streams.find streamId).bind (·.entry entryId) with
  | none => c.touchErased
  | some entry =>
    if entry.inflightSends ≠ 0 then c
    else
      match entry.result with
      | some err => c.finishPending streamId entryId (some err)
      | none =>
        if entry.payload = [] ∧ entry.writtenBytes = entry.totalBytes then c.finishPending streamId entryId none
        else c

/-- One round of `drain_pending`. -/
def drainEntry (result : IoErr) (streamId : Nat) (c : Conn) (entryId : Nat) : Conn :=
  match (c.streams.find streamId).bind (·.entry entryId) with
  | none => c.touchErased
  | some entry =>
    if entry.inflightSends = 0 then c.finishPending streamId entryId (some result)
    else if entry.result = none then
      c.modifyStream streamId (·.modifyEntry entryId fun entry => { entry with result := some result })
    else c

def drainPending (c : Conn) (streamId : Nat) (result : IoErr) : Conn :=
  match c.streams.find streamId with
  | none => c.touchErased
  | some s => (s.entries.map (·.id)).foldl (drainEntry result streamId) c

/-- `Http2Stream::close`. -/
def closeStream (c : Conn) (streamId : Nat) (result : IoErr) : Conn :=
  match c.streams.find streamId with
  | none => c.touchErased
  | some _ =>
    let c := c.setState streamId .closed
    let c := c.modifyStream streamId fun s => { s with active := false }
    let c := c.unlinkWaiting streamId
    let c := c.modifyStream streamId fun s => { s with pending := [] }
    c.drainPending streamId result

def handleStreamError (c : Conn) (streamId : Nat) (errorCode : ErrorCode) (pendingResult : IoErr) : Conn :=
  let c := (c.sendRstStream streamId errorCode).2
  match c.streams.find streamId with
  | none => c
  | some _ => (c.closeStream streamId pendingResult).maybeDestroyStream streamId

/-- `blocked_by_conn_window`. -/
def blockedByConnWindow (c : Conn) (s : Stream) : Bool :=
  match s.pendingHead with
  | none => false
  | some entry => entry.kind = .data && 0 < s.sendWindow && c.connSendWindow ≤ 0

def syncConnWindowWaitMembership (c : Conn) (streamId : Nat) : Conn :=
  match c.streams.find streamId with
  | none => c.touchErased
  | some s => if c.blockedByConnWindow s then c.linkWaiting streamId else c.unlinkWaiting streamId

/-- The length of the next frame cut from an entry: the frame size limit and, for data, both windows bound it. -/
def fragmentBytes (c : Conn) (s : Stream) (entry : PendingEntry) : Nat :=
  let bytes := min entry.payload.length c.peerMaxOutboundFrameSize
  match entry.kind with
  | .header => bytes
  | .data => min (min bytes c.connSendWindow.toNat) s.sendWindow.toNat

/-- The frame of the next `bytes` payload bytes of an entry. -/
def fragment (streamId : Nat) (entry : PendingEntry) (bytes : Nat) : SendEntry :=
  let first := entry.payload.length = entry.totalBytes
  let last := bytes = entry.payload.length
  let type : FrameType := match entry.kind with
    | .data => .data
    | .header => if first then .headers else .continuation
  let flags : UInt8 := match entry.kind with
    | .data => if last then entry.lastFrameFlags else 0
    | .header => (if first then entry.firstFrameFlags else 0) ||| (if last then entry.lastFrameFlags else 0)
  { frameHeader := some ⟨bytes, type, flags, streamId⟩
    payload := entry.payload.take bytes
    totalBytes := kFrameHeaderSize + bytes
    logicalBytes := bytes
    owner := some (streamId, entry.id) }

/-- The windows and the entry after a fragment went to the send queue. -/
def chargeFragment (c : Conn) (streamId : Nat) (entry : PendingEntry) (bytes : Nat) : Conn :=
  let c := match entry.kind with
    | .header => c
    | .data => { c with connSendWindow := c.connSendWindow - bytes }.modifyStream streamId
        fun s => { s with sendWindow := s.sendWindow - bytes }
  let c := c.modifyStream streamId (·.modifyEntry entry.id fun entry =>
    { entry with inflightSends := entry.inflightSends + 1 })
  c.notify entry.id (entry.change .scheduled bytes none)

/-- Cuts a frame off an entry and puts it on the send queue; an entry without bytes left leaves the queue. When the
send queue refuses the frame, its bytes are lost and sending stops. -/
def sendFragment (c : Conn) (streamId : Nat) (entry : PendingEntry) (bytes : Nat) : Option IoErr × Conn :=
  let c := c.modifyStream streamId (·.modifyEntry entry.id fun entry =>
    { entry with payload := entry.payload.drop bytes })
  match c.enqueueSendEntry (fragment streamId entry bytes) with
  | (some err, c) => (some err, c.abortConnection err)
  | (none, c) =>
    let c := c.chargeFragment streamId entry bytes
    (none, if bytes = entry.payload.length then c.modifyStream streamId Stream.popPendingHead else c)

def finishSchedule (streamId : Nat) (result : ScheduleResult) (c : Conn) : ScheduleResult × Conn :=
  (result, c.syncConnWindowWaitMembership streamId)

/-- The loop of `schedule_pending`: header entries are scheduled to their end, a data entry gives one frame. -/
def scheduleLoop (streamId : Nat) : Nat → Bool → Conn → ScheduleResult × Conn
  | 0, scheduledAny, c => finishSchedule streamId (if scheduledAny then .scheduled else .noPending) c
  | fuel + 1, scheduledAny, c =>
    match c.streams.find streamId with
    | none => (.noPending, c.touchErased)
    | some s =>
      match s.pendingHead with
      | none => finishSchedule streamId (if scheduledAny then .scheduled else .noPending) c
      | some entry =>
        if entry.kind = .data ∧ s.sendWindow ≤ 0 then
          finishSchedule streamId (if scheduledAny then .scheduled else .blockedByStreamWindow) c
        else if entry.kind = .data ∧ c.connSendWindow ≤ 0 then
          finishSchedule streamId (if scheduledAny then .scheduled else .blockedByConnWindow) c
        else if entry.payload = [] then
          let c := c.modifyStream streamId Stream.popPendingHead
          let c := c.maybeFinishPending streamId entry.id
          finishSchedule streamId (if scheduledAny then .scheduled else .noPending) c
        else if c.fragmentBytes s entry = 0 then
          finishSchedule streamId
            (if scheduledAny then .scheduled
              else if entry.kind = .data then .blockedByConnWindow else .noPending) c
        else
          match c.sendFragment streamId entry (c.fragmentBytes s entry) with
          | (some _, c) => finishSchedule streamId .noPending c
          | (none, c) =>
            if entry.kind = .header then scheduleLoop streamId fuel true c
            else finishSchedule streamId .scheduled c

def scheduleFuel (s : Stream) : Nat := s.queuedBytes + s.pending.length + 1

def schedulePending (c : Conn) (streamId : Nat) : ScheduleResult × Conn :=
  match c.streams.find streamId with
  | none => (.noPending, c.touchErased)
  | some s => scheduleLoop streamId (scheduleFuel s) false c

def trySchedulePending (c : Conn) (streamId : Nat) : Conn :=
  match c.streams.find streamId with
  | none => c.touchErased
  | some s => if c.stopSendingRequested ∨ s.state = .closed then c else (c.schedulePending streamId).2

def updateSendWindow (c : Conn) (streamId : Nat) (delta : Int) : Conn :=
  (c.modifyStream streamId fun s => { s with sendWindow := s.sendWindow + delta }).trySchedulePending streamId

/-- One walk along `conn_wait_streams_`; the flag tells whether a stream made progress. -/
def drainPass (c : Conn) : List Nat → Bool × Conn
  | [] => (false, c)
  | streamId :: rest =>
    let (result, c) := c.schedulePending streamId
    let progress := result = .scheduled
    if c.stopSendingRequested ∨ c.connSendWindow ≤ 0 then (progress, c)
    else
      let (more, c) := c.drainPass rest
      (progress || more, c)

def drainLoop : Nat → Conn → Conn
  | 0, c => c
  | fuel + 1, c =>
    let (progress, c) := c.drainPass c.connWaitStreams
    if progress ∧ 0 < c.connSendWindow ∧ c.connWaitStreams ≠ [] then drainLoop fuel c else c

/-- Every round of the loop that is followed by another moves a byte to the send queue. -/
def drainFuel (c : Conn) : Nat := (c.streams.entries.map fun entry => entry.2.queuedBytes).sum + 1

def drainConnBlockedStreams (c : Conn) : Conn :=
  if c.stopSendingRequested then c else drainLoop c.drainFuel c

def updateConnectionSendWindow (c : Conn) (delta : Int) : Conn :=
  { c with connSendWindow := c.connSendWindow + delta }.drainConnBlockedStreams

/-- `enqueue_pending`. -/
def enqueuePending (c : Conn) (streamId : Nat) (kind : PendingKind) (payload : List UInt8)
    (firstFrameFlags lastFrameFlags : UInt8) : Option IoErr × Conn :=
  match c.streams.find streamId with
  | none => (some .invalid, c.touchErased)
  | some s =>
    if !s.active || s.state = .closed then (some .invalid, c)
    else
      let entry := PendingEntry.init c.nextPendingId kind payload firstFrameFlags lastFrameFlags
      let c := { c with nextPendingId := c.nextPendingId + 1, accepted := c.accepted ++ [(streamId, entry)] }
      let c := c.modifyStream streamId (·.appendPending entry)
      (none, c.trySchedulePending streamId)

def sendHeader (c : Conn) (streamId : Nat) (payload : List UInt8) (endStream : Bool) : Option IoErr × Conn :=
  match c.streams.find streamId with
  | none => (some .invalid, c.touchErased)
  | some s =>
    match s.state.onSendHeaders endStream with
    | none => (some .invalid, c)
    | some state =>
      (c.setState streamId state).enqueuePending streamId .header payload 0
        (kFlagEndHeaders ||| if endStream then kFlagEndStream else 0)

def sendData (c : Conn) (streamId : Nat) (payload : List UInt8) (endStream : Bool) : Option IoErr × Conn :=
  match c.streams.find streamId with
  | none => (some .invalid, c.touchErased)
  | some s =>
    match s.state.onSendData endStream with
    | none => (some .invalid, c)
    | some state =>
      (c.setState streamId state).enqueuePending streamId .data payload 0
        (if endStream then kFlagEndStream else 0)

def closeRst (c : Conn) (streamId : Nat) (errorCode : ErrorCode) (result : IoErr) : Option IoErr × Conn :=
  match c.streams.find streamId with
  | none => (some .invalid, c.touchErased)
  | some _ =>
    match c.sendRstStream streamId errorCode with
    | (none, c) => (none, (c.closeStream streamId result).maybeDestroyStream streamId)
    | failed => failed

/-- Puts a new stream into the table. -/
def insertStream (c : Conn) (streamId : Nat) : Option Conn :=
  match c.streams.insert streamId (.init streamId c.peerInitialStreamSendWindow) with
  | none => none
  | some streams =>
    some { c with
      streams := streams
      lifetime := if c.streams.size = 0 then c.lifetime + 1 else c.lifetime }

def canAcceptPeerStream (c : Conn) (streamId : Nat) : Bool :=
  c.closeState = .open && c.isPeerStreamId streamId && c.lastPeerStreamId < streamId &&
    c.peerActiveStreamCount < c.options.maxPeerConcurrentStreams

def createPeerStream (c : Conn) (streamId : Nat) : Option Conn :=
  if !c.canAcceptPeerStream streamId || (c.streams.find streamId).isSome then none
  else (c.insertStream streamId).map fun c =>
    { c with lastPeerStreamId := streamId, peerActiveStreamCount := c.peerActiveStreamCount + 1 }

def canCreateLocalStream (c : Conn) (streamId : Nat) : Bool :=
  c.closeState = .open && c.runStarted && c.localConnectionPrefaceSent && !c.peerSentGoaway &&
    c.isLocalStreamId streamId && c.lastLocalStreamId < streamId &&
    c.localPushStreamCount < c.peerAdvertisedMaxConcurrentStreams

def createLocalStream (c : Conn) (streamId : Nat) : Option Conn :=
  if !c.canCreateLocalStream streamId || (c.streams.find streamId).isSome then none
  else (c.insertStream streamId).map fun c => { c with lastLocalStreamId := streamId }

/-- The loops of `close_all_streams` and `close_streams_after_goaway` over the streams collected before. -/
def closeStreams (c : Conn) (streamIds : List Nat) (result : IoErr) : Conn :=
  streamIds.foldl (fun c streamId => (c.closeStream streamId result).maybeDestroyStream streamId) c

def streamIds (c : Conn) : List Nat := c.streams.entries.map (·.1)

def closeAllStreams (c : Conn) (result : IoErr) : Conn := c.closeStreams c.streamIds result

def closeStreamsAfterGoaway (c : Conn) (lastStreamId : Nat) : Conn :=
  c.closeStreams (c.streamIds.filter fun streamId => c.isLocalStreamId streamId && lastStreamId < streamId) .canceled

/-- The first part of `on_peer_goaway`: what the frame says, and the connection state. -/
def notePeerGoaway (c : Conn) (lastStreamId : Nat) (errorCode : ErrorCode) : Conn :=
  { c with
    peerSentGoaway := true
    peerLastStreamId := lastStreamId
    peerGoawayErrorCode := errorCode
    closeState := if c.closeState = .open then .peerDraining
      else if c.closeState = .localDraining then .bothDraining
      else c.closeState }

/-- The last part of `on_peer_goaway`: the GOAWAY sent in return. -/
def answerGoaway (c : Conn) : Conn :=
  if !c.localGoawaySent && c.closeState ≠ .abortClosing && c.closeState ≠ .closed then
    let c := { c with localGoawayLastStreamId := c.lastPeerStreamId }
    match c.sendGoaway c.localGoawayLastStreamId .noError with
    | (some err, c) => c.abortConnection err
    | (none, c) =>
      maybeFinishGracefulShutdown { c with localGoawaySent := true, closeState := .bothDraining, stopKeepalive := true }
  else c.maybeFinishGracefulShutdown

def onPeerGoaway (c : Conn) (lastStreamId : Nat) (errorCode : ErrorCode) : Conn :=
  ((c.notePeerGoaway lastStreamId errorCode).closeStreamsAfterGoaway lastStreamId).answerGoaway

def beginGracefulShutdown (c : Conn) : Option IoErr × Conn :=
  if c.stopSendingRequested then (some c.stopSendingReason, c)
  else if c.closeState = .closed ∨ c.closeState = .abortClosing then (some .canceled, c)
  else if !c.runStarted || !c.localConnectionPrefaceSent then (some .invalid, c)
  else if c.closeState = .localDraining ∨ c.closeState = .bothDraining then (none, c)
  else
    let c := { c with localGoawayLastStreamId := c.lastPeerStreamId }
    match c.sendGoaway c.localGoawayLastStreamId .noError with
    | (some err, c) => (some err, c.abortConnection err)
    | (none, c) =>
      (none, maybeFinishGracefulShutdown { c with
        localGoawaySent := true
        stopKeepalive := true
        closeState := if c.closeState = .peerDraining then .bothDraining else .localDraining })

def gracefulShutdown (c : Conn) : Conn :=
  match c.beginGracefulShutdown with
  | (some err, c) => if err ≠ .canceled then c.abortConnection err else c
  | (none, c) => c

def shutdown (c : Conn) (reason : IoErr) : Conn := c.abortConnection reason

end Conn

end FiberGateway.Http2
