import FiberGateway.Http2.Closing

namespace FiberGateway.Http2

open List LinearProbing Option

namespace Conn

theorem overlap_eq (chunk : List UInt8) (offset first last : Nat) :
    overlap chunk offset first last = (chunk.take (last - offset)).drop (first - offset) := by
  simp only [overlap]
  rw [drop_take, show max offset first - offset = first - offset by omega, take_eq_take_iff,
    length_drop]
  omega

/-- `c` with more handed to the streams. -/
def receive (c : Conn) (more : List Received) : Conn := { c with received := c.received ++ more }

variable {c : Conn} {streamId : Nat} {s : Stream}

theorem modifyStream_eq_self (found : c.streams.find streamId = some s) {f : Stream → Stream} (same : f s = s) :
    c.modifyStream streamId f = c := by
  unfold modifyStream
  rw [Table.modify_eq_self]
  intro v there
  rw [found] at there
  cases there
  exact same

theorem setState_eq_self (found : c.streams.find streamId = some s) (running : s.state ≠ .closed) :
    c.setState streamId s.state = c := by
  unfold setState
  rw [modifyStream_eq_self found rfl]
  simp [running]

/-- What a stream is handed for a chunk of a DATA frame. -/
def dataRecord (streamId offset : Nat) (bytes : List UInt8) (endStream : Bool) : List Received :=
  bytes.mapIdx (fun i byte => .data streamId (offset + i) byte) ++ if endStream then [.endStream streamId] else []

def headerRecord (streamId offset : Nat) (bytes : List UInt8) (endStream : Bool) : List Received :=
  bytes.mapIdx (fun i byte => .header streamId (offset + i) byte) ++ if endStream then [.endStream streamId] else []

section

variable (found : c.streams.find streamId = some s)

include found

theorem onDataRecv_eq (offset : Nat) (bytes : List UInt8) (endStream : Bool) :
    c.onDataRecv streamId offset bytes endStream = match s.state.onRecvData endStream with
      | none => (some .invalid, c) | some state =>
        (none, (c.receive (dataRecord streamId offset bytes endStream)).setState streamId state) := by
  unfold onDataRecv
  rw [found, bind_some]
  cases s.state.onRecvData endStream with
  | none => rfl
  | some state => simp [receive, dataRecord, setState, modifyStream, hasEntries]

theorem onHeaderRecv_eq (offset : Nat) (bytes : List UInt8) (endStream : Bool) :
    c.onHeaderRecv streamId offset bytes endStream = match s.state.onRecvHeaders endStream with
      | none => (some .invalid, c) | some state =>
        (none, (c.receive (headerRecord streamId offset bytes endStream)).setState streamId state) := by
  unfold onHeaderRecv
  rw [found, bind_some]
  cases s.state.onRecvHeaders endStream with
  | none => rfl
  | some state => simp [receive, headerRecord, setState, modifyStream, hasEntries, append_assoc]

theorem maybeDestroyStream_open (running : s.state ≠ .closed) : c.maybeDestroyStream streamId = c := by
  simp [maybeDestroyStream, found, running]

end

end Conn

namespace Stream

/-- The stream takes DATA (`RecvData` and `RecvDataEndStream` are valid in the same states). -/
def AcceptsData (s : Stream) : Prop := s.state = .open ∨ s.state = .halfClosedLocal

def AcceptsHeaders (s : Stream) : Prop := s.state = .idle ∨ s.state = .open ∨ s.state = .halfClosedLocal

instance (s : Stream) : Decidable s.AcceptsData := inferInstanceAs (Decidable (_ ∨ _))

instance (s : Stream) : Decidable s.AcceptsHeaders := inferInstanceAs (Decidable (_ ∨ _))

variable {s : Stream}

theorem onRecvData_accepted (accepts : s.AcceptsData) (endStream : Bool) :
    s.state.onRecvData endStream = some (if endStream then s.state.onRemoteEndStream else s.state) := by
  rcases accepts with state | state <;> rw [state] <;> cases endStream <;> rfl

theorem onRecvHeaders_refused (refuses : ¬s.AcceptsHeaders) (endStream : Bool) :
    s.state.onRecvHeaders endStream = none := by
  unfold AcceptsHeaders at refuses
  cases endStream <;> revert refuses <;> cases s.state <;> decide

theorem onRecvHeaders_accepted (accepts : s.AcceptsHeaders) (endStream : Bool) :
    s.state.onRecvHeaders endStream = some (if s.state = .idle then (if endStream then .halfClosedRemote else .open)
      else if endStream then s.state.onRemoteEndStream else s.state) := by
  rcases accepts with state | state | state <;> rw [state] <;> cases endStream <;> rfl

end Stream

namespace Conn

/-- Frames are still put on the send queue. -/
structure CanSend (c : Conn) : Prop where
  started : c.runStarted = true
  valid : c.transportValid = true
  running : c.stopSendingRequested = false
  opened : c.sendQueueClosed = false

variable {c : Conn} {streamId : Nat} {s : Stream}

theorem CanSend.enqueue (canSend : c.CanSend) (entry : SendEntry) :
    c.enqueueSendEntry entry =
      (none, { c with sendQueue := c.sendQueue ++ [entry], enqueued := c.enqueued ++ [entry] }) := by
  simp [enqueueSendEntry, canSend.started, canSend.valid, canSend.running, canSend.opened]

section Data

variable {c : Conn} {fhr : FrameHeader} {s : Stream}

/-- Where the padding of a DATA or HEADERS frame begins, once its pad length is known. -/
def paddingBegin (c : Conn) (fhr : FrameHeader) : Nat := fhr.length - c.incomingPadLength

/-- The chunk ends the data of a DATA frame with END_STREAM. -/
def endsData (c : Conn) (fhr : FrameHeader) (offset : Nat) (chunk : List UInt8) : Bool :=
  fhr.has kFlagEndStream && decide (c.paddingBegin fhr ≤ offset + chunk.length)

/-- The chunk makes `handle_data_payload` call `on_data_recv`. -/
def deliversData (c : Conn) (fhr : FrameHeader) (offset : Nat) (chunk : List UInt8) : Prop :=
  overlap chunk offset (dataPrefix fhr) (c.paddingBegin fhr) ≠ [] ∨ c.endsData fhr offset chunk

def dataRecordOf (c : Conn) (fhr : FrameHeader) (offset : Nat) (chunk : List UInt8) : List Received :=
  dataRecord fhr.streamId (max offset (dataPrefix fhr) - dataPrefix fhr)
    (overlap chunk offset (dataPrefix fhr) (c.paddingBegin fhr)) (c.endsData fhr offset chunk)

variable {offset : Nat} {chunk front : List UInt8}

section

variable (found : c.streams.find fhr.streamId = some s)

include found

theorem deliverData_accepted (accepts : s.AcceptsData) (delivers : c.deliversData fhr offset chunk) :
    c.deliverData fhr offset chunk = (none, ((c.receive (c.dataRecordOf fhr offset chunk)).setState fhr.streamId
        (if c.endsData fhr offset chunk then s.state.onRemoteEndStream else s.state)).maybeDestroyStream
          fhr.streamId) := by
  unfold deliverData
  rw [found]
  refine (if_pos delivers).trans ?_
  rw [onDataRecv_eq found, Stream.onRecvData_accepted accepts]
  rfl

/-- A chunk that leaves the end of the stream to a later one only hands over its bytes. -/
theorem deliverData_middle (accepts : s.AcceptsData)
    (delivers : c.deliversData fhr offset chunk) (middle : c.endsData fhr offset chunk = false) :
    c.deliverData fhr offset chunk = (none, c.receive (c.dataRecordOf fhr offset chunk)) := by
  have there : (c.receive (c.dataRecordOf fhr offset chunk)).streams.find fhr.streamId = some s := found
  have running : s.state ≠ .closed := by
    rcases accepts with state | state <;> simp [state]
  rw [deliverData_accepted found accepts delivers, middle, if_neg Bool.false_ne_true,
    setState_eq_self there running, maybeDestroyStream_open there running]

end

/-- A DATA frame may be cut behind `front`: the cut is not in the padding behind the end of the stream, and a stream
that refuses DATA is met by one chunk only. -/
def DataCutSafe (c : Conn) (fhr : FrameHeader) (front : List UInt8) (s : Stream) : Prop :=
  c.deliversData fhr 0 front →
    if s.AcceptsData then c.endsData fhr 0 front = false
    else s.InFlight ∧ fhr.has kFlagEndStream = false ∧ c.paddingBegin fhr ≤ front.length

variable {rest : List UInt8}

end Data

end Conn

end FiberGateway.Http2
