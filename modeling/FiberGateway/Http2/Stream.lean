import FiberGateway.Lib.LinearProbing
import FiberGateway.Mem.IoBuf
import FiberGateway.Http2.Protocol

namespace FiberGateway.Http2

inductive StreamState
  | idle | reservedLocal | reservedRemote | open | halfClosedLocal | halfClosedRemote | closed
  deriving DecidableEq, Repr

inductive StreamOp
  | recvHeaders | recvHeadersEndStream | recvData | recvDataEndStream
  | sendHeaders | sendHeadersEndStream | sendData | sendDataEndStream
  deriving DecidableEq, Repr

/-- `kValidOpBits`. -/
def StreamState.validOps : StreamState → List StreamOp
  | .idle => [.recvHeaders, .recvHeadersEndStream, .sendHeaders, .sendHeadersEndStream]
  | .reservedLocal => []
  | .reservedRemote => []
  | .open => [.recvHeaders, .recvHeadersEndStream, .recvData, .recvDataEndStream,
      .sendHeaders, .sendHeadersEndStream, .sendData, .sendDataEndStream]
  | .halfClosedLocal => [.recvHeaders, .recvHeadersEndStream, .recvData, .recvDataEndStream]
  | .halfClosedRemote => [.sendHeaders, .sendHeadersEndStream, .sendData, .sendDataEndStream]
  | .closed => []

def StreamState.isValidTransition (state : StreamState) (op : StreamOp) : Bool := op ∈ state.validOps

def StreamState.onRemoteEndStream : StreamState → StreamState
  | .open => .halfClosedRemote
  | .halfClosedLocal => .closed
  | state => state

def StreamState.onLocalEndStream : StreamState → StreamState
  | .open => .halfClosedLocal
  | .halfClosedRemote => .closed
  | state => state

/-- `transition_on_recv_headers`; none stands for `IoErr::Invalid`. -/
def StreamState.onRecvHeaders (state : StreamState) (endStream : Bool) : Option StreamState :=
  if state.isValidTransition (if endStream then .recvHeadersEndStream else .recvHeaders) then
    if state = .idle then some (if endStream then .halfClosedRemote else .open)
    else if endStream then some state.onRemoteEndStream
    else some state
  else none

/-- `transition_on_recv_data`. -/
def StreamState.onRecvData (state : StreamState) (endStream : Bool) : Option StreamState :=
  if state.isValidTransition (if endStream then .recvDataEndStream else .recvData) then
    some (if endStream then state.onRemoteEndStream else state)
  else none

/-- `transition_on_send_headers`. -/
def StreamState.onSendHeaders (state : StreamState) (endStream : Bool) : Option StreamState :=
  if state.isValidTransition (if endStream then .sendHeadersEndStream else .sendHeaders) then
    if state = .idle then some (if endStream then .halfClosedLocal else .open)
    else if endStream then some state.onLocalEndStream
    else some state
  else none

/-- `transition_on_send_data`. -/
def StreamState.onSendData (state : StreamState) (endStream : Bool) : Option StreamState :=
  if state.isValidTransition (if endStream then .sendDataEndStream else .sendData) then
    some (if endStream then state.onLocalEndStream else state)
  else none

/-- This side has ended the stream. -/
def StreamState.Silent (state : StreamState) : Prop := state = .halfClosedLocal ∨ state = .closed

inductive PendingKind
  | header | data
  deriving DecidableEq, Repr

/-- An entry of a stream's send queue. `id` stands for its address; it leaves `entries` when it is notified of its
end and returned to the pool. -/
structure PendingEntry where
  id : Nat
  kind : PendingKind
  payload : List UInt8
  firstFrameFlags : UInt8
  lastFrameFlags : UInt8
  totalBytes : Nat
  writtenBytes : Nat
  inflightSends : Nat
  result : Option IoErr
  deriving DecidableEq, Repr

def PendingEntry.init (id : Nat) (kind : PendingKind) (payload : List UInt8) (firstFrameFlags lastFrameFlags : UInt8) :
    PendingEntry where
  id := id
  kind := kind
  payload := payload
  firstFrameFlags := firstFrameFlags
  lastFrameFlags := lastFrameFlags
  totalBytes := payload.length
  writtenBytes := 0
  inflightSends := 0
  result := none

inductive PendingChangeKind
  | scheduled | written | completed | failed | canceled
  deriving DecidableEq, Repr

/-- What `notify_change` hands to an entry's `on_change`. -/
structure PendingChange where
  kind : PendingChangeKind
  deltaBytes : Nat
  totalBytes : Nat
  writtenBytes : Nat
  result : Option IoErr
  deriving DecidableEq, Repr

def PendingEntry.change (entry : PendingEntry) (kind : PendingChangeKind) (deltaBytes : Nat) (result : Option IoErr) :
    PendingChange :=
  ⟨kind, deltaBytes, entry.totalBytes, entry.writtenBytes, result⟩

/-- `pending` is the queue from `pending_head_` on, `entries` the list from `active_pending_head_` on: the entries
of the queue and those whose frames are still on their way out. -/
structure Stream where
  streamId : Nat
  state : StreamState
  active : Bool
  sendWindow : Int
  pending : List Nat
  entries : List PendingEntry
  deriving DecidableEq, Repr

namespace Stream

def init (streamId : Nat) (sendWindow : Int) : Stream where
  streamId := streamId
  state := .idle
  active := true
  sendWindow := sendWindow
  pending := []
  entries := []

def entry (s : Stream) (id : Nat) : Option PendingEntry := s.entries.find? (·.id = id)

def pendingHead (s : Stream) : Option PendingEntry :=
  match s.pending with
  | [] => none
  | id :: _ => s.entry id

def modifyEntry (s : Stream) (id : Nat) (f : PendingEntry → PendingEntry) : Stream :=
  { s with entries := s.entries.map fun entry => if entry.id = id then f entry else entry }

/-- `append_active_pending` and the append to the queue. -/
def appendPending (s : Stream) (entry : PendingEntry) : Stream :=
  { s with entries := entry :: s.entries, pending := s.pending ++ [entry.id] }

def popPendingHead (s : Stream) : Stream := { s with pending := s.pending.tail }

def removeActivePending (s : Stream) (id : Nat) : Stream :=
  { s with entries := s.entries.filter fun entry => entry.id ≠ id }

def blockedByStreamWindow (s : Stream) : Bool :=
  match s.pendingHead with
  | none => false
  | some entry => entry.kind = .data && s.sendWindow ≤ 0

/-- The bytes the queue still has to hand to the send queue. -/
def queuedBytes (s : Stream) : Nat := (s.entries.map (·.payload.length)).sum

end Stream

/-- `hash_stream_id`, on 32-bit values. -/
def hashStreamId (streamId : Nat) : Nat :=
  let value := streamId * 2654435761 % 2 ^ 32
  value ^^^ (value >>> 16)

/-- The smallest power of two that is not below `value`, and 1 for 0. -/
def nextPow2 (value : Nat) : Nat := if value ≤ 1 then 1 else 2 ^ (Nat.log2 (value - 1) + 1)

/-- `Http2StreamTable`: the bucket of an id is found by `hash & mask`, a remainder as the bucket count is a power
of two. The table holds the streams themselves in place of pointers to them. -/
abbrev StreamTable := LinearProbing.Table Stream hashStreamId

theorem le_nextPow2 (value : Nat) : value ≤ nextPow2 value := by
  unfold nextPow2
  split
  · assumption
  · have below : value - 1 < 2 ^ (Nat.log2 (value - 1) + 1) := Nat.lt_log2_self
    omega

def bucketCount (maxActiveStreams : Nat) : Nat :=
  if maxActiveStreams = 0 then 0 else nextPow2 (maxActiveStreams * 2)

theorem bucketCount_roomy (maxActiveStreams : Nat) (positive : bucketCount maxActiveStreams ≠ 0) :
    maxActiveStreams < bucketCount maxActiveStreams := by
  unfold bucketCount at positive ⊢
  split
  · rename_i zero
    simp [zero] at positive
  · have := le_nextPow2 (maxActiveStreams * 2)
    omega

def StreamTable.init (maxActiveStreams : Nat) : StreamTable :=
  LinearProbing.Table.init hashStreamId (bucketCount maxActiveStreams) maxActiveStreams
    (bucketCount_roomy maxActiveStreams)

end FiberGateway.Http2
