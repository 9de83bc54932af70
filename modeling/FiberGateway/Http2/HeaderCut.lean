import FiberGateway.Http2.FrameCut

namespace FiberGateway.Http2

open List

namespace Stream

/-- The state behind a received part of a header block. -/
def recvState (s : Stream) (endStream : Bool) : StreamState :=
  if s.state = .idle then (if endStream then .halfClosedRemote else .open)
  else if endStream then s.state.onRemoteEndStream else s.state

end Stream

namespace Conn

variable {c d : Conn} {fhr : FrameHeader} {s : Stream}

variable {offset streamId blockOffset blockOffset' : Nat} {rest chunk front bytes bytes' : List UInt8}

theorem recvFragment_refused (found : c.streams.find streamId = some s) (refuses : ¬s.AcceptsHeaders)
    (blockOffset : Nat) (bytes : List UInt8) (endStream : Bool) (finish : Conn → Conn) :
    c.recvFragment streamId blockOffset bytes endStream finish =
      (none, c.handleStreamError streamId .protocolError .invalid) := by
  unfold recvFragment
  rw [onHeaderRecv_eq found, Stream.onRecvHeaders_refused refuses]

theorem recvFragment_accepted (found : c.streams.find streamId = some s) (accepts : s.AcceptsHeaders)
    (blockOffset : Nat) (bytes : List UInt8) (endStream : Bool) (finish : Conn → Conn) :
    c.recvFragment streamId blockOffset bytes endStream finish =
      (none, finish (((c.receive (headerRecord streamId blockOffset bytes endStream)).setState streamId
        (s.recvState endStream)).maybeDestroyStream streamId)) := by
  unfold recvFragment
  rw [onHeaderRecv_eq found, Stream.onRecvHeaders_accepted accepts]
  rfl

section

variable (found : c.streams.find streamId = some s)

include found

end

/-- The chunk ends the fragment of a HEADERS frame. -/
def endsFragment (c : Conn) (fhr : FrameHeader) (offset : Nat) (chunk : List UInt8) : Bool :=
  decide (c.paddingBegin fhr ≤ offset + chunk.length)

def endsBlock (c : Conn) (fhr : FrameHeader) (offset : Nat) (chunk : List UInt8) : Bool :=
  fhr.has kFlagEndHeaders && c.endsFragment fhr offset chunk

/-- The chunk makes `handle_headers_payload` call `on_header_recv`. -/
def deliversHeaders (c : Conn) (fhr : FrameHeader) (offset : Nat) (chunk : List UInt8) : Prop :=
  overlap chunk offset (headersPrefix fhr) (c.paddingBegin fhr) ≠ [] ∨ c.endsBlock fhr offset chunk

def headerOffset (c : Conn) (fhr : FrameHeader) (offset : Nat) : Nat :=
  c.inboundHeaderBlockBytes + (max offset (headersPrefix fhr) - headersPrefix fhr)

def headerBytes (c : Conn) (fhr : FrameHeader) (offset : Nat) (chunk : List UInt8) : List UInt8 :=
  overlap chunk offset (headersPrefix fhr) (c.paddingBegin fhr)

/-- The end of a HEADERS chunk. -/
def finishHeaders (c : Conn) (fhr : FrameHeader) (offset : Nat) (chunk : List UInt8) (d : Conn) : Conn :=
  if c.endsFragment fhr offset chunk then
    d.endFragment (c.paddingBegin fhr - headersPrefix fhr) (fhr.has kFlagEndHeaders) else d

/-- The connection on which a chunk is delivered: the first one starts the block. -/
def atOffset (c : Conn) (fhr : FrameHeader) (offset : Nat) : Conn := if offset = 0 then c.beginBlock fhr else c

theorem atOffset_find (offset : Nat) : (c.atOffset fhr offset).streams.find = c.streams.find := by
  unfold atOffset
  split <;> rfl

section

variable (found : c.streams.find fhr.streamId = some s)

include found

theorem deliverHeaders_skips (skips : ¬c.deliversHeaders fhr offset chunk) :
    c.deliverHeaders fhr offset chunk = (none, c.finishHeaders fhr offset chunk (c.atOffset fhr offset)) := by
  unfold deliverHeaders
  rw [found]
  exact if_neg skips

theorem deliverHeaders_delivers (delivers : c.deliversHeaders fhr offset chunk) :
    c.deliverHeaders fhr offset chunk =
      (c.atOffset fhr offset).recvFragment fhr.streamId (c.headerOffset fhr offset) (c.headerBytes fhr offset chunk)
        (fhr.has kFlagEndStream && c.endsBlock fhr offset chunk) (c.finishHeaders fhr offset chunk) := by
  unfold deliverHeaders
  rw [found]
  exact if_pos delivers

theorem deliverHeaders_refused (refuses : ¬s.AcceptsHeaders) (delivers : c.deliversHeaders fhr offset chunk) :
    c.deliverHeaders fhr offset chunk =
      (none, (c.atOffset fhr offset).handleStreamError fhr.streamId .protocolError .invalid) := by
  rw [deliverHeaders_delivers found delivers]
  refine recvFragment_refused ?_ refuses _ _ _ _
  rw [atOffset_find]
  exact found

end

/-- A HEADERS frame may be cut behind `front`: the fragment is not complete before the cut, or it is the whole block
and does not end the stream; and a stream that refuses HEADERS has not been handed anything yet. -/
def HeadersCutSafe (c : Conn) (fhr : FrameHeader) (front : List UInt8) (s : Stream) : Prop :=
  (c.endsFragment fhr 0 front → fhr.has kFlagEndHeaders ∧ fhr.has kFlagEndStream = false) ∧
    (c.deliversHeaders fhr 0 front → s.AcceptsHeaders)

theorem CanSend.atOffset (canSend : c.CanSend) (offset : Nat) : (c.atOffset fhr offset).CanSend := by
  unfold Conn.atOffset
  split <;> exact ⟨canSend.started, canSend.valid, canSend.running, canSend.opened⟩

theorem deliverContinuation_missing (missing : c.streams.find fhr.streamId = none) (offset : Nat)
    (chunk : List UInt8) : c.deliverContinuation fhr offset chunk = (some .invalid, c) := by
  simp [deliverContinuation, missing]

end Conn

end FiberGateway.Http2
