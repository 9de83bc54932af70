import FiberGateway.Http2.LateFrames
import FiberGateway.Http2.SendCalls

/-!
A header block that comes in a HEADERS frame and CONTINUATION frames, with anything this side does in between. The early
return behind `handle_stream_error` skips the bookkeeping of the block.
-/

namespace FiberGateway.Http2

open Relation LinearProbing

namespace Conn

variable {c d e : Conn} {streamId : Nat} {s : Stream}

/-- The state of the header block that is being received is left alone. -/
structure KeepsBlock (c d : Conn) : Prop where
  expecting : d.expectingContinuation = c.expectingContinuation
  stream : d.inboundHeaderStreamId = c.inboundHeaderStreamId
  bytes : d.inboundHeaderBlockBytes = c.inboundHeaderBlockBytes
  endStream : d.inboundHeaderEndStream = c.inboundHeaderEndStream

namespace KeepsBlock

theorem refl (c : Conn) : KeepsBlock c c := ⟨rfl, rfl, rfl, rfl⟩

theorem trans (first : KeepsBlock c d) (second : KeepsBlock d e) : KeepsBlock c e :=
  ⟨second.expecting.trans first.expecting, second.stream.trans first.stream, second.bytes.trans first.bytes,
    second.endStream.trans first.endStream⟩

theorem behind (second : KeepsBlock d e) (first : KeepsBlock c d) : KeepsBlock c e := first.trans second

theorem sendSide (side : SendSide c d) : KeepsBlock c d := by
  rw [← side]
  exact ⟨rfl, rfl, rfl, rfl⟩

theorem closeSide (side : CloseSide c d) : KeepsBlock c d := .sendSide side.sendSide

end KeepsBlock

theorem finishRun_keepsBlock (result : Option IoErr) (c : Conn) : KeepsBlock c (c.finishRun result).2 := by
  have aborted : KeepsBlock c (if result.isSome ∧ ¬c.stopSendingRequested ∧ c.closeState ≠ .abortClosing ∧
      c.closeState ≠ .closed then c.abortConnection (result.getD .invalid) else c) := by
    split
    · exact .sendSide (abortConnection_sendSide c _)
    · exact .refl c
  unfold finishRun
  dsimp only
  generalize (if result.isSome ∧ ¬c.stopSendingRequested ∧ c.closeState ≠ .abortClosing ∧ c.closeState ≠ .closed then
    c.abortConnection (result.getD .invalid) else c) = d at aborted
  refine aborted.trans ?_
  split
  · have closed := closeStreams_closeSide { d with stopKeepalive := true, sendQueueClosed := true }
      { d with stopKeepalive := true, sendQueueClosed := true }.streamIds .canceled
    exact (KeepsBlock.closeSide closed).behind ⟨rfl, rfl, rfl, rfl⟩
  · exact .refl d

theorem sendConnectionPreface_keepsBlock (c : Conn) : KeepsBlock c c.sendConnectionPreface.2 := by
  unfold sendConnectionPreface
  dsimp only
  generalize ({ frameHeader := none, payload := _, totalBytes := _ } : SendEntry) = entry
  have sent : KeepsBlock c (c.enqueueSendEntry entry).2 := .sendSide (enqueueSendEntry_sendSide c entry)
  generalize c.enqueueSendEntry entry = outcome at sent
  obtain ⟨err, d⟩ := outcome
  cases err with
  | none => exact sent.trans ⟨rfl, rfl, rfl, rfl⟩
  | some err => exact sent

theorem recordWritten_keepsBlock (c : Conn) (streamId : Nat) (entry : PendingEntry) (bytes : Nat) :
    KeepsBlock c (c.recordWritten streamId entry bytes) := by
  unfold recordWritten
  split
  · exact .refl c
  · exact ⟨rfl, rfl, rfl, rfl⟩

theorem handleSendDone_keepsBlock (c : Conn) (streamId entryId : Nat) (sent : SendEntry) (result : Option IoErr) :
    KeepsBlock c (c.handleSendDone streamId entryId sent result) := by
  unfold handleSendDone
  split
  · exact ⟨rfl, rfl, rfl, rfl⟩
  rename_i entry there
  dsimp only
  have written := recordWritten_keepsBlock c streamId entry sent.payloadWritten
  generalize c.recordWritten streamId entry sent.payloadWritten = d at written
  have landed : KeepsBlock d (d.landSend streamId entryId result) := ⟨rfl, rfl, rfl, rfl⟩
  have finished : KeepsBlock (d.landSend streamId entryId result) _ :=
    .closeSide (maybeFinishPending_closeSide (d.landSend streamId entryId result) streamId entryId)
  have before := written.trans (landed.trans finished)
  generalize (d.landSend streamId entryId result).maybeFinishPending streamId entryId = e at before
  split
  · exact before.trans ⟨rfl, rfl, rfl, rfl⟩
  split
  · exact before.trans (.sendSide (trySchedulePending_sendSide e streamId))
  · exact before

theorem notifySendDone_keepsBlock (c : Conn) (sent : SendEntry) (result : Option IoErr) :
    KeepsBlock c (c.notifySendDone sent result) := by
  unfold notifySendDone
  split
  · exact .refl c
  · exact handleSendDone_keepsBlock c _ _ sent result

theorem sendControlFrame_keepsBlock (c : Conn) (type : FrameType) (flags : UInt8) (streamId : Nat)
    (payload : List UInt8) : KeepsBlock c (c.sendControlFrame type flags streamId payload).2 :=
  .sendSide (sendControlFrame_sendSide c type flags streamId payload)

theorem handleSendLoopTimeout_keepsBlock (c : Conn) : KeepsBlock c c.handleSendLoopTimeout := by
  unfold handleSendLoopTimeout
  split
  · exact .refl c
  have sent := sendControlFrame_keepsBlock c .ping 0 0 (List.replicate kPingPayloadSize 0)
  generalize c.sendControlFrame .ping 0 0 (List.replicate kPingPayloadSize 0) = outcome at sent
  obtain ⟨err, d⟩ := outcome
  cases err with
  | none => exact sent
  | some err => exact sent.trans (.sendSide (abortConnection_sendSide d err))

theorem createLocalStream_keepsBlock (c : Conn) (streamId : Nat) :
    KeepsBlock c ((c.createLocalStream streamId).getD c) := by
  cases made : c.createLocalStream streamId with
  | none => exact .refl c
  | some d =>
    obtain ⟨-, -, streams, -, rfl⟩ := createLocalStream_some made
    exact ⟨rfl, rfl, rfl, rfl⟩

theorem enqueuePending_keepsBlock (c : Conn) (streamId : Nat) (kind : PendingKind) (payload : List UInt8)
    (first last : UInt8) : KeepsBlock c (c.enqueuePending streamId kind payload first last).2 := by
  unfold enqueuePending
  split
  · exact ⟨rfl, rfl, rfl, rfl⟩
  split
  · exact .refl c
  · exact (KeepsBlock.sendSide (trySchedulePending_sendSide _ streamId)).behind ⟨rfl, rfl, rfl, rfl⟩

theorem sendHeader_keepsBlock (c : Conn) (streamId : Nat) (payload : List UInt8) (endStream : Bool) :
    KeepsBlock c (c.sendHeader streamId payload endStream).2 := by
  unfold sendHeader
  split
  · exact ⟨rfl, rfl, rfl, rfl⟩
  split
  · exact .refl c
  · exact (enqueuePending_keepsBlock _ streamId _ payload _ _).behind ⟨rfl, rfl, rfl, rfl⟩

theorem sendData_keepsBlock (c : Conn) (streamId : Nat) (payload : List UInt8) (endStream : Bool) :
    KeepsBlock c (c.sendData streamId payload endStream).2 := by
  unfold sendData
  split
  · exact ⟨rfl, rfl, rfl, rfl⟩
  split
  · exact .refl c
  · exact (enqueuePending_keepsBlock _ streamId _ payload _ _).behind ⟨rfl, rfl, rfl, rfl⟩

theorem closeRst_keepsBlock (c : Conn) (streamId : Nat) (code : ErrorCode) (result : IoErr) :
    KeepsBlock c (c.closeRst streamId code result).2 := by
  unfold closeRst
  split
  · exact ⟨rfl, rfl, rfl, rfl⟩
  have sent : KeepsBlock c (c.sendRstStream streamId code).2 := sendControlFrame_keepsBlock c _ _ _ _
  generalize c.sendRstStream streamId code = outcome at sent
  obtain ⟨err, d⟩ := outcome
  cases err with
  | none =>
    exact sent.trans (.closeSide ((closeStream_closeSide d streamId result).trans
      (maybeDestroyStream_closeSide _ streamId)))
  | some err => exact sent

theorem gracefulShutdown_keepsBlock (c : Conn) : KeepsBlock c c.gracefulShutdown := by
  have begun : KeepsBlock c c.beginGracefulShutdown.2 := by
    unfold beginGracefulShutdown
    iterate 4
      split
      · exact .refl c
    dsimp only
    have sent : KeepsBlock c ({ c with localGoawayLastStreamId := c.lastPeerStreamId }.sendGoaway
        c.lastPeerStreamId .noError).2 :=
      (sendControlFrame_keepsBlock _ _ _ _ _).behind ⟨rfl, rfl, rfl, rfl⟩
    generalize { c with localGoawayLastStreamId := c.lastPeerStreamId }.sendGoaway c.lastPeerStreamId .noError =
      outcome at sent
    obtain ⟨err, d⟩ := outcome
    cases err with
    | some err => exact sent.trans (.sendSide (abortConnection_sendSide d err))
    | none =>
      refine sent.trans ((KeepsBlock.closeSide (maybeFinishGracefulShutdown_closeSide _)).behind ?_)
      exact ⟨rfl, rfl, rfl, rfl⟩
  unfold gracefulShutdown
  generalize c.beginGracefulShutdown = outcome at begun
  obtain ⟨err, d⟩ := outcome
  cases err with
  | none => exact begun
  | some err =>
    dsimp only
    split
    · exact begun.trans (.sendSide (abortConnection_sendSide d err))
    · exact begun

end Conn

/-- Bytes come in. -/
def Event.arrives : Event → Bool
  | .receive _ => true
  | _ => false

namespace Session

open Conn

variable {s : Session}

theorem endRun_keepsBlock (s : Session) (result : Option IoErr) : KeepsBlock s.conn (s.endRun result).conn :=
  finishRun_keepsBlock result s.conn

theorem startRun_keepsBlock (s : Session) : KeepsBlock s.conn s.startRun.conn := by
  unfold startRun
  split
  · exact .refl _
  have begun : KeepsBlock s.conn { s.conn with runStarted := true }.startSendLoop := by
    unfold startSendLoop
    split <;> exact ⟨rfl, rfl, rfl, rfl⟩
  dsimp only
  generalize { s.conn with runStarted := true }.startSendLoop = c at begun
  split
  · have sent := sendConnectionPreface_keepsBlock c
    generalize c.sendConnectionPreface = outcome at sent
    obtain ⟨err, d⟩ := outcome
    cases err with
    | none => exact begun.trans sent
    | some err => exact (begun.trans sent).trans (endRun_keepsBlock (s.withConn d) (some err))
  · exact begun

theorem finishSendEntry_keepsBlock (s : Session) (sent : SendEntry) (result : Option IoErr) :
    KeepsBlock s.conn (s.finishSendEntry sent result).conn :=
  notifySendDone_keepsBlock s.conn sent result

theorem drainSendQueue_keepsBlock (result : IoErr) (fuel : Nat) (s : Session) :
    KeepsBlock s.conn (drainSendQueue result fuel s).conn := by
  induction fuel generalizing s with
  | zero => exact .refl _
  | succ fuel ih =>
    unfold drainSendQueue
    split
    · exact .refl _
    rename_i sent rest queued
    have released : KeepsBlock s.conn (s.withConn { s.conn with sendQueue := rest }).conn := ⟨rfl, rfl, rfl, rfl⟩
    exact (released.trans (finishSendEntry_keepsBlock _ sent (some result))).trans (ih _)

theorem leaveSendLoop_keepsBlock (s : Session) : KeepsBlock s.conn s.leaveSendLoop.conn := by
  unfold leaveSendLoop
  dsimp only
  have stopped : KeepsBlock s.conn (s.withConn { s.conn with sendLoopRunning := false }).conn := ⟨rfl, rfl, rfl, rfl⟩
  generalize s.withConn { s.conn with sendLoopRunning := false } = t at stopped
  split
  · have drained := drainSendQueue_keepsBlock t.conn.stopSendingReason t.conn.sendQueue.length t
    generalize drainSendQueue t.conn.stopSendingReason t.conn.sendQueue.length t = u at drained
    have closed := KeepsBlock.closeSide (closeStreams_closeSide u.conn u.conn.streamIds u.conn.stopSendingReason)
    exact ((stopped.trans drained).trans closed).trans ⟨rfl, rfl, rfl, rfl⟩
  · exact stopped.trans ⟨rfl, rfl, rfl, rfl⟩

theorem pollToSend_keepsBlock (s : Session) : KeepsBlock s.conn s.pollToSend.conn := by
  unfold pollToSend
  split
  · split
    · dsimp only
      split
      · exact (finishSendEntry_keepsBlock (s.withConn _) _ none).behind ⟨rfl, rfl, rfl, rfl⟩
      · exact ⟨rfl, rfl, rfl, rfl⟩
    · split
      · exact leaveSendLoop_keepsBlock s
      · exact .refl _
  · exact .refl _

theorem written_keepsBlock (s : Session) (n : Nat) : KeepsBlock s.conn (s.written n).conn := by
  unfold written
  split
  · exact .refl _
  split
  · dsimp only
    split
    · exact (finishSendEntry_keepsBlock _ _ none).behind ⟨rfl, rfl, rfl, rfl⟩
    · exact ⟨rfl, rfl, rfl, rfl⟩
  · exact .refl _

theorem writeFailed_keepsBlock (s : Session) (err : IoErr) : KeepsBlock s.conn (s.writeFailed err).conn := by
  unfold writeFailed
  split
  · exact .refl _
  rename_i sent busy
  dsimp only
  generalize (if s.conn.stopSendingRequested then s.conn.stopSendingReason else err) = reason
  have idle : KeepsBlock s.conn (s.withConn { s.conn with sending := none }).conn := ⟨rfl, rfl, rfl, rfl⟩
  have finished := idle.trans (finishSendEntry_keepsBlock _ sent (some reason))
  generalize (s.withConn { s.conn with sending := none }).finishSendEntry sent (some reason) = t at finished
  have aborted : KeepsBlock t.conn (t.withConn (t.conn.abortConnection reason)).conn :=
    .sendSide (abortConnection_sendSide t.conn reason)
  exact (finished.trans aborted).trans (leaveSendLoop_keepsBlock _)

theorem onStream_keepsBlock {streamId : Nat} {call : Conn → Option IoErr × Conn}
    (keeps : KeepsBlock s.conn (call s.conn).2) : KeepsBlock s.conn (s.onStream streamId call).conn := by
  unfold onStream
  split
  · exact keeps
  · exact .refl _

/-- Nothing but the peer's frames moves a header block on. -/
theorem step_keepsBlock (s : Session) {event : Event} (here : event.arrives = false) :
    KeepsBlock s.conn (s.step event).conn := by
  cases event with
  | receive => cases here
  | startRun => exact s.startRun_keepsBlock
  | endInput failed =>
    simp only [step, endInput]
    split
    · split
      · exact s.endRun_keepsBlock _
      · exact s.endRun_keepsBlock _
    · exact .refl _
  | pollToSend => exact s.pollToSend_keepsBlock
  | written n => exact s.written_keepsBlock n
  | writeFailed err => exact s.writeFailed_keepsBlock err
  | pollTimedOut =>
    simp only [step, pollTimedOut]
    split
    · exact handleSendLoopTimeout_keepsBlock s.conn
    · exact .refl _
  | join =>
    simp only [step, join]
    split
    · exact ⟨rfl, rfl, rfl, rfl⟩
    · exact .refl _
  | createLocalStream streamId => exact createLocalStream_keepsBlock s.conn streamId
  | enqueuePending streamId kind payload first last =>
    exact onStream_keepsBlock (enqueuePending_keepsBlock s.conn streamId kind payload first last)
  | sendHeader streamId payload endStream =>
    exact onStream_keepsBlock (sendHeader_keepsBlock s.conn streamId payload endStream)
  | sendData streamId payload endStream =>
    exact onStream_keepsBlock (sendData_keepsBlock s.conn streamId payload endStream)
  | closeRst streamId code result => exact onStream_keepsBlock (closeRst_keepsBlock s.conn streamId code result)
  | gracefulShutdown => exact gracefulShutdown_keepsBlock s.conn
  | shutdown reason => exact .sendSide (abortConnection_sendSide s.conn reason)

theorem run_keepsBlock (s : Session) {events : List Event} (here : ∀ event ∈ events, event.arrives = false) :
    KeepsBlock s.conn (s.run events).conn := by
  induction events generalizing s with
  | nil => exact .refl _
  | cons event events ih =>
    have first := s.step_keepsBlock (here event List.mem_cons_self)
    exact first.trans (ih (s.step event) fun event member => here event (List.mem_cons_of_mem _ member))

end Session

/-- A CONTINUATION frame, with what happens on this side before it comes in. -/
structure BlockPart where
  between : List Event
  fhr : FrameHeader
  payload : List UInt8

/-- A whole CONTINUATION frame of the stream's block. -/
structure BlockPart.Continues (streamId : Nat) (part : BlockPart) : Prop where
  type : part.fhr.type = .continuation
  stream : part.fhr.streamId = streamId
  whole : part.payload.length = part.fhr.length
  here : ∀ event ∈ part.between, event.arrives = false

/-- The CONTINUATION frames up to the one with END_HEADERS. -/
inductive RestOfBlock (streamId : Nat) : List BlockPart → Prop
  | last {part : BlockPart} (continues : part.Continues streamId) (ends : part.fhr.has kFlagEndHeaders = true) :
      RestOfBlock streamId [part]
  | next {part : BlockPart} {rest : List BlockPart} (continues : part.Continues streamId)
      (open_block : part.fhr.has kFlagEndHeaders = false) (more : RestOfBlock streamId rest) :
      RestOfBlock streamId (part :: rest)

namespace Conn

variable {c d : Conn} {streamId : Nat} {s s' : Stream} {part : BlockPart} {fhr : FrameHeader} {payload : List UInt8}

/-- No header block is open, and nothing is left of one. -/
def BlockReset (c : Conn) : Prop :=
  c.expectingContinuation = false ∧ c.inboundHeaderStreamId = 0 ∧ c.inboundHeaderBlockBytes = 0 ∧
    c.inboundHeaderEndStream = false

/-- A block of the stream is open. -/
def InBlockOf (c : Conn) (streamId : Nat) : Prop :=
  c.expectingContinuation = true ∧ c.inboundHeaderStreamId = streamId

def padLength (fhr : FrameHeader) (payload : List UInt8) : Nat := if fhr.has kFlagPadded then byteAt payload 0 else 0

/-- The stream of a HEADERS frame is there and `on_header_recv` fails for it. -/
def RefusesHeaders (c : Conn) (fhr : FrameHeader) (payload : List UInt8) : Prop :=
  ∃ s, c.streams.find fhr.streamId = some s ∧ ¬s.AcceptsHeaders ∧
    overlap payload 0 (headersPrefix fhr) (fhr.length - padLength fhr payload) ≠ []

/-- The stream of a CONTINUATION frame is gone or closed, or `on_header_recv` fails for it. -/
def RefusesPart (c : Conn) (part : BlockPart) : Prop :=
  ∀ s, c.streams.find part.fhr.streamId = some s →
    s.state = .closed ∨ ¬s.AcceptsHeaders ∧ (part.payload ≠ [] ∨ part.fhr.has kFlagEndHeaders = true)

theorem KeepsBlock.inBlockOf (keeps : KeepsBlock c d) (block : c.InBlockOf streamId) : d.InBlockOf streamId :=
  ⟨keeps.expecting.trans block.1, keeps.stream.trans block.2⟩

theorem handleStreamError_closed (code : ErrorCode) (err : IoErr) (found : c.streams.find streamId = some s)
    (found' : (c.handleStreamError streamId code err).streams.find streamId = some s') :
    s'.state = .closed := by
  have kept : (c.sendRstStream streamId code).2.streams = c.streams := by
    simp only [sendRstStream, sendControlFrame, enqueueSendEntry]
    repeat' split
    all_goals rfl
  unfold handleStreamError at found'
  generalize (c.sendRstStream streamId code).2 = d at kept found'
  rw [← kept] at found
  simp only [found] at found'
  obtain ⟨there, closing⟩ := closeStream_destroy_find found err
  obtain ⟨s'', closing, -⟩ := closing (there.mp (by rw [found']; rfl))
  rw [closing.found] at found'
  cases found'
  exact closing.closed

section

variable (continues : part.Continues streamId)

include continues

/-- Outside a block of its stream a CONTINUATION frame is a connection error. -/
theorem consume_unexpected (outside : ¬c.InBlockOf streamId) :
    c.consumeIncomingFramePayload part.fhr 0 part.payload = (some .invalid, c) := by
  unfold consumeIncomingFramePayload
  rw [continues.type]
  cases expected : c.expectingContinuation with
  | false => simp
  | true =>
    have other : part.fhr.streamId ≠ c.inboundHeaderStreamId := by
      intro same
      exact outside ⟨expected, same.symm.trans continues.stream⟩
    simp [handleContinuationPayload, other]

theorem consume_inBlock (block : c.InBlockOf streamId) :
    c.consumeIncomingFramePayload part.fhr 0 part.payload = c.deliverContinuation part.fhr 0 part.payload := by
  unfold consumeIncomingFramePayload
  rw [continues.type]
  simp [handleContinuationPayload, block.1, block.2, continues.stream]

/-- A frame that its stream takes moves the block on, or ends it. -/
theorem consume_taken (block : c.InBlockOf streamId) (takes : ¬c.RefusesPart part) :
    ∃ d, c.consumeIncomingFramePayload part.fhr 0 part.payload = (none, d) ∧
      (part.fhr.has kFlagEndHeaders = true → d.BlockReset) ∧
      (part.fhr.has kFlagEndHeaders = false → d.InBlockOf streamId) := by
  rw [consume_inBlock continues block]
  obtain ⟨s, found, taken⟩ : ∃ s, c.streams.find part.fhr.streamId = some s ∧ ¬(s.state = .closed ∨
      ¬s.AcceptsHeaders ∧ (part.payload ≠ [] ∨ part.fhr.has kFlagEndHeaders = true)) := by
    simpa only [RefusesPart, not_forall, exists_prop] using takes
  have finished {d : Conn} (keeps : KeepsBlock c d) :
      (part.fhr.has kFlagEndHeaders = true →
        (d.endFragment part.fhr.length (part.fhr.has kFlagEndHeaders)).BlockReset) ∧
      (part.fhr.has kFlagEndHeaders = false →
        (d.endFragment part.fhr.length (part.fhr.has kFlagEndHeaders)).InBlockOf streamId) := by
    constructor
    · intro ends
      rw [ends]
      exact ⟨rfl, rfl, rfl, rfl⟩
    · intro goes_on
      rw [goes_on]
      exact ⟨rfl, keeps.stream.trans block.2⟩
  unfold deliverContinuation
  simp only [found, continues.whole, Nat.zero_add, le_refl, decide_true, Bool.and_true, if_true]
  by_cases handed : part.payload ≠ [] ∨ part.fhr.has kFlagEndHeaders = true
  · rw [if_pos handed, recvFragment_accepted found (of_not_not fun refuses => taken (.inr ⟨refuses, handed⟩))]
    refine ⟨_, rfl, finished ?_⟩
    exact (KeepsBlock.closeSide (maybeDestroyStream_closeSide _ _)).behind ⟨rfl, rfl, rfl, rfl⟩
  · rw [if_neg handed]
    exact ⟨_, rfl, finished (.refl c)⟩

/-- A frame on a stream that is gone or refuses it: a connection error, or a stream error that leaves the block open. -/
theorem consume_refusedPart (block : c.InBlockOf streamId)
    (handed : part.payload ≠ [] ∨ part.fhr.has kFlagEndHeaders = true)
    (refuses : ∀ s, c.streams.find streamId = some s → ¬s.AcceptsHeaders) :
    (c.consumeIncomingFramePayload part.fhr 0 part.payload).1 ≠ none ∨
      (c.consumeIncomingFramePayload part.fhr 0 part.payload).2.expectingContinuation = true ∧
        ∀ s', (c.consumeIncomingFramePayload part.fhr 0 part.payload).2.streams.find streamId = some s' →
          s'.state = .closed := by
  rw [consume_inBlock continues block]
  cases found : c.streams.find streamId with
  | none =>
    rw [deliverContinuation_missing (by rw [continues.stream]; exact found)]
    exact .inl nofun
  | some s =>
    have there : c.streams.find part.fhr.streamId = some s := by rw [continues.stream]; exact found
    have outcome : c.deliverContinuation part.fhr 0 part.payload =
        (none, c.handleStreamError streamId .protocolError .invalid) := by
      unfold deliverContinuation
      simp only [there, continues.whole, Nat.zero_add, le_refl, decide_true, Bool.and_true, if_true]
      rw [if_pos handed, recvFragment_refused there (refuses s found), continues.stream]
    rw [outcome]
    exact .inr ⟨(handleStreamError_sendSide c streamId _ _).expectingContinuation.trans block.1,
      fun s' found' => handleStreamError_closed _ _ found found'⟩

/-- Nothing ends the block of a stream that is closed or gone. -/
theorem consume_past (ends : part.fhr.has kFlagEndHeaders = true) (past : c.Past (· = .closed) streamId) :
    ¬((c.consumeIncomingFramePayload part.fhr 0 part.payload).1 = none ∧
      (c.consumeIncomingFramePayload part.fhr 0 part.payload).2.BlockReset) := by
  rintro ⟨fine, reset⟩
  by_cases block : c.InBlockOf streamId
  · have refuses : ∀ s, c.streams.find streamId = some s → ¬s.AcceptsHeaders := by
      intro s found
      simp [Stream.AcceptsHeaders, past.2 s found]
    rcases consume_refusedPart continues block (.inr ends) refuses with failed | ⟨expects, -⟩
    · exact failed fine
    · rw [reset.1] at expects
      cases expects
  · rw [consume_unexpected continues block] at fine
    cases fine

end

/-- What the checks at the start of a HEADERS frame leave, when it passes them. -/
theorem beginHeaders_passed (begun : c.beginHeaders fhr payload = (none, d)) :
    d.incomingPadLength = padLength fhr payload ∧ KeepsBlock c d ∧ c.expectingContinuation = false ∧
      (d.streams.find fhr.streamId = c.streams.find fhr.streamId ∨
        c.streams.find fhr.streamId = none ∧ ∃ s, d.streams.find fhr.streamId = some s ∧ s.AcceptsHeaders) := by
  have pad : (if fhr.has kFlagPadded then { c with incomingPadLength := byteAt payload 0 }
      else { c with incomingPadLength := 0 } : Conn) = { c with incomingPadLength := padLength fhr payload } := by
    unfold padLength
    split <;> rfl
  unfold beginHeaders at begun
  dsimp only at begun
  rw [pad] at begun
  split at begun
  · cases begun
  split at begun
  · cases begun
  split at begun
  · cases begun
  rename_i unexpected
  have between : c.expectingContinuation = false := by simpa using unexpected
  split at begun
  · split at begun
    · cases begun
    · rename_i made
      cases begun
      obtain ⟨-, absent, streams, inserted, rfl⟩ := createPeerStream_some made
      refine ⟨rfl, ⟨rfl, rfl, rfl, rfl⟩, between,
        .inr ⟨absent, .init fhr.streamId c.peerInitialStreamSendWindow, ?_, .inl rfl⟩⟩
      exact (Table.find_insert inserted _).trans (if_pos rfl)
  · cases begun
    exact ⟨rfl, ⟨rfl, rfl, rfl, rfl⟩, between, .inl rfl⟩

/-- A HEADERS frame without END_HEADERS opens a block, unless its stream refuses it. -/
theorem consume_openBlock (type : fhr.type = .headers) (whole : payload.length = fhr.length)
    (goes_on : fhr.has kFlagEndHeaders = false) (fine : (c.consumeIncomingFramePayload fhr 0 payload).1 = none) :
    (c.RefusesHeaders fhr payload →
      (c.consumeIncomingFramePayload fhr 0 payload).2.expectingContinuation = false) ∧
    (¬c.RefusesHeaders fhr payload → (c.consumeIncomingFramePayload fhr 0 payload).2.InBlockOf fhr.streamId) := by
  have passed : ∃ d, c.beginHeaders fhr payload = (none, d) ∧
      c.consumeIncomingFramePayload fhr 0 payload = d.deliverHeaders fhr 0 payload := by
    unfold consumeIncomingFramePayload at fine ⊢
    rw [type] at fine ⊢
    split at fine
    · cases fine
    rename_i between
    rw [if_neg between, if_neg (by simp)]
    simp only [reduceCtorEq, and_false, if_false, handleHeadersPayload, if_true] at fine ⊢
    generalize c.beginHeaders fhr payload = outcome at fine
    obtain ⟨err, d⟩ := outcome
    cases err with
    | none => exact ⟨d, rfl, rfl⟩
    | some err => cases fine
  obtain ⟨d, begun, outcome⟩ := passed
  obtain ⟨pad, keeps, between, stream⟩ := beginHeaders_passed begun
  rw [outcome] at fine ⊢
  obtain ⟨s, found⟩ := Option.isSome_iff_exists.mp ((deliverHeaders_error fhr 0 payload d).mp fine)
  have ends : d.endsFragment fhr 0 payload = true := by
    simp [endsFragment, paddingBegin, whole]
  have finish (e : Conn) : d.finishHeaders fhr 0 payload e =
      e.endFragment (d.paddingBegin fhr - headersPrefix fhr) false := by
    rw [finishHeaders, if_pos ends, goes_on]
  have handed : d.deliversHeaders fhr 0 payload ↔
      overlap payload 0 (headersPrefix fhr) (fhr.length - padLength fhr payload) ≠ [] := by
    simp [deliversHeaders, endsBlock, goes_on, paddingBegin, pad]
  constructor
  · rintro ⟨s', found', refuses, nonempty⟩
    have same : s' = s := by
      rcases stream with kept | ⟨absent, -⟩
      · rw [kept, found'] at found
        exact Option.some.inj found
      · rw [absent] at found'
        cases found'
    subst same
    rw [deliverHeaders_refused found refuses (handed.mpr nonempty)]
    exact (handleStreamError_sendSide _ _ _ _).expectingContinuation.trans (keeps.expecting.trans between)
  · intro takes
    by_cases nonempty : d.deliversHeaders fhr 0 payload
    · have accepts : s.AcceptsHeaders := by
        rcases stream with kept | ⟨-, made, there, accepts⟩
        · by_contra refuses
          exact takes ⟨s, kept.symm.trans found, refuses, handed.mp nonempty⟩
        · rw [found] at there
          cases there
          exact accepts
      have there : (d.atOffset fhr 0).streams.find fhr.streamId = some s := found
      rw [deliverHeaders_delivers found nonempty, recvFragment_accepted there accepts, finish]
      exact ⟨rfl, (KeepsBlock.closeSide (maybeDestroyStream_closeSide _ _)).stream⟩
    · rw [deliverHeaders_skips found nonempty, finish]
      exact ⟨rfl, rfl⟩

end Conn

namespace Session

open Conn

variable {s t : Session} {streamId : Nat} {parts : List BlockPart}

/-- A whole frame is handed to the connection. -/
def consume (s : Session) (fhr : FrameHeader) (payload : List UInt8) : Option IoErr × Session :=
  ((s.conn.consumeIncomingFramePayload fhr 0 payload).1,
    s.withConn (s.conn.consumeIncomingFramePayload fhr 0 payload).2)

/-- The rest of a header block comes in. -/
def consumeBlock : Session → List BlockPart → Option IoErr × Session
  | s, [] => (none, s)
  | s, part :: rest =>
    match (s.run part.between).consume part.fhr part.payload with
    | (none, s) => s.consumeBlock rest
    | (some err, s) => (some err, s)

/-- The stream is gone, closed, or refuses a part of the block, at one of the frames. -/
def BlockErrs : Session → List BlockPart → Prop
  | _, [] => False
  | s, part :: rest =>
    (s.run part.between).conn.RefusesPart part ∨ ((s.run part.between).consume part.fhr part.payload).2.BlockErrs rest

/-- The block was consumed without a connection error, and the next frame may be of any type. -/
def BlockDone (outcome : Option IoErr × Session) : Prop := outcome.1 = none ∧ outcome.2.conn.BlockReset

theorem consume_turns (sound : s.conn.Sound) (fhr : FrameHeader) (payload : List UInt8) :
    Happens (fun _ _ _ _ => True) s.conn (s.consume fhr payload).2.conn :=
  .proceeds (.ticks (turns_ticks (consumeIncomingFramePayload_turns sound fhr 0 payload)))

/-- What is kept from frame to frame. -/
structure Kempt (s : Session) : Prop where
  ready : s.conn.Ready
  ledger : s.conn.Ledger 0

section

variable (kempt : s.Kempt)

include kempt

theorem Kempt.run (events : List Event) : (s.run events).Kempt := by
  have both := run_induction (P := Ledger 0) (fun _ happens ledger => ledger.happens happens) kempt.ready kempt.ledger
    (meets_any events)
  exact ⟨both.1, both.2⟩

theorem Kempt.consume (fhr : FrameHeader) (payload : List UInt8) : (s.consume fhr payload).2.Kempt :=
  ⟨kempt.ready.happens (consume_turns kempt.ready.sound fhr payload),
    kempt.ledger.happens (consume_turns kempt.ready.sound fhr payload)⟩

theorem past_run (past : s.conn.Past (· = .closed) streamId) (events : List Event) :
    (s.run events).conn.Past (· = .closed) streamId :=
  (run_induction (P := fun c => c.Past (· = .closed) streamId)
    (fun _ happens past => (Settled.happens StreamState.final_closed happens).past past) kempt.ready past
    (meets_any events)).2

theorem past_consume (past : s.conn.Past (· = .closed) streamId) (fhr : FrameHeader)
    (payload : List UInt8) : (s.consume fhr payload).2.conn.Past (· = .closed) streamId :=
  (Settled.happens StreamState.final_closed (consume_turns kempt.ready.sound fhr payload)).past past

/-- The block of a stream that is closed or gone does not come to an end. -/
theorem past_undone (past : s.conn.Past (· = .closed) streamId)
    (rest : RestOfBlock streamId parts) : ¬BlockDone (s.consumeBlock parts) := by
  induction rest generalizing s with
  | @last part continues ends =>
    have undone := consume_past continues ends (past_run kempt past part.between)
    rw [consumeBlock]
    split
    · rename_i t outcome
      rintro ⟨-, reset⟩
      have fine := congrArg Prod.fst outcome
      have after := congrArg (fun outcome => outcome.2.conn) outcome
      rw [consumeBlock, ← after] at reset
      exact undone ⟨fine, reset⟩
    · rintro ⟨fine, -⟩
      cases fine
  | @next part rest continues goes_on more ih =>
    have kempt' := kempt.run part.between
    have past' := past_consume kempt' (past_run kempt past part.between) part.fhr part.payload
    rw [consumeBlock]
    split
    · rename_i t outcome
      have after := congrArg Prod.snd outcome
      have kempt'' := kempt'.consume part.fhr part.payload
      rw [after] at past' kempt''
      exact ih kempt'' past'
    · rintro ⟨fine, -⟩
      cases fine

end

variable {part : BlockPart} {rest : List BlockPart}

theorem consumeBlock_failed (failed : ((s.run part.between).consume part.fhr part.payload).1 ≠ none) :
    ¬BlockDone (s.consumeBlock (part :: rest)) := by
  rw [consumeBlock]
  split
  · rename_i outcome
    exact absurd (congrArg Prod.fst outcome) failed
  · rintro ⟨fine, -⟩
    cases fine

theorem consumeBlock_next (fine : ((s.run part.between).consume part.fhr part.payload).1 = none) :
    s.consumeBlock (part :: rest) = ((s.run part.between).consume part.fhr part.payload).2.consumeBlock rest := by
  rw [consumeBlock]
  split
  · rename_i outcome
    rw [outcome]
  · rename_i outcome
    rw [outcome] at fine
    cases fine

/-- A frame that its stream does not take fails, or leaves the block open and the stream closed or gone. -/
theorem consume_untaken (kempt : s.Kempt) (block : s.conn.InBlockOf streamId)
    (continues : part.Continues streamId) (refuses : s.conn.RefusesPart part) :
    (s.consume part.fhr part.payload).1 ≠ none ∨
      (s.consume part.fhr part.payload).2.conn.expectingContinuation = true ∧
        (s.consume part.fhr part.payload).2.conn.Past (· = .closed) streamId := by
  rw [RefusesPart, continues.stream] at refuses
  cases found : s.conn.streams.find streamId with
  | none =>
    left
    change (s.conn.consumeIncomingFramePayload part.fhr 0 part.payload).1 ≠ none
    rw [consume_inBlock continues block, deliverContinuation_missing (by rw [continues.stream]; exact found)]
    simp
  | some stream =>
    have opened := kempt.ledger.rising streamId (Table.mem_keys.mpr (by rw [found]; rfl))
    by_cases handed : part.payload ≠ [] ∨ part.fhr.has kFlagEndHeaders = true
    · have refusing : ∀ stream, s.conn.streams.find streamId = some stream → ¬stream.AcceptsHeaders := by
        intro stream found
        rcases refuses stream found with closed | ⟨refusing, -⟩
        · simp [Stream.AcceptsHeaders, closed]
        · exact refusing
      refine (consume_refusedPart continues block handed refusing).imp_right fun after => ⟨after.1, ?_, after.2⟩
      have settled : Settled (· = .closed) s.conn _ :=
        .happens StreamState.final_closed (consume_turns kempt.ready.sound part.fhr part.payload)
      exact opened.trans (settled.lastStreamId_le streamId)
    · have closed : s.conn.Past (· = .closed) streamId := by
        refine ⟨opened, fun stream found => ?_⟩
        rcases refuses stream found with closed | ⟨-, given⟩
        · exact closed
        · exact absurd given handed
      refine .inr ⟨?_, past_consume kempt closed part.fhr part.payload⟩
      change (s.conn.consumeIncomingFramePayload part.fhr 0 part.payload).2.expectingContinuation = true
      have goes_on : part.fhr.has kFlagEndHeaders = false := by simpa using fun ends => handed (.inr ends)
      rw [consume_inBlock continues block]
      unfold deliverContinuation
      simp only [continues.stream, found, continues.whole, Nat.zero_add, le_refl, decide_true, Bool.and_true, if_true]
      rw [if_neg handed, goes_on]
      rfl

/-- Inside a block: it comes to its end exactly when its stream takes all of it. -/
theorem consumeBlock_done (kempt : s.Kempt) (block : s.conn.InBlockOf streamId)
    (rest : RestOfBlock streamId parts) : BlockDone (s.consumeBlock parts) ↔ ¬s.BlockErrs parts := by
  induction rest generalizing s with
  | @last part continues ends =>
    have block' := (s.run_keepsBlock continues.here).inBlockOf block
    rw [BlockErrs, BlockErrs, or_false]
    constructor
    · intro done refuses
      rcases consume_untaken (kempt.run part.between) block' continues refuses with failed | ⟨expects, -⟩
      · exact consumeBlock_failed failed done
      by_cases fine : ((s.run part.between).consume part.fhr part.payload).1 = none
      · rw [consumeBlock_next fine, consumeBlock] at done
        rw [done.2.1] at expects
        cases expects
      · exact consumeBlock_failed fine done
    · intro takes
      obtain ⟨d, outcome, reset, -⟩ := consume_taken continues block' takes
      have fine := congrArg Prod.fst outcome
      have after : ((s.run part.between).consume part.fhr part.payload).2.conn = d := congrArg Prod.snd outcome
      rw [consumeBlock_next fine, consumeBlock]
      exact ⟨rfl, after ▸ reset ends⟩
  | @next part rest continues goes_on more ih =>
    have block' := (s.run_keepsBlock continues.here).inBlockOf block
    have kempt' := kempt.run part.between
    rw [BlockErrs]
    by_cases refuses : (s.run part.between).conn.RefusesPart part
    · refine iff_of_false (fun done => ?_) (not_not_intro (.inl refuses))
      rcases consume_untaken kempt' block' continues refuses with failed | ⟨-, past⟩
      · exact consumeBlock_failed failed done
      by_cases fine : ((s.run part.between).consume part.fhr part.payload).1 = none
      · rw [consumeBlock_next fine] at done
        exact past_undone (kempt'.consume part.fhr part.payload) past more done
      · exact consumeBlock_failed fine done
    · obtain ⟨d, outcome, -, opens⟩ := consume_taken continues block' refuses
      have fine : ((s.run part.between).consume part.fhr part.payload).1 = none := congrArg Prod.fst outcome
      have after : ((s.run part.between).consume part.fhr part.payload).2.conn = d := congrArg Prod.snd outcome
      rw [consumeBlock_next fine, or_iff_right refuses]
      exact ih (kempt'.consume part.fhr part.payload) (after ▸ opens goes_on)

/-- After every run, a header block that its HEADERS frame did not fail with comes to its end, with nothing of it left
behind, exactly when its stream takes all of it: no stream error on a block stays one. -/
theorem headerBlock_done (options : Options) (events : List Event) (fhr : FrameHeader) (payload : List UInt8)
    (parts : List BlockPart) (type : fhr.type = .headers) (whole : payload.length = fhr.length)
    (goes_on : fhr.has kFlagEndHeaders = false)
    (fine : (((Session.init options).run events).consume fhr payload).1 = none)
    (rest : RestOfBlock fhr.streamId parts) :
    BlockDone ((((Session.init options).run events).consume fhr payload).2.consumeBlock parts) ↔
      ¬(((Session.init options).run events).conn.RefusesHeaders fhr payload ∨
        (((Session.init options).run events).consume fhr payload).2.BlockErrs parts) := by
  have start : (Session.init options).Kempt := ⟨.init options, .init options⟩
  have kempt := (start.run events).consume fhr payload
  obtain ⟨refused, opened⟩ := consume_openBlock type whole goes_on fine
  by_cases refuses : ((Session.init options).run events).conn.RefusesHeaders fhr payload
  · refine iff_of_false ?_ (not_not_intro (.inl refuses))
    have closed : (((Session.init options).run events).consume fhr payload).2.conn.expectingContinuation = false :=
      refused refuses
    generalize (((Session.init options).run events).consume fhr payload).2 = t at closed
    have unexpected {part : BlockPart} (continues : part.Continues fhr.streamId) :
        ((t.run part.between).consume part.fhr part.payload).1 ≠ none := by
      have outside : ¬(t.run part.between).conn.InBlockOf fhr.streamId := by
        rintro ⟨expects, -⟩
        rw [(t.run_keepsBlock continues.here).expecting, closed] at expects
        cases expects
      have failed := congrArg Prod.fst (consume_unexpected continues outside)
      exact fun fine => by cases fine.symm.trans failed
    cases rest with
    | last continues ends => exact consumeBlock_failed (unexpected continues)
    | next continues goes_on more => exact consumeBlock_failed (unexpected continues)
  · rw [or_iff_right refuses]
    exact consumeBlock_done kempt (opened refuses) rest

/-- A request that this side resets between its two header frames. -/
def resetBetween : List BlockPart := [⟨[.closeRst 1 .noError .canceled], ⟨1, .continuation, 4, 1⟩, [0x84]⟩]

/-- The reset of one stream takes the connection down; trailers on a request that has ended do so as well. -/
theorem resetBetween_fails :
    (((Session.init {}).run greeted).consume ⟨1, .headers, 0, 1⟩ [0x82]).1 = none ∧
    ((((Session.init {}).run greeted).consume ⟨1, .headers, 0, 1⟩ [0x82]).2.consumeBlock resetBetween).1 =
      some .invalid ∧
    (((Session.init {}).run endedRequest).consume ⟨1, .headers, 0, 1⟩ [0x82]).1 = none ∧
    ((((Session.init {}).run endedRequest).consume ⟨1, .headers, 0, 1⟩ [0x82]).2.consumeBlock
      [⟨[], ⟨1, .continuation, 4, 1⟩, [0x84]⟩]).1 = some .invalid := by
  decide +kernel

theorem twoFrames_done :
    BlockDone ((((Session.init {}).run greeted).consume ⟨1, .headers, 0, 1⟩ [0x82]).2.consumeBlock
      [⟨[], ⟨1, .continuation, 4, 1⟩, [0x84]⟩]) := by
  refine (headerBlock_done {} greeted ⟨1, .headers, 0, 1⟩ [0x82] [⟨[], ⟨1, .continuation, 4, 1⟩, [0x84]⟩] rfl rfl
    (by decide) (by decide +kernel) (.last ⟨rfl, rfl, rfl, nofun⟩ (by decide))).mpr ?_
  have absent : ((Session.init {}).run greeted).conn.streams.find 1 = none := by decide +kernel
  have there : ((((Session.init {}).run greeted).consume ⟨1, .headers, 0, 1⟩ [0x82]).2.run []).conn.streams.find 1 =
      some { Stream.init 1 65535 with state := .open } := by decide +kernel
  rintro (⟨s, found, -⟩ | refuses | nothing)
  · cases absent.symm.trans found
  · rcases refuses _ there with closed | ⟨refusing, -⟩
    · cases closed
    · exact refusing (.inr (.inl rfl))
  · exact nothing

end Session

end FiberGateway.Http2
