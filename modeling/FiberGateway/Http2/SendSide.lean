import FiberGateway.Http2.Inbound

namespace FiberGateway.Http2

namespace Conn

/-- `c` with the fields that scheduling, closing and destroying streams may change taken from `after`. -/
def withSendSide (c after : Conn) : Conn :=
  { c with
    streams := after.streams
    peerActiveStreamCount := after.peerActiveStreamCount
    connSendWindow := after.connSendWindow
    sendQueue := after.sendQueue
    sendQueueClosed := after.sendQueueClosed
    connWaitStreams := after.connWaitStreams
    closeState := after.closeState
    transportValid := after.transportValid
    gracefulSendQueueCloseRequested := after.gracefulSendQueueCloseRequested
    stopKeepalive := after.stopKeepalive
    stopSendingRequested := after.stopSendingRequested
    stopSendingReason := after.stopSendingReason
    lifetime := after.lifetime
    enqueued := after.enqueued
    changes := after.changes
    staleAccess := after.staleAccess
    queuedReturn := after.queuedReturn
    unfinishedClose := after.unfinishedClose }

/-- Nothing else differs between the two connections. -/
def SendSide (c after : Conn) : Prop := c.withSendSide after = after

namespace SendSide

variable {c c' c'' : Conn}

theorem refl (c : Conn) : SendSide c c := rfl

theorem trans (first : SendSide c c') (second : SendSide c' c'') : SendSide c c'' := by
  have composed : c.withSendSide c'' = (c.withSendSide c').withSendSide c'' := rfl
  unfold SendSide at *
  rw [composed, first, second]

theorem expectingContinuation (side : SendSide c c') : c'.expectingContinuation = c.expectingContinuation := by
  rw [← side]; rfl

theorem incomingPadLength (side : SendSide c c') : c'.incomingPadLength = c.incomingPadLength := by
  rw [← side]; rfl

theorem received (side : SendSide c c') : c'.received = c.received := by
  rw [← side]; rfl

end SendSide

/-- `c` with the fields that ending entries, closing and destroying streams may change taken from `after`. -/
def withCloseSide (c after : Conn) : Conn :=
  { c with
    streams := after.streams
    peerActiveStreamCount := after.peerActiveStreamCount
    sendQueueClosed := after.sendQueueClosed
    connWaitStreams := after.connWaitStreams
    gracefulSendQueueCloseRequested := after.gracefulSendQueueCloseRequested
    lifetime := after.lifetime
    changes := after.changes
    staleAccess := after.staleAccess
    queuedReturn := after.queuedReturn
    unfinishedClose := after.unfinishedClose }

def CloseSide (c after : Conn) : Prop := c.withCloseSide after = after

namespace CloseSide

variable {c c' c'' : Conn}

theorem refl (c : Conn) : CloseSide c c := rfl

theorem trans (first : CloseSide c c') (second : CloseSide c' c'') : CloseSide c c'' := by
  have composed : c.withCloseSide c'' = (c.withCloseSide c').withCloseSide c'' := rfl
  unfold CloseSide at *
  rw [composed, first, second]

theorem sendSide (side : CloseSide c c') : SendSide c c' := by
  rw [← side]
  rfl

theorem enqueued (side : CloseSide c c') : c'.enqueued = c.enqueued := by
  rw [← side]; rfl

end CloseSide

theorem linkWaiting_closeSide (c : Conn) (streamId : Nat) : CloseSide c (c.linkWaiting streamId) := by
  unfold linkWaiting; split <;> rfl

theorem maybeFinishGracefulShutdown_closeSide (c : Conn) : CloseSide c c.maybeFinishGracefulShutdown := by
  unfold maybeFinishGracefulShutdown
  repeat' split
  all_goals rfl

theorem eraseStream_closeSide (c : Conn) (streamId : Nat) : CloseSide c (c.eraseStream streamId) := by
  refine .trans ?_ (maybeFinishGracefulShutdown_closeSide _)
  split <;> split <;> rfl

theorem maybeDestroyStream_closeSide (c : Conn) (streamId : Nat) : CloseSide c (c.maybeDestroyStream streamId) := by
  unfold maybeDestroyStream
  split
  · rfl
  split
  · rfl
  split
  · rfl
  · exact eraseStream_closeSide c streamId

theorem finishPending_closeSide (c : Conn) (streamId entryId : Nat) (result : Option IoErr) :
    CloseSide c (c.finishPending streamId entryId result) := by
  unfold finishPending
  split
  · rfl
  split
  · rfl
  · exact .trans (by rfl) (maybeDestroyStream_closeSide _ _)

theorem maybeFinishPending_closeSide (c : Conn) (streamId entryId : Nat) :
    CloseSide c (c.maybeFinishPending streamId entryId) := by
  unfold maybeFinishPending
  split
  · rfl
  split
  · rfl
  split
  · exact finishPending_closeSide _ _ _ _
  split
  · exact finishPending_closeSide _ _ _ _
  · rfl

theorem drainEntry_closeSide (result : IoErr) (streamId : Nat) (c : Conn) (entryId : Nat) :
    CloseSide c (drainEntry result streamId c entryId) := by
  unfold drainEntry
  split
  · rfl
  split
  · exact finishPending_closeSide _ _ _ _
  · split <;> rfl

theorem foldl_closeSide {α : Type} {step : Conn → α → Conn} (each : ∀ c x, CloseSide c (step c x)) (xs : List α)
    (c : Conn) : CloseSide c (xs.foldl step c) := by
  induction xs generalizing c with
  | nil => exact .refl c
  | cons x xs ih => exact (each c x).trans (ih (step c x))

section

variable (c : Conn)

include c

theorem drainPending_closeSide (streamId : Nat) (result : IoErr) :
    CloseSide c (c.drainPending streamId result) := by
  unfold drainPending
  split
  · rfl
  · exact foldl_closeSide (drainEntry_closeSide result streamId) _ c

theorem closeStream_closeSide (streamId : Nat) (result : IoErr) : CloseSide c (c.closeStream streamId result) := by
  unfold closeStream
  split
  · rfl
  · exact .trans (by rfl) (drainPending_closeSide _ _ _)

theorem syncConnWindowWaitMembership_closeSide (streamId : Nat) :
    CloseSide c (c.syncConnWindowWaitMembership streamId) := by
  unfold syncConnWindowWaitMembership
  split
  · rfl
  split
  · exact linkWaiting_closeSide _ _
  · rfl

theorem abortConnection_sendSide (reason : IoErr) : SendSide c (c.abortConnection reason) := by
  unfold abortConnection; split <;> rfl

theorem enqueueSendEntry_sendSide (entry : SendEntry) : SendSide c (c.enqueueSendEntry entry).2 := by
  unfold enqueueSendEntry
  split
  · rfl
  split
  · rfl
  · split <;> rfl

theorem sendControlFrame_sendSide (type : FrameType) (flags : UInt8) (streamId : Nat)
    (payload : List UInt8) : SendSide c (c.sendControlFrame type flags streamId payload).2 :=
  enqueueSendEntry_sendSide _ _

theorem handleStreamError_sendSide (streamId : Nat) (errorCode : ErrorCode) (result : IoErr) :
    SendSide c (c.handleStreamError streamId errorCode result) := by
  unfold handleStreamError
  refine .trans (sendControlFrame_sendSide c .rstStream 0 streamId (appendU32 errorCode.toNat)) ?_
  simp only [sendRstStream]
  split
  · rfl
  · exact ((closeStream_closeSide _ _ _).trans (maybeDestroyStream_closeSide _ _)).sendSide

theorem chargeFragment_sendSide (streamId : Nat) (entry : PendingEntry) (bytes : Nat) :
    SendSide c (c.chargeFragment streamId entry bytes) := by
  unfold chargeFragment
  cases entry.kind <;> rfl

theorem sendFragment_sendSide (streamId : Nat) (entry : PendingEntry) (bytes : Nat) :
    SendSide c (c.sendFragment streamId entry bytes).2 := by
  unfold sendFragment
  generalize split_eq : c.modifyStream streamId (·.modifyEntry entry.id fun entry =>
    { entry with payload := entry.payload.drop bytes }) = d
  have side : SendSide c d := by rw [← split_eq]; rfl
  have sent := enqueueSendEntry_sendSide d (fragment streamId entry bytes)
  simp only
  generalize d.enqueueSendEntry (fragment streamId entry bytes) = result at sent
  obtain ⟨err, d'⟩ := result
  refine side.trans (sent.trans ?_)
  cases err with
  | some err => exact abortConnection_sendSide d' err
  | none =>
    have charged := chargeFragment_sendSide d' streamId entry bytes
    simp only
    split
    · exact charged.trans (by rfl)
    · exact charged

end

theorem scheduleLoop_sendSide (streamId fuel : Nat) (scheduledAny : Bool) (c : Conn) :
    SendSide c (scheduleLoop streamId fuel scheduledAny c).2 := by
  induction fuel generalizing scheduledAny c with
  | zero => exact (syncConnWindowWaitMembership_closeSide _ _).sendSide
  | succ fuel ih =>
    unfold scheduleLoop
    have synced := fun c => (syncConnWindowWaitMembership_closeSide c streamId).sendSide
    cases c.streams.find streamId with
    | none => rfl
    | some s =>
      simp only
      cases s.pendingHead with
      | none => exact synced c
      | some entry =>
        simp only
        split
        · exact synced c
        split
        · exact synced c
        split
        · exact .trans (by rfl) ((maybeFinishPending_closeSide _ _ _).sendSide.trans (synced _))
        split
        · exact synced c
        have sent := sendFragment_sendSide c streamId entry (c.fragmentBytes s entry)
        generalize c.sendFragment streamId entry (c.fragmentBytes s entry) = result at sent
        obtain ⟨err, d⟩ := result
        refine sent.trans ?_
        cases err with
        | some err => exact synced d
        | none =>
          simp only
          split
          · exact ih true d
          · exact synced d

theorem schedulePending_sendSide (c : Conn) (streamId : Nat) : SendSide c (c.schedulePending streamId).2 := by
  unfold schedulePending
  split
  · rfl
  · exact scheduleLoop_sendSide _ _ _ _

theorem trySchedulePending_sendSide (c : Conn) (streamId : Nat) : SendSide c (c.trySchedulePending streamId) := by
  unfold trySchedulePending
  split
  · rfl
  split
  · rfl
  · exact schedulePending_sendSide _ _

theorem closeStreams_closeSide (c : Conn) (streamIds : List Nat) (result : IoErr) :
    CloseSide c (c.closeStreams streamIds result) :=
  foldl_closeSide (fun c streamId => (closeStream_closeSide c streamId result).trans
    (maybeDestroyStream_closeSide _ streamId)) streamIds c

/-- The state of inbound header blocks and what the streams were handed are left alone. -/
structure KeepsInbound (c d : Conn) : Prop where
  expecting : d.expectingContinuation = c.expectingContinuation
  received : d.received = c.received

theorem KeepsInbound.trans {c d e : Conn} (first : KeepsInbound c d) (second : KeepsInbound d e) : KeepsInbound c e :=
  ⟨second.expecting.trans first.expecting, second.received.trans first.received⟩

end Conn

end FiberGateway.Http2
