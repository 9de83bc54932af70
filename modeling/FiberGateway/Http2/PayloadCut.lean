import FiberGateway.Http2.HeaderCut

namespace FiberGateway.Http2

namespace Conn

variable {c : Conn} {fhr : FrameHeader}

variable {rest front : List UInt8} {d e : Conn}

variable {act : Conn → Option IoErr × Conn}

/-- What the checks at the start of a frame leave alone. -/
structure KeepsSending (c d : Conn) : Prop extends KeepsInbound c d where
  canSend : c.CanSend → d.CanSend

theorem KeepsSending.trans (first : KeepsSending c d) (second : KeepsSending d e) : KeepsSending c e :=
  ⟨first.toKeepsInbound.trans second.toKeepsInbound, fun canSend => second.canSend (first.canSend canSend)⟩

/-- The next frame continues a header block exactly when one is open. -/
def Awaits (c : Conn) (fhr : FrameHeader) : Prop := c.expectingContinuation = decide (fhr.type = .continuation)

instance (c : Conn) (fhr : FrameHeader) : Decidable (c.Awaits fhr) := inferInstanceAs (Decidable (_ = _))

/-- The checks at the start of a frame, and the state its payload is then delivered on. -/
def begun (c : Conn) (fhr : FrameHeader) (front : List UInt8) : Option IoErr × Conn :=
  if ¬c.Awaits fhr then (some .invalid, c)
  else
    match fhr.type with
    | .data => c.beginData fhr front
    | .headers => c.beginHeaders fhr front
    | .continuation => if fhr.streamId ≠ c.inboundHeaderStreamId then (some .invalid, c) else (none, c)
    | _ => (none, c)

/-- A chunk of a frame that has passed the checks. -/
def deliver (fhr : FrameHeader) (offset : Nat) (chunk : List UInt8) (c : Conn) : Option IoErr × Conn :=
  match fhr.type with
  | .data => c.deliverData fhr offset chunk
  | .headers => c.deliverHeaders fhr offset chunk
  | .continuation => c.deliverContinuation fhr offset chunk
  | .settings => c.handleSettingsPayload fhr offset chunk
  | .ping => c.handlePingPayload fhr offset chunk
  | .windowUpdate => c.handleWindowUpdatePayload fhr offset chunk
  | .rstStream => c.handleRstStreamPayload fhr offset chunk
  | .goaway => c.handleGoawayPayload fhr offset chunk
  | .priority => (none, c)
  | .pushPromise => (none, c)
  | .unknown _ => (none, c)

theorem consume_refused (wrong : ¬c.Awaits fhr) (offset : Nat) (chunk : List UInt8) :
    c.consumeIncomingFramePayload fhr offset chunk = (some .invalid, c) := by
  unfold Awaits at wrong
  unfold consumeIncomingFramePayload
  by_cases continues : fhr.type = .continuation
  · simp only [continues, decide_true, Bool.not_eq_true] at wrong
    simp [wrong, continues]
  · simp only [continues, decide_false, Bool.not_eq_false] at wrong
    simp [wrong, continues]

theorem consume_awaited (awaits : c.Awaits fhr) (offset : Nat) (chunk : List UInt8) :
    c.consumeIncomingFramePayload fhr offset chunk =
      match fhr.type with
      | .data => c.handleDataPayload fhr offset chunk
      | .headers => c.handleHeadersPayload fhr offset chunk
      | .continuation => c.handleContinuationPayload fhr offset chunk
      | _ => c.deliver fhr offset chunk := by
  unfold Awaits at awaits
  unfold consumeIncomingFramePayload deliver
  cases type : fhr.type <;> simp_all

theorem consume_first (chunk : List UInt8) :
    c.consumeIncomingFramePayload fhr 0 chunk = andThen (c.begun fhr chunk) (deliver fhr 0 chunk) := by
  by_cases awaits : c.Awaits fhr
  · rw [consume_awaited awaits]
    unfold begun
    rw [if_neg (not_not.mpr awaits)]
    cases type : fhr.type with
    | continuation =>
      unfold Awaits at awaits
      simp only [type, decide_true] at awaits
      simp only [handleContinuationPayload, awaits, Bool.not_true, Bool.false_or, decide_eq_true_eq, true_and]
      split <;> simp [andThen, deliver, type]
    | _ => simp [handleDataPayload, handleHeadersPayload, andThen, deliver, type]
  · rw [consume_refused awaits, begun, if_pos awaits]
    rfl

/-- The payload of a frame that starts on `c` may be cut behind `front`. -/
def CutSafe (c : Conn) (fhr : FrameHeader) (front : List UInt8) : Prop :=
  ∀ d s, c.begun fhr front = (none, d) → d.streams.find fhr.streamId = some s →
    match fhr.type with
    | .data => d.DataCutSafe fhr front s
    | .headers => d.HeadersCutSafe fhr front s
    | .continuation => s.AcceptsHeaders
    | _ => True

theorem deliver_data (type : fhr.type = .data) (offset : Nat) (chunk : List UInt8) :
    deliver fhr offset chunk = deliverData fhr offset chunk := by
  funext d
  simp [deliver, type]

end Conn

end FiberGateway.Http2
