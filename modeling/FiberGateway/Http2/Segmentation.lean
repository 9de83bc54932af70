import FiberGateway.Http2.PayloadCut

namespace FiberGateway.Http2

open List

namespace Reader

/-- Inside a payload there are bytes left to come. -/
def Valid (r : Reader) : Prop := r.phase = .framePayload → 0 < r.payloadRemaining

/-- No byte of the current frame's payload has been consumed. -/
def AtStart (r : Reader) : Prop :=
  r.phase = .framePayload → r.payloadOffset = 0 ∧ r.payloadRemaining = r.header.length ∧ 0 < r.header.length

variable {r r' r₀ : Reader} {result : Option IoErr × Conn} {bytes seen : List UInt8}

theorem AtStart.valid (start : r.AtStart) : r.Valid := by
  intro phase
  obtain ⟨-, remaining, positive⟩ := start phase
  omega

/-- The step behind a handler's result. -/
def settle (result : Option IoErr × Conn) (next : Conn → Reader) : ParseStep :=
  match result with
  | (some err, c) => .fail err c
  | (none, c) => .next (next c)

theorem settle_next {next : Conn → Reader} (step : settle result next = .next r') : r' = next result.2 := by
  obtain ⟨err, c⟩ := result
  cases err with
  | some err => cases step
  | none => cases step; rfl

/-- What `run` does when the client preface is complete. -/
def startPreface (c : Conn) : Option IoErr × Conn :=
  if c.options.autoStartConnectionPreface ∧ ¬c.localConnectionPrefaceSent then c.sendConnectionPreface else (none, c)

def afterPreface (r : Reader) (c : Conn) : Reader :=
  { r with phase := .frameHeader, buf := r.buf.drop kClientPreface.length, conn := c }

def afterHeader (r : Reader) (phase : ParsePhase) (c : Conn) : Reader :=
  { r with
    phase := phase
    header := parseFrameHeader r.buf
    buf := r.buf.drop kFrameHeaderSize
    payloadRemaining := (parseFrameHeader r.buf).length
    payloadOffset := 0
    conn := c }

/-- The chunk of the payload that is in the buffer. -/
def chunk (r : Reader) : List UInt8 := r.buf.take r.payloadRemaining

def afterChunk (r : Reader) (c : Conn) : Reader :=
  { r with
    buf := r.buf.drop r.payloadRemaining
    payloadRemaining := r.payloadRemaining - r.chunk.length
    payloadOffset := r.payloadOffset + r.chunk.length
    phase := if r.payloadRemaining - r.chunk.length = 0 then .frameHeader else .framePayload
    conn := c }

theorem parseStep_preface (phase : r.phase = .preface) :
    r.parseStep = if r.buf.length < kClientPreface.length then .wait
      else if r.buf.take kClientPreface.length ≠ kClientPreface then .fail .invalid r.conn
      else settle (startPreface r.conn) r.afterPreface := by
  unfold parseStep
  rw [phase]
  rfl

theorem parseStep_header (phase : r.phase = .frameHeader) :
    r.parseStep = if r.buf.length < kFrameHeaderSize then .wait
      else if r.conn.options.maxFrameSize < (parseFrameHeader r.buf).length then .fail .invalid r.conn
      else if (parseFrameHeader r.buf).length = 0 then
        settle (r.conn.consumeIncomingFramePayload (parseFrameHeader r.buf) 0 []) (r.afterHeader .frameHeader)
      else .next (r.afterHeader .framePayload r.conn) := by
  obtain ⟨_, header, remaining, offset, buf, c⟩ := r
  cases phase
  rfl

theorem parseStep_payload (phase : r.phase = .framePayload) :
    r.parseStep = if r.buf = [] then .wait
      else settle (r.conn.consumeIncomingFramePayload r.header r.payloadOffset r.chunk) r.afterChunk := by
  unfold parseStep
  rw [phase]
  rfl

theorem chunk_length (r : Reader) : r.chunk.length = min r.payloadRemaining r.buf.length := length_take

theorem preface_next (phase : r.phase = .preface) (step : r.parseStep = .next r') :
    r'.AtStart ∧ r'.buf.length < r.buf.length := by
  have size := kClientPreface_length
  rw [parseStep_preface phase] at step
  split_ifs at step
  rw [settle_next step]
  refine ⟨fun inside => ParsePhase.noConfusion inside, ?_⟩
  simp only [afterPreface, length_drop]
  omega

theorem header_next (phase : r.phase = .frameHeader) (step : r.parseStep = .next r') :
    r'.AtStart ∧ r'.buf.length < r.buf.length := by
  have size : kFrameHeaderSize = 9 := rfl
  rw [parseStep_header phase] at step
  split_ifs at step with short large empty
  · rw [settle_next step]
    refine ⟨fun inside => ParsePhase.noConfusion inside, ?_⟩
    simp only [afterHeader, length_drop]
    omega
  · cases step
    refine ⟨fun _ => ⟨rfl, rfl, Nat.pos_of_ne_zero empty⟩, ?_⟩
    simp only [afterHeader, length_drop]
    omega

/-- The payload the buffer holds is complete, if there is one. -/
def Complete (r : Reader) : Prop := r.phase = .framePayload → r.payloadRemaining ≤ r.buf.length

theorem Complete.next (complete : r.Complete) (step : r.parseStep = .next r') : r'.AtStart := by
  cases phase : r.phase with
  | preface => exact (preface_next phase step).1
  | frameHeader => exact (header_next phase step).1
  | framePayload =>
    rw [parseStep_payload phase] at step
    split_ifs at step
    rw [settle_next step]
    intro inside
    have whole := complete phase
    have length := chunk_length r
    simp only [afterChunk] at inside
    split_ifs at inside
    omega

/-- A round of the inner loop that goes on. -/
def Steps (r r' : Reader) : Prop := r.parseStep = .next r'

/-- Every frame that the loop meets on the bytes in the buffer may be cut anywhere. -/
def CutsSafe (r : Reader) : Prop :=
  ∀ r', Relation.ReflTransGen Steps r r' → r'.phase = .framePayload →
    ∀ front rest, front ≠ [] → rest ≠ [] → r'.chunk = front ++ rest → r'.conn.CutSafe r'.header front

theorem CutsSafe.next (safe : r.CutsSafe) (step : r.parseStep = .next r') : r'.CutsSafe :=
  fun after steps => safe after (.head step steps)

/-- What `run` makes of the end of the parse loop: an error, or the end of the input. -/
def ended : Except (IoErr × Conn) Reader → Option IoErr × Conn
  | .error (err, c) => (some err, c)
  | .ok r => (if r.phase = .frameHeader ∧ r.buf = [] then none else some .connReset, r.conn)

end Reader

namespace Conn

variable {c d : Conn} {fhr : FrameHeader} {s : Stream}

/-- A server that has sent its preface, with room for one stream. -/
def served : Conn :=
  { Conn.init { maxPeerConcurrentStreams := 1 } with runStarted := true, localConnectionPrefaceSent := true }

end Conn

end FiberGateway.Http2
