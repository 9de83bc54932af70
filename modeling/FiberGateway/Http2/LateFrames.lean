import FiberGateway.Http2.Runs

namespace FiberGateway.Http2

namespace Conn

variable {c : Conn} {fhr : FrameHeader} {payload : List UInt8}

theorem recvFragment_error (streamId offset : Nat) (bytes : List UInt8) (endStream : Bool) (finish : Conn → Conn) :
    (c.recvFragment streamId offset bytes endStream finish).1 = none := by
  unfold recvFragment
  split <;> rfl

theorem deliverHeaders_error (fhr : FrameHeader) (offset : Nat) (chunk : List UInt8) (c : Conn) :
    (c.deliverHeaders fhr offset chunk).1 = none ↔ (c.streams.find fhr.streamId).isSome := by
  unfold deliverHeaders
  cases c.streams.find fhr.streamId with
  | none => simp
  | some s =>
    dsimp only
    split
    · simp [recvFragment_error]
    · simp

theorem collect_whole {valid : Bool} (checked : valid = true) {limit : Nat} (act : Conn → Option IoErr × Conn)
    (fits : payload.length = fhr.length) (bounded : payload.length ≤ limit) :
    collect valid limit act c fhr 0 payload = act { c with controlPayloadScratch := payload } := by
  unfold collect
  simp [checked, fits, List.take_of_length_le bounded]

end Conn

namespace Session

end Session

end FiberGateway.Http2
