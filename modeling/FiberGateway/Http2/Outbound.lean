import FiberGateway.Http2.Blocks
import FiberGateway.Http.HttpTransport

namespace FiberGateway.Http2

open List

/-- `Http2SendPayload`: what a frame's payload is kept in. -/
inductive SendPayload
  | none
  | stableSpan (data : List UInt8) (offset : Nat)
  | ioBuf (buf : IoView)
  | ioBufChain (chain : BufChain)
  deriving DecidableEq

namespace SendPayload

variable {payload : SendPayload}

def readableBytes : SendPayload → Nat
  | none => 0
  | stableSpan data offset => data.length - offset
  | ioBuf buf => buf.readable.length
  | ioBufChain chain => chain.readableBytes

/-- The bytes still to be sent. -/
def bytes : SendPayload → List UInt8
  | none => []
  | stableSpan data offset => data.drop offset
  | ioBuf buf => buf.readable
  | ioBufChain chain => chain.bytes

/-- What `write_once` did: its result, the bytes that went out, and the payload afterwards. -/
structure Written where
  result : Except IoErr Nat
  moved : List UInt8
  payload : SendPayload
  deriving DecidableEq

/-- `write_once` over a transport with the given `writev`; `answer` is what the layer below does. -/
def writeOnce (writev : BufChain → Except IoErr Nat → Except Fault Transfer) (payload : SendPayload)
    (answer : Except IoErr Nat) : Except Fault Written :=
  match payload with
  | none => .ok ⟨.ok 0, [], none⟩
  | stableSpan data offset =>
    match answer with
    | .error err => .ok ⟨.error err, [], payload⟩
    | .ok accepted =>
      let sent := (data.drop offset).take accepted
      .ok ⟨.ok sent.length, sent, stableSpan data (offset + sent.length)⟩
  | ioBuf buf =>
    match answer with
    | .error err => .ok ⟨.error err, [], payload⟩
    | .ok accepted =>
      let sent := buf.readable.take accepted
      .ok ⟨.ok sent.length, sent, ioBuf (buf.consume sent.length)⟩
  | ioBufChain chain =>
    match writev chain answer with
    | .error fault => .error fault
    | .ok transfer => .ok ⟨transfer.result, transfer.moved, ioBufChain transfer.chain⟩

/-- The totals a chain caches are right. -/
def Formed : SendPayload → Prop
  | ioBufChain chain => chain.WellFormed
  | _ => True

theorem Formed.readableBytes (formed : payload.Formed) : payload.readableBytes = payload.bytes.length := by
  cases payload with
  | none => rfl
  | stableSpan data offset => exact length_drop.symm
  | ioBuf buf => rfl
  | ioBufChain chain => exact BufChain.WellFormed.readable formed

/-- The transport keeps the contract of the chains it is handed. -/
def Keeps (writev : BufChain → Except IoErr Nat → Except Fault Transfer) (payload : SendPayload) : Prop :=
  match payload with
  | ioBufChain _ => ∀ chain : BufChain, chain.WellFormed → ∀ answer, ∃ transfer, writev chain answer = .ok transfer ∧
      ∀ n, transfer.result = .ok n → Sends chain n transfer
  | _ => True

variable {writev : BufChain → Except IoErr Nat → Except Fault Transfer}

/-- A write takes the front of the payload and leaves the rest, whatever the payload is kept in. -/
theorem writeOnce_sends (formed : payload.Formed) (keeps : payload.Keeps writev) (answer : Except IoErr Nat) :
    ∃ written, payload.writeOnce writev answer = .ok written ∧ ∀ n, written.result = .ok n →
      written.moved = payload.bytes.take n ∧ n ≤ payload.bytes.length ∧ written.payload.Formed ∧
        written.payload.Keeps writev ∧ written.payload.bytes = payload.bytes.drop n := by
  have front (bytes : List UInt8) (accepted : Nat) :
      bytes.take accepted = bytes.take (bytes.take accepted).length ∧ (bytes.take accepted).length ≤ bytes.length :=
    ⟨prefix_iff_eq_take.mp ( take_prefix _ _), ( take_prefix _ _).length_le⟩
  cases payload with
  | none =>
    refine ⟨_, rfl, fun n result => ?_⟩
    cases result
    exact ⟨rfl, le_rfl, trivial, trivial, rfl⟩
  | stableSpan data offset =>
    cases answer with
    | error err => exact ⟨_, rfl, fun n result => by cases result⟩
    | ok accepted =>
      refine ⟨_, rfl, fun n result => ?_⟩
      cases result
      exact ⟨(front _ _).1, (front _ _).2, trivial, trivial, drop_drop.symm⟩
  | ioBuf buf =>
    cases answer with
    | error err => exact ⟨_, rfl, fun n result => by cases result⟩
    | ok accepted =>
      refine ⟨_, rfl, fun n result => ?_⟩
      cases result
      exact ⟨(front _ _).1, (front _ _).2, trivial, trivial, buf.consume_readable _⟩
  | ioBufChain chain =>
    obtain ⟨transfer, ran, sends⟩ := keeps chain formed answer
    simp only [writeOnce, ran]
    refine ⟨_, rfl, fun n result => ?_⟩
    have sent := sends n result
    refine ⟨sent.wire, ?_, sent.formed, keeps, sent.left⟩
    have lengths := congrArg List.length sent.wire
    rw [sent.exact, length_take] at lengths
    change n ≤ chain.bytes.length
    omega

end SendPayload

/-- An entry of the send queue as it is kept: the frame header, the payload, and how much was written. -/
structure Loaded where
  header : List UInt8
  payload : SendPayload
  writtenBytes : Nat := 0
  deriving DecidableEq

namespace Loaded

variable {writev : BufChain → Except IoErr Nat → Except Fault Transfer} {loaded : Loaded} {entry : SendEntry}

def complete (loaded : Loaded) : Bool :=
  loaded.header.length ≤ loaded.writtenBytes && loaded.payload.readableBytes = 0

/-- One write of `run_send_loop`: the rest of the frame header, or of the payload. -/
def write (writev : BufChain → Except IoErr Nat → Except Fault Transfer) (loaded : Loaded) (answer : Except IoErr Nat) :
    Except Fault (Except IoErr Nat × List UInt8 × Loaded) :=
  if loaded.writtenBytes < loaded.header.length then
    match answer with
    | .error err => .ok (.error err, [], loaded)
    | .ok accepted =>
      let sent := (loaded.header.drop loaded.writtenBytes).take accepted
      .ok (.ok sent.length, sent, { loaded with writtenBytes := loaded.writtenBytes + sent.length })
  else
    match loaded.payload.writeOnce writev answer with
    | .error fault => .error fault
    | .ok ⟨.error err, _, _⟩ => .ok (.error err, [], loaded)
    | .ok ⟨.ok n, moved, payload⟩ =>
      .ok (.ok n, moved, { loaded with payload := payload, writtenBytes := loaded.writtenBytes + n })

/-- How far `run_send_loop` got with an entry: the result it finished it with, if it did, the bytes that went out, and
the answers left. -/
structure Progress where
  finished : Option (Option IoErr)
  wire : List UInt8
  writtenBytes : Nat
  left : List (Except IoErr Nat)
  deriving DecidableEq

/-- The loop of `run_send_loop` as long as it works on one entry. -/
def send (writev : BufChain → Except IoErr Nat → Except Fault Transfer) :
    List (Except IoErr Nat) → Loaded → Except Fault Progress
  | answers, loaded =>
    if loaded.complete then .ok ⟨some none, [], loaded.writtenBytes, answers⟩
    else
      match answers with
      | [] => .ok ⟨none, [], loaded.writtenBytes, []⟩
      | answer :: answers =>
        match loaded.write writev answer with
        | .error fault => .error fault
        | .ok (.error err, _, _) => .ok ⟨some (some err), [], loaded.writtenBytes, answers⟩
        | .ok (.ok 0, _, _) => .ok ⟨some (some .connReset), [], loaded.writtenBytes, answers⟩
        | .ok (.ok (_ + 1), moved, loaded) =>
          match send writev answers loaded with
          | .error fault => .error fault
          | .ok rest => .ok { rest with wire := moved ++ rest.wire }

/-- The entry is kept like this, by a transport that keeps the contract of its payload. -/
structure Carries (writev : BufChain → Except IoErr Nat → Except Fault Transfer) (loaded : Loaded) (entry : SendEntry) :
    Prop where
  header : loaded.header = (entry.frameHeader.map encodeFrameHeader).getD []
  written : loaded.writtenBytes = entry.writtenBytes
  formed : loaded.payload.Formed
  keeps : loaded.payload.Keeps writev
  payload : loaded.payload.bytes = entry.payload.drop (entry.writtenBytes - entry.frameHeaderSize)

section

variable (carries : loaded.Carries writev entry)

include carries

theorem Carries.header_length : loaded.header.length = entry.frameHeaderSize := by
  rw [carries.header, SendEntry.frameHeaderSize]
  cases entry.frameHeader <;> rfl

theorem Carries.complete : loaded.complete = entry.complete := by
  simp [Loaded.complete, SendEntry.complete, carries.header_length, carries.written, carries.formed.readableBytes,
    carries.payload, Nat.sub_eq_zero_iff_le]

/-- A write takes what the entry offers next, and the entry is kept on. -/
theorem Carries.write (answer : Except IoErr Nat) :
    ∃ result moved after, loaded.write writev answer = .ok (result, moved, after) ∧ ∀ n, result = .ok n →
      n ≤ entry.offered.length ∧ moved = entry.offered.take n ∧
        after.Carries writev { entry with writtenBytes := entry.writtenBytes + n } := by
  have size := carries.header_length
  unfold Loaded.write
  by_cases inside : loaded.writtenBytes < loaded.header.length
  · rw [if_pos inside]
    cases answer with
    | error err => exact ⟨_, _, _, rfl, fun n result => by cases result⟩
    | ok accepted =>
      refine ⟨_, _, _, rfl, fun n result => ?_⟩
      cases result
      have offered : entry.offered = loaded.header.drop loaded.writtenBytes := by
        rw [SendEntry.offered, if_pos (by rw [← size, ← carries.written]; exact inside), carries.header, carries.written]
        cases entry.frameHeader <;> rfl
      have sent : (loaded.header.drop loaded.writtenBytes).take accepted <+: entry.offered :=
        offered ▸ take_prefix _ _
      have short := sent.length_le
      refine ⟨short, prefix_iff_eq_take.mp sent, carries.header, congrArg (· + _) carries.written, carries.formed,
        carries.keeps, ?_⟩
      rw [offered, length_drop] at short
      have before := carries.payload
      have same : entry.writtenBytes - entry.frameHeaderSize = 0 := by
        rw [← size, ← carries.written]
        omega
      have still : entry.writtenBytes + ((loaded.header.drop loaded.writtenBytes).take accepted).length -
          entry.frameHeaderSize = 0 := by
        rw [← size, ← carries.written]
        omega
      rw [same] at before
      exact before.trans (congrArg entry.payload.drop still.symm)
  · rw [if_neg inside]
    obtain ⟨⟨result, moved, payload⟩, ran, sends⟩ := SendPayload.writeOnce_sends carries.formed carries.keeps answer
    rw [ran]
    cases result with
    | error err => exact ⟨_, _, _, rfl, fun n result => by cases result⟩
    | ok n =>
      refine ⟨_, _, _, rfl, fun m result => ?_⟩
      cases result
      obtain ⟨front, short, formed, keeps, rest⟩ := sends n rfl
      rw [carries.written, size] at inside
      have offered : entry.offered = loaded.payload.bytes := by
        rw [SendEntry.offered, if_neg inside, carries.payload]
      refine ⟨offered ▸ short, offered ▸ front, carries.header, congrArg (· + n) carries.written, formed, keeps, ?_⟩
      refine rest.trans ?_
      rw [carries.payload, drop_drop]
      congr 1
      change _ = entry.writtenBytes + n - entry.frameHeaderSize
      omega

theorem Carries.whole (begun : entry.writtenBytes ≤ entry.bytes.length)
    (done : loaded.complete = true) : loaded.writtenBytes = entry.bytes.length := by
  have reached := entry.complete_iff.mp (carries.complete ▸ done)
  rw [carries.written]
  omega

theorem Carries.unfinished (more : ¬loaded.complete = true) : loaded.writtenBytes ≠ entry.bytes.length := by
  rw [carries.complete, entry.complete_iff] at more
  rw [carries.written]
  omega

end

theorem send_complete (writev : BufChain → Except IoErr Nat → Except Fault Transfer)
    (answers : List (Except IoErr Nat)) (done : loaded.complete = true) :
    loaded.send writev answers = .ok ⟨some none, [], loaded.writtenBytes, answers⟩ := by
  cases answers <;> simp [Loaded.send, done]

/-- Of an entry the bytes go out in order, the count of written bytes is exact, and it ends without an error exactly
when all of them are out. -/
theorem Carries.send (carries : loaded.Carries writev entry) (begun : entry.writtenBytes ≤ entry.bytes.length)
    (answers : List (Except IoErr Nat)) :
    ∃ progress, loaded.send writev answers = .ok progress ∧ progress.wire <+: entry.bytes.drop entry.writtenBytes ∧
      progress.writtenBytes = entry.writtenBytes + progress.wire.length ∧
      (progress.finished = some none ↔ progress.writtenBytes = entry.bytes.length) := by
  induction answers generalizing loaded entry with
  | nil =>
    by_cases done : loaded.complete = true
    · exact ⟨_, send_complete _ _ done, nil_prefix, carries.written, by simp [carries.whole begun done]⟩
    unfold Loaded.send
    rw [if_neg done]
    exact ⟨_, rfl, nil_prefix, carries.written, by simp [carries.unfinished done]⟩
  | cons answer answers ih =>
    by_cases done : loaded.complete = true
    · exact ⟨_, send_complete _ _ done, nil_prefix, carries.written, by simp [carries.whole begun done]⟩
    obtain ⟨result, moved, after, ran, takes⟩ := carries.write answer
    unfold Loaded.send
    rw [if_neg done]
    dsimp only
    rw [ran]
    cases result with
    | error err => exact ⟨_, rfl, nil_prefix, carries.written, by simp [carries.unfinished done]⟩
    | ok n =>
      cases n with
      | zero => exact ⟨_, rfl, nil_prefix, carries.written, by simp [carries.unfinished done]⟩
      | succ n =>
        obtain ⟨short, front, carries'⟩ := takes (n + 1) rfl
        have room := entry.offered_length
        obtain ⟨progress, rest, before, count, success⟩ := ih carries' (by
          change entry.writtenBytes + (n + 1) ≤ entry.bytes.length
          omega)
        rw [SendEntry.offered_take entry short] at front
        have split : entry.bytes.drop entry.writtenBytes =
            moved ++ entry.bytes.drop (entry.writtenBytes + (n + 1)) := by
          rw [front, ← drop_drop, take_append_drop]
        have length : moved.length = n + 1 := by
          rw [front, length_take, length_drop]
          omega
        dsimp only
        rw [rest]
        refine ⟨_, rfl, ?_, ?_, success⟩
        · rw [split]
          exact prefix_append_right_inj _ |>.mpr before
        · rw [length_append, length]
          refine count.trans ?_
          change entry.writtenBytes + (n + 1) + _ = _
          omega

end Loaded

namespace Session

end Session

end FiberGateway.Http2
