import FiberGateway.Http2.Agreement
import FiberGateway.Http2.Admission

/-!
`send_header` and `send_data` with all their ways to fail. Both commit the state transition before `enqueue_pending`
looks at the stream and allocates the entry.
-/

namespace FiberGateway.Http2

/-- What a call meets beside the stream's own fields: whether the stream has a connection, and whether
`pending_pool_.create` gives an entry. -/
structure Surroundings where
  attached : Bool := true
  allocates : Bool := true
  deriving DecidableEq, Repr

namespace Conn

def enqueuePendingIn (c : Conn) (around : Surroundings) (streamId : Nat) (kind : PendingKind) (payload : List UInt8)
    (firstFrameFlags lastFrameFlags : UInt8) : Option IoErr × Conn :=
  match c.streams.find streamId with
  | none => (some .invalid, c.touchErased)
  | some s =>
    if !around.attached || !s.active || s.state = .closed then (some .invalid, c)
    else if !around.allocates then (some .noMem, c)
    else (none, (c.addPending streamId kind payload firstFrameFlags lastFrameFlags).trySchedulePending streamId)

/-- The common body of `send_header` and `send_data`: they differ in the transition and in the flags. -/
def sendMessageIn (c : Conn) (around : Surroundings) (streamId : Nat) (m : Message) : Option IoErr × Conn :=
  match c.streams.find streamId with
  | none => (some .invalid, c.touchErased)
  | some s =>
    if !around.attached then (some .invalid, c)
    else
      match s.state.onSend m with
      | none => (some .invalid, c)
      | some next =>
        (c.setState streamId next).enqueuePendingIn around streamId m.kind m.payload 0 m.lastFrameFlags

def sendHeaderIn (c : Conn) (around : Surroundings) (streamId : Nat) (payload : List UInt8) (endStream : Bool) :
    Option IoErr × Conn :=
  c.sendMessageIn around streamId ⟨.header, payload, endStream⟩

def sendDataIn (c : Conn) (around : Surroundings) (streamId : Nat) (payload : List UInt8) (endStream : Bool) :
    Option IoErr × Conn :=
  c.sendMessageIn around streamId ⟨.data, payload, endStream⟩

variable {c : Conn} {around : Surroundings} {streamId : Nat} {s : Stream} {m : Message}

/-- The payload is at the end of the stream's queue, with its flags, when the queue is scheduled. -/
def Appends (c : Conn) (streamId : Nat) (s : Stream) (m : Message) (c' : Conn) : Prop :=
  ∃ (before : Conn) (entry : PendingEntry) (queued : Stream),
    c' = before.trySchedulePending streamId ∧ before.streams.find streamId = some queued ∧
    queued.pending = s.pending ++ [entry.id] ∧ queued.entry entry.id = some entry ∧
    entry.kind = m.kind ∧ entry.payload = m.payload ∧ entry.firstFrameFlags = 0 ∧
    entry.lastFrameFlags = m.lastFrameFlags ∧ queued.state ≠ .closed ∧
    queued.sendWindow = s.sendWindow ∧ before.connSendWindow = c.connSendWindow

/-- State, queue and windows are as they were. -/
def Unmoved (c : Conn) (streamId : Nat) (s : Stream) (c' : Conn) : Prop :=
  ∃ s', c'.streams.find streamId = some s' ∧ s'.state = s.state ∧ s'.pending = s.pending ∧ s'.entries = s.entries ∧
    s'.sendWindow = s.sendWindow ∧ c'.connSendWindow = c.connSendWindow

def Atomic (c : Conn) (streamId : Nat) (s : Stream) (m : Message) (answer : Option IoErr × Conn) : Prop :=
  answer.1 = none ∧ c.Appends streamId s m answer.2 ∨ answer.1 ≠ none ∧ c.Unmoved streamId s answer.2

/-- The transition changes the state and the entry behind it is refused: always for the end of a half closed stream,
which is closed by then; for the other transitions when the stream is inactive or there is no memory. -/
def Torn (around : Surroundings) (s : Stream) (m : Message) : Prop :=
  around.attached = true ∧
    (s.state = .halfClosedRemote ∧ m.endStream = true ∨
      (s.state = .idle ∧ m.kind = .header ∨ s.state = .open ∧ m.endStream = true) ∧
        (s.active = false ∨ around.allocates = false))

section

variable (found : c.streams.find streamId = some s)

include found

theorem setState_find (state : StreamState) :
    (c.setState streamId state).streams.find streamId = some { s with state := state } :=
  find_modifyStream_self found _

theorem Unmoved.refl : c.Unmoved streamId s c :=
  ⟨s, found, rfl, rfl, rfl, rfl, rfl⟩

theorem unmoved_setState (state : StreamState) :
    c.Unmoved streamId s (c.setState streamId state) ↔ state = s.state := by
  have there := setState_find found state
  constructor
  · rintro ⟨s', found', kept, -⟩
    rw [there] at found'
    cases found'
    exact kept
  · rintro rfl
    exact ⟨s, there, rfl, rfl, rfl, rfl, rfl⟩

theorem appends_addPending {next : StreamState} (running : next ≠ .closed) (m : Message) : c.Appends streamId s m
      (((c.setState streamId next).addPending streamId m.kind m.payload 0 m.lastFrameFlags).trySchedulePending
        streamId) := by
  have there := setState_find found next
  refine ⟨_, .init (c.setState streamId next).nextPendingId m.kind m.payload 0 m.lastFrameFlags, _, rfl,
    addPending_find there _ _ _ _, rfl, ?_, rfl, rfl, rfl, rfl, running, rfl, rfl⟩
  simp [Stream.entry, Stream.appendPending]

/-- `enqueue_pending` behind a transition: refused, the transition stays; accepted, the payload is queued. -/
theorem enqueuePendingIn_atomic (attached : around.attached = true) (next : StreamState) (m : Message) :
    c.Atomic streamId s m
        ((c.setState streamId next).enqueuePendingIn around streamId m.kind m.payload 0 m.lastFrameFlags) ↔
      (s.active = true ∧ next ≠ .closed ∧ around.allocates = true ∨ next = s.state) := by
  rw [enqueuePendingIn, setState_find found]
  by_cases refused : s.active = false ∨ next = .closed
  · have guard : (!around.attached || !s.active || decide (next = .closed)) = true := by
      rcases refused with inactive | closed
      · simp [inactive]
      · simp [closed]
    simp only [guard, if_true, Atomic, reduceCtorEq, false_and, false_or, ne_eq, not_false_eq_true, true_and,
      unmoved_setState found]
    refine ⟨.inr, fun ways => ways.resolve_left ?_⟩
    rintro ⟨active, running, -⟩
    rcases refused with inactive | closed
    · rw [active] at inactive
      cases inactive
    · exact running closed
  · rw [not_or, Bool.not_eq_false] at refused
    have guard : (!around.attached || !s.active || decide (next = .closed)) = false := by
      simp [attached, refused.1, refused.2]
    simp only [guard, Bool.false_eq_true, if_false]
    cases memory : around.allocates with
    | false =>
      simp [Atomic, unmoved_setState found]
    | true =>
      have queued := appends_addPending found refused.2 m
      refine iff_of_true (.inl ⟨rfl, queued⟩) (.inl ⟨refused.1, refused.2, rfl⟩)

end

end Conn

/-- Where a message is allowed, it changes the state unless it leaves the stream open to more. -/
theorem StreamState.onSend_moves {state next : StreamState} {m : Message} (sends : state.onSend m = some next) :
    (next ≠ state ↔ state = .halfClosedRemote ∧ m.endStream = true ∨
      (state = .idle ∧ m.kind = .header ∨ state = .open ∧ m.endStream = true)) ∧
    (next = .closed ↔ state = .halfClosedRemote ∧ m.endStream = true) := by
  obtain ⟨kind, payload, endStream⟩ := m
  cases kind <;> cases state <;> cases endStream <;> cases sends <;>
    simp [onLocalEndStream]

theorem StreamState.onSend_none {state : StreamState} {m : Message} (refuses : state.onSend m = none) :
    ¬ (state = .halfClosedRemote ∧ m.endStream = true) ∧
      ¬ (state = .idle ∧ m.kind = .header ∨ state = .open ∧ m.endStream = true) := by
  obtain ⟨kind, payload, endStream⟩ := m
  cases kind <;> cases state <;> cases endStream <;> first | cases refuses; done | simp

namespace Conn

/-- A call is atomic exactly when its transition is not followed by a refusal. -/
theorem sendMessageIn_atomic_iff (c : Conn) (around : Surroundings) (streamId : Nat) (s : Stream) (m : Message)
    (found : c.streams.find streamId = some s) :
    c.Atomic streamId s m (c.sendMessageIn around streamId m) ↔ ¬ Torn around s m := by
  rw [sendMessageIn, found, Torn]
  cases attached : around.attached with
  | false =>
    refine iff_of_true (.inr ⟨nofun, .refl found⟩) ?_
    rintro ⟨yes, -⟩
    cases yes
  | true =>
    cases sends : s.state.onSend m with
    | none =>
      simp only [sends]
      refine iff_of_true (.inr ⟨nofun, .refl found⟩) ?_
      rintro ⟨-, ended | ⟨moves, -⟩⟩
      · exact (StreamState.onSend_none sends).1 ended
      · exact (StreamState.onSend_none sends).2 moves
    | some next =>
      obtain ⟨moves, closes⟩ := StreamState.onSend_moves sends
      simp only [sends, Bool.not_true, Bool.false_eq_true, if_false, enqueuePendingIn_atomic found attached]
      cases active : s.active <;> cases memory : around.allocates <;> grind

end Conn

namespace Session

/-- A request that has ended, as the server has it. -/
def endedRequest : List Event := greeted ++ [.receive [0, 0, 1, 1, 5, 0, 0, 0, 1, 0x82]]

/-- The response of a server to a whole request cannot end the stream: the call fails and closes it. -/
theorem finalHeader_torn :
    ((Session.init {}).run endedRequest).conn.streams.find 1 =
      some { Stream.init 1 65535 with state := .halfClosedRemote } ∧
    (((Session.init {}).run endedRequest).conn.sendHeaderIn {} 1 [0x88] true).1 = some .invalid ∧
    (((Session.init {}).run endedRequest).conn.sendHeaderIn {} 1 [0x88] true).2.streams.find 1 =
      some { Stream.init 1 65535 with state := .closed } ∧
    (((Session.init {}).run endedRequest).conn.sendHeaderIn {} 1 [0x88] true).2.enqueued =
      ((Session.init {}).run endedRequest).conn.enqueued := by
  decide +kernel

theorem firstHeader_atomic :
    ((Session.init {}).run endedRequest).conn.Atomic 1 { Stream.init 1 65535 with state := .halfClosedRemote }
      ⟨.header, [0x88], false⟩ (((Session.init {}).run endedRequest).conn.sendMessageIn {} 1 ⟨.header, [0x88], false⟩) :=
  (Conn.sendMessageIn_atomic_iff _ {} 1 _ ⟨.header, [0x88], false⟩ (by decide +kernel)).mpr (by
    rintro ⟨-, ⟨-, ended⟩ | ⟨-, inactive | full⟩⟩
    · cases ended
    · cases inactive
    · cases full)

end Session

end FiberGateway.Http2
