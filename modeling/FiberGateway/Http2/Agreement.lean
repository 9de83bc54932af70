import FiberGateway.Http2.Delivery
import FiberGateway.Http2.Settled

namespace FiberGateway.Http2

open List Relation

namespace Conn

variable {ok : Allowed} {c d e : Conn} {streamId : Nat}

/-- Nothing is sent on the stream any more. -/
def Spent (c : Conn) (streamId : Nat) : Prop :=
  streamId ≤ c.lastStreamId streamId ∧ ∀ s, c.streams.find streamId = some s → s.state.Silent

/-- A stream that this side has ended stays so. -/
structure Hush (c d : Conn) : Prop where
  options : d.options = c.options
  lastPeer : c.lastPeerStreamId ≤ d.lastPeerStreamId
  lastLocal : c.lastLocalStreamId ≤ d.lastLocalStreamId
  states : ∀ streamId s', d.streams.find streamId = some s' →
    (∃ s, c.streams.find streamId = some s ∧ (s.state.Silent → s'.state.Silent)) ∨ c.lastStreamId streamId < streamId

namespace Hush

theorem iff_settled : Hush c d ↔ Settled StreamState.Silent c d :=
  ⟨fun hush => ⟨hush.options, hush.lastPeer, hush.lastLocal, hush.states⟩,
    fun settled => ⟨settled.options, settled.lastPeer, settled.lastLocal, settled.states⟩⟩

theorem lastStreamId_le (hush : Hush c d) (streamId : Nat) : c.lastStreamId streamId ≤ d.lastStreamId streamId :=
  (iff_settled.mp hush).lastStreamId_le streamId

theorem spent (hush : Hush c d) (spent : c.Spent streamId) : d.Spent streamId := (iff_settled.mp hush).past spent

theorem refl (c : Conn) : Hush c c := iff_settled.mpr (.refl c)

theorem trans (first : Hush c d) (second : Hush d e) : Hush c e :=
  iff_settled.mpr ((iff_settled.mp first).trans (iff_settled.mp second))

theorem modify {f : Stream → Stream} (streams : d.streams = c.streams.modify streamId f) (options : d.options = c.options)
    (lastPeer : d.lastPeerStreamId = c.lastPeerStreamId) (lastLocal : d.lastLocalStreamId = c.lastLocalStreamId)
    (silent : ∀ s, c.streams.find streamId = some s → s.state.Silent → (f s).state.Silent) : Hush c d :=
  iff_settled.mpr (.modify streams options lastPeer lastLocal silent)

theorem ticks (path : ReflTransGen (Tick ok) c d) : Hush c d :=
  iff_settled.mpr (.ticks StreamState.final_silent path)

theorem happens (happens : Happens ok c d) : Hush c d :=
  iff_settled.mpr (.happens StreamState.final_silent happens)

end Hush

/-- No entry is accepted, and an ended stream stays so. -/
structure Mute (c d : Conn) : Prop extends Hush c d where
  accepted : d.accepted = c.accepted

theorem Mute.refl (c : Conn) : Mute c c := ⟨.refl c, rfl⟩

theorem cut_accepted {b b' : Book} (cut : Book.Cut (fun _ _ _ _ => False) b b') : b'.accepted = b.accepted := by
  cases cut with
  | step step =>
    cases step with
    | append streamId allowed => exact allowed.elim
    | _ => rfl
  | _ => rfl

theorem cuts_accepted {b b' : Book} (cuts : ReflTransGen (Book.Cut fun _ _ _ _ => False) b b') :
    b'.accepted = b.accepted := by
  induction cuts with
  | refl => rfl
  | tail _ cut ih => exact (cut_accepted cut).trans ih

theorem Mute.happens (ready : Ready c) (happens : Happens (fun _ _ _ _ => False) c d) : Mute c d :=
  ⟨.happens happens, cuts_accepted (happens.book ready)⟩

theorem Mute.moves (sound : Sound c) (path : ReflTransGen Move c d) : Mute c d := by
  have turns : ReflTransGen (Tick fun _ _ _ _ => False) c d :=
    ReflTransGen.mono (fun _ _ move => .turn (.move move)) _ _ path
  exact ⟨.ticks turns, cuts_accepted (ticks_book sound turns)⟩

/-- The call that a message stands for. -/
def sendMessage (c : Conn) (streamId : Nat) (m : Message) : Option IoErr × Conn :=
  match m.kind with
  | .header => c.sendHeader streamId m.payload m.endStream
  | .data => c.sendData streamId m.payload m.endStream

end Conn

def StreamState.onSend (state : StreamState) (m : Message) : Option StreamState :=
  match m.kind with
  | .header => state.onSendHeaders m.endStream
  | .data => state.onSendData m.endStream

theorem StreamState.onSend_speaks {state next : StreamState} {m : Message} (sends : state.onSend m = some next) :
    ¬state.Silent ∧ (m.endStream = true → next.Silent) := by
  obtain ⟨kind, payload, endStream⟩ := m
  cases kind with
  | header =>
    refine ⟨onSendHeaders_silent sends, ?_⟩
    rintro rfl
    cases state <;> cases sends
    · exact .inl rfl
    · exact .inl rfl
    · exact .inr rfl
  | data =>
    refine ⟨onSendData_silent sends, ?_⟩
    rintro rfl
    cases state <;> cases sends
    · exact .inl rfl
    · exact .inr rfl

namespace Conn

variable {c d : Conn} {streamId : Nat} {s : Stream} {m : Message}

theorem addPending_find (found : c.streams.find streamId = some s) (kind : PendingKind) (payload : List UInt8)
    (first last : UInt8) : (c.addPending streamId kind payload first last).streams.find streamId =
      some (s.appendPending (.init c.nextPendingId kind payload first last)) :=
  (LinearProbing.Table.find_modify _ _ _ _).trans (by rw [if_pos rfl, found]; rfl)

end Conn

/-- The call of `send_header` or `send_data` that an event is. -/
def Event.message : Event → Option (Nat × Message)
  | .sendHeader streamId payload endStream => some (streamId, ⟨.header, payload, endStream⟩)
  | .sendData streamId payload endStream => some (streamId, ⟨.data, payload, endStream⟩)
  | _ => none

namespace Session

open Conn

variable {s : Session} {event : Event} {events : List Event}

/-- The message that an event gets accepted. -/
def taken (s : Session) (event : Event) : List (Nat × Message) :=
  match event.message with
  | none => []
  | some (streamId, m) =>
    if (s.conn.streams.find streamId).isSome ∧ (s.conn.sendMessage streamId m).1 = none then [(streamId, m)] else []

end Session

theorem PendingEntry.message_init (id : Nat) (m : Message) :
    (PendingEntry.init id m.kind m.payload 0 m.lastFrameFlags).message = m := by
  obtain ⟨kind, payload, endStream⟩ := m
  have flags (kind : PendingKind) : ((⟨kind, payload, endStream⟩ : Message).lastFrameFlags &&& kFlagEndStream != 0) =
      endStream := by
    cases kind with
    | header => exact (headerFlags_has 0 0 .headers endStream).2.2.1
    | data => exact (dataFlags_has 0 0 .data endStream).2
  simp only [message, PendingEntry.init, flags]

namespace Conn

variable {c d : Conn} {streamId : Nat}

/-- Only the last message of a stream ends it, and then nothing more is sent on it. -/
structure Ended (c : Conn) : Prop where
  last : ∀ streamId, ∀ entry ∈ (c.book.acceptedOn streamId).dropLast, entry.message.endStream = false
  spent : ∀ streamId, ∀ entry ∈ c.book.acceptedOn streamId, entry.message.endStream = true → c.Spent streamId

theorem Ended.init (options : Options) : Ended (Conn.init options) :=
  ⟨fun _ _ member => absurd member not_mem_nil, fun _ _ member => absurd member not_mem_nil⟩

theorem acceptedOn_push (b : Book) (streamId : Nat) (entry : PendingEntry) (other : Nat) :
    ({ b with accepted := b.accepted ++ [(streamId, entry)] } : Book).acceptedOn other =
      b.acceptedOn other ++ if other = streamId then [entry] else [] := by
  rw [Book.acceptedOn, Book.acceptedOn, filter_append, map_append]
  by_cases same : streamId = other
  · simp [same]
  · simp [same, Ne.symm same]

/-- A message is only accepted on a stream that has not been ended. -/
theorem Ended.append {s : Stream} {m : Message} {next : StreamState} (found : c.streams.find streamId = some s)
    (sends : s.state.onSend m = some next) (opened : streamId ≤ c.lastStreamId streamId) (ended : Ended c) :
    Ended ((c.setState streamId next).addPending streamId m.kind m.payload 0 m.lastFrameFlags) := by
  obtain ⟨speaks, ends⟩ := StreamState.onSend_speaks sends
  have before (entry : PendingEntry) (member : entry ∈ c.book.acceptedOn streamId) : entry.message.endStream = false := by
    by_contra ends
    exact speaks ((ended.spent streamId entry member (by simpa using ends)).2 s found)
  have stated : Hush c (c.setState streamId next) := by
    refine .modify rfl rfl rfl rfl fun s' found' silent => ?_
    rw [found] at found'
    cases found'
    exact absurd silent speaks
  have hush := stated.trans (.modify (d := (c.setState streamId next).addPending streamId m.kind m.payload 0
    m.lastFrameFlags) rfl rfl rfl rfl fun _ _ => id)
  have pushed (other : Nat) := acceptedOn_push c.book streamId
    (.init c.nextPendingId m.kind m.payload 0 m.lastFrameFlags) other
  refine ⟨fun other entry member => ?_, fun other entry member => ?_⟩
  · replace member := pushed other ▸ member
    split at member
    · rename_i same
      subst same
      rw [dropLast_concat] at member
      exact before entry member
    · rw [append_nil] at member
      exact ended.last other entry member
  · intro endStream
    replace member := pushed other ▸ member
    rcases mem_append.mp member with earlier | new
    · exact hush.spent (ended.spent other entry earlier endStream)
    split at new
    · rename_i same
      subst same
      rw [mem_singleton.mp new, PendingEntry.message_init] at endStream
      refine ⟨opened.trans (hush.lastStreamId_le other), fun s' found' => ?_⟩
      have there : (c.setState other next).streams.find other = some { s with state := next } :=
        find_modifyStream_self found _
      rw [addPending_find there] at found'
      cases found'
      exact ends endStream
    · cases new

end Conn

namespace Session

open Conn

variable {s : Session} {events : List Event}

end Session

namespace Conn

end Conn

namespace Session

open Conn

/-- A server that no stream was opened on. -/
def server : Conn := Conn.init {}

end Session

end FiberGateway.Http2
