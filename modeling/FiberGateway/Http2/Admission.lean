import FiberGateway.Http2.Lifetime
import FiberGateway.Http2.Delivery

namespace FiberGateway.Http2

open Relation LinearProbing

namespace Conn

variable {ok : Allowed} {c d : Conn} {owed : Int} {streamId limit : Nat}

/-- The options and the room in the table stay those of the constructor. -/
structure Configured (options : Options) (c : Conn) : Prop where
  unchanged : c.options = options
  table : Table.Alike (StreamTable.init (options.maxPeerConcurrentStreams + options.maxLocalPushStreams))
    c.streams

namespace Configured

variable {options : Options}

theorem init (options : Options) : Configured options (Conn.init options) := ⟨rfl, rfl, rfl⟩

section

variable (configured : Configured options c)

include configured

theorem alike (same : d.options = c.options)
    (table : Table.Alike c.streams d.streams) : Configured options d :=
  ⟨same.trans configured.unchanged, table.limit.trans configured.table.limit, table.slots.trans configured.table.slots⟩

theorem keep (same : d.options = c.options) (streams : d.streams = c.streams) : Configured options d :=
  configured.alike same (streams ▸ ⟨rfl, rfl⟩)

theorem modify {f : Stream → Stream} (same : d.options = c.options)
    (streams : d.streams = c.streams.modify streamId f) : Configured options d :=
  configured.alike same (streams ▸ .modify _ _ _)

theorem calm (rest : Calm c d) : Configured options d := by
  refine configured.keep ?_ ?_
  all_goals
    rw [← rest.same]
    rfl

theorem atom (atom : Atom c d) : Configured options d := by
  cases atom with
  | quiet rest => exact configured.calm rest.toCalm
  | touch | control | announce | unlink | credit => exact configured.keep rfl rfl
  | finish | fail | state | close | streamCredit => exact configured.modify rfl rfl
  | erase =>
    rw [dropStream_eq]
    exact configured.alike rfl (.erase _ _)
  | link =>
    unfold linkWaiting
    split
    · exact configured
    · exact configured.keep rfl rfl
  | insertPeer made =>
    obtain ⟨-, -, streams, inserted, rfl⟩ := createPeerStream_some made
    exact configured.alike rfl (.insert inserted)
  | insertLocal made =>
    obtain ⟨-, -, streams, inserted, rfl⟩ := createLocalStream_some made
    exact configured.alike rfl (.insert inserted)

end

theorem stage (stage : Stage c d) (configured : Configured options c) : Configured options d := by
  cases stage with
  | atom atom => exact configured.atom atom
  | works works =>
    have same : d.options = c.options := by
      rw [← works.same]
      rfl
    rcases works.streams with streams | ⟨streamId, f, streams, -⟩
    · exact configured.keep same streams
    · exact configured.modify same streams

end Configured

/-- There is room for a stream of the peer: by the count of its streams, and in the table, which its streams share with
those of this side. -/
def HasRoom (c : Conn) : Prop :=
  c.peerStreams.length < c.options.maxPeerConcurrentStreams ∧
    c.streams.size < c.options.maxPeerConcurrentStreams + c.options.maxLocalPushStreams

instance (c : Conn) : Decidable c.HasRoom := inferInstanceAs (Decidable (_ ∧ _))

/-- An id above those of the peer's streams is not in the table. -/
theorem Ledger.fresh (ledger : Ledger owed c) (peer : c.isPeerStreamId streamId = true)
    (later : c.lastPeerStreamId < streamId) : c.streams.find streamId = none := by
  by_contra found
  have member := Table.mem_keys.mpr (Option.isSome_iff_ne_none.mpr found)
  have bound := ledger.rising streamId member
  rw [if_neg (by simp [Ledger.not_local peer])] at bound
  omega

theorem isIdleStream_fresh (peer : c.isPeerStreamId streamId = true) (later : c.lastPeerStreamId < streamId)
    (absent : c.streams.find streamId = none) : c.isIdleStream streamId = true := by
  have nonzero : streamId ≠ 0 := by
    rintro rfl
    simp [isPeerStreamId] at peer
  simp [isIdleStream, nonzero, absent, Ledger.not_local peer, peer, later]

theorem slots_ne_nil (room : 0 < limit) : (StreamTable.init limit).slots ≠ [] := by
  have roomy := bucketCount_roomy limit
  have buckets : bucketCount limit ≠ 0 := by
    unfold bucketCount
    rw [if_neg (by omega)]
    have bound := le_nextPow2 (limit * 2)
    omega
  simpa [StreamTable.init, Table.init] using buckets

theorem createPeerStream_isSome {options : Options} (configured : Configured options c) (ledger : Ledger owed c)
    (opened : c.closeState = .open) (peer : c.isPeerStreamId streamId = true) (later : c.lastPeerStreamId < streamId) :
    (c.createPeerStream streamId).isSome ↔ c.HasRoom := by
  have absent := ledger.fresh peer later
  have accepts : c.canAcceptPeerStream streamId =
      decide (c.peerStreams.length < c.options.maxPeerConcurrentStreams) := by
    simp [canAcceptPeerStream, opened, peer, later, ledger.peers]
  have inserts (v : Stream) : (c.streams.insert streamId v).isSome ↔
      c.streams.size < c.options.maxPeerConcurrentStreams + c.options.maxLocalPushStreams := by
    rw [configured.table.insert_isSome_iff, configured.unchanged]
    constructor
    · exact fun done => done.2.1
    · exact fun room => ⟨absent, room, slots_ne_nil (Nat.zero_lt_of_lt room)⟩
  unfold createPeerStream insertStream HasRoom
  rw [accepts, absent, ← inserts (.init streamId c.peerInitialStreamSendWindow)]
  by_cases few : c.peerStreams.length < c.options.maxPeerConcurrentStreams
  · cases c.streams.insert streamId (.init streamId c.peerInitialStreamSendWindow) <;> simp [few]
  · simp [few]

/-- The stream of a HEADERS frame that opens one is there when the frame's bytes are handed on. -/
theorem deliverHeaders_found (fhr : FrameHeader) (offset : Nat) (chunk : List UInt8) {s : Stream}
    (found : c.streams.find fhr.streamId = some s) : (c.deliverHeaders fhr offset chunk).1 = none := by
  unfold deliverHeaders
  rw [found]
  dsimp only
  split
  · unfold recvFragment
    split <;> rfl
  · rfl

/-- A HEADERS frame for a new stream fails exactly when the stream cannot be created. -/
theorem consume_opening {fhr : FrameHeader} {chunk : List UInt8} (type : fhr.type = .headers)
    (complete : c.expectingContinuation = false)
    (fits : headersPrefix fhr + (if fhr.has kFlagPadded then byteAt chunk 0 else 0) ≤ fhr.length)
    (nonzero : fhr.streamId ≠ 0) (idle : c.isIdleStream fhr.streamId = true) :
    (c.consumeIncomingFramePayload fhr 0 chunk).1 =
      if (c.createPeerStream fhr.streamId).isSome then none else some .invalid := by
  have cleared (pad : Nat) : { c with incomingPadLength := pad }.isIdleStream fhr.streamId = true := idle
  have begun : ∃ pad, ∀ made, { c with incomingPadLength := pad }.createPeerStream fhr.streamId = made →
      c.beginHeaders fhr chunk = made.elim (some .invalid, { c with incomingPadLength := pad }) (none, ·) := by
    unfold beginHeaders
    dsimp only
    rw [if_neg nonzero]
    split
    · rename_i padded
      rw [if_pos padded] at fits
      refine ⟨byteAt chunk 0, fun made run => ?_⟩
      dsimp only
      rw [if_neg (Nat.not_lt.mpr fits), if_neg (by simp [complete]), if_pos (cleared _), run]
      cases made <;> rfl
    · rename_i padded
      rw [if_neg padded] at fits
      refine ⟨0, fun made run => ?_⟩
      rw [if_neg (Nat.not_lt.mpr fits), if_neg (by simp [complete]), if_pos (cleared _), run]
      cases made <;> rfl
  obtain ⟨pad, begun⟩ := begun
  unfold consumeIncomingFramePayload
  rw [if_neg (by simp [complete]), if_neg (by simp [type]), type]
  dsimp only
  rw [handleHeadersPayload, if_pos rfl, begun _ rfl, createPeerStream_pad]
  cases made : c.createPeerStream fhr.streamId with
  | none => rfl
  | some d =>
    obtain ⟨-, -, streams, inserted, rfl⟩ := createPeerStream_some made
    exact deliverHeaders_found fhr 0 chunk ((Table.find_insert inserted _).trans (if_pos rfl))

end Conn

namespace Session

open Conn

theorem run_configured (options : Options) (events : List Event) :
    ((Session.init options).run events).conn.Configured options :=
  run_stages (P := Configured options) Configured.stage (fun ends configured => configured.calm ends.calm) options (.init options) events

/-- After every run of an open connection, a HEADERS frame with a new id of the peer opens its stream exactly when the
table and the count of the peer's streams have room, and fails the connection otherwise. The limit that
`send_connection_preface` announces has no part in it. -/
theorem run_admits (options : Options) (events : List Event) (fhr : FrameHeader) (chunk : List UInt8)
    (opened : ((Session.init options).run events).conn.closeState = .open)
    (complete : ((Session.init options).run events).conn.expectingContinuation = false)
    (type : fhr.type = .headers)
    (fits : headersPrefix fhr + (if fhr.has kFlagPadded then byteAt chunk 0 else 0) ≤ fhr.length)
    (peer : ((Session.init options).run events).conn.isPeerStreamId fhr.streamId = true)
    (later : ((Session.init options).run events).conn.lastPeerStreamId < fhr.streamId) :
    ((((Session.init options).run events).conn.createPeerStream fhr.streamId).isSome ↔
        ((Session.init options).run events).conn.HasRoom) ∧
      (((Session.init options).run events).conn.consumeIncomingFramePayload fhr 0 chunk).1 =
        if ((Session.init options).run events).conn.HasRoom then none else some .invalid := by
  have configured := run_configured options events
  have ledger := run_ledger options events
  generalize ((Session.init options).run events).conn = c at *
  have created := createPeerStream_isSome configured ledger opened peer later
  have nonzero := Nat.ne_of_gt (Nat.zero_lt_of_lt later)
  refine ⟨created, ?_⟩
  rw [consume_opening type complete fits nonzero (isIdleStream_fresh peer later (ledger.fresh peer later))]
  by_cases room : c.HasRoom
  · rw [if_pos (created.mpr room), if_pos room]
  · rw [if_neg fun made => room (created.mp made), if_neg room]

/-- A server that announces two streams and takes one. -/
def narrowOptions : Options := { maxPeerConcurrentStreams := 1, localMaxConcurrentStreams := 2 }

/-- HEADERS of one byte, without the end of the stream. -/
def openingFrame (streamId : UInt8) : List UInt8 := [0, 0, 1, 1, 4, 0, 0, 0, streamId, 0x82]

def greeted : List Event := [.startRun, .receive kClientPreface]

/-- The peer has one stream of the two announced to it, and its second one fails the connection; so does its first one
when a stream of this side has the table. -/
theorem announced_refused :
    (((Session.init narrowOptions).run (greeted ++ [.receive (openingFrame 1)])).conn.closeState = .open ∧
      ((Session.init narrowOptions).run (greeted ++ [.receive (openingFrame 1)])).conn.peerStreams.length <
        narrowOptions.localMaxConcurrentStreams ∧
      ((Session.init narrowOptions).run (greeted ++ [.receive (openingFrame 1)])).conn.enqueued.map (·.payload) =
        [prefaceBytes narrowOptions] ∧
      (((Session.init narrowOptions).run (greeted ++ [.receive (openingFrame 1)])).conn.createPeerStream 3).isSome = false ∧
      ((Session.init narrowOptions).run (greeted ++ [.receive (openingFrame 1), .receive (openingFrame 3)])).conn.closeState =
        .abortClosing) ∧
    ((Session.init narrowOptions).run (greeted ++ [.createLocalStream 2])).conn.closeState = .open ∧
      ((Session.init narrowOptions).run (greeted ++ [.createLocalStream 2])).conn.peerStreams = [] ∧
      (((Session.init narrowOptions).run (greeted ++ [.createLocalStream 2])).conn.createPeerStream 1).isSome = false := by
  decide +kernel

theorem firstStream_admitted :
    (((Session.init narrowOptions).run greeted).conn.consumeIncomingFramePayload ⟨1, .headers, 4, 1⟩ 0 [0x82]).1 = none := by
  rw [(run_admits narrowOptions greeted ⟨1, .headers, 4, 1⟩ [0x82] (by decide +kernel) (by decide +kernel) rfl
    (by decide) (by decide +kernel) (by decide +kernel)).2]
  decide +kernel

end Session

end FiberGateway.Http2
