import FiberGateway.Http2.Stages

namespace FiberGateway.Http2

open Relation LinearProbing

namespace Conn

variable {ok : Allowed} {c d : Conn} {owed : Int}

/-- The streams of the peer in the table. -/
def peerStreams (c : Conn) : List Nat := c.streams.keys.filter c.isPeerStreamId

/-- The holds on the connection: the send loop, and the streams together. -/
def holds (c : Conn) : Int := (if c.sendLoopRunning then 1 else 0) + if c.streams.size = 0 then 0 else 1

/-- The counters agree with the table, up to the holds the send loop still has to give back, ids are used in rising
order, and a late access follows a stream that was closed before its entries had ended. -/
structure Ledger (owed : Int) (c : Conn) : Prop where
  unstale : c.unfinishedClose = false → c.staleAccess = false
  peers : c.peerActiveStreamCount = c.peerStreams.length
  lifetime : c.lifetime = c.holds + owed
  rising : ∀ streamId ∈ c.streams.keys,
    streamId ≤ if c.isLocalStreamId streamId then c.lastLocalStreamId else c.lastPeerStreamId

/-- What the books are compared with, but for the table. -/
def counters (c : Conn) : Options × Nat × Int × Bool × Nat × Nat :=
  (c.options, c.peerActiveStreamCount, c.lifetime, c.sendLoopRunning, c.lastPeerStreamId, c.lastLocalStreamId)

theorem isLocalStreamId_eq (same : d.options = c.options) : d.isLocalStreamId = c.isLocalStreamId := by
  funext streamId
  simp only [isLocalStreamId, same]

theorem isPeerStreamId_eq (same : d.options = c.options) : d.isPeerStreamId = c.isPeerStreamId := by
  funext streamId
  simp only [isPeerStreamId, isLocalStreamId_eq same]

namespace Ledger

theorem init (options : Options) : Ledger 0 (Conn.init options) := by
  have empty : (Conn.init options).streams.keys = [] := by
    refine List.eq_nil_iff_forall_not_mem.mpr fun streamId member => ?_
    have found := Table.mem_keys.mp member
    rw [show (Conn.init options).streams.find streamId = none from
      Table.find_init _ _ (bucketCount_roomy _) _] at found
    cases found
  refine ⟨fun _ => rfl, ?_, rfl, fun streamId member => ?_⟩
  · simp only [peerStreams, empty]
    rfl
  · rw [empty] at member
    cases member

theorem keep (ledger : Ledger owed c) (keys : d.streams.keys.Perm c.streams.keys) (same : d.counters = c.counters)
    (unstale : d.unfinishedClose = false → c.unfinishedClose = false ∧ d.staleAccess = c.staleAccess) :
    Ledger owed d := by
  simp only [counters, Prod.mk.injEq] at same
  obtain ⟨options, count, lifetime, running, lastPeer, lastLocal⟩ := same
  have size : d.streams.size = c.streams.size := by
    rw [← Table.keys_length, ← Table.keys_length, keys.length_eq]
  refine ⟨fun unmarked => ?_, ?_, ?_, fun streamId member => ?_⟩
  · obtain ⟨before, same⟩ := unstale unmarked
    rw [same]
    exact ledger.unstale before
  · rw [count, ledger.peers, peerStreams, peerStreams, isPeerStreamId_eq options]
    exact (keys.filter _).length_eq.symm
  · rw [lifetime, ledger.lifetime, holds, holds, running, size]
  · rw [isLocalStreamId_eq options, lastPeer, lastLocal]
    exact ledger.rising streamId (keys.subset member)

theorem alike (ledger : Ledger owed c) (keys : d.streams.keys.Perm c.streams.keys) (same : d.counters = c.counters)
    (marks : (d.unfinishedClose, d.staleAccess) = (c.unfinishedClose, c.staleAccess)) : Ledger owed d := by
  obtain ⟨closed, stale⟩ := Prod.mk.injEq _ _ _ _ ▸ marks
  exact ledger.keep keys same fun unmarked => ⟨closed.symm.trans unmarked, stale⟩

theorem calm (rest : Calm c d) (ledger : Ledger owed c) : Ledger owed d := by
  refine ledger.alike ?_ ?_ ?_
  all_goals rw [← rest.same]
  · exact .refl _
  · rfl
  · rfl

variable {streamId : Nat} {s : Stream} {streams : StreamTable}

theorem peerStreams_insert (made : c.streams.insert streamId s = some streams) (after : d.streams = streams)
    (options : d.options = c.options) :
    d.peerStreams.length = c.peerStreams.length + if c.isPeerStreamId streamId then 1 else 0 := by
  rw [peerStreams, peerStreams, after, isPeerStreamId_eq options,
    ((Table.keys_insert made).filter _).length_eq, List.filter_cons]
  split <;> rfl

theorem holds_insert (made : c.streams.insert streamId s = some streams) (after : d.streams = streams)
    (running : d.sendLoopRunning = c.sendLoopRunning) : d.holds = c.holds + if c.streams.size = 0 then 1 else 0 := by
  have size : d.streams.size = c.streams.size + 1 := by
    rw [after, ← Table.keys_length, ← Table.keys_length,
      (Table.keys_insert made).length_eq, List.length_cons]
  rw [holds, holds, running, size, if_neg (Nat.succ_ne_zero _)]
  split <;> split <;> rfl

theorem not_peer (here : c.isLocalStreamId streamId = true) : c.isPeerStreamId streamId = false := by
  simp [isPeerStreamId, here]

theorem not_local (there : c.isPeerStreamId streamId = true) : c.isLocalStreamId streamId = false := by
  simp only [isPeerStreamId, Bool.and_eq_true, Bool.not_eq_true'] at there
  exact there.2

section

variable (ledger : Ledger owed c)

include ledger

theorem rising_insert (made : c.streams.insert streamId s = some streams)
    (after : d.streams = streams) (options : d.options = c.options)
    (lastPeer : c.lastPeerStreamId ≤ d.lastPeerStreamId) (lastLocal : c.lastLocalStreamId ≤ d.lastLocalStreamId)
    (last : streamId ≤ if c.isLocalStreamId streamId then d.lastLocalStreamId else d.lastPeerStreamId) :
    ∀ other ∈ d.streams.keys, other ≤ if d.isLocalStreamId other then d.lastLocalStreamId else d.lastPeerStreamId := by
  intro other member
  rw [after] at member
  rw [isLocalStreamId_eq options]
  rcases List.mem_cons.mp ((Table.keys_insert made).subset member) with rfl | before
  · exact last
  have bound := ledger.rising other before
  split at bound
  · rename_i here
    rw [if_pos here]
    omega
  · rename_i there
    rw [if_neg there]
    omega

theorem insertPeer (made : c.createPeerStream streamId = some d) : Ledger owed d := by
  obtain ⟨⟨-, peer, later⟩, -, streams, inserted, same⟩ := createPeerStream_some made
  have peers := peerStreams_insert (d := d) inserted (by rw [same]) (by rw [same])
  have held := holds_insert (d := d) inserted (by rw [same]) (by rw [same])
  refine ⟨?_, ?_, ?_, ledger.rising_insert (d := d) inserted (by rw [same]) (by rw [same]) ?_ ?_ ?_⟩
  · rw [same]
    exact ledger.unstale
  · rw [peers, if_pos peer, ← ledger.peers, same]
  · have before := ledger.lifetime
    rw [held, same]
    dsimp only
    split_ifs <;> omega
  · rw [same]
    exact Nat.le_of_lt later
  · rw [same]
  · rw [if_neg (by simp [not_local peer]), same]

theorem insertLocal (made : c.createLocalStream streamId = some d) : Ledger owed d := by
  obtain ⟨⟨-, here, later⟩, -, streams, inserted, same⟩ := createLocalStream_some made
  have peers := peerStreams_insert (d := d) inserted (by rw [same]) (by rw [same])
  have held := holds_insert (d := d) inserted (by rw [same]) (by rw [same])
  refine ⟨?_, ?_, ?_, ledger.rising_insert (d := d) inserted (by rw [same]) (by rw [same]) ?_ ?_ ?_⟩
  · rw [same]
    exact ledger.unstale
  · rw [peers, if_neg (by simp [not_peer here]), ← ledger.peers, same, add_zero]
  · have before := ledger.lifetime
    rw [held, same]
    dsimp only
    split_ifs <;> omega
  · rw [same]
  · rw [same]
    exact Nat.le_of_lt later
  · rw [if_pos here, same]

theorem erase (found : c.streams.find streamId = some s) : Ledger owed (c.dropStream streamId) := by
  have keys := Table.keys_erase (Option.isSome_iff_exists.mpr ⟨s, found⟩)
  have size : c.streams.size = (c.streams.erase streamId).size + 1 := by
    rw [← Table.keys_length, ← Table.keys_length, keys.length_eq, List.length_cons]
  rw [dropStream_eq]
  refine ⟨ledger.unstale, ?_, ?_, fun other member => ?_⟩
  · have before := ledger.peers
    rw [peerStreams, (keys.filter _).length_eq, List.filter_cons] at before
    change (if c.isPeerStreamId streamId then c.peerActiveStreamCount - 1 else c.peerActiveStreamCount) =
      ((c.streams.erase streamId).keys.filter c.isPeerStreamId).length
    split_ifs at before ⊢ with peer
    · rw [List.length_cons] at before
      omega
    · exact before
  · have before := ledger.lifetime
    simp only [holds, size, Nat.succ_ne_zero, if_false] at before ⊢
    split_ifs at before ⊢ <;> omega
  · exact ledger.rising other (keys.symm.subset (List.mem_cons_of_mem _ member))

end

theorem atom (atom : Atom c d) (ledger : Ledger owed c) : Ledger owed d := by
  cases atom with
  | quiet rest => exact ledger.calm rest.toCalm
  | touch late =>
    refine ⟨fun unmarked => ?_, ledger.peers, ledger.lifetime, ledger.rising⟩
    exact absurd (late.symm.trans unmarked) (by decide)
  | control | announce | unlink | credit => exact ledger.alike (.refl _) rfl rfl
  | finish | fail | streamCredit => exact ledger.alike (Table.keys_modify _ _ _) rfl rfl
  | erase found closed unqueued ended => exact ledger.erase found
  | state | close =>
    exact ledger.keep (Table.keys_modify _ _ _) rfl fun unmarked => ⟨(Bool.or_eq_false_iff.mp unmarked).1, rfl⟩
  | link =>
    unfold linkWaiting
    split
    · exact ledger
    · exact ledger.alike (.refl _) rfl rfl
  | insertPeer made => exact ledger.insertPeer made
  | insertLocal made => exact ledger.insertLocal made

theorem cut (cut : Cut c d) (ledger : Ledger owed c) : Ledger owed d := by
  cases cut with
  | atom atom => exact ledger.atom atom
  | fragment =>
    rw [sentFragment_eq]
    exact ledger.alike (Table.keys_modify _ _ _) rfl rfl
  | lost found head bytes err shut =>
    rename_i streamId s entry
    have split : Ledger owed (c.splitEntry streamId entry bytes) :=
      ledger.alike (Table.keys_modify _ _ _) rfl rfl
    exact split.calm (abortConnection_quiet _ err).toCalm
  | pop => exact ledger.alike (Table.keys_modify _ _ _) rfl rfl

theorem turn (turn : Turn ok c d) (ledger : Ledger owed c) : Ledger owed d := by
  cases turn with
  | move move =>
    cases move with
    | atom atom => exact ledger.atom atom
    | schedule cuts => exact keeps_path (fun step ledger => ledger.cut step) cuts ledger
  | append | shift => exact ledger.alike (Table.keys_modify _ _ _) rfl rfl
  | initial => exact ledger.alike (.refl _) rfl rfl

theorem released {sent : SendEntry} (released : Released c sent d) (ledger : Ledger owed c) : Ledger owed d := by
  cases released
  all_goals exact ledger.alike (.refl _) rfl rfl

theorem loop (loop : Loop c d) (ledger : Ledger owed c) : Ledger owed d := by
  cases loop with
  | begin | take | write => exact ledger.alike (.refl _) rfl rfl
  | start stopped =>
    refine ⟨ledger.unstale, ledger.peers, ?_, ledger.rising⟩
    have before := ledger.lifetime
    simp only [holds, stopped, Bool.false_eq_true, if_false, if_true] at before ⊢
    omega
  | drop released unowned => exact ledger.released released
  | land released owner there result =>
    rename_i d sent streamId entryId entry
    have same := Stream.entry_id (lookup_found there).choose_spec.2
    subst same
    rw [landSend_eq]
    exact (ledger.released released).alike (Table.keys_modify _ _ _) rfl rfl

theorem ticks (path : ReflTransGen (Tick ok) c d) (ledger : Ledger owed c) : Ledger owed d := by
  induction path with
  | refl => exact ledger
  | tail _ step ih =>
    cases step with
    | turn turn => exact ih.turn turn
    | loop loop => exact ih.loop loop

/-- The send loop gives its hold back at the end, whatever happens after it has stopped. -/
theorem happens (happens : Happens ok c d) (ledger : Ledger 0 c) : Ledger 0 d := by
  cases happens with
  | proceeds proceeds =>
    cases proceeds with
    | ticks path => exact ledger.ticks path
    | leaves before running idle after =>
      rename_i mid last
      have stopping := ledger.ticks before
      have stopped : Ledger 1 { mid with sendLoopRunning := false } := by
        refine ⟨stopping.unstale, stopping.peers, ?_, stopping.rising⟩
        have held := stopping.lifetime
        simp only [holds, running, if_true, Bool.false_eq_true, if_false] at held ⊢
        omega
      have rest := stopped.ticks after
      refine ⟨rest.unstale, rest.peers, ?_, rest.rising⟩
      have held := rest.lifetime
      simp only [holds] at held ⊢
      omega
  | ends ends after => exact (ledger.calm ends.calm).ticks after

end Ledger

/-- The bookkeeping of the streams: no stream is used after it was erased, the counters are those of the table, no
stream id comes back, and no hold is given back that was not taken. -/
structure Bookkept (c : Conn) : Prop where
  unstale : c.staleAccess = false
  peers : c.peerActiveStreamCount = c.peerStreams.length
  lifetime : c.lifetime = c.holds
  unreleased : 0 ≤ c.lifetime
  rising : ∀ streamId ∈ c.streams.keys,
    streamId ≤ if c.isLocalStreamId streamId then c.lastLocalStreamId else c.lastPeerStreamId

/-- The streams of this side in the table. -/
def localStreams (c : Conn) : List Nat := c.streams.keys.filter c.isLocalStreamId

theorem localStreams_create {streamId : Nat} (made : c.createLocalStream streamId = some d) :
    d.localStreams.length = c.localStreams.length + 1 ∧
      d.peerAdvertisedMaxConcurrentStreams = c.peerAdvertisedMaxConcurrentStreams := by
  obtain ⟨⟨-, here, -⟩, -, streams, inserted, same⟩ := createLocalStream_some made
  refine ⟨?_, by rw [same]⟩
  rw [localStreams, localStreams, isLocalStreamId_eq (d := d) (c := c) (by rw [same]), same,
    ((Table.keys_insert inserted).filter _).length_eq, List.filter_cons, if_pos here, List.length_cons]

end Conn

namespace Session

/-- `local_push_stream_count_`, which limits the streams of this side, is never changed. -/
theorem run_pushes (options : Options) (events : List Event) :
    ((Session.init options).run events).conn.localPushStreamCount = 0 := by
  refine run_stages (P := fun c => c.localPushStreamCount = 0) (fun stage zero => ?_)
    (fun ends zero => (Conn.Feeds.calm ends.calm).pushes.trans zero) options rfl events
  cases stage with
  | atom atom => exact (Conn.Feeds.atom atom).pushes.trans zero
  | works works =>
    rw [← works.same]
    exact zero

/-- After every run, the counter that the check compares with the peer's limit is zero, and a new stream of this side
keeps the limit exactly when there was room for it. -/
theorem createLocalStream_limited (options : Options) (events : List Event) (streamId : Nat) (d : Conn)
    (made : ((Session.init options).run events).conn.createLocalStream streamId = some d) :
    ((Session.init options).run events).conn.localPushStreamCount = 0 ∧
      (d.localStreams.length ≤ d.peerAdvertisedMaxConcurrentStreams ↔
        ((Session.init options).run events).conn.localStreams.length <
          ((Session.init options).run events).conn.peerAdvertisedMaxConcurrentStreams) := by
  obtain ⟨grown, limit⟩ := Conn.localStreams_create made
  refine ⟨run_pushes options events, ?_⟩
  rw [grown, limit]
  exact Nat.succ_le_iff

theorem run_ledger (options : Options) (events : List Event) : Conn.Ledger 0 ((Session.init options).run events).conn :=
  (run_induction (s := Session.init options) (P := Conn.Ledger 0) (fun _ happens ledger => ledger.happens happens)
    (.init options) (.init options) (meets_any events)).2

/-- A run in which no stream is closed before its entries have ended keeps the books. -/
theorem run_bookkept (options : Options) (events : List Event)
    (finished : ((Session.init options).run events).conn.unfinishedClose = false) :
    ((Session.init options).run events).conn.Bookkept := by
  have ledger := run_ledger options events
  have lifetime : ((Session.init options).run events).conn.lifetime =
      ((Session.init options).run events).conn.holds := by
    rw [ledger.lifetime, add_zero]
  refine ⟨ledger.unstale finished, ledger.peers, lifetime, ?_, ledger.rising⟩
  rw [lifetime, Conn.holds]
  split_ifs <;> omega

/-- A client whose table has room for one stream. -/
def clientOptions : Options := { role := .client, maxPeerConcurrentStreams := 1 }

/-- A request without a body, and the response to it, which ends the stream. -/
def request : List Event := [.startRun, .createLocalStream 1, .sendHeader 1 [0x82] true]

def response : List UInt8 := [0, 0, 1, 1, 5, 0, 0, 0, 1, 0x88]

/-- The send loop writes the connection preface and the request. -/
def writes : List Event := [.pollToSend, .written 64, .pollToSend, .written 9, .written 1]

/-- The response arrives before the request is written: the completion of the request uses the stream it erased. -/
theorem responseFirst_stale :
    ((Session.init clientOptions).run (request ++ [.receive response] ++ writes)).conn.staleAccess = true := by
  decide +kernel

/-- SETTINGS_MAX_CONCURRENT_STREAMS = 1. -/
def oneStream : List UInt8 := [0, 0, 6, 4, 0, 0, 0, 0, 0, 0, 3, 0, 0, 0, 1]

def pairOptions : Options := { role := .client, maxPeerConcurrentStreams := 2 }

/-- A second stream is created though the peer allows one. -/
theorem secondStream_exceeds :
    (((Session.init pairOptions).run [.startRun, .receive oneStream, .createLocalStream 1]).conn.createLocalStream 3).map
      (fun d => (d.localStreams.length, d.peerAdvertisedMaxConcurrentStreams)) = some (2, 1) := by
  decide +kernel

theorem requestFirst_bookkept :
    ((Session.init clientOptions).run (request ++ writes ++ [.receive response])).conn.streams.size = 0 ∧
      ((Session.init clientOptions).run (request ++ writes ++ [.receive response])).conn.Bookkept :=
  ⟨by decide +kernel, run_bookkept clientOptions (request ++ writes ++ [.receive response]) (by decide +kernel)⟩

theorem firstStream_limited :
    ∃ d, ((Session.init pairOptions).run [.startRun]).conn.createLocalStream 1 = some d ∧
      d.localStreams.length ≤ d.peerAdvertisedMaxConcurrentStreams := by
  have created : (((Session.init pairOptions).run [.startRun]).conn.createLocalStream 1).isSome := by decide +kernel
  have made := (Option.some_get created).symm
  exact ⟨_, made, (createLocalStream_limited pairOptions [.startRun] 1 _ made).2.mpr (by decide +kernel)⟩

end Session

end FiberGateway.Http2
