import FiberGateway.Http2.SendLoop
import FiberGateway.Http2.Closing

namespace FiberGateway.Http2

open Relation LinearProbing Option

namespace Stream

/-- A stream whose entry at the head had a fragment cut off. -/
def sendFragment (s : Stream) (entry : PendingEntry) (bytes : Nat) : Stream :=
  { s.modifyEntry entry.id fun entry => { entry with
      payload := entry.payload.drop bytes
      inflightSends := entry.inflightSends + 1 } with
    sendWindow := match entry.kind with
      | .header => s.sendWindow
      | .data => s.sendWindow - bytes
    pending := if bytes = entry.payload.length then s.pending.tail else s.pending }

/-- A stream with a frame less on its way out, of which `bytes` payload bytes were written. -/
def landFragment (s : Stream) (entryId bytes : Nat) (result : Option IoErr) : Stream :=
  s.modifyEntry entryId fun entry => { entry with
    writtenBytes := entry.writtenBytes + bytes
    result := if entry.result = none then result else entry.result
    inflightSends := entry.inflightSends - 1 }

theorem modifyEntry_modifyEntry (s : Stream) (id : Nat) {f : PendingEntry → PendingEntry}
    (keeps : ∀ entry, (f entry).id = entry.id) (g : PendingEntry → PendingEntry) :
    (s.modifyEntry id f).modifyEntry id g = s.modifyEntry id fun entry => g (f entry) := by
  simp only [modifyEntry, List.map_map]
  congr 1
  apply List.map_congr_left
  intro entry _
  by_cases here : entry.id = id <;> simp [here, keeps]

end Stream

namespace CloseState

theorem leads_abort (state : CloseState) :
    state.Leads .abortClosing ∨ state = .closed ∧ CloseState.abortClosing = .abortClosing := by
  cases state <;> decide

theorem leads_both {state : CloseState} (running : state ≠ .abortClosing) (unclosed : state ≠ .closed) :
    state.Leads .bothDraining := by
  cases state with
  | abortClosing => exact absurd rfl running
  | closed => exact absurd rfl unclosed
  | _ => decide

theorem leads_peer (state : CloseState) :
    state.Leads (if state = .open then .peerDraining else if state = .localDraining then .bothDraining else state) ∧
      ((if state = .open then .peerDraining else if state = .localDraining then .bothDraining else state) = .closed ↔
        state = .closed) := by
  cases state <;> decide

end CloseState

namespace Conn

/-- `after` with the fields of `c` that the streams, their windows and the send queue are made of. -/
def withQuiet (c after : Conn) : Conn :=
  { after with
    options := c.options
    streams := c.streams
    lastPeerStreamId := c.lastPeerStreamId
    lastLocalStreamId := c.lastLocalStreamId
    peerActiveStreamCount := c.peerActiveStreamCount
    localPushStreamCount := c.localPushStreamCount
    connSendWindow := c.connSendWindow
    peerInitialStreamSendWindow := c.peerInitialStreamSendWindow
    sendQueue := c.sendQueue
    sending := c.sending
    connWaitStreams := c.connWaitStreams
    sendLoopRunning := c.sendLoopRunning
    lifetime := c.lifetime
    nextPendingId := c.nextPendingId
    accepted := c.accepted
    enqueued := c.enqueued
    credits := c.credits
    changes := c.changes
    staleAccess := c.staleAccess
    queuedReturn := c.queuedReturn
    unfinishedClose := c.unfinishedClose
    failedQueued := c.failedQueued }

/-- None of those fields differs, a closed send queue stays closed, and sending stops for good. -/
structure Calm (c d : Conn) : Prop where
  same : c.withQuiet d = d
  started : d.runStarted = c.runStarted
  closed : c.sendQueueClosed = true → d.sendQueueClosed = true
  stopped : c.stopSendingRequested = true → d.stopSendingRequested = true
  closes : d.stopSendingRequested = true → c.stopSendingRequested = true ∨ d.sendQueueClosed = true

/-- What ends a run: the input is at its end, or nothing holds the connection any more. -/
inductive Ends : Conn → Conn → Prop
  | input (c : Conn) : Ends c { c with stopKeepalive := true, sendQueueClosed := true }
  | run {c : Conn} (started : c.runStarted = true) (released : c.lifetime = 0) :
      Ends c { c with transportValid := false, closeState := .closed }

/-- The close state moves forward, unless a closed connection is aborted, no GOAWAY is sent, and the send queue is only
closed when sending stops or as the end of a graceful shutdown. -/
structure Quiet (c d : Conn) : Prop extends Calm c d where
  leads : c.closeState.Leads d.closeState ∨ c.closeState = .closed ∧ d.closeState = .abortClosing
  unclosed : d.closeState = .closed → c.closeState = .closed
  aborts : c.closeState = .closed → d.closeState ≠ .closed → c.stopSendingRequested = false
  goaway : d.localGoawaySent = c.localGoawaySent
  graceful : d.gracefulSendQueueCloseRequested = true → c.gracefulSendQueueCloseRequested = true ∨
    c.streams.size = 0 ∧ c.localGoawaySent = true
  shuts : d.sendQueueClosed = true → c.sendQueueClosed = true ∨ d.stopSendingRequested = true ∨
    d.gracefulSendQueueCloseRequested = true
  valid : d.transportValid = false → c.transportValid = false ∨ d.stopSendingRequested = true
  gracefully : c.gracefulSendQueueCloseRequested = true → d.gracefulSendQueueCloseRequested = true

/-- `after` with the fields of `c` that tell how far the connection is in closing as well. -/
def withClosing (c after : Conn) : Conn :=
  { c.withQuiet after with
    localGoawaySent := c.localGoawaySent
    sendQueueClosed := c.sendQueueClosed
    closeState := c.closeState
    transportValid := c.transportValid
    runStarted := c.runStarted
    gracefulSendQueueCloseRequested := c.gracefulSendQueueCloseRequested
    stopSendingRequested := c.stopSendingRequested }

variable {c d : Conn} {streamId : Nat}

theorem Quiet.rest (same : c.withClosing d = d) : Quiet c d := by
  rw [← same]
  exact ⟨⟨rfl, rfl, id, id, .inl⟩, .inl (.inl rfl), id, fun closed differs => absurd closed differs, rfl, .inl, .inl, .inl, id⟩

theorem Ends.calm (ends : Ends c d) : Calm c d := by
  cases ends with
  | input => exact ⟨rfl, rfl, fun _ => rfl, id, .inl⟩
  | run => exact ⟨rfl, rfl, id, id, .inl⟩

theorem Quiet.refl (c : Conn) : Quiet c c := .rest rfl

theorem abortConnection_quiet (c : Conn) (reason : IoErr) : Quiet c (c.abortConnection reason) := by
  unfold abortConnection
  split
  · exact .refl c
  rename_i running
  exact ⟨⟨rfl, rfl, fun _ => rfl, fun _ => rfl, fun _ => .inr rfl⟩, CloseState.leads_abort c.closeState,
    fun closed => (by cases closed), fun _ _ => by simpa using running, rfl, .inl, fun _ => .inr (.inl rfl),
    fun _ => .inr rfl, id⟩

/-- The bytes of `send_connection_preface`. -/
def prefaceBytes (options : Options) : List UInt8 :=
  let settings := appendU16 0x3 ++ appendU32 options.localMaxConcurrentStreams ++
    appendU16 0x4 ++ appendU32 (options.initialStreamSendWindow % 2 ^ 32).toNat ++
    appendU16 0x5 ++ appendU32 options.maxFrameSize
  let windowUpdate :=
    if kInitialFlowControlWindow < options.initialConnectionRecvWindow then
      encodeFrameHeader ⟨kWindowUpdatePayloadSize, .windowUpdate, 0, 0⟩ ++
        appendU31 (options.initialConnectionRecvWindow - kInitialFlowControlWindow)
    else []
  (if options.role = .client then kClientPreface else []) ++
    encodeFrameHeader ⟨settings.length, .settings, 0, 0⟩ ++ settings ++ windowUpdate

def prefaceEntry (options : Options) : SendEntry :=
  { frameHeader := none, payload := prefaceBytes options, totalBytes := (prefaceBytes options).length }

/-- The frame of `send_goaway`: a control frame has its type in its fourth byte. -/
def isGoaway (entry : SendEntry) : Bool :=
  entry.frameHeader.isNone && entry.payload[3]? == some FrameType.goaway.toByte

def goawayFrame (lastStreamId : Nat) : SendEntry :=
  controlFrame .goaway 0 0 (appendU31 lastStreamId ++ appendU32 ErrorCode.noError.toNat)

/-- The entries of the send queue that no stream owns. -/
inductive Unowned : SendEntry → Prop
  | preface (options : Options) : Unowned (prefaceEntry options)
  | frame {type : FrameType} (control : type ≠ .data ∧ type ≠ .headers ∧ type ≠ .continuation) (flags : UInt8)
      (streamId : Nat) (payload : List UInt8) : Unowned (controlFrame type flags streamId payload)

theorem Unowned.goaway (lastStreamId : Nat) : Unowned (goawayFrame lastStreamId) := .frame (by decide) _ _ _

def push (c : Conn) (entry : SendEntry) : Conn :=
  { c with sendQueue := c.sendQueue ++ [entry], enqueued := c.enqueued ++ [entry] }

/-- The kind of an entry's last change. -/
def terminalKind : Option IoErr → PendingChangeKind
  | none => .completed
  | some err => if err = .canceled then .canceled else .failed

/-- `finish_pending` up to the point where the stream may go as well. -/
def endPending (c : Conn) (streamId : Nat) (s : Stream) (entry : PendingEntry) (entryId : Nat)
    (result : Option IoErr) : Conn :=
  { (c.notify entryId (entry.change (terminalKind result) 0 result)).modifyStream streamId
      (·.removeActivePending entryId) with
    queuedReturn := c.queuedReturn || entryId ∈ s.pending }

/-- `erase_stream` up to the count of the peer's streams. -/
def countErased (c : Conn) (streamId : Nat) : Conn :=
  if c.isPeerStreamId streamId && c.peerActiveStreamCount ≠ 0 then
    { c with peerActiveStreamCount := c.peerActiveStreamCount - 1 } else c

/-- An empty table no longer holds the connection. -/
def releaseLast (c : Conn) : Conn := if c.streams.size = 0 then { c with lifetime := c.lifetime - 1 } else c

/-- `erase_stream` without the check that ends a graceful shutdown. -/
def dropStream (c : Conn) (streamId : Nat) : Conn :=
  (countErased { c.unlinkWaiting streamId with streams := c.streams.erase streamId } streamId).releaseLast

theorem countErased_eq (c : Conn) (streamId : Nat) :
    c.countErased streamId = { c with
      peerActiveStreamCount := if c.isPeerStreamId streamId then c.peerActiveStreamCount - 1
        else c.peerActiveStreamCount } := by
  unfold countErased
  cases c.isPeerStreamId streamId
  · rfl
  by_cases none_left : c.peerActiveStreamCount = 0
  · have same : c.peerActiveStreamCount - 1 = c.peerActiveStreamCount := by omega
    rw [if_neg (by simp [none_left]), if_pos rfl, same]
  · simp [none_left]

theorem dropStream_eq (c : Conn) (streamId : Nat) :
    c.dropStream streamId = { c with
      streams := c.streams.erase streamId
      connWaitStreams := c.connWaitStreams.erase streamId
      peerActiveStreamCount := if c.isPeerStreamId streamId then c.peerActiveStreamCount - 1
        else c.peerActiveStreamCount
      lifetime := if (c.streams.erase streamId).size = 0 then c.lifetime - 1 else c.lifetime } := by
  rw [dropStream, countErased_eq]
  unfold releaseLast
  dsimp only
  split <;> rfl

theorem fragmentBytes_le (c : Conn) (s : Stream) (entry : PendingEntry) :
    c.fragmentBytes s entry ≤ entry.payload.length := by
  unfold fragmentBytes
  cases entry.kind <;> simp

/-- The cut of a frame off an entry, before it is put on the send queue. -/
def splitEntry (c : Conn) (streamId : Nat) (entry : PendingEntry) (bytes : Nat) : Conn :=
  c.modifyStream streamId (·.modifyEntry entry.id fun entry => { entry with payload := entry.payload.drop bytes })

/-- A fragment that the send queue took. -/
def sentFragment (c : Conn) (streamId : Nat) (entry : PendingEntry) (bytes : Nat) : Conn :=
  let c := ((c.splitEntry streamId entry bytes).push (fragment streamId entry bytes)).chargeFragment streamId entry bytes
  if bytes = entry.payload.length then c.modifyStream streamId Stream.popPendingHead else c

theorem sentFragment_eq (c : Conn) (streamId : Nat) (entry : PendingEntry) (bytes : Nat) :
    c.sentFragment streamId entry bytes = { c.push (fragment streamId entry bytes) with
      streams := c.streams.modify streamId (·.sendFragment entry bytes)
      connSendWindow := match entry.kind with
        | .header => c.connSendWindow
        | .data => c.connSendWindow - bytes
      changes := c.changes ++ [(entry.id, entry.change .scheduled bytes none)] } := by
  have merged (s : Stream) : (s.modifyEntry entry.id fun entry => { entry with
      payload := entry.payload.drop bytes }).modifyEntry entry.id (fun entry => { entry with
      inflightSends := entry.inflightSends + 1 }) = s.modifyEntry entry.id fun entry => { entry with
      payload := entry.payload.drop bytes
      inflightSends := entry.inflightSends + 1 } :=
    s.modifyEntry_modifyEntry entry.id (by intro; rfl) _
  unfold sentFragment chargeFragment splitEntry push notify modifyStream Stream.sendFragment Stream.popPendingHead
  by_cases last : bytes = entry.payload.length
  · simp only [if_pos last, Table.modify_modify]
    cases entry.kind
    all_goals
      simp only [Table.modify_modify]
      congr 2
      funext s
      rw [← merged s]
      rfl
  · simp only [if_neg last, Table.modify_modify]
    cases entry.kind
    all_goals
      simp only [Table.modify_modify]
      congr 2
      funext s
      rw [← merged s]
      rfl

/-- The changes notified when `bytes` payload bytes of an entry were written. -/
def writtenChange (entry : PendingEntry) (bytes : Nat) : List (Nat × PendingChange) :=
  if bytes = 0 then []
  else [(entry.id, { entry with writtenBytes := entry.writtenBytes + bytes }.change .written bytes none)]

theorem landSend_eq (c : Conn) (streamId : Nat) (entry : PendingEntry) (bytes : Nat) (result : Option IoErr) :
    (c.recordWritten streamId entry bytes).landSend streamId entry.id result =
      { c with
        streams := c.streams.modify streamId (·.landFragment entry.id bytes result)
        changes := c.changes ++ writtenChange entry bytes
        failedQueued := c.failedQueued || (result.isSome && c.queues streamId entry.id) } := by
  have queue : (c.recordWritten streamId entry bytes).queues streamId entry.id = c.queues streamId entry.id := by
    unfold recordWritten
    split
    · rfl
    · simp only [queues, notify, find_modifyStream, if_pos]
      cases c.streams.find streamId <;> rfl
  unfold landSend
  rw [queue]
  unfold recordWritten writtenChange
  by_cases none_written : bytes = 0
  · simp only [if_pos none_written, List.append_nil]
    subst none_written
    rfl
  · simp only [if_neg none_written, notify, modifyStream, Table.modify_modify]
    congr 2
    funext s
    exact s.modifyEntry_modifyEntry entry.id (by intro; rfl) _

/-- A new entry at the end of a stream's queue. -/
def addPending (c : Conn) (streamId : Nat) (kind : PendingKind) (payload : List UInt8)
    (firstFrameFlags lastFrameFlags : UInt8) : Conn :=
  let entry := PendingEntry.init c.nextPendingId kind payload firstFrameFlags lastFrameFlags
  { c with nextPendingId := c.nextPendingId + 1, accepted := c.accepted ++ [(streamId, entry)] }.modifyStream streamId
    (·.appendPending entry)

theorem createPeerStream_some (made : c.createPeerStream streamId = some d) :
    (c.closeState = .open ∧ c.isPeerStreamId streamId = true ∧ c.lastPeerStreamId < streamId) ∧ c.streams.find streamId = none ∧
      ∃ streams, c.streams.insert streamId (.init streamId c.peerInitialStreamSendWindow) = some streams ∧
        d = { c with
          streams := streams
          lifetime := if c.streams.size = 0 then c.lifetime + 1 else c.lifetime
          lastPeerStreamId := streamId
          peerActiveStreamCount := c.peerActiveStreamCount + 1 } := by
  unfold createPeerStream insertStream at made
  split at made
  · cases made
  rename_i accepted
  simp only [canAcceptPeerStream, Bool.or_eq_true, not_or, Bool.not_eq_true, Bool.not_eq_false', isSome_eq_false_iff,
    isNone_iff_eq_none, Bool.and_eq_true, decide_eq_true_eq] at accepted
  split at made
  · cases made
  rename_i streams inserted
  cases made
  exact ⟨⟨accepted.1.1.1.1, accepted.1.1.1.2, accepted.1.1.2⟩, accepted.2, streams, inserted, rfl⟩

theorem createLocalStream_some (made : c.createLocalStream streamId = some d) :
    (c.closeState = .open ∧ c.isLocalStreamId streamId = true ∧ c.lastLocalStreamId < streamId) ∧ c.streams.find streamId = none ∧
      ∃ streams, c.streams.insert streamId (.init streamId c.peerInitialStreamSendWindow) = some streams ∧
        d = { c with
          streams := streams
          lifetime := if c.streams.size = 0 then c.lifetime + 1 else c.lifetime
          lastLocalStreamId := streamId } := by
  unfold createLocalStream insertStream at made
  split at made
  · cases made
  rename_i accepted
  simp only [canCreateLocalStream, Bool.or_eq_true, not_or, Bool.not_eq_true, Bool.not_eq_false', isSome_eq_false_iff,
    isNone_iff_eq_none, Bool.and_eq_true, decide_eq_true_eq] at accepted
  split at made
  · cases made
  rename_i streams inserted
  cases made
  exact ⟨⟨accepted.1.1.1.1.1.1.1, accepted.1.1.1.2, accepted.1.1.2⟩, accepted.2, streams, inserted, rfl⟩

/-- The pending entry `entryId` of the stream `streamId`. -/
def lookup (c : Conn) (streamId entryId : Nat) : Option PendingEntry := (c.streams.find streamId).bind (·.entry entryId)

/-- The send queue takes entries. -/
structure Opened (c : Conn) : Prop where
  started : c.runStarted = true
  valid : c.transportValid = true
  running : c.stopSendingRequested = false
  unclosed : c.sendQueueClosed = false

/-- What a connection is made to do outside the scheduler and the send loop, one thing at a time. -/
inductive Atom : Conn → Conn → Prop
  | quiet {c d : Conn} (rest : Quiet c d) : Atom c d
  | touch {c : Conn} (late : c.unfinishedClose = true) : Atom c c.touchErased
  | control {c : Conn} {entry : SendEntry} (unowned : Unowned entry) (plain : isGoaway entry = false) (opened : c.Opened) :
      Atom c (c.push entry)
  | announce {c : Conn} (next : CloseState) (opened : c.Opened)
      (first : c.localGoawaySent = false ∨ c.closeState = .open ∨ c.closeState = .peerDraining)
      (leads : c.closeState.Leads next) (drains : next = .localDraining ∨ next = .bothDraining) :
      Atom c { c.push (goawayFrame c.localGoawayLastStreamId) with
        localGoawaySent := true
        stopKeepalive := true
        closeState := next }
  | finish {c : Conn} {streamId entryId : Nat} {s : Stream} {entry : PendingEntry} (result : Option IoErr)
      (found : c.streams.find streamId = some s) (there : s.entry entryId = some entry)
      (idle : entry.inflightSends = 0)
      (whole : result = none → entry.payload = [] ∧ entry.writtenBytes = entry.totalBytes)
      (cause : s.pending = [] ∨ entry.result = result ∧ (entryId ∈ s.pending → entry.totalBytes ≠ 0)) :
      Atom c (c.endPending streamId s entry entryId result)
  | erase {c : Conn} {streamId : Nat} {s : Stream} (found : c.streams.find streamId = some s)
      (closed : s.state = .closed) (unqueued : s.pending = []) (ended : s.entries = []) : Atom c (c.dropStream streamId)
  | fail {c : Conn} {streamId entryId : Nat} {s : Stream} {entry : PendingEntry} (err : IoErr)
      (found : c.streams.find streamId = some s) (there : s.entry entryId = some entry) (unqueued : s.pending = [])
      (busy : entry.inflightSends ≠ 0) (clean : entry.result = none) :
      Atom c (c.modifyStream streamId (·.modifyEntry entryId fun entry => { entry with result := some err }))
  | state {c : Conn} {streamId : Nat} {s : Stream} (next : StreamState) (found : c.streams.find streamId = some s)
      (running : s.state ≠ .closed) (silent : s.state.Silent → next.Silent) : Atom c (c.setState streamId next)
  | close {c : Conn} {streamId : Nat} {s : Stream} (found : c.streams.find streamId = some s) :
      Atom c (c.beginClose streamId)
  | link {c : Conn} {streamId : Nat} {s : Stream} (found : c.streams.find streamId = some s)
      (blocked : c.blockedByConnWindow s = true) : Atom c (c.linkWaiting streamId)
  | unlink (c : Conn) (streamId : Nat) : Atom c (c.unlinkWaiting streamId)
  | credit {c : Conn} {increment : Nat} (fits : c.connSendWindow + increment ≤ kMaxFlowControlWindow) :
      Atom c { c with
        credits := c.credits ++ [(0, increment)]
        connSendWindow := c.connSendWindow + increment }
  | streamCredit {c : Conn} {streamId increment : Nat} {s : Stream} (found : c.streams.find streamId = some s)
      (nonzero : streamId ≠ 0) (fits : s.sendWindow + increment ≤ kMaxFlowControlWindow) :
      Atom c ({ c with credits := c.credits ++ [(streamId, increment)] }.modifyStream streamId
        fun s => { s with sendWindow := s.sendWindow + increment })
  | insertPeer {c d : Conn} {streamId : Nat} (made : c.createPeerStream streamId = some d) : Atom c d
  | insertLocal {c d : Conn} {streamId : Nat} (made : c.createLocalStream streamId = some d) : Atom c d

/-- The scheduler at work on the entry at the head of a stream's queue. -/
inductive Cut : Conn → Conn → Prop
  | atom {c d : Conn} (atom : Atom c d) : Cut c d
  | fragment {c : Conn} {streamId : Nat} {s : Stream} {entry : PendingEntry}
      (found : c.streams.find streamId = some s) (head : s.pendingHead = some entry)
      (positive : 0 < c.fragmentBytes s entry) (opened : c.Opened) :
      Cut c (c.sentFragment streamId entry (c.fragmentBytes s entry))
  | lost {c : Conn} {streamId : Nat} {s : Stream} {entry : PendingEntry}
      (found : c.streams.find streamId = some s) (head : s.pendingHead = some entry) (bytes : Nat) (err : IoErr)
      (shut : ((c.splitEntry streamId entry bytes).abortConnection err).sendQueueClosed = true) :
      Cut c ((c.splitEntry streamId entry bytes).abortConnection err)
  | pop {c : Conn} {streamId : Nat} {s : Stream} {entry : PendingEntry}
      (found : c.streams.find streamId = some s) (head : s.pendingHead = some entry) (empty : entry.payload = []) :
      Cut c (c.modifyStream streamId Stream.popPendingHead)

/-- A call of `schedule_pending` counts as one move, as nothing comes between the frames it cuts. -/
inductive Move : Conn → Conn → Prop
  | atom {c d : Conn} (atom : Atom c d) : Move c d
  | schedule {c : Conn} {streamId : Nat} (cuts : ReflTransGen Cut c (c.schedulePending streamId).2) :
      Move c (c.schedulePending streamId).2

/-- A condition on what is handed to `enqueue_pending`. -/
abbrev Allowed := PendingKind → List UInt8 → UInt8 → UInt8 → Prop

/-- A move, an entry for a stream, or a part of a change of the peer's initial window. -/
inductive Turn (ok : Allowed) : Conn → Conn → Prop
  | move {c d : Conn} (move : Move c d) : Turn ok c d
  | append {c : Conn} {streamId : Nat} {s : Stream} (found : c.streams.find streamId = some s)
      (running : s.state ≠ .closed) (active : s.active = true) {kind : PendingKind} {payload : List UInt8}
      {first last : UInt8} (allowed : ok kind payload first last) :
      Turn ok c (c.addPending streamId kind payload first last)
  | shift {c : Conn} {streamId : Nat} (delta : Int) : Turn ok c (c.modifyStream streamId
      fun s => { s with sendWindow := s.sendWindow + delta })
  | initial (c : Conn) (value : Int) : Turn ok c { c with peerInitialStreamSendWindow := value }

/-- An entry leaves the send queue, or the hands of the send loop with its last write. -/
inductive Released : Conn → SendEntry → Conn → Prop
  | queued {c : Conn} {sent : SendEntry} {rest : List SendEntry} (first : c.sendQueue = sent :: rest) :
      Released c sent { c with sendQueue := rest }
  | sending {c : Conn} {sent : SendEntry} (busy : c.sending = some sent) (n : Nat) :
      Released c { sent with writtenBytes := sent.writtenBytes + n } { c with sending := none }

/-- The send loop at work on the entry at the head of the send queue. -/
inductive Loop : Conn → Conn → Prop
  | begin (c : Conn) : Loop c { c with runStarted := true }
  | start {c : Conn} (stopped : c.sendLoopRunning = false) : Loop c { c with
      lifetime := c.lifetime + 1
      sendLoopRunning := true }
  | take {c : Conn} {sent : SendEntry} {rest : List SendEntry} (running : c.sendLoopRunning = true)
      (first : c.sendQueue = sent :: rest) (idle : c.sending = none) : Loop c { c with sendQueue := rest, sending := some sent }
  | write {c : Conn} {sent : SendEntry} (busy : c.sending = some sent) (n : Nat) :
      Loop c { c with sending := some { sent with writtenBytes := sent.writtenBytes + n } }
  | drop {c d : Conn} {sent : SendEntry} (released : Released c sent d) (unowned : sent.owner = none) : Loop c d
  | land {c d : Conn} {sent : SendEntry} {streamId entryId : Nat} {entry : PendingEntry} (released : Released c sent d)
      (owner : sent.owner = some (streamId, entryId)) (there : c.lookup streamId entryId = some entry)
      (result : Option IoErr) :
      Loop c ((d.recordWritten streamId entry sent.payloadWritten).landSend streamId entryId result)

/-- One thing that happens to a connection. -/
inductive Tick (ok : Allowed) : Conn → Conn → Prop
  | turn {c d : Conn} (turn : Turn ok c d) : Tick ok c d
  | loop {c d : Conn} (loop : Loop c d) : Tick ok c d

theorem keeps_path {α : Type*} {R : α → α → Prop} {P : α → Prop} (each : ∀ {a b : α}, R a b → P a → P b) {a b : α}
    (path : ReflTransGen R a b) (held : P a) : P b := by
  induction path with
  | refl => exact held
  | tail _ step ih => exact each step ih

end Conn

end FiberGateway.Http2
