import FiberGateway.Http2.Lifetime

namespace FiberGateway.Http2

open List Relation LinearProbing Option

namespace CloseState

variable {a b d : CloseState}

theorem Leads.trans (first : a.Leads b) (second : b.Leads d) : a.Leads d := by
  rcases first with rfl | less
  · exact second
  rcases second with rfl | more
  · exact .inr less
  · exact .inr (less.trans more)

theorem Leads.announced (leads : a.Leads b) (announced : a ≠ .open ∧ a ≠ .peerDraining) : b ≠ .open ∧ b ≠ .peerDraining := by
  cases a <;> cases b <;> simp_all [Leads, rank]

theorem Leads.left_open (leads : a.Leads b) (moved : a ≠ .open) : b ≠ .open := by
  cases a <;> cases b <;> simp_all [Leads, rank]

theorem Leads.abort (leads : CloseState.abortClosing.Leads a) (unclosed : a ≠ .closed) : a = .abortClosing := by
  cases a <;> simp_all [Leads, rank]

theorem leads_closed (a : CloseState) : a.Leads .closed := by
  cases a <;> decide

theorem not_leads_closed_abort : ¬CloseState.closed.Leads .abortClosing := by decide

end CloseState

namespace Conn

variable {ok : Allowed} {c d e : Conn} {streamId : Nat}

/-- The GOAWAY frames put on the send queue. -/
def goaways (c : Conn) : Nat := c.enqueued.countP isGoaway

/-- How far a connection is in closing agrees with the GOAWAY it has sent. -/
structure Drained (c : Conn) : Prop where
  once : c.goaways = if c.localGoawaySent then 1 else 0
  announced : c.localGoawaySent = true → c.closeState ≠ .open ∧ c.closeState ≠ .peerDraining
  finished : c.gracefulSendQueueCloseRequested = true → c.streams.size = 0 ∧ c.localGoawaySent = true

namespace Drained

theorem init (options : Options) : Drained (Conn.init options) :=
  ⟨rfl, nofun, nofun⟩

/-- Nothing is said about the state, and the table does not grow. -/
theorem keep (drained : Drained c) (goaways : d.goaways = c.goaways) (sent : d.localGoawaySent = c.localGoawaySent)
    (state : d.closeState = c.closeState)
    (graceful : d.gracefulSendQueueCloseRequested = c.gracefulSendQueueCloseRequested)
    (size : c.streams.size = 0 → d.streams.size = 0) : Drained d := by
  refine ⟨by rw [goaways, sent]; exact drained.once, fun said => ?_, fun finished => ?_⟩
  · rw [sent] at said
    rw [state]
    exact drained.announced said
  · rw [graceful] at finished
    rw [sent]
    exact ⟨size (drained.finished finished).1, (drained.finished finished).2⟩

theorem quiet (drained : Drained c) (rest : Quiet c d) : Drained d := by
  have streams : d.streams = c.streams := by rw [← rest.same]; rfl
  have enqueued : d.enqueued = c.enqueued := by rw [← rest.same]; rfl
  refine ⟨by rw [goaways, enqueued, rest.goaway]; exact drained.once, fun said => ?_, fun finished => ?_⟩
  · rw [rest.goaway] at said
    have before := drained.announced said
    rcases rest.leads with leads | ⟨closed, aborted⟩
    · exact leads.announced before
    · rw [aborted]
      decide
  · rw [streams, rest.goaway]
    rcases rest.graceful finished with finished | empty
    · exact drained.finished finished
    · exact empty

theorem ends (ends : Ends c d) (drained : Drained c) : Drained d := by
  cases ends with
  | input => exact ⟨drained.once, drained.announced, drained.finished⟩
  | run => exact ⟨drained.once, fun _ => ⟨nofun, nofun⟩, drained.finished⟩

/-- A stream is only made while the connection is open, when no shutdown can have been finished. -/
theorem insert (drained : Drained c) (opened : c.closeState = .open)
    (same : d.enqueued = c.enqueued ∧ d.localGoawaySent = c.localGoawaySent ∧ d.closeState = c.closeState ∧
      d.gracefulSendQueueCloseRequested = c.gracefulSendQueueCloseRequested) : Drained d := by
  obtain ⟨enqueued, sent, state, graceful⟩ := same
  have silent : c.localGoawaySent = false := by
    by_contra said
    exact (drained.announced (by simpa using said)).1 opened
  refine ⟨by rw [goaways, enqueued, sent]; exact drained.once, fun said => ?_, fun finished => ?_⟩
  · rw [sent, silent] at said
    cases said
  · rw [graceful] at finished
    have said := (drained.finished finished).2
    rw [silent] at said
    cases said

theorem atom (drained : Drained c) (atom : Atom c d) : Drained d := by
  cases atom with
  | quiet rest => exact drained.quiet rest
  | touch | unlink | credit | finish | fail | state | close | streamCredit => exact drained.keep rfl rfl rfl rfl id
  | control unowned plain opened =>
    refine drained.keep ?_ rfl rfl rfl id
    simp [goaways, push, countP_append, plain]
  | announce next opened first leads drains =>
    have silent : c.localGoawaySent = false := by
      rcases first with silent | before
      · exact silent
      by_contra said
      have announced := drained.announced (by simpa using said)
      exact before.elim announced.1 announced.2
    have before := drained.once
    rw [silent, if_neg Bool.false_ne_true] at before
    refine ⟨?_, fun _ => ?_, fun finished => ⟨(drained.finished finished).1, rfl⟩⟩
    · have sent : isGoaway (goawayFrame c.localGoawayLastStreamId) = true := by rfl
      simp only [goaways, push, countP_append, countP_singleton, sent, if_true]
      rw [goaways] at before
      rw [before]
    · rcases drains with rfl | rfl <;> exact ⟨fun same => (by cases same), fun same => (by cases same)⟩
  | erase found =>
    rename_i streamId s closed unqueued ended
    rw [dropStream_eq]
    refine drained.keep rfl rfl rfl rfl fun empty => ?_
    have member := Table.mem_keys.mpr (isSome_iff_exists.mpr ⟨s, found⟩)
    rw [length_eq_zero_iff.mp ((Table.keys_length _).trans empty)] at member
    cases member
  | link =>
    unfold linkWaiting
    split
    · exact drained
    · exact drained.keep rfl rfl rfl rfl id
  | insertPeer made =>
    obtain ⟨accepted, -, streams, inserted, rfl⟩ := createPeerStream_some made
    exact drained.insert accepted.1 ⟨rfl, rfl, rfl, rfl⟩
  | insertLocal made =>
    obtain ⟨accepted, -, streams, inserted, rfl⟩ := createLocalStream_some made
    exact drained.insert accepted.1 ⟨rfl, rfl, rfl, rfl⟩

theorem works (drained : Drained c) (works : Works c d) : Drained d := by
  have same := works.same
  refine drained.keep ?_ (by rw [← same]; rfl) (by rw [← same]; rfl) (by rw [← same]; rfl) fun empty => ?_
  · rcases works.enqueued with enqueued | ⟨entry, header, enqueued⟩
    · rw [goaways, enqueued]
      rfl
    · have plain : isGoaway entry = false := by
        cases bytes : entry.frameHeader with
        | none => simp [bytes] at header
        | some fhr => simp [isGoaway, bytes]
      simp [goaways, enqueued, countP_append, plain]
  · rcases works.streams with streams | ⟨streamId, f, streams, -⟩
    · rw [streams]
      exact empty
    · rw [streams]
      exact empty

theorem stage (stage : Stage c d) (drained : Drained c) : Drained d := by
  cases stage with
  | atom atom => exact drained.atom atom
  | works works => exact drained.works works

theorem stages (path : ReflTransGen Stage c d) (drained : Drained c) : Drained d :=
  keeps_path (fun step drained => drained.stage step) path drained

theorem happens (happens : Happens ok c d) (drained : Drained c) : Drained d := by
  obtain ⟨mid, ended, path⟩ := happens.stages
  cases ended with
  | refl => exact drained.stages path
  | single ended => exact (drained.ends ended).stages path

theorem chain {cs : List Conn} (chain : (c :: cs).IsChain (ReflTransGen Stage)) (drained : Drained c) :
    ∀ d ∈ c :: cs, Drained d := by
  induction cs generalizing c with
  | nil =>
    intro d member
    rw [mem_singleton.mp member]
    exact drained
  | cons next cs ih =>
    obtain ⟨path, rest⟩ := isChain_cons_cons.mp chain
    intro d member
    rcases mem_cons.mp member with rfl | later
    · exact drained
    · exact ih rest (drained.stages path) d later

end Drained

/-- Nothing holds the connection: there is no stream, and the send loop has left. -/
theorem Ledger.unheld (ledger : Ledger 0 c) (released : c.lifetime = 0) :
    c.streams.size = 0 ∧ c.sendLoopRunning = false := by
  have held := ledger.lifetime
  rw [released, holds] at held
  constructor
  · by_contra filled
    split_ifs at held <;> omega
  · by_contra running
    rw [if_pos (by simpa using running)] at held
    split_ifs at held <;> omega

/-- The close state moves forward, unless a closed connection is aborted, is not closed by anything but the end of a run, and no stream comes once it
has left `open`. -/
structure Advances (c d : Conn) : Prop where
  leads : c.closeState.Leads d.closeState ∨ c.closeState = .closed ∧ d.closeState = .abortClosing
  unclosed : d.closeState = .closed → c.closeState = .closed
  keys : c.closeState ≠ .open → ∀ streamId, (d.streams.find streamId).isSome → (c.streams.find streamId).isSome

namespace Advances

theorem keep (state : d.closeState = c.closeState)
    (streams : ∀ streamId, (d.streams.find streamId).isSome → (c.streams.find streamId).isSome) : Advances c d :=
  ⟨.inl (.inl state.symm), fun closed => state.symm.trans closed, fun _ => streams⟩

theorem refl (c : Conn) : Advances c c := keep rfl fun _ => id

theorem left_open (advances : Advances c d) (moved : c.closeState ≠ .open) : d.closeState ≠ .open := by
  rcases advances.leads with leads | ⟨-, aborted⟩
  · exact leads.left_open moved
  · rw [aborted]
    decide

theorem trans (first : Advances c d) (second : Advances d e) : Advances c e := by
  refine ⟨?_, fun closed => first.unclosed (second.unclosed closed), fun moved streamId there =>
    first.keys moved streamId (second.keys (first.left_open moved) streamId there)⟩
  rcases second.leads with leads | ⟨closed, aborted⟩
  · rcases first.leads with before | ⟨closed, aborted⟩
    · exact .inl (before.trans leads)
    · rw [aborted] at leads
      refine .inr ⟨closed, leads.abort fun last => ?_⟩
      have before := second.unclosed last
      rw [aborted] at before
      cases before
  · exact .inr ⟨first.unclosed closed, aborted⟩

theorem modify {f : Stream → Stream} (state : d.closeState = c.closeState)
    (streams : d.streams = c.streams.modify streamId f) : Advances c d := by
  refine keep state fun other there => ?_
  rw [streams, Table.find_modify] at there
  split at there
  · rwa [isSome_map] at there
  · exact there

theorem quiet (rest : Quiet c d) : Advances c d := by
  have streams : d.streams = c.streams := by rw [← rest.same]; rfl
  exact ⟨rest.leads, rest.unclosed, fun _ _ there => streams ▸ there⟩

theorem insert (opened : c.closeState = .open) (state : d.closeState = c.closeState) : Advances c d :=
  ⟨.inl (.inl state.symm), fun closed => state.symm.trans closed, fun moved => absurd opened moved⟩

theorem atom (atom : Atom c d) : Advances c d := by
  cases atom with
  | quiet rest => exact quiet rest
  | touch | control | unlink | credit => exact keep rfl fun _ => id
  | announce next opened first leads drains =>
    refine ⟨.inl leads, fun closed => ?_, fun _ _ => id⟩
    rcases drains with rfl | rfl <;> cases closed
  | finish | fail | state | close | streamCredit => exact modify rfl rfl
  | erase =>
    rw [dropStream_eq]
    refine keep rfl fun other there => ?_
    rw [Table.find_erase] at there
    split at there
    · cases there
    · exact there
  | link =>
    unfold linkWaiting
    split
    · exact refl c
    · exact keep rfl fun _ => id
  | insertPeer made =>
    obtain ⟨accepted, -, streams, inserted, rfl⟩ := createPeerStream_some made
    exact insert accepted.1 rfl
  | insertLocal made =>
    obtain ⟨accepted, -, streams, inserted, rfl⟩ := createLocalStream_some made
    exact insert accepted.1 rfl

theorem stage (stage : Stage c d) : Advances c d := by
  cases stage with
  | atom atom' => exact atom atom'
  | works works =>
    have state : d.closeState = c.closeState := by rw [← works.same]; rfl
    rcases works.streams with streams | ⟨streamId, f, streams, -⟩
    · exact keep state fun _ there => streams ▸ there
    · exact modify state streams

theorem stages (path : ReflTransGen Stage c d) : Advances c d := by
  induction path with
  | refl => exact refl c
  | tail _ step ih => exact ih.trans (stage step)

end Advances

/-- No stream comes between two points of a run once the connection has left `open`. -/
def Withheld (c d : Conn) : Prop :=
  c.closeState ≠ .open → d.closeState ≠ .open ∧
    ∀ streamId, (d.streams.find streamId).isSome → (c.streams.find streamId).isSome

theorem Withheld.trans (first : Withheld c d) (second : Withheld d e) : Withheld c e := fun moved =>
  ⟨(second (first moved).1).1, fun streamId there => (first moved).2 streamId ((second (first moved).1).2 streamId there)⟩

theorem Advances.withheld (advances : Advances c d) : Withheld c d := fun moved =>
  ⟨advances.left_open moved, advances.keys moved⟩

/-- A path of a connection that is not closed leads forward. -/
theorem Advances.chain {cs : List Conn} (chain : (c :: cs).IsChain Advances) (unclosed : c.closeState ≠ .closed) :
    (c :: cs).IsChain fun c d => c.closeState.Leads d.closeState := by
  induction cs generalizing c with
  | nil => exact .singleton c
  | cons d cs ih =>
    obtain ⟨step, rest⟩ := isChain_cons_cons.mp chain
    refine isChain_cons_cons.mpr ⟨step.leads.resolve_right fun closed => unclosed closed.1, ih rest fun closed => ?_⟩
    exact unclosed (step.unclosed closed)

end Conn

namespace Reader

/-- The connection after each round of the inner loop. -/
def visits : Nat → Reader → List Conn
  | 0, _ => []
  | fuel + 1, r =>
    match r.parseStep with
    | .wait => []
    | .next r => r.conn :: visits fuel r
    | .fail _ c => [c]

theorem visits_chain (fuel : Nat) {r : Reader} (sound : r.conn.Sound) :
    (r.conn :: r.visits fuel).IsChain (ReflTransGen Conn.Stage) ∧
      (r.conn :: r.visits fuel).getLast? = some (outcome (r.parse fuel)) := by
  induction fuel generalizing r with
  | zero => exact ⟨.singleton _, rfl⟩
  | succ fuel ih =>
    have stepped : ReflTransGen (Conn.Turn fun _ _ _ _ => True) _ _ := parseStep_turns sound
    have path := Conn.ticks_stages (Conn.turns_ticks stepped)
    unfold visits parse
    generalize r.parseStep = step at stepped path
    cases step with
    | wait => exact ⟨.singleton _, rfl⟩
    | next next =>
      obtain ⟨chain, last⟩ := ih (sound.turns stepped)
      exact ⟨isChain_cons_cons.mpr ⟨path, chain⟩, by rw [List.getLast?_cons_cons]; exact last⟩
    | fail err c => exact ⟨isChain_cons_cons.mpr ⟨path, .singleton c⟩, rfl⟩

end Reader

def Event.isShutdown : Event → Bool
  | .shutdown _ => true
  | _ => false

namespace Session

open Conn

variable {s : Session}

/-- The connection between the frames of one read. -/
def visits (s : Session) : Event → List Conn
  | .receive bytes =>
    if s.reading ∧ bytes ≠ [] then
      ({ s.reader with buf := s.reader.buf ++ bytes } : Reader).visits
        ({ s.reader with buf := s.reader.buf ++ bytes } : Reader).parseFuel
    else []
  | _ => []

/-- The connection at every point of a run. -/
def trail (s : Session) : List Event → List Conn
  | [] => [s.conn]
  | event :: events => (s.conn :: s.visits event) ++ (s.step event).trail events

/-- What holds between two events. -/
structure Kept (s : Session) : Prop where
  ready : s.conn.Ready
  ledger : Ledger 0 s.conn
  drained : Drained s.conn
  rested : s.conn.closeState = .closed → s.reading = false ∧ s.conn.runStarted = true ∧ s.conn.streams.size = 0 ∧
    s.conn.sendLoopRunning = false

theorem Kept.init (options : Options) : Kept (Session.init options) :=
  ⟨.init options, .init options, .init options, nofun⟩

theorem find_empty {c : Conn} (empty : c.streams.size = 0) (streamId : Nat) : c.streams.find streamId = none := by
  by_contra found
  have member := Table.mem_keys.mpr (isSome_iff_ne_none.mpr found)
  rw [length_eq_zero_iff.mp ((Table.keys_length _).trans empty)] at member
  cases member

section

variable (kept : Kept s)

include kept

theorem Kept.step_closed (closed : s.conn.closeState = .closed) {event : Event}
    (other : event ≠ .join) (spared : event.isShutdown = false) : s.step event = s := by
  obtain ⟨unread, started, empty, stopped⟩ := kept.rested closed
  have idle : s.conn.sending = none := by
    by_contra held
    have running := kept.ready.held (isSome_iff_ne_none.mpr held)
    rw [stopped] at running
    cases running
  have stream (streamId : Nat) (call : Conn → Option IoErr × Conn) : s.onStream streamId call = s := by
    simp [onStream, find_empty empty]
  cases event with
  | startRun => simp [step, startRun, started]
  | receive bytes => simp [step, receive, unread]
  | endInput failed => simp [step, endInput, unread]
  | pollToSend => simp [step, pollToSend, stopped]
  | written n => simp [step, written, idle]
  | writeFailed err => simp [step, writeFailed, idle]
  | pollTimedOut => simp [step, pollTimedOut, stopped]
  | join => exact absurd rfl other
  | createLocalStream streamId =>
    have refused : s.conn.createLocalStream streamId = none := by simp [createLocalStream, canCreateLocalStream, closed]
    simp only [step, refused]
    rfl
  | enqueuePending | sendHeader | sendData | closeRst => simp only [step, stream]
  | gracefulShutdown =>
    have same : s.conn.gracefulShutdown = s.conn := by
      unfold gracefulShutdown beginGracefulShutdown
      by_cases halted : s.conn.stopSendingRequested = true
      · simp [halted, abortConnection]
      · simp [halted, closed]
    simp only [step, same]
    rfl
  | shutdown reason => cases spared

/-- Apart from the end of `run`, an event does not close a connection. -/
theorem Kept.step_advances {event : Event} (other : event ≠ .join) : Advances s.conn (s.step event).conn := by
  cases ending : event.ending with
  | false =>
    have proceeds := step_proceeds kept.ready (meets_any [event] event mem_cons_self) ending
    exact .stages proceeds.stages
  | true =>
    cases event with
    | join => exact absurd rfl other
    | endInput failed =>
      cases failed with
      | some err => cases ending
      | none =>
        have ends : ReflTransGen (Turn fun _ _ _ _ => True) s.conn (s.endInput none).conn ∨ _ := s.endInput_ends
        rcases ends with turns | turns
        · exact .stages (ticks_stages (turns_ticks turns))
        have input : Advances s.conn { s.conn with stopKeepalive := true, sendQueueClosed := true } :=
          .keep rfl fun _ => id
        exact input.trans (.stages (ticks_stages (turns_ticks turns)))
    | _ => cases ending

theorem Kept.step (event : Event) : Kept (s.step event) := by
  have happens := step_happens kept.ready (meets_any [event] event mem_cons_self)
  refine ⟨kept.ready.happens happens, kept.ledger.happens happens, kept.drained.happens happens, fun closed => ?_⟩
  by_cases other : event = .join
  · subst other
    by_cases ready : s.conn.runStarted ∧ ¬s.reading ∧ s.conn.lifetime = 0
    · have unread : s.reading = false := by simpa using ready.2.1
      have same : s.step .join = s.withConn { s.conn with transportValid := false, closeState := .closed } := if_pos ready
      rw [same]
      exact ⟨unread, ready.1, kept.ledger.unheld ready.2.2⟩
    · have same : s.step .join = s := if_neg ready
      rw [same] at closed ⊢
      exact kept.rested closed
  · have before := (kept.step_advances other).unclosed closed
    cases spared : event.isShutdown with
    | false =>
      rw [kept.step_closed before other spared]
      exact kept.rested before
    | true =>
      cases event with
      | shutdown reason =>
        have fields : (s.step (.shutdown reason)).conn.streams = s.conn.streams ∧
            (s.step (.shutdown reason)).conn.runStarted = s.conn.runStarted ∧
            (s.step (.shutdown reason)).conn.sendLoopRunning = s.conn.sendLoopRunning := by
          simp only [Session.step, withConn_conn, shutdown, abortConnection]
          split <;> exact ⟨rfl, rfl, rfl⟩
        rw [fields.1, fields.2.1, fields.2.2]
        exact kept.rested before
      | _ => cases spared

theorem Kept.run (events : List Event) : Kept (s.run events) := by
  induction events generalizing s with
  | nil => exact kept
  | cons event events ih => exact ih (kept.step event)

/-- The points of a read lead up to the connection after it. -/
theorem Kept.visits_chain (event : Event) : (s.conn :: s.visits event).IsChain (ReflTransGen Stage) ∧
      (event ≠ .join → ∀ c ∈ (s.conn :: s.visits event).getLast?, Advances c (s.step event).conn) := by
  have alone (none_visited : s.visits event = []) : (s.conn :: s.visits event).IsChain (ReflTransGen Stage) ∧
      (event ≠ .join → ∀ c ∈ (s.conn :: s.visits event).getLast?, Advances c (s.step event).conn) := by
    rw [none_visited]
    refine ⟨.singleton _, fun other c member => ?_⟩
    cases member
    exact kept.step_advances other
  cases event with
  | receive bytes =>
    by_cases reads : s.reading = true ∧ bytes ≠ []
    · have visited : s.visits (.receive bytes) = Reader.visits _ _ := if_pos reads
      obtain ⟨chain, last⟩ := Reader.visits_chain
        ({ s.reader with buf := s.reader.buf ++ bytes } : Reader).parseFuel
        (r := { s.reader with buf := s.reader.buf ++ bytes }) kept.ready.sound
      rw [visited]
      refine ⟨chain, fun _ c member => ?_⟩
      rw [show (s.conn :: Reader.visits _ _).getLast? = _ from last] at member
      cases member
      simp only [Session.step, receive, if_pos reads, Reader.feed]
      generalize Reader.parse _ _ = result
      cases result with
      | ok r => exact .refl _
      | error failed =>
        have ended : ReflTransGen (Turn fun _ _ _ _ => True) _ _ := endRun_turns (s.withConn failed.2) failed.1
        exact .stages (ticks_stages (turns_ticks ended))
    · exact alone (if_neg reads)
  | _ => exact alone rfl

theorem Kept.visits_closed (closed : s.conn.closeState = .closed) (event : Event) : s.visits event = [] := by
  cases event with
  | receive bytes => exact if_neg fun reads => absurd ((kept.rested closed).1.symm.trans reads.1) (by decide)
  | _ => rfl

end

/-- `shutdown` is not called on a closed connection whose sending was never stopped. -/
def Spared (s : Session) : List Event → Prop
  | [] => True
  | event :: events =>
    (event.isShutdown = true → s.conn.closeState = .closed → s.conn.stopSendingRequested = true) ∧
      (s.step event).Spared events

theorem join_leads (s : Session) : s.conn.closeState.Leads (s.step .join).conn.closeState ∧
    Withheld s.conn (s.step .join).conn := by
  simp only [step, join]
  split
  · exact ⟨CloseState.leads_closed _, fun _ => ⟨fun same => (by cases same), fun _ => id⟩⟩
  · exact ⟨.inl rfl, fun moved => ⟨moved, fun _ => id⟩⟩

/-- An event leads forward, point by point, unless it is such a call of `shutdown`. -/
theorem Kept.step_leads (kept : Kept s) (event : Event) :
    ((s.conn :: s.visits event).IsChain (fun c d => c.closeState.Leads d.closeState) ∧
        ∀ c ∈ (s.conn :: s.visits event).getLast?, c.closeState.Leads (s.step event).conn.closeState) ↔
      (event.isShutdown = true → s.conn.closeState = .closed → s.conn.stopSendingRequested = true) := by
  by_cases joins : event = .join
  · subst joins
    refine ⟨fun _ => nofun, fun _ => ⟨.singleton _, fun c member => ?_⟩⟩
    cases member
    exact s.join_leads.1
  by_cases closed : s.conn.closeState = .closed
  · rw [kept.visits_closed closed]
    cases spared : event.isShutdown with
    | false =>
      rw [kept.step_closed closed joins spared]
      exact ⟨fun _ => nofun, fun _ => ⟨.singleton _, fun c member => by cases member; exact .inl rfl⟩⟩
    | true =>
      cases event with
      | shutdown reason =>
        simp only [Session.step, withConn_conn, shutdown, abortConnection]
        by_cases halted : s.conn.stopSendingRequested = true
        · simp [halted, closed, CloseState.Leads]
        · simp [halted, closed, CloseState.not_leads_closed_abort]
      | _ => cases spared
  · obtain ⟨chain, last⟩ := kept.visits_chain event
    have advances := chain.imp fun _ _ => Advances.stages
    refine ⟨fun _ _ => fun shut => absurd shut closed, fun _ => ⟨Advances.chain advances closed, fun c member => ?_⟩⟩
    have whole : (s.conn :: (s.visits event ++ [(s.step event).conn])).IsChain Advances := by
      rw [← cons_append, isChain_append]
      refine ⟨advances, .singleton _, fun c member d last_member => ?_⟩
      cases last_member
      exact last joins c member
    have leads := Advances.chain whole closed
    rw [← cons_append, isChain_append] at leads
    exact leads.2.2 c member _ rfl

theorem Kept.trail_order (kept : Kept s) (events : List Event) :
    ((s.trail events).IsChain (fun c d => c.closeState.Leads d.closeState) ↔ s.Spared events) ∧
      (s.trail events).IsChain Withheld ∧ ∀ c ∈ s.trail events, Drained c := by
  induction events generalizing s with
  | nil => exact ⟨⟨fun _ => trivial, fun _ => .singleton _⟩, .singleton _, fun c member => by simp_all [trail, kept.drained]⟩
  | cons event events ih =>
    obtain ⟨leads, withheld, drained⟩ := ih (kept.step event)
    have first : ((s.step event).trail events).head? = some (s.step event).conn := by
      cases events <;> rfl
    obtain ⟨chain, last⟩ := kept.visits_chain event
    refine ⟨?_, ?_, fun c member => ?_⟩
    · rw [trail, isChain_append, leads, Spared, ← kept.step_leads event, first]
      constructor
      · exact fun ⟨here, rest, joint⟩ => ⟨⟨here, fun c member => joint c member _ rfl⟩, rest⟩
      · exact fun ⟨⟨here, joint⟩, rest⟩ => ⟨here, rest, fun c member d head => by cases head; exact joint c member⟩
    · rw [trail, isChain_append, first]
      refine ⟨chain.imp fun _ _ path => (Advances.stages path).withheld, withheld, fun c member d head => ?_⟩
      cases head
      by_cases joins : event = .join
      · subst joins
        cases member
        exact s.join_leads.2
      · exact (last joins c member).withheld
    · rw [trail, mem_append] at member
      rcases member with here | later
      · exact kept.drained.chain chain c here
      · exact drained c later

instance : IsTrans Conn fun c d => c.closeState.Leads d.closeState := ⟨fun _ _ _ => .trans⟩

instance : IsTrans Conn Withheld := ⟨fun _ _ _ => .trans⟩

/-- Over a run the close state moves forward exactly when `shutdown` is not called on a closed connection whose sending
was never stopped. In every run, no stream comes once it has left `open`, at most one GOAWAY is enqueued, and a graceful
shutdown closes the send queue only with the table empty and the GOAWAY enqueued. -/
theorem run_closeOrder (options : Options) (events : List Event) :
    (((Session.init options).trail events).Pairwise (fun c d => c.closeState.Leads d.closeState) ↔
        (Session.init options).Spared events) ∧
      ((Session.init options).trail events).Pairwise Withheld ∧
      ∀ c ∈ (Session.init options).trail events, c.goaways ≤ 1 ∧
        (c.gracefulSendQueueCloseRequested = true → c.streams.size = 0 ∧ c.goaways = 1) := by
  obtain ⟨leads, withheld, drained⟩ := (Kept.init options).trail_order events
  refine ⟨isChain_iff_pairwise.symm.trans leads, isChain_iff_pairwise.mp withheld, fun c member => ⟨?_, fun finished => ?_⟩⟩
  · rw [(drained c member).once]
    split <;> omega
  · obtain ⟨empty, sent⟩ := (drained c member).finished finished
    exact ⟨empty, by rw [(drained c member).once, if_pos sent]⟩

/-- The input of a server ends after the connection preface; its own preface is written, and `run` is at its end. -/
def finishedRun : List Event :=
  [.startRun, .receive kClientPreface, .endInput none, .pollToSend, .written 40, .pollToSend, .join]

/-- `shutdown` takes a connection that is closed back to `abortClosing`. -/
theorem shutdown_reopens :
    ((Session.init {}).run finishedRun).conn.closeState = .closed ∧
      ((Session.init {}).run (finishedRun ++ [.shutdown .canceled])).conn.closeState = .abortClosing := by
  decide +kernel

end Session

end FiberGateway.Http2
