import FiberGateway.Http2.Runs

namespace FiberGateway.Http2

open Relation

namespace Conn

variable {ok : Allowed} {c d e : Conn} {streamId : Nat}

/-- `after` with the fields of `c` that the scheduler and the send loop leave alone. -/
def withWork (c after : Conn) : Conn :=
  { after with
    options := c.options
    lastPeerStreamId := c.lastPeerStreamId
    lastLocalStreamId := c.lastLocalStreamId
    localPushStreamCount := c.localPushStreamCount
    localGoawaySent := c.localGoawaySent
    localGoawayLastStreamId := c.localGoawayLastStreamId
    sendQueueClosed := c.sendQueueClosed
    closeState := c.closeState
    transportValid := c.transportValid
    gracefulSendQueueCloseRequested := c.gracefulSendQueueCloseRequested
    stopSendingRequested := c.stopSendingRequested }

/-- Streams are changed, but not their states, and none comes or goes; the frame of a stream may be put on the send queue. -/
structure Works (c d : Conn) : Prop where
  same : c.withWork d = d
  started : c.runStarted = true → d.runStarted = true
  streams : d.streams = c.streams ∨ ∃ streamId f, d.streams = c.streams.modify streamId f ∧ ∀ s, (f s).state = s.state
  enqueued : d.enqueued = c.enqueued ∨ ∃ entry, entry.frameHeader.isSome = true ∧ d.enqueued = c.enqueued ++ [entry]

/-- What happens to a connection, with the work of the scheduler and of the send loop taken together. -/
inductive Stage : Conn → Conn → Prop
  | atom {c d : Conn} (atom : Atom c d) : Stage c d
  | works {c d : Conn} (works : Works c d) : Stage c d

theorem Works.modify {f : Stream → Stream} (same : c.withWork d = d) (started : d.runStarted = c.runStarted)
    (streams : d.streams = c.streams.modify streamId f) (enqueued : d.enqueued = c.enqueued)
    (states : ∀ s, (f s).state = s.state) : Works c d :=
  ⟨same, started.trans, .inr ⟨streamId, f, streams, states⟩, .inl enqueued⟩

theorem Works.keep (same : c.withWork d = d) (started : c.runStarted = true → d.runStarted = true)
    (streams : d.streams = c.streams) (enqueued : d.enqueued = c.enqueued) : Works c d :=
  ⟨same, started, .inl streams, .inl enqueued⟩

theorem Cut.stages (cut : Cut c d) : ReflTransGen Stage c d := by
  cases cut with
  | atom atom => exact .single (.atom atom)
  | fragment found head positive opened =>
    rename_i streamId s entry
    rw [sentFragment_eq]
    exact .single (.works ⟨rfl, id, .inr ⟨streamId, _, rfl, fun _ => rfl⟩, .inr ⟨Conn.fragment streamId entry _, rfl, rfl⟩⟩)
  | lost found head bytes err shut =>
    rename_i streamId s entry
    have split : Works c (c.splitEntry streamId entry bytes) := .modify rfl rfl rfl rfl fun _ => rfl
    exact (ReflTransGen.single (.works split)).tail (.atom (.quiet (abortConnection_quiet _ err)))
  | pop => exact .single (.works (.modify rfl rfl rfl rfl fun _ => rfl))

theorem Turn.stages (turn : Turn ok c d) : ReflTransGen Stage c d := by
  cases turn with
  | move move =>
    cases move with
    | atom atom => exact .single (.atom atom)
    | schedule cuts => exact reflTransGen_closed (fun _ _ step => step.stages) _ _ cuts
  | append | shift => exact .single (.works (.modify rfl rfl rfl rfl fun _ => rfl))
  | initial => exact .single (.works (.keep rfl id rfl rfl))

theorem Released.works {sent : SendEntry} (released : Released c sent d) : Works c d := by
  cases released <;> exact .keep rfl id rfl rfl

theorem Loop.stages (loop : Loop c d) : ReflTransGen Stage c d := by
  cases loop with
  | begin => exact .single (.works (.keep rfl (fun _ => rfl) rfl rfl))
  | start | take | write => exact .single (.works (.keep rfl id rfl rfl))
  | drop released unowned => exact .single (.works released.works)
  | land released owner there result =>
    rename_i d sent streamId entryId entry
    have same := Stream.entry_id (lookup_found there).choose_spec.2
    subst same
    rw [landSend_eq]
    exact (ReflTransGen.single (.works released.works)).tail (.works (.modify rfl rfl rfl rfl fun _ => rfl))

theorem Tick.stages (tick : Tick ok c d) : ReflTransGen Stage c d := by
  cases tick with
  | turn turn => exact turn.stages
  | loop loop => exact loop.stages

theorem ticks_stages (path : ReflTransGen (Tick ok) c d) : ReflTransGen Stage c d :=
  reflTransGen_closed (fun _ _ step => step.stages) _ _ path

theorem Proceeds.stages (proceeds : Proceeds ok c d) : ReflTransGen Stage c d := by
  cases proceeds with
  | ticks path => exact ticks_stages path
  | leaves before running idle after =>
    rename_i mid last
    have stopped : Works mid { mid with sendLoopRunning := false } := .keep rfl id rfl rfl
    have left : Works last { last with lifetime := last.lifetime - 1 } := .keep rfl id rfl rfl
    exact (((ticks_stages before).tail (.works stopped)).trans (ticks_stages after)).tail (.works left)

theorem Happens.stages (happens : Happens ok c d) : ∃ mid, ReflGen Ends c mid ∧ ReflTransGen Stage mid d := by
  cases happens with
  | proceeds proceeds => exact ⟨c, .refl, proceeds.stages⟩
  | ends ends after => exact ⟨_, .single ends, ticks_stages after⟩

end Conn

namespace Session

/-- A property of the connection that every stage and the end of a run keep holds after every run. -/
theorem run_stages {P : Conn → Prop} (step : ∀ {c d : Conn}, Conn.Stage c d → P c → P d)
    (ends : ∀ {c d : Conn}, Conn.Ends c d → P c → P d) (options : Options) (start : P (.init options))
    (events : List Event) : P ((Session.init options).run events).conn := by
  refine (run_induction (s := Session.init options) ?_ (.init options) start (meets_any events)).2
  intro c d _ happens held
  obtain ⟨mid, ended, path⟩ := happens.stages
  have between : P mid := by
    cases ended with
    | refl => exact held
    | single ended => exact ends ended held
  exact Conn.keeps_path (P := P) step path between

end Session

end FiberGateway.Http2
