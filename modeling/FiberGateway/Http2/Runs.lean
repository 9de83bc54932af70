import FiberGateway.Http2.Ticks

namespace FiberGateway.Http2

open Relation

namespace Reader

variable {ok : Conn.Allowed}

/-- The connection after a round of the parse loop. -/
def ParseStep.conn (r : Reader) : ParseStep → Conn
  | .wait => r.conn
  | .next r => r.conn
  | .fail _ c => c

/-- The connection after a read was parsed. -/
def outcome : Except (IoErr × Conn) Reader → Conn
  | .ok r => r.conn
  | .error (_, c) => c

variable {r : Reader}

theorem parseStep_turns (sound : r.conn.Sound) :
    ReflTransGen (Conn.Turn ok) r.conn (ParseStep.conn r r.parseStep) := by
  unfold parseStep
  split
  · unfold parsePreface
    split
    · exact .refl
    split
    · exact .refl
    have sent : ReflTransGen (Conn.Turn ok) r.conn (if r.conn.options.autoStartConnectionPreface = true ∧
        ¬r.conn.localConnectionPrefaceSent = true then r.conn.sendConnectionPreface else (none, r.conn)).2 := by
      split
      · exact Conn.atoms_turns (Conn.sendConnectionPreface_atoms r.conn)
      · exact .refl
    dsimp only
    generalize (if r.conn.options.autoStartConnectionPreface = true ∧ ¬r.conn.localConnectionPrefaceSent = true
      then r.conn.sendConnectionPreface else (none, r.conn)) = started at sent
    obtain ⟨err, c⟩ := started
    cases err <;> exact sent
  · unfold parseHeader
    dsimp only
    split_ifs
    · exact .refl
    · exact .refl
    · have consumed : ReflTransGen (Conn.Turn ok) _ _ :=
        Conn.consumeIncomingFramePayload_turns sound (parseFrameHeader r.buf) 0 []
      generalize r.conn.consumeIncomingFramePayload (parseFrameHeader r.buf) 0 [] = result at consumed
      obtain ⟨err, c⟩ := result
      cases err <;> exact consumed
    · exact .refl
  · unfold parsePayload
    dsimp only
    split
    · exact .refl
    have consumed : ReflTransGen (Conn.Turn ok) _ _ :=
      Conn.consumeIncomingFramePayload_turns sound r.header r.payloadOffset (r.buf.take r.payloadRemaining)
    generalize r.conn.consumeIncomingFramePayload r.header r.payloadOffset (r.buf.take r.payloadRemaining) = result
      at consumed
    obtain ⟨err, c⟩ := result
    cases err <;> exact consumed

theorem parse_turns (fuel : Nat) (sound : r.conn.Sound) :
    ReflTransGen (Conn.Turn ok) r.conn (outcome (r.parse fuel)) := by
  induction fuel generalizing r with
  | zero => exact .refl
  | succ fuel ih =>
    have stepped : ReflTransGen (Conn.Turn ok) _ _ := parseStep_turns sound
    unfold parse
    generalize r.parseStep = step at stepped
    cases step with
    | wait => exact .refl
    | next r' => exact stepped.trans (ih (sound.turns stepped))
    | fail err c => exact stepped

end Reader

namespace Conn

variable {ok : Allowed} {c d : Conn}

theorem turns_ticks (path : ReflTransGen (Turn ok) c d) : ReflTransGen (Tick ok) c d :=
  ReflTransGen.mono (fun _ _ step => .turn step) _ _ path

theorem Sound.ticks (path : ReflTransGen (Tick ok) c d) (sound : Sound c) : Sound d :=
  keeps_path (fun step sound => sound.tick step) path sound

theorem finishRun_turns (err : IoErr) (c : Conn) : ReflTransGen (Turn ok) c (finishRun (some err) c).2 := by
  unfold finishRun
  simp only [Option.isSome_some, true_and, Option.isNone_some, Bool.false_eq_true, false_and, if_false]
  split
  · exact Quiet.turns (abortConnection_quiet c _)
  · exact .refl

theorem finishRun_ends (c : Conn) : (finishRun none c).2 = c ∨
    ReflTransGen (Turn ok) { c with stopKeepalive := true, sendQueueClosed := true } (finishRun none c).2 := by
  unfold finishRun
  simp only [Option.isSome_none, Bool.false_eq_true, false_and, if_false, Option.isNone_none, true_and]
  split
  · exact .inr (atoms_turns (closeAllStreams_atoms _ _))
  · exact .inl rfl

variable {sent : SendEntry} {entryId streamId : Nat}

/-- A frame that leaves the send queue belongs to an entry that is still there. -/
theorem Sound.released (sound : Sound c) (released : Released c sent d)
    (owner : sent.owner = some (streamId, entryId)) : ∃ entry, c.lookup streamId entryId = some entry := by
  have busy : c.inflight streamId entryId ≠ 0 := by
    rw [← sound.exact, Sound.frames_released released, if_pos owner]
    omega
  obtain ⟨s, entry, found, there⟩ := lookup_of_inflight busy
  exact ⟨entry, by simp [lookup, found, there]⟩

theorem Released.streams (released : Released c sent d) : d.streams = c.streams := by
  cases released <;> rfl

/-- An entry with a frame on its way was not empty from the start. -/
theorem landSend_filled (sound : Sound c) (released : Released c sent d)
    (owner : sent.owner = some (streamId, entryId)) {entry : PendingEntry}
    (there : c.lookup streamId entryId = some entry) (result : Option IoErr) :
    ((d.recordWritten streamId entry sent.payloadWritten).landSend streamId entryId result).Filled streamId entryId := by
  obtain ⟨s, found, here⟩ := lookup_found there
  have same := Stream.entry_id here
  subst same
  have busy : entry.inflightSends ≠ 0 := by
    have counted := sound.exact streamId entry.id
    rw [Sound.frames_released released, if_pos owner, inflight_found found, Stream.inflight_of_entry here] at counted
    omega
  have filled : entry.totalBytes ≠ 0 := fun total =>
    busy ((sound.solid found).empty entry (Stream.entry_mem here) total).2
  intro s' entry' found' there' _
  rw [landSend_eq] at found'
  have landed := find_modifyStream_self (c := d) (released.streams ▸ found)
    (·.landFragment entry.id sent.payloadWritten result)
  rw [show (d.streams.modify streamId (·.landFragment entry.id sent.payloadWritten result)).find streamId =
    some (s.landFragment entry.id sent.payloadWritten result) from landed] at found'
  cases found'
  rw [Stream.landFragment, Stream.entry_modifyEntry _ _ _ (by intro; rfl), if_pos rfl, here] at there'
  cases there'
  exact filled

/-- `notify_send_done` for an entry that just left the send queue. -/
theorem notifySendDone_ticks (sound : Sound c) (released : Released c sent d) (result : Option IoErr) :
    ∃ landed, Loop c landed ∧ ReflTransGen (Turn ok) landed (d.notifySendDone sent result) ∧
      landed = { d with
        streams := landed.streams
        changes := landed.changes
        failedQueued := landed.failedQueued } := by
  unfold notifySendDone
  split
  · rename_i unowned
    exact ⟨d, .drop released unowned, .refl, rfl⟩
  rename_i streamId entryId owner
  obtain ⟨entry, there⟩ := sound.released released owner
  have there' : (d.streams.find streamId).bind (·.entry entryId) = some entry := by
    rw [released.streams]
    exact there
  have landing : Loop c _ := .land released owner there result
  have sound' := sound.loop landing
  have filled := landSend_filled sound released owner there result
  refine ⟨_, landing, ?_, ?_⟩
  · unfold handleSendDone
    rw [there']
    dsimp only
    have lookedUp : ∃ entry', ((d.recordWritten streamId entry sent.payloadWritten).landSend streamId entryId
        result).lookup streamId entryId = some entry' := by
      obtain ⟨s, found, here⟩ := lookup_found there
      have same := Stream.entry_id here
      subst same
      have landed := find_modifyStream_self (c := d) (released.streams ▸ found)
        (·.landFragment entry.id sent.payloadWritten result)
      rw [landSend_eq, lookup]
      change ∃ entry', ((d.modifyStream streamId (·.landFragment entry.id sent.payloadWritten result)).streams.find
        streamId).bind (·.entry entry.id) = some entry'
      rw [landed]
      have kept := s.entry_modifyEntry entry.id (fun entry => { entry with
        writtenBytes := entry.writtenBytes + sent.payloadWritten
        result := if entry.result = none then result else entry.result
        inflightSends := entry.inflightSends - 1 }) (fun _ => rfl) entry.id
      rw [if_pos rfl, here] at kept
      exact ⟨_, kept⟩
    obtain ⟨entry', lookedUp⟩ := lookedUp
    generalize (d.recordWritten streamId entry sent.payloadWritten).landSend streamId entryId result = landed
      at sound' lookedUp filled
    have ended := (maybeFinishPending_atoms filled (.inl (Option.isSome_iff_exists.mpr ⟨entry', lookedUp⟩))).moves
    have here := maybeFinishPending_here sound' filled lookedUp
    refine ended.turns.trans ?_
    have sound'' := sound'.moves ended.path
    generalize landed.maybeFinishPending streamId entryId = after at here sound''
    split
    · rename_i missing
      exact .single (.move (.atom (.touch (here.late missing))))
    · split
      · exact (trySchedulePending_moves sound'' here).1.turns
      · exact .refl
  · unfold landSend recordWritten
    split <;> rfl

/-- Apart from the completion itself, entries are only added to the send queue. -/
theorem notifySendDone_feeds (sound : Sound c) (released : Released c sent d) (result : Option IoErr) :
    Feeds d (d.notifySendDone sent result) := by
  obtain ⟨landed, -, turned, same⟩ : ∃ landed, Loop c landed ∧ ReflTransGen (Turn fun _ _ _ _ => True) landed
    (d.notifySendDone sent result) ∧ _ := notifySendDone_ticks sound released result
  refine Feeds.trans ?_ (.path .turn turned)
  rw [same]
  exact .alone rfl

/-- The account of the entries, and only a running send loop has an entry in its hands. -/
structure Ready (c : Conn) : Prop where
  sound : Sound c
  held : c.sending.isSome → c.sendLoopRunning = true

theorem Ready.init (options : Options) : Ready (Conn.init options) := ⟨.init options, fun held => by cases held⟩

theorem Loop.held (loop : Loop c d) (held : c.sending.isSome → c.sendLoopRunning = true) :
    d.sending.isSome → d.sendLoopRunning = true := by
  have released {sent : SendEntry} {d : Conn} (released : Released c sent d) :
      d.sending.isSome → d.sendLoopRunning = true := by
    cases released with
    | queued first => exact held
    | sending busy n => exact fun none_held => by cases none_held
  cases loop with
  | begin => exact held
  | start stopped => exact fun _ => rfl
  | take running first idle => exact fun _ => running
  | write busy n => exact fun _ => held (by rw [busy]; rfl)
  | drop released' unowned => exact released released'
  | land released' owner there result =>
    have after := released released'
    unfold landSend recordWritten
    split <;> exact after

theorem Ready.tick (ready : Ready c) (tick : Tick ok c d) : Ready d := by
  refine ⟨ready.sound.tick tick, ?_⟩
  cases tick with
  | turn turn =>
    have feeds := Feeds.turn turn
    rw [feeds.sending, feeds.running]
    exact ready.held
  | loop loop => exact loop.held ready.held

theorem Ready.ticks (path : ReflTransGen (Tick ok) c d) (ready : Ready c) : Ready d :=
  keeps_path (fun step ready => ready.tick step) path ready

/-- Things happen, and at the end the send loop may leave. -/
inductive Proceeds (ok : Allowed) : Conn → Conn → Prop
  | ticks {c d : Conn} (path : ReflTransGen (Tick ok) c d) : Proceeds ok c d
  | leaves {c mid last : Conn} (before : ReflTransGen (Tick ok) c mid) (running : mid.sendLoopRunning = true)
      (idle : mid.sending = none) (after : ReflTransGen (Tick ok) { mid with sendLoopRunning := false } last) :
      Proceeds ok c { last with lifetime := last.lifetime - 1 }

/-- What an event does to the connection. -/
inductive Happens (ok : Allowed) : Conn → Conn → Prop
  | proceeds {c d : Conn} (proceeds : Proceeds ok c d) : Happens ok c d
  | ends {c mid last : Conn} (ends : Ends c mid) (after : ReflTransGen (Tick ok) mid last) : Happens ok c last

theorem Ready.happens (happens : Happens ok c d) (ready : Ready c) : Ready d := by
  have field {c d : Conn} (ready : Ready c) (streams : d.streams = c.streams) (queue : d.sendQueue = c.sendQueue)
      (sending : d.sending = c.sending) (waits : d.connWaitStreams = c.connWaitStreams)
      (next : d.nextPendingId = c.nextPendingId) (marks : d.unfinishedClose = c.unfinishedClose)
      (shut : c.Shut → d.Shut) (held : d.sending.isSome → d.sendLoopRunning = true) : Ready d :=
    ⟨ready.sound.keep streams (fun _ _ => by simp [frames, queue, sending]) waits next marks shut, held⟩
  cases happens with
  | proceeds proceeds =>
    cases proceeds with
    | ticks path => exact ready.ticks path
    | leaves before running idle after =>
      have left := field (ready.ticks before) (d := { (_ : Conn) with sendLoopRunning := false }) rfl rfl rfl rfl rfl rfl id
        (fun held => by rw [idle] at held; cases held)
      have last := left.ticks after
      exact field last rfl rfl rfl rfl rfl rfl id last.held
  | ends ends after =>
    have fed := Feeds.calm ends.calm
    refine Ready.ticks after ⟨ready.sound.calm ends.calm, ?_⟩
    rw [fed.sending, fed.running]
    exact ready.held

end Conn

namespace Session

open Conn

variable {ok : Allowed} {s : Session}

theorem withConn_conn (s : Session) (c : Conn) : (s.withConn c).conn = c := rfl

theorem drainSendQueue_ticks (result : IoErr) (fuel : Nat) (sound : s.conn.Sound) :
    ReflTransGen (Tick ok) s.conn (drainSendQueue result fuel s).conn := by
  induction fuel generalizing s with
  | zero => exact .refl
  | succ fuel ih =>
    unfold drainSendQueue
    split
    · exact .refl
    rename_i sent rest queued
    obtain ⟨landed, landing, turned, -⟩ := notifySendDone_ticks sound (.queued queued) (some result)
    have path : ReflTransGen (Tick ok) s.conn ((s.withConn { s.conn with sendQueue := rest }).finishSendEntry sent
        (some result)).conn := .head (.loop landing) (turns_ticks turned)
    exact path.trans (ih (sound.ticks path))

variable {c : Conn}

theorem leaveSendLoop_proceeds (path : ReflTransGen (Tick ok) c s.conn) (sound : s.conn.Sound)
    (running : s.conn.sendLoopRunning = true) (idle : s.conn.sending = none) :
    Proceeds ok c s.leaveSendLoop.conn := by
  have sound' : Sound { s.conn with sendLoopRunning := false } := sound.keep rfl (fun _ _ => rfl) rfl rfl rfl id
  unfold leaveSendLoop
  dsimp only
  refine .leaves path running idle ?_
  split
  · have drained : ReflTransGen (Tick ok) _ _ := drainSendQueue_ticks (s := s.withConn { s.conn with sendLoopRunning := false })
      s.conn.stopSendingReason s.conn.sendQueue.length sound'
    exact drained.trans (turns_ticks (atoms_turns (closeAllStreams_atoms _ _)))
  · exact .refl

theorem endRun_turns (s : Session) (err : IoErr) : ReflTransGen (Turn ok) s.conn (s.endRun (some err)).conn :=
  finishRun_turns err s.conn

theorem startRun_ticks (s : Session) : ReflTransGen (Tick ok) s.conn s.startRun.conn := by
  unfold startRun
  split
  · exact .refl
  have begun : ReflTransGen (Tick ok) s.conn { s.conn with runStarted := true }.startSendLoop := by
    have noted : ReflTransGen (Tick ok) s.conn { s.conn with runStarted := true } := .single (.loop (.begin s.conn))
    unfold startSendLoop
    split
    · exact noted
    · rename_i fresh
      exact noted.tail (.loop (.start (by simpa using (not_or.mp fresh).1)))
  dsimp only
  generalize ({ s.conn with runStarted := true } : Conn).startSendLoop = c at begun
  split
  · have sent : ReflTransGen (Tick ok) _ _ := turns_ticks (atoms_turns (sendConnectionPreface_atoms c))
    generalize c.sendConnectionPreface = outcome at sent
    obtain ⟨err, d⟩ := outcome
    refine begun.trans (sent.trans ?_)
    cases err with
    | some err => exact turns_ticks (endRun_turns (s.withConn d) err)
    | none => exact .refl
  · exact begun

theorem receive_turns (sound : s.conn.Sound) (bytes : List UInt8) :
    ReflTransGen (Turn ok) s.conn (s.receive bytes).conn := by
  unfold receive
  split
  · have parsed : ReflTransGen (Turn ok) s.conn (Reader.outcome (s.reader.feed bytes)) :=
      Reader.parse_turns _ (r := { s.reader with buf := s.reader.buf ++ bytes }) sound
    generalize s.reader.feed bytes = result at parsed
    cases result with
    | ok r => exact parsed
    | error failure =>
      obtain ⟨err, c⟩ := failure
      exact parsed.trans (endRun_turns (s.withConn c) err)
  · exact .refl

theorem endInput_turns (s : Session) (err : IoErr) : ReflTransGen (Turn ok) s.conn (s.endInput (some err)).conn := by
  unfold endInput
  split
  · exact endRun_turns s _
  · exact .refl

theorem endInput_ends (s : Session) : ReflTransGen (Turn ok) s.conn (s.endInput none).conn ∨
    ReflTransGen (Turn ok) { s.conn with stopKeepalive := true, sendQueueClosed := true } (s.endInput none).conn := by
  unfold endInput
  split
  · dsimp only
    split
    · have ends : _ ∨ ReflTransGen (Turn ok) _ _ := finishRun_ends s.conn
      rcases ends with same | ends
      · exact .inl (same ▸ .refl)
      · exact .inr ends
    · exact .inl (endRun_turns s _)
  · exact .inl .refl

theorem join_ends (s : Session) : s.join = s ∨ Ends s.conn s.join.conn := by
  unfold join
  split
  · rename_i ready
    exact .inr (.run ready.1 ready.2.2)
  · exact .inl rfl

theorem finishSendEntry_ticks (sound : s.conn.Sound) {sent : SendEntry} (released : Released s.conn sent c)
    (result : Option IoErr) : ReflTransGen (Tick ok) s.conn ((s.withConn c).finishSendEntry sent result).conn := by
  obtain ⟨landed, landing, turned, -⟩ := notifySendDone_ticks sound released result
  exact .head (.loop landing) (turns_ticks turned)

theorem pollToSend_proceeds (sound : s.conn.Sound) : Proceeds ok s.conn s.pollToSend.conn := by
  unfold pollToSend
  split
  · rename_i ready
    split
    · rename_i sent rest queued
      dsimp only
      split
      · exact .ticks (finishSendEntry_ticks sound (.queued queued) none)
      · exact .ticks (.single (.loop (.take ready.1 queued ready.2)))
    · split
      · exact leaveSendLoop_proceeds .refl sound ready.1 ready.2
      · exact .ticks .refl
  · exact .ticks .refl

theorem written_ticks (sound : s.conn.Sound) (n : Nat) : ReflTransGen (Tick ok) s.conn (s.written n).conn := by
  unfold written
  split
  · exact .refl
  rename_i sent busy
  split
  · dsimp only
    split
    · exact finishSendEntry_ticks (s := { s with wire := s.wire ++ sent.offered.take n }) sound (.sending busy n) none
    · exact .single (.loop (.write busy n))
  · exact .refl

theorem writeFailed_proceeds (ready : s.conn.Ready) (err : IoErr) : Proceeds ok s.conn (s.writeFailed err).conn := by
  unfold writeFailed
  split
  · exact .ticks .refl
  rename_i sent busy
  dsimp only
  generalize (if s.conn.stopSendingRequested then s.conn.stopSendingReason else err) = reason
  obtain ⟨landed, landing, turned, -⟩ := notifySendDone_ticks ready.sound (.sending busy 0) (some reason)
  have feeds := notifySendDone_feeds ready.sound (.sending busy 0) (some reason)
  have finished : ReflTransGen (Tick ok) s.conn ((s.withConn { s.conn with sending := none }).finishSendEntry sent
      (some reason)).conn := .head (.loop landing) (turns_ticks turned)
  generalize after_eq : (s.withConn { s.conn with sending := none }).finishSendEntry sent (some reason) = after
    at finished
  have after_conn : after.conn = { s.conn with sending := none }.notifySendDone sent (some reason) := by
    rw [← after_eq]
    rfl
  have aborts := abortConnection_quiet after.conn reason
  have path := finished.trans (turns_ticks (Quiet.turns aborts))
  refine leaveSendLoop_proceeds path (ready.sound.ticks path) ?_ ?_
  · rw [withConn_conn, (Feeds.calm aborts.toCalm).running, after_conn]
    exact feeds.running.trans (ready.held (by rw [busy]; rfl))
  · rw [withConn_conn, (Feeds.calm aborts.toCalm).sending, after_conn]
    exact feeds.sending

theorem handleSendLoopTimeout_turns (c : Conn) : ReflTransGen (Turn ok) c c.handleSendLoopTimeout := by
  unfold handleSendLoopTimeout
  split
  · exact .refl
  have sent : ReflTransGen (Turn ok) c (c.sendControlFrame .ping 0 0 (List.replicate kPingPayloadSize 0)).2 :=
    atoms_turns (control_path (by decide) (by decide) 0 0 (List.replicate kPingPayloadSize 0))
  generalize c.sendControlFrame .ping 0 0 (List.replicate kPingPayloadSize 0) = outcome at sent
  obtain ⟨err, d⟩ := outcome
  cases err with
  | some err => exact sent.trans (Quiet.turns (abortConnection_quiet d err))
  | none => exact sent

theorem onStream_turns {streamId : Nat} {call : Conn → Option IoErr × Conn}
    (turns : s.conn.Here streamId → ReflTransGen (Turn ok) s.conn (call s.conn).2) :
    ReflTransGen (Turn ok) s.conn (s.onStream streamId call).conn := by
  unfold onStream
  split
  · rename_i found
    exact turns (.inl found)
  · exact .refl

end Session

/-- What the event hands to `enqueue_pending` meets a condition. -/
def Event.Meets (ok : Conn.Allowed) : Event → Prop
  | .enqueuePending _ kind payload first last => ok kind payload first last
  | .sendHeader _ payload endStream => ok .header payload 0 (kFlagEndHeaders ||| if endStream then kFlagEndStream else 0)
  | .sendData _ payload endStream => ok .data payload 0 (if endStream then kFlagEndStream else 0)
  | _ => True

/-- The events that may end a run without an error. -/
def Event.ending : Event → Bool
  | .endInput none | .join => true
  | _ => false

/-- Neither `run` nor the send loop is at work. -/
def Event.outside : Event → Bool
  | .startRun | .pollToSend | .written _ | .writeFailed _ => false
  | _ => true

namespace Session

open Conn

variable {ok : Allowed} {s : Session}

variable {event : Event}

theorem step_turns (sound : s.conn.Sound) (meets : event.Meets ok) (outside : event.outside = true)
    (goes_on : event.ending = false) : ReflTransGen (Turn ok) s.conn (s.step event).conn := by
  cases event with
  | startRun | pollToSend | written | writeFailed => cases outside
  | receive bytes => exact receive_turns sound bytes
  | endInput failed =>
    cases failed with
    | none => cases goes_on
    | some err => exact s.endInput_turns err
  | pollTimedOut =>
    simp only [step, pollTimedOut]
    split
    · exact handleSendLoopTimeout_turns s.conn
    · exact .refl
  | join => cases goes_on
  | createLocalStream streamId =>
    simp only [step, withConn_conn]
    cases made : s.conn.createLocalStream streamId with
    | none => exact .refl
    | some d => exact .single (.move (.atom (.insertLocal made)))
  | enqueuePending streamId kind payload first last =>
    exact onStream_turns fun here => enqueuePending_turns sound here meets
  | sendHeader streamId payload endStream => exact onStream_turns fun here => sendHeader_turns sound here meets
  | sendData streamId payload endStream => exact onStream_turns fun here => sendData_turns sound here meets
  | closeRst streamId code result => exact onStream_turns fun here => (closeRst_atoms here code result).moves.turns
  | gracefulShutdown => exact atoms_turns (gracefulShutdown_atoms s.conn)
  | shutdown reason => exact Quiet.turns (abortConnection_quiet s.conn reason)

theorem step_ends (ending : event.ending = true) : ReflTransGen (Turn ok) s.conn (s.step event).conn ∨
    ∃ mid, Ends s.conn mid ∧ ReflTransGen (Turn ok) mid (s.step event).conn := by
  cases event with
  | endInput failed =>
    cases failed with
    | none => exact s.endInput_ends.imp_right fun turns => ⟨_, .input s.conn, turns⟩
    | some err => cases ending
  | join =>
    rcases s.join_ends with same | ends
    · exact .inl (by rw [show s.step .join = s from same])
    · exact .inr ⟨_, ends, .refl⟩
  | _ => cases ending

theorem step_proceeds (ready : s.conn.Ready) (meets : event.Meets ok) (goes_on : event.ending = false) :
    Proceeds ok s.conn (s.step event).conn := by
  by_cases outside : event.outside = true
  · exact .ticks (turns_ticks (step_turns ready.sound meets outside goes_on))
  cases event with
  | startRun => exact .ticks s.startRun_ticks
  | pollToSend => exact pollToSend_proceeds ready.sound
  | written n => exact .ticks (written_ticks ready.sound n)
  | writeFailed err => exact writeFailed_proceeds ready err
  | _ => exact absurd rfl outside

theorem step_happens (ready : s.conn.Ready) (meets : event.Meets ok) : Happens ok s.conn (s.step event).conn := by
  by_cases ending : event.ending = true
  · have ended : ReflTransGen (Turn ok) s.conn (s.step event).conn ∨ _ := step_ends ending
    rcases ended with turns | ⟨mid, ends, turns⟩
    · exact .proceeds (.ticks (turns_ticks turns))
    · exact .ends ends (turns_ticks turns)
  · exact .proceeds (step_proceeds ready meets (by simpa using ending))

/-- A property of the connection that every event keeps holds after every run. -/
theorem run_induction {P : Conn → Prop} (step : ∀ {c d : Conn}, c.Ready → Happens ok c d → P c → P d)
    (ready : s.conn.Ready) (start : P s.conn) {events : List Event} (meet : ∀ event ∈ events, event.Meets ok) :
    (s.run events).conn.Ready ∧ P (s.run events).conn := by
  induction events generalizing s with
  | nil => exact ⟨ready, start⟩
  | cons event events ih =>
    have happens := step_happens ready (meet event List.mem_cons_self)
    exact ih (ready.happens happens) (step ready happens start) fun event member =>
      meet event (List.mem_cons_of_mem _ member)

theorem meets_any (events : List Event) : ∀ event ∈ events, event.Meets fun _ _ _ _ => True := by
  intro event _
  cases event <;> trivial

theorem ready_run (options : Options) (events : List Event) : ((Session.init options).run events).conn.Ready :=
  (run_induction (s := Session.init options) (P := fun _ => True) (fun _ _ _ => trivial) (.init options) trivial
    (meets_any events)).1

/-- In every run the entries count their frames, and each frame of an entry that is not sent yet finds it. -/
theorem run_owners (options : Options) (events : List Event) :
    let c := ((Session.init options).run events).conn
    c.Sound ∧ ∀ sent ∈ c.sending.toList ++ c.sendQueue, ∀ streamId entryId, sent.owner = some (streamId, entryId) →
      ∃ s entry, c.streams.find streamId = some s ∧ s.entry entryId = some entry := by
  have sound := (ready_run options events).sound
  refine ⟨sound, fun sent member streamId entryId owner => lookup_of_inflight ?_⟩
  rw [← sound.exact]
  exact (List.countP_pos_iff.mpr ⟨sent, member, decide_eq_true owner⟩).ne'

end Session

end FiberGateway.Http2
