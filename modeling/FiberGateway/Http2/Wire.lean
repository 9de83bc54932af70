import FiberGateway.Http2.Runs

namespace FiberGateway.Http2

open List Relation

theorem encodeFrameHeader_length (fhr : FrameHeader) : (encodeFrameHeader fhr).length = kFrameHeaderSize := rfl

namespace SendEntry

variable {entry : SendEntry}

/-- The entry as it was enqueued. -/
def unsent (entry : SendEntry) : SendEntry := { entry with writtenBytes := 0 }

/-- The bytes of the entry that the transport took. -/
def sentBytes (entry : SendEntry) : List UInt8 := entry.bytes.take entry.writtenBytes

theorem unsent_eq (fresh : entry.writtenBytes = 0) : entry.unsent = entry := by
  rw [unsent, ← fresh]

theorem sentBytes_fresh (fresh : entry.writtenBytes = 0) : entry.sentBytes = [] := by
  simp [sentBytes, fresh]

theorem sentBytes_whole (whole : entry.writtenBytes = entry.bytes.length) : entry.sentBytes = entry.bytes := by
  simp [sentBytes, whole]

theorem bytes_length (entry : SendEntry) : entry.bytes.length = entry.frameHeaderSize + entry.payload.length := by
  unfold bytes frameHeaderSize
  cases entry.frameHeader with
  | none => simp
  | some fhr => simp [encodeFrameHeader_length]

theorem complete_iff (entry : SendEntry) : entry.complete = true ↔ entry.bytes.length ≤ entry.writtenBytes := by
  simp only [complete, bytes_length, Bool.and_eq_true, decide_eq_true_eq]
  omega

theorem offered_length (entry : SendEntry) : entry.writtenBytes + entry.offered.length ≤
    max entry.writtenBytes entry.bytes.length := by
  rw [bytes_length]
  unfold offered frameHeaderSize
  cases entry.frameHeader with
  | none =>
    simp only [Option.isSome_none, Bool.false_eq_true, if_false, Nat.not_lt_zero, length_drop]
    omega
  | some fhr =>
    simp only [Option.isSome_some, if_true]
    split <;> simp only [length_drop, encodeFrameHeader_length] <;> omega

variable {n : Nat}

theorem offered_take (entry : SendEntry) (within : n ≤ entry.offered.length) :
    entry.offered.take n = (entry.bytes.drop entry.writtenBytes).take n := by
  unfold offered bytes at *
  cases framed : entry.frameHeader with
  | none => simp [frameHeaderSize, framed]
  | some fhr =>
    simp only [frameHeaderSize, framed, Option.isSome_some, if_true] at within ⊢
    split at within
    · rename_i inside
      rw [if_pos inside, drop_append_of_le_length (by rw [encodeFrameHeader_length]; omega),
        take_append_of_le_length within]
    · rename_i behind
      have past : (encodeFrameHeader fhr).drop entry.writtenBytes = [] :=
        drop_eq_nil_of_le (by rw [encodeFrameHeader_length]; omega)
      rw [if_neg behind, drop_append, encodeFrameHeader_length, past, nil_append]

theorem sentBytes_write (entry : SendEntry) (within : n ≤ entry.offered.length) :
    { entry with writtenBytes := entry.writtenBytes + n }.sentBytes = entry.sentBytes ++ entry.offered.take n := by
  rw [offered_take entry within]
  exact take_add

end SendEntry

namespace Conn

variable {c d : Conn} {wire : List UInt8} {finished : List (SendEntry × Option IoErr)}

/-- The entries accepted by the send queue, in order: those finished, the one in the hands of the send loop, those
that wait. The bytes of the first two went out as far as they were written, and no further than in this order. -/
structure Ordered (wire : List UInt8) (finished : List (SendEntry × Option IoErr)) (c : Conn) : Prop where
  order : c.enqueued = (finished.map (·.1) ++ c.sending.toList).map (·.unsent) ++ c.sendQueue
  waiting : ∀ entry ∈ c.sendQueue, entry.writtenBytes = 0
  sent : wire = (finished.map (·.1) ++ c.sending.toList).flatMap (·.sentBytes)
  prefixed : wire <+: (finished.map (·.1) ++ c.sending.toList).flatMap (·.bytes)
  begun : ∀ entry ∈ c.sending, entry.writtenBytes ≤ entry.bytes.length
  ended : ∀ entry result, (entry, result) ∈ finished →
    entry.writtenBytes ≤ entry.bytes.length ∧ (result = none → entry.writtenBytes = entry.bytes.length)

namespace Ordered

theorem init (options : Options) : Ordered [] [] (Conn.init options) :=
  ⟨rfl, fun _ member => absurd member not_mem_nil, rfl, prefix_rfl, (fun _ member => by cases member),
    fun _ _ member => absurd member not_mem_nil⟩

theorem feeds (fed : Feeds c d) (ordered : Ordered wire finished c) : Ordered wire finished d := by
  obtain ⟨more, queue, enqueued, -, fresh⟩ := fed.queue
  refine ⟨?_, fun entry member => ?_, ?_, ?_, ?_, ordered.ended⟩
  · rw [enqueued, ordered.order, queue, fed.sending, append_assoc]
  · rw [queue] at member
    exact (mem_append.mp member).elim (ordered.waiting entry) (fresh entry)
  · rw [fed.sending]
    exact ordered.sent
  · rw [fed.sending]
    exact ordered.prefixed
  · rw [fed.sending]
    exact ordered.begun

section

variable (ordered : Ordered wire finished c)

include ordered

variable {sent : SendEntry} {rest : List SendEntry}

theorem take (queued : c.sendQueue = sent :: rest) (idle : c.sending = none) :
    Ordered wire finished { c with sendQueue := rest, sending := some sent } := by
  have fresh := ordered.waiting sent (queued ▸ mem_cons_self)
  refine ⟨?_, fun entry member => ordered.waiting entry (queued ▸ mem_cons_of_mem _ member), ?_, ?_, ?_,
    ordered.ended⟩
  · have order := ordered.order
    rw [queued, idle] at order
    simp [order, SendEntry.unsent_eq fresh]
  · have before := ordered.sent
    rw [idle] at before
    simp [before, SendEntry.sentBytes_fresh fresh]
  · have before := ordered.prefixed
    rw [idle] at before
    refine before.trans ?_
    simp
  · rintro entry ⟨rfl⟩
    rw [fresh]
    exact Nat.zero_le _

/-- An entry in the hands of the send loop, or at the head of the send queue, ends. -/
theorem finish (busy : c.sending = some sent) (result : Option IoErr)
    (whole : result = none → sent.writtenBytes = sent.bytes.length) :
    Ordered wire (finished ++ [(sent, result)]) { c with sending := none } := by
  have same : (finished ++ [(sent, result)]).map (·.1) ++ (none : Option SendEntry).toList =
      finished.map (·.1) ++ c.sending.toList := by
    simp [busy]
  refine ⟨?_, ordered.waiting, ?_, ?_, (fun _ member => by cases member), fun entry outcome member => ?_⟩
  · rw [same]
    exact ordered.order
  · rw [same]
    exact ordered.sent
  · rw [same]
    exact ordered.prefixed
  · rcases mem_append.mp member with before | last
    · exact ordered.ended entry outcome before
    · cases mem_singleton.mp last
      exact ⟨ordered.begun sent busy, whole⟩

theorem finishQueued (queued : c.sendQueue = sent :: rest) (idle : c.sending = none) (result : Option IoErr)
    (whole : result = none → sent.writtenBytes = sent.bytes.length) :
    Ordered wire (finished ++ [(sent, result)]) { c with sendQueue := rest } := by
  have ended := (ordered.take queued idle).finish rfl result whole
  rw [← idle] at ended
  exact ended

/-- The transport took a part of the entry, all before it having gone out. -/
theorem write (busy : c.sending = some sent) {n : Nat} (within : n ≤ sent.offered.length)
    (clean : ∀ entry result, (entry, result) ∈ finished → result = none) :
    Ordered (wire ++ sent.offered.take n) finished
      { c with sending := some { sent with writtenBytes := sent.writtenBytes + n } } := by
  have before := ordered.sent
  rw [busy] at before
  have goes : wire ++ sent.offered.take n =
      (finished.map (·.1) ++ [({ sent with writtenBytes := sent.writtenBytes + n } : SendEntry)]).flatMap
        (·.sentBytes) := by
    rw [before]
    simp [SendEntry.sentBytes_write sent within]
  have wholly : (finished.map (·.1)).flatMap (·.sentBytes) = (finished.map (·.1)).flatMap (·.bytes) := by
    refine flatMap_congr fun entry member => ?_
    obtain ⟨⟨entry, result⟩, listed, rfl⟩ := mem_map.mp member
    exact SendEntry.sentBytes_whole ((ordered.ended entry result listed).2 (clean entry result listed))
  refine ⟨?_, ordered.waiting, goes, ?_, ?_, ordered.ended⟩
  · have order := ordered.order
    rw [busy] at order
    simpa [SendEntry.unsent] using order
  · rw [goes, flatMap_append, flatMap_append, wholly]
    refine prefix_append_right_inj _ |>.mpr ?_
    simp only [Option.toList_some, flatMap_cons, flatMap_nil, append_nil]
    exact take_prefix _ _
  · rintro entry ⟨rfl⟩
    have room := sent.offered_length
    have begun := ordered.begun sent busy
    change sent.writtenBytes + n ≤ sent.bytes.length
    omega

end

end Ordered

end Conn

namespace Session

open Conn

variable {s t : Session}

/-- The account of the send loop: while it runs, every entry finished went out whole, and once it has ended nothing
is left in the send queue and nothing is accepted any more. -/
structure Accounted (s : Session) : Prop where
  ordered : s.conn.Ordered s.wire s.finished
  clean : s.conn.sendLoopRunning = true → ∀ entry result, (entry, result) ∈ s.finished → result = none
  idle : s.conn.sendLoopRunning = false →
    s.conn.sending = none ∧ s.conn.sendQueue = [] ∧ (s.conn.runStarted = false ∨ s.conn.sendQueueClosed = true)
  unstarted : s.conn.runStarted = false → s.conn.sendLoopRunning = false ∧ s.finished = []
  stops : s.conn.stopSendingRequested = true → s.conn.sendQueueClosed = true

namespace Accounted

theorem init (options : Options) : Accounted (Session.init options) where
  ordered := .init options
  clean := fun _ _ _ member => absurd member not_mem_nil
  idle := fun _ => ⟨rfl, rfl, .inl rfl⟩
  unstarted := fun _ => ⟨rfl, rfl⟩
  stops := fun stopped => by cases stopped

theorem feeds (accounted : Accounted s) (fed : Feeds s.conn t.conn) (wire : t.wire = s.wire)
    (finished : t.finished = s.finished) : Accounted t := by
  refine ⟨?_, ?_, fun stopped => ?_, ?_, fun stopped => ?_⟩
  · rw [wire, finished]
    exact accounted.ordered.feeds fed
  · rw [fed.running, finished]
    exact accounted.clean
  · rw [fed.running] at stopped
    obtain ⟨idle, empty, shut⟩ := accounted.idle stopped
    obtain ⟨more, queue, -, none_more, -⟩ := fed.queue
    refine ⟨fed.sending.trans idle, ?_, shut.imp (fun unstarted => fed.started.trans unstarted) fed.closed⟩
    rw [queue, empty, none_more shut]
    rfl
  · rw [fed.started, fed.running, finished]
    exact accounted.unstarted
  · exact (fed.closes stopped).elim (fun before => fed.closed (accounted.stops before)) id

end Accounted

theorem endRun_wire (s : Session) (result : Option IoErr) :
    (s.endRun result).wire = s.wire ∧ (s.endRun result).finished = s.finished := ⟨rfl, rfl⟩

/-- The other events leave the record of the send loop alone. -/
theorem step_wire {event : Event} (outside : event.outside = true) :
    (s.step event).wire = s.wire ∧ (s.step event).finished = s.finished := by
  cases event with
  | startRun | pollToSend | written | writeFailed => cases outside
  | receive bytes =>
    simp only [step, receive]
    split
    · split
      · exact ⟨rfl, rfl⟩
      · exact endRun_wire _ _
    · exact ⟨rfl, rfl⟩
  | endInput failed =>
    simp only [step, endInput]
    split
    · split <;> exact endRun_wire _ _
    · exact ⟨rfl, rfl⟩
  | pollTimedOut => simp only [step, pollTimedOut]; split <;> exact ⟨rfl, rfl⟩
  | join => simp only [step, join]; split <;> exact ⟨rfl, rfl⟩
  | createLocalStream | gracefulShutdown | shutdown => exact ⟨rfl, rfl⟩
  | enqueuePending | sendHeader | sendData | closeRst =>
    simp only [step, onStream]
    split <;> exact ⟨rfl, rfl⟩

theorem drainSendQueue_empties (result : IoErr) (fuel : Nat) (sound : s.conn.Sound)
    (ordered : s.conn.Ordered s.wire s.finished) (idle : s.conn.sending = none)
    (closed : s.conn.sendQueueClosed = true) (enough : s.conn.sendQueue.length ≤ fuel) :
    (drainSendQueue result fuel s).conn.Ordered (drainSendQueue result fuel s).wire
        (drainSendQueue result fuel s).finished ∧
      (drainSendQueue result fuel s).conn.sendQueue = [] ∧ (drainSendQueue result fuel s).conn.sending = none ∧
      (drainSendQueue result fuel s).conn.sendQueueClosed = true ∧
      (drainSendQueue result fuel s).conn.sendLoopRunning = s.conn.sendLoopRunning ∧
      (drainSendQueue result fuel s).conn.runStarted = s.conn.runStarted := by
  induction fuel generalizing s with
  | zero =>
    have empty := eq_nil_of_length_eq_zero (Nat.le_zero.mp enough)
    exact ⟨ordered, empty, idle, closed, rfl, rfl⟩
  | succ fuel ih =>
    unfold drainSendQueue
    split
    · rename_i empty
      exact ⟨ordered, empty, idle, closed, rfl, rfl⟩
    rename_i sent rest queued
    have fed := notifySendDone_feeds sound (.queued queued) (some result)
    have next : ((s.withConn { s.conn with sendQueue := rest }).finishSendEntry sent (some result)).conn =
        { s.conn with sendQueue := rest }.notifySendDone sent (some result) := rfl
    obtain ⟨more, queue, -, none_more, -⟩ := fed.queue
    rw [none_more (.inr closed), append_nil] at queue
    have path : ReflTransGen (Tick fun _ _ _ _ => True) s.conn
        ((s.withConn { s.conn with sendQueue := rest }).finishSendEntry sent (some result)).conn :=
      finishSendEntry_ticks sound (.queued queued) (some result)
    obtain ⟨ordered', empty, idle', closed', running, started⟩ := ih (sound.ticks path)
      ((ordered.finishQueued queued idle (some result) (fun none_err => by cases none_err)).feeds fed)
      (fed.sending.trans idle) (fed.closed closed) (by
        rw [next, queue]
        rw [queued, length_cons] at enough
        exact Nat.le_of_succ_le_succ enough)
    exact ⟨ordered', empty, idle', closed', running.trans fed.running, started.trans fed.started⟩

theorem leaveSendLoop_accounted (sound : s.conn.Sound) (ordered : s.conn.Ordered s.wire s.finished)
    (idle : s.conn.sending = none) (closed : s.conn.sendQueueClosed = true) (started : s.conn.runStarted = true)
    (drained : s.conn.stopSendingRequested = true ∨ s.conn.sendQueue = []) : Accounted s.leaveSendLoop := by
  have ended {t : Session} (ordered : t.conn.Ordered t.wire t.finished) (idle : t.conn.sending = none)
      (empty : t.conn.sendQueue = []) (closed : t.conn.sendQueueClosed = true)
      (stopped : t.conn.sendLoopRunning = false) (started : t.conn.runStarted = true) : Accounted t :=
    ⟨ordered, fun running => absurd (stopped.symm.trans running) (by decide), fun _ => ⟨idle, empty, .inr closed⟩,
      fun unstarted => absurd (started.symm.trans unstarted) (by decide), fun _ => closed⟩
  have sound' : Sound { s.conn with sendLoopRunning := false } := sound.keep rfl (fun _ _ => rfl) rfl rfl rfl id
  have ordered' : Ordered s.wire s.finished { s.conn with sendLoopRunning := false } :=
    ⟨ordered.order, ordered.waiting, ordered.sent, ordered.prefixed, ordered.begun, ordered.ended⟩
  have released {t : Session} (accounted : Accounted t) :
      Accounted (t.withConn { t.conn with lifetime := t.conn.lifetime - 1 }) :=
    accounted.feeds (.alone rfl) rfl rfl
  have closing {t : Session} (accounted : Accounted t) :
      Accounted (t.withConn (t.conn.closeAllStreams t.conn.stopSendingReason)) :=
    accounted.feeds (.path .atom (closeAllStreams_atoms t.conn _)) rfl rfl
  refine released ?_
  split
  · obtain ⟨ordered, empty, idle, closed, running, begun⟩ :=
      drainSendQueue_empties (s := s.withConn { s.conn with sendLoopRunning := false }) s.conn.stopSendingReason
        s.conn.sendQueue.length sound' ordered' idle closed le_rfl
    exact closing (ended ordered idle empty closed running (begun.trans started))
  · rename_i unstopped
    exact ended ordered' idle (drained.resolve_left unstopped) closed rfl started

namespace Accounted

section

variable (accounted : Accounted s)

include accounted

theorem startRun : Accounted s.startRun := by
  unfold Session.startRun
  split
  · exact accounted
  rename_i usable
  have unstarted : s.conn.runStarted = false := by simpa using (not_or.mp usable).1
  obtain ⟨stopped, none_finished⟩ := accounted.unstarted unstarted
  obtain ⟨idle, empty, -⟩ := accounted.idle stopped
  have begun : Accounted (s.withConn { s.conn with runStarted := true }.startSendLoop) := by
    unfold startSendLoop
    split
    · rename_i stops
      have closed := accounted.stops (stops.resolve_left (by simp [stopped]))
      exact ⟨⟨accounted.ordered.order, accounted.ordered.waiting, accounted.ordered.sent, accounted.ordered.prefixed,
        accounted.ordered.begun, accounted.ordered.ended⟩, accounted.clean, fun _ => ⟨idle, empty, .inr closed⟩,
        fun fresh => (by cases fresh), accounted.stops⟩
    · refine ⟨⟨accounted.ordered.order, accounted.ordered.waiting, accounted.ordered.sent, accounted.ordered.prefixed,
        accounted.ordered.begun, accounted.ordered.ended⟩, fun _ entry result member => ?_,
        fun halted => (by cases halted), fun fresh => (by cases fresh), accounted.stops⟩
      rw [withConn, none_finished] at member
      cases member
  dsimp only
  generalize ({ s.conn with runStarted := true } : Conn).startSendLoop = c at begun
  split
  · have sent := Feeds.path Feeds.atom c.sendConnectionPreface_atoms
    generalize c.sendConnectionPreface = outcome at sent
    obtain ⟨err, d⟩ := outcome
    have prefaced : Accounted (s.withConn d) := begun.feeds sent rfl rfl
    cases err with
    | some err =>
      have ended : ReflTransGen (Turn fun _ _ _ _ => True) _ _ := endRun_turns (s.withConn d) err
      exact prefaced.feeds (.path .turn ended) rfl rfl
    | none => exact prefaced.feeds (.refl d) rfl rfl
  · exact begun.feeds (.refl c) rfl rfl

theorem finished {sent : SendEntry} {c : Conn} (wire : List UInt8)
    (fed : Feeds c (c.notifySendDone sent none)) (ordered : c.Ordered wire (s.finished ++ [(sent, none)]))
    (running : c.sendLoopRunning = true) (started : c.runStarted = true)
    (stops : c.stopSendingRequested = true → c.sendQueueClosed = true) (busy : s.conn.sendLoopRunning = true) :
    Accounted (({ s with wire := wire }.withConn c).finishSendEntry sent none) := by
  have ended : Accounted { { s with wire := wire }.withConn c with finished := s.finished ++ [(sent, none)] } := by
    refine ⟨ordered, fun _ entry result member => ?_, fun halted => absurd (running.symm.trans halted) (by decide),
      fun fresh => absurd (started.symm.trans fresh) (by decide), stops⟩
    rcases mem_append.mp member with before | last
    · exact accounted.clean busy entry result before
    · cases mem_singleton.mp last
      rfl
  exact ended.feeds fed rfl rfl

theorem started (running : s.conn.sendLoopRunning = true) : s.conn.runStarted = true := by
  by_contra fresh
  have stopped := (accounted.unstarted (by simpa using fresh)).1
  exact absurd (running.symm.trans stopped) (by decide)

theorem pollToSend (sound : s.conn.Sound) : Accounted s.pollToSend := by
  unfold Session.pollToSend
  split
  · rename_i ready
    obtain ⟨running, idle⟩ := ready
    have begun := accounted.started running
    split
    · rename_i sent rest queued
      have fresh := accounted.ordered.waiting sent (queued ▸ mem_cons_self)
      split
      · rename_i complete
        have whole : sent.writtenBytes = sent.bytes.length := by
          have := (sent.complete_iff).mp complete
          omega
        exact accounted.finished s.wire (notifySendDone_feeds sound (.queued queued) none)
          (accounted.ordered.finishQueued queued idle none fun _ => whole) running begun accounted.stops running
      · exact ⟨accounted.ordered.take queued idle, accounted.clean,
          fun halted => absurd (running.symm.trans halted) (by decide), accounted.unstarted, accounted.stops⟩
    · rename_i empty
      split
      · rename_i closed
        exact leaveSendLoop_accounted sound accounted.ordered idle closed begun (.inr empty)
      · exact accounted
  · exact accounted

theorem written (ready : s.conn.Ready) (n : Nat) : Accounted (s.written n) := by
  unfold Session.written
  split
  · exact accounted
  rename_i sent busy
  have running := ready.held (by rw [busy]; rfl)
  have begun := accounted.started running
  split
  · rename_i taken
    have ordered := accounted.ordered.write busy taken.2 (accounted.clean running)
    dsimp only
    split
    · rename_i complete
      have whole : sent.writtenBytes + n = sent.bytes.length := by
        have reached : sent.bytes.length ≤ sent.writtenBytes + n :=
          ({ sent with writtenBytes := sent.writtenBytes + n }.complete_iff).mp complete
        have within : sent.writtenBytes + n ≤ sent.bytes.length := ordered.begun _ rfl
        omega
      exact accounted.finished _ (notifySendDone_feeds ready.sound (.sending busy n) none)
        (ordered.finish rfl none fun _ => whole) running begun accounted.stops running
    · exact ⟨ordered, accounted.clean, fun halted => absurd (running.symm.trans halted) (by decide),
        accounted.unstarted, accounted.stops⟩
  · exact accounted

end

theorem aborts {reason : IoErr} (sound : s.conn.Sound) (ordered : s.conn.Ordered s.wire s.finished)
    (idle : s.conn.sending = none) (begun : s.conn.runStarted = true)
    (stops : s.conn.stopSendingRequested = true → s.conn.sendQueueClosed = true) :
    Accounted (s.withConn (s.conn.abortConnection reason)).leaveSendLoop := by
  have quiet := abortConnection_quiet s.conn reason
  have fed := Feeds.calm quiet.toCalm
  have stopped : (s.conn.abortConnection reason).stopSendingRequested = true ∧
      (s.conn.abortConnection reason).sendQueueClosed = true := by
    unfold abortConnection
    split
    · rename_i before
      exact ⟨before, stops before⟩
    · exact ⟨rfl, rfl⟩
  exact leaveSendLoop_accounted (sound.calm quiet.toCalm) (ordered.feeds fed) (fed.sending.trans idle) stopped.2
    (fed.started.trans begun) (.inl stopped.1)

theorem writeFailed (accounted : Accounted s) (ready : s.conn.Ready) (err : IoErr) : Accounted (s.writeFailed err) := by
  unfold Session.writeFailed
  split
  · exact accounted
  rename_i sent busy
  generalize (if s.conn.stopSendingRequested then s.conn.stopSendingReason else err) = reason
  have running := ready.held (by rw [busy]; rfl)
  have begun := accounted.started running
  have fed := notifySendDone_feeds ready.sound (.sending busy 0) (some reason)
  have path : ReflTransGen (Tick fun _ _ _ _ => True) s.conn
      ((s.withConn { s.conn with sending := none }).finishSendEntry sent (some reason)).conn :=
    finishSendEntry_ticks ready.sound (.sending busy 0) (some reason)
  have ordered := (accounted.ordered.finish busy (some reason) (fun none_err => by cases none_err)).feeds fed
  exact aborts (s := (s.withConn { s.conn with sending := none }).finishSendEntry sent (some reason))
    (ready.sound.ticks path) ordered fed.sending (fed.started.trans begun)
    fun stopped => (fed.closes stopped).elim (fun before => fed.closed (accounted.stops before)) id

theorem step (accounted : Accounted s) (ready : s.conn.Ready) (event : Event) : Accounted (s.step event) := by
  by_cases outside : event.outside = true
  · have meets := meets_any [event] event mem_cons_self
    refine accounted.feeds ?_ (step_wire outside).1 (step_wire outside).2
    by_cases ending : event.ending = true
    · have ended : ReflTransGen (Turn fun _ _ _ _ => True) s.conn (s.step event).conn ∨ _ := step_ends ending
      rcases ended with turns | ⟨mid, ends, turns⟩
      · exact .path .turn turns
      · exact (Feeds.calm ends.calm).trans (.path .turn turns)
    · exact .path .turn (step_turns ready.sound meets outside (by simpa using ending))
  · cases event with
    | startRun => exact accounted.startRun
    | pollToSend => exact accounted.pollToSend ready.sound
    | written n => exact accounted.written ready n
    | writeFailed err => exact accounted.writeFailed ready err
    | _ => exact absurd rfl outside

theorem run (accounted : Accounted s) (ready : s.conn.Ready) (events : List Event) : Accounted (s.run events) := by
  induction events generalizing s with
  | nil => exact accounted
  | cons event events ih =>
    have happens := step_happens ready (meets_any [event] event mem_cons_self)
    exact ih (accounted.step ready event) (ready.happens happens)

end Accounted

end Session

end FiberGateway.Http2
