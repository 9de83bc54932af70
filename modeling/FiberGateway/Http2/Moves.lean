import FiberGateway.Http2.Sound

namespace FiberGateway.Http2

open Relation LinearProbing Option

namespace Conn

variable {c d e : Conn}

theorem Atom.late (atom : Atom c d) (late : c.unfinishedClose = true) : d.unfinishedClose = true := by
  cases atom with
  | quiet rest => rw [← rest.same]; exact late
  | erase => rw [dropStream_eq]; exact late
  | state => simp [setState, late]
  | close => simp [beginClose, late]
  | link =>
    unfold linkWaiting
    split <;> exact late
  | insertPeer made =>
    obtain ⟨-, -, streams, -, rfl⟩ := createPeerStream_some made
    exact late
  | insertLocal made =>
    obtain ⟨-, -, streams, -, rfl⟩ := createLocalStream_some made
    exact late
  | _ => exact late

theorem Cut.late (cut : Cut c d) (late : c.unfinishedClose = true) : d.unfinishedClose = true := by
  cases cut with
  | atom atom => exact atom.late late
  | fragment => rw [sentFragment_eq]; exact late
  | lost found head bytes err shut => rw [← (abortConnection_quiet _ err).same]; exact late
  | pop => exact late

theorem late_of_path {R : Conn → Conn → Prop} (each : ∀ {c d : Conn}, R c d → c.unfinishedClose = true →
    d.unfinishedClose = true) (path : ReflTransGen R c d) (late : c.unfinishedClose = true) : d.unfinishedClose = true :=
  keeps_path (P := (·.unfinishedClose = true)) each path late

theorem Move.late (move : Move c d) (late : c.unfinishedClose = true) : d.unfinishedClose = true := by
  cases move with
  | atom atom => exact atom.late late
  | schedule cuts => exact late_of_path Cut.late cuts late

/-- Outside the send loop entries are only added to the send queue, and none before `run` or once it is closed. -/
structure Feeds (c d : Conn) : Prop where
  sending : d.sending = c.sending
  running : d.sendLoopRunning = c.sendLoopRunning
  options : d.options = c.options
  pushes : d.localPushStreamCount = c.localPushStreamCount
  started : d.runStarted = c.runStarted
  closed : c.sendQueueClosed = true → d.sendQueueClosed = true
  closes : d.stopSendingRequested = true → c.stopSendingRequested = true ∨ d.sendQueueClosed = true
  queue : ∃ more, d.sendQueue = c.sendQueue ++ more ∧ d.enqueued = c.enqueued ++ more ∧
    (c.runStarted = false ∨ c.sendQueueClosed = true → more = []) ∧ ∀ entry ∈ more, entry.writtenBytes = 0

/-- What a connection feeds its send loop with. -/
def fed (c : Conn) := (c.sending, c.sendLoopRunning, c.options, c.localPushStreamCount, c.runStarted, c.sendQueueClosed,
  c.stopSendingRequested, c.sendQueue, c.enqueued)

namespace Feeds

theorem refl (c : Conn) : Feeds c c := ⟨rfl, rfl, rfl, rfl, rfl, id, .inl, [], by simp⟩

theorem trans (first : Feeds c d) (second : Feeds d e) : Feeds c e := by
  obtain ⟨more, queue, enqueued, none_more, fresh⟩ := first.queue
  obtain ⟨more', queue', enqueued', none_more', fresh'⟩ := second.queue
  refine ⟨second.sending.trans first.sending, second.running.trans first.running,
    second.options.trans first.options, second.pushes.trans first.pushes, second.started.trans first.started,
    second.closed ∘ first.closed, fun stopped => ?_, more ++ more', ?_, ?_, fun shut => ?_, fun entry member => ?_⟩
  · rcases second.closes stopped with before | closed
    · exact (first.closes before).imp_right second.closed
    · exact .inr closed
  · rw [queue', queue, List.append_assoc]
  · rw [enqueued', enqueued, List.append_assoc]
  · rw [none_more shut, none_more' (shut.imp (fun idle => first.started.trans idle) first.closed)]
    rfl
  · exact (List.mem_append.mp member).elim (fresh entry) (fresh' entry)

theorem push (opened : c.Opened) {entry : SendEntry} (fresh : entry.writtenBytes = 0) : Feeds c (c.push entry) := by
  refine ⟨rfl, rfl, rfl, rfl, rfl, id, .inl, [entry], rfl, rfl, fun shut => ?_, fun other member => ?_⟩
  · simp [opened.started, opened.unclosed] at shut
  · rw [List.mem_singleton.mp member]
    exact fresh

theorem alone (same : d.fed = c.fed) : Feeds c d := by
  simp only [fed, Prod.mk.injEq] at same
  obtain ⟨sending, running, options, pushes, started, closed, stopped, queue, enqueued⟩ := same
  exact ⟨sending, running, options, pushes, started, fun was => closed ▸ was, fun now => .inl (stopped ▸ now), [],
    by simp [queue], by simp [enqueued], by simp⟩

theorem calm (rest : Calm c d) : Feeds c d := by
  have same := rest.same
  refine ⟨?_, ?_, ?_, ?_, rest.started, rest.closed, rest.closes, [], ?_, ?_, by simp⟩
  all_goals
    rw [← same]
    simp [withQuiet]

theorem atom (atom : Atom c d) : Feeds c d := by
  cases atom with
  | quiet rest => exact .calm rest.toCalm
  | announce next opened =>
    have pushed : Feeds c (c.push (goawayFrame c.localGoawayLastStreamId)) := .push opened rfl
    exact { pushed with }
  | control unowned plain opened => exact .push opened (by cases unowned <;> rfl)
  | erase => rw [dropStream_eq]; exact .alone rfl
  | link =>
    unfold linkWaiting
    split
    · exact .refl c
    · exact .alone rfl
  | insertPeer made =>
    obtain ⟨-, -, streams, -, rfl⟩ := createPeerStream_some made
    exact .alone rfl
  | insertLocal made =>
    obtain ⟨-, -, streams, -, rfl⟩ := createLocalStream_some made
    exact .alone rfl
  | _ => exact .alone rfl

theorem cut (cut : Cut c d) : Feeds c d := by
  cases cut with
  | atom atom => exact .atom atom
  | fragment found head positive opened =>
    rename_i streamId s entry
    rw [sentFragment_eq]
    have pushed : Feeds c (c.push (fragment streamId entry (c.fragmentBytes s entry))) := .push opened rfl
    exact { pushed with }
  | lost found head bytes err shut =>
    rename_i streamId s entry
    have split : Feeds c (c.splitEntry streamId entry bytes) := .alone rfl
    exact split.trans (.calm (abortConnection_quiet _ err).toCalm)
  | pop => exact .alone rfl

theorem path {R : Conn → Conn → Prop} (each : ∀ {c d : Conn}, R c d → Feeds c d) (path : ReflTransGen R c d) :
    Feeds c d := by
  induction path with
  | refl => exact .refl c
  | tail _ step ih => exact ih.trans (each step)

theorem move (move : Move c d) : Feeds c d := by
  cases move with
  | atom atom => exact .atom atom
  | schedule cuts => exact .path .cut cuts

theorem turn {ok : Allowed} (turn : Turn ok c d) : Feeds c d := by
  cases turn with
  | move move => exact .move move
  | append | shift | initial => exact .alone rfl

end Feeds

/-- The stream is in the table, unless one was closed before its entries had ended. -/
def Here (c : Conn) (streamId : Nat) : Prop := (c.streams.find streamId).isSome ∨ c.unfinishedClose = true

variable {streamId : Nat}

theorem Here.of_found {s : Stream} (found : c.streams.find streamId = some s) : c.Here streamId :=
  .inl (isSome_iff_exists.mpr ⟨s, found⟩)

theorem Here.late (here : c.Here streamId) (missing : c.streams.find streamId = none) : c.unfinishedClose = true :=
  here.resolve_left (by simp [missing])

/-- Steps that leave the other streams alone. -/
structure Local (R : Conn → Conn → Prop) (streamId : Nat) (c d : Conn) : Prop where
  path : ReflTransGen R c d
  others : ∀ other, other ≠ streamId → d.streams.find other = c.streams.find other

namespace Local

variable {R S : Conn → Conn → Prop} {streamId other : Nat}

theorem refl (c : Conn) : Local R streamId c c := ⟨.refl, fun _ _ => rfl⟩

theorem trans (first : Local R streamId c d) (second : Local R streamId d e) : Local R streamId c e :=
  ⟨first.path.trans second.path, fun other apart => (second.others other apart).trans (first.others other apart)⟩

theorem lift (local_path : Local R streamId c d) (each : ∀ {c d : Conn}, R c d → S c d) : Local S streamId c d :=
  ⟨ReflTransGen.mono (fun _ _ step => each step) _ _ local_path.path, local_path.others⟩

theorem single (step : R c d) (others : ∀ other, other ≠ streamId → d.streams.find other = c.streams.find other) :
    Local R streamId c d := ⟨.single step, others⟩

theorem same (step : R c d) (streams : d.streams = c.streams) : Local R streamId c d :=
  .single step fun _ _ => by rw [streams]

theorem modify (step : R c d) {f : Stream → Stream} (streams : d.streams = c.streams.modify streamId f) :
    Local R streamId c d :=
  .single step fun other apart => by
    rw [streams, Table.find_modify, if_neg apart]

theorem quiet (rest : Quiet c d) : Local Atom streamId c d :=
  .same (.quiet rest) (by rw [← rest.same]; rfl)

theorem here (local_path : Local R streamId c d) (each : ∀ {c d : Conn}, R c d →
      c.unfinishedClose = true → d.unfinishedClose = true) (apart : other ≠ streamId) (here : c.Here other) :
    d.Here other := by
  rcases here with found | late
  · exact .inl (by rw [local_path.others other apart]; exact found)
  · exact .inr (late_of_path each local_path.path late)

end Local

section Destroy

variable {streamId : Nat}

theorem maybeFinishGracefulShutdown_quiet (c : Conn) : Quiet c c.maybeFinishGracefulShutdown := by
  unfold maybeFinishGracefulShutdown
  split_ifs with stopped draining used unsent
  · exact .refl c
  · exact .refl c
  · exact .refl c
  · exact .refl c
  · refine ⟨⟨rfl, rfl, fun _ => rfl, id, .inl⟩, .inl (.inl rfl), id, fun closed differs => absurd closed differs, rfl,
      fun _ => .inr ⟨by simpa using used, by simpa using unsent⟩, fun _ => .inr (.inr rfl), .inl, fun _ => rfl⟩

theorem eraseStream_eq (c : Conn) (streamId : Nat) :
    c.eraseStream streamId = (c.dropStream streamId).maybeFinishGracefulShutdown := rfl

theorem maybeDestroyStream_atoms (here : c.Here streamId) : Local Atom streamId c (c.maybeDestroyStream streamId) := by
  unfold maybeDestroyStream
  split
  · rename_i missing
    exact .same (.touch (here.late missing)) rfl
  rename_i s found
  split_ifs with running used
  · exact .refl c
  · exact .refl c
  simp only [ne_eq, not_or, not_not] at running used
  rw [eraseStream_eq]
  refine .trans (.single (.erase found running used.1 used.2) fun other apart => ?_)
    (.quiet (maybeFinishGracefulShutdown_quiet _))
  rw [dropStream_eq]
  exact (Table.find_erase _ _ _).trans (if_neg apart)

variable {s : Stream} {entryId : Nat} {entry : PendingEntry} {type : FrameType}

section

variable (found : c.streams.find streamId = some s)

include found

theorem finishPending_eq (there : s.entry entryId = some entry) (result : Option IoErr) :
    c.finishPending streamId entryId result =
      (c.endPending streamId s entry entryId result).maybeDestroyStream streamId := by
  unfold finishPending
  simp only [found, there]
  cases result <;> rfl

theorem endPending_find (entry : PendingEntry) (entryId : Nat) (result : Option IoErr) :
    (c.endPending streamId s entry entryId result).streams.find streamId = some (s.removeActivePending entryId) :=
  find_modifyStream_self found _

theorem finishPending_atoms (there : s.entry entryId = some entry)
    (idle : entry.inflightSends = 0) {result : Option IoErr}
    (whole : result = none → entry.payload = [] ∧ entry.writtenBytes = entry.totalBytes)
    (cause : s.pending = [] ∨ entry.result = result ∧ (entryId ∈ s.pending → entry.totalBytes ≠ 0)) :
    Local Atom streamId c (c.finishPending streamId entryId result) := by
  rw [finishPending_eq found there]
  exact (Local.modify (.finish result found there idle whole cause) rfl).trans
    (maybeDestroyStream_atoms (.of_found (endPending_find found entry entryId result)))

end

/-- An entry still queued was not empty from the start. -/
def Filled (c : Conn) (streamId entryId : Nat) : Prop :=
  ∀ s entry, c.streams.find streamId = some s → s.entry entryId = some entry → entryId ∈ s.pending →
    entry.totalBytes ≠ 0

theorem maybeFinishPending_atoms (filled : c.Filled streamId entryId)
    (here : (c.lookup streamId entryId).isSome ∨ c.unfinishedClose = true) :
    Local Atom streamId c (c.maybeFinishPending streamId entryId) := by
  unfold maybeFinishPending
  split
  · rename_i missing
    exact .same (.touch (here.resolve_left (by rw [lookup, missing]; simp))) rfl
  rename_i entry there
  obtain ⟨s, found, there⟩ := bind_eq_some_iff.mp there
  split
  · exact .refl c
  rename_i idle
  rw [not_ne_iff] at idle
  split
  · rename_i err failed
    exact finishPending_atoms found there idle (fun impossible => by cases impossible)
      (.inr ⟨failed, filled s entry found there⟩)
  · rename_i clean
    split
    · rename_i whole
      exact finishPending_atoms found there idle (fun _ => whole) (.inr ⟨clean, filled s entry found there⟩)
    · exact .refl c

theorem finishPending_open (found : c.streams.find streamId = some s) (running : s.state ≠ .closed)
    (there : s.entry entryId = some entry) (result : Option IoErr) :
    c.finishPending streamId entryId result = c.endPending streamId s entry entryId result := by
  rw [finishPending_eq found there]
  unfold maybeDestroyStream
  rw [endPending_find found]
  exact if_pos running

/-- An entry that may be ended belongs to a stream that stays. -/
theorem maybeFinishPending_here (sound : Sound c) (filled : c.Filled streamId entryId)
    (lookedUp : c.lookup streamId entryId = some entry) : (c.maybeFinishPending streamId entryId).Here streamId := by
  obtain ⟨s, found, there⟩ := lookup_found lookedUp
  by_cases closed : s.state = .closed
  · have late : c.unfinishedClose = true := by
      by_contra unmarked
      have ended := sound.tidy (by simpa using unmarked) found closed
      exact List.not_mem_nil (ended ▸ Stream.entry_mem there)
    have ending := maybeFinishPending_atoms filled (.inr late)
    exact .inr (late_of_path Atom.late ending.path late)
  · have ended (result : Option IoErr) : (c.finishPending streamId entryId result).Here streamId := by
      rw [finishPending_open found closed there]
      exact .of_found (endPending_find found entry entryId result)
    unfold maybeFinishPending
    rw [show (c.streams.find streamId).bind (·.entry entryId) = some entry from lookedUp]
    dsimp only
    split
    · exact .of_found found
    split
    · exact ended _
    split
    · exact ended _
    · exact .of_found found

/-- Nothing waits in the stream's queue, if the stream is still there. -/
def Unqueued (c : Conn) (streamId : Nat) : Prop :=
  ∀ s, c.streams.find streamId = some s → s.pending = []

theorem Unqueued.modify (unqueued : c.Unqueued streamId) {f : Stream → Stream}
    (streams : d.streams = c.streams.modify streamId f) (same : ∀ s, (f s).pending = s.pending) :
    d.Unqueued streamId := by
  intro s found
  rw [streams, Table.find_modify, if_pos rfl] at found
  obtain ⟨before, there, rfl⟩ := map_eq_some_iff.mp found
  rw [same]
  exact unqueued before there

theorem Unqueued.maybeDestroyStream (unqueued : c.Unqueued streamId) :
    (c.maybeDestroyStream streamId).Unqueued streamId := by
  unfold Conn.maybeDestroyStream
  split
  · exact unqueued
  split_ifs
  · exact unqueued
  · exact unqueued
  intro s found
  rw [eraseStream_find] at found
  cases found

theorem Unqueued.drainEntry (unqueued : c.Unqueued streamId) (result : IoErr) (entryId : Nat) :
    (drainEntry result streamId c entryId).Unqueued streamId := by
  unfold Conn.drainEntry
  split
  · exact unqueued
  rename_i entry lookedUp
  obtain ⟨s, found, there⟩ := bind_eq_some_iff.mp lookedUp
  split_ifs
  · rw [finishPending_eq found there]
    have ended : (c.endPending streamId s entry entryId (some result)).Unqueued streamId :=
      unqueued.modify rfl fun _ => rfl
    exact ended.maybeDestroyStream
  · exact unqueued.modify rfl fun _ => rfl
  · exact unqueued

theorem drainEntry_atoms (result : IoErr) (unqueued : c.Unqueued streamId)
    (here : (c.lookup streamId entryId).isSome ∨ c.unfinishedClose = true) :
    Local Atom streamId c (drainEntry result streamId c entryId) := by
  unfold drainEntry
  split
  · rename_i missing
    exact .same (.touch (here.resolve_left (by rw [lookup, missing]; simp))) rfl
  · rename_i entry lookedUp
    obtain ⟨s, found, there⟩ := bind_eq_some_iff.mp lookedUp
    split_ifs with idle clean
    · exact finishPending_atoms found there idle (fun impossible => by cases impossible) (.inl (unqueued s found))
    · exact .modify (.fail result found there (unqueued s found) idle clean) rfl
    · exact .refl c

theorem drainEntries_atoms (result : IoErr) (ids : List Nat) (unqueued : c.Unqueued streamId)
    (late : c.unfinishedClose = true) : Local Atom streamId c (ids.foldl (drainEntry result streamId) c) := by
  induction ids generalizing c with
  | nil => exact .refl c
  | cons id ids ih =>
    have first : Local Atom streamId c (drainEntry result streamId c id) :=
      drainEntry_atoms result unqueued (.inr late)
    exact first.trans (ih (unqueued.drainEntry result id) (late_of_path Atom.late first.path late))

/-- `close` followed by the check whether the stream may go. -/
theorem closeStream_atoms (here : c.Here streamId) (result : IoErr) :
    Local Atom streamId c ((c.closeStream streamId result).maybeDestroyStream streamId) := by
  cases found : c.streams.find streamId with
  | none =>
    have late := here.late found
    have closed : c.closeStream streamId result = c.touchErased := by simp [closeStream, found]
    rw [closed]
    have touched : Local Atom streamId c c.touchErased := .same (.touch late) rfl
    exact touched.trans (maybeDestroyStream_atoms (c := c.touchErased) (.inr late))
  | some s =>
    have begun : Local Atom streamId c (c.beginClose streamId) := .modify (.close found) rfl
    rw [closeStream_eq found]
    by_cases ended : s.entries = []
    · rw [ended]
      exact begun.trans (maybeDestroyStream_atoms (.of_found (find_modifyStream_self found closedStream)))
    have late : (c.beginClose streamId).unfinishedClose = true := by
      simp [beginClose, Sound.hasEntries_found found, ended]
    have unqueued : (c.beginClose streamId).Unqueued streamId := fun s' found' => by
      rw [(closing_closedStream found).found] at found'
      cases found'
      rfl
    have drained := drainEntries_atoms result (s.entries.map (·.id)) unqueued late
    exact begun.trans (drained.trans (maybeDestroyStream_atoms (.inr (late_of_path Atom.late drained.path late))))

theorem enqueueSendEntry_cases (c : Conn) (entry : SendEntry) :
    (∃ err, c.enqueueSendEntry entry = (some err, c)) ∨
      c.Opened ∧ c.enqueueSendEntry entry = (none, c.push entry) := by
  unfold enqueueSendEntry
  split_ifs with unready stopped closed
  · exact .inl ⟨_, rfl⟩
  · exact .inl ⟨_, rfl⟩
  · exact .inl ⟨_, rfl⟩
  · simp only [Bool.or_eq_true, Bool.not_eq_true', not_or, Bool.not_eq_false] at unready
    exact .inr ⟨⟨unready.1, unready.2, by simpa using stopped, by simpa using closed⟩, rfl⟩

theorem enqueueSendEntry_opened (opened : c.Opened) (entry : SendEntry) :
    c.enqueueSendEntry entry = (none, c.push entry) := by
  simp [enqueueSendEntry, opened.started, opened.valid, opened.running, opened.unclosed, push]

theorem enqueue_atoms {entry : SendEntry} (unowned : Unowned entry) (plain : isGoaway entry = false) :
    Local Atom streamId c (c.enqueueSendEntry entry).2 := by
  rcases c.enqueueSendEntry_cases entry with ⟨err, refused⟩ | ⟨opened, taken⟩
  · rw [refused]
    exact .refl c
  · rw [taken]
    exact .same (.control unowned plain opened) rfl

theorem isGoaway_controlFrame (plain : type.toByte ≠ FrameType.goaway.toByte) (flags : UInt8) (target : Nat)
    (payload : List UInt8) : isGoaway (controlFrame type flags target payload) = false := by
  simpa [isGoaway, controlFrame, encodeFrameHeader] using plain

section

variable (control : type ≠ .data ∧ type ≠ .headers ∧ type ≠ .continuation)

include control

theorem sendControlFrame_atoms
    (plain : type.toByte ≠ FrameType.goaway.toByte) (flags : UInt8) (target : Nat) (payload : List UInt8) :
    Local Atom streamId c (c.sendControlFrame type flags target payload).2 :=
  enqueue_atoms (.frame control flags target payload) (isGoaway_controlFrame plain flags target payload)

theorem control_path
    (plain : type.toByte ≠ FrameType.goaway.toByte) (flags : UInt8) (target : Nat) (payload : List UInt8) :
    ReflTransGen Atom c (c.sendControlFrame type flags target payload).2 :=
  have sent : Local Atom 0 c _ := sendControlFrame_atoms control plain flags target payload
  sent.path

end

theorem sendRstStream_atoms (target : Nat) (code : ErrorCode) : Local Atom streamId c (c.sendRstStream target code).2 :=
  sendControlFrame_atoms (by decide) (by decide) _ _ _

theorem handleStreamError_atoms (c : Conn) (streamId : Nat) (code : ErrorCode) (result : IoErr) :
    Local Atom streamId c (c.handleStreamError streamId code result) := by
  unfold handleStreamError
  refine .trans (sendRstStream_atoms streamId code) ?_
  generalize (c.sendRstStream streamId code).2 = d
  simp only
  split
  · exact .refl d
  · rename_i s found
    exact closeStream_atoms (.of_found found) result

theorem syncConnWindowWaitMembership_atoms (here : c.Here streamId) :
    Local Atom streamId c (c.syncConnWindowWaitMembership streamId) := by
  unfold syncConnWindowWaitMembership
  split
  · rename_i missing
    exact .same (.touch (here.late missing)) rfl
  · rename_i s found
    split_ifs with blocked
    · refine .same (.link found blocked) ?_
      unfold linkWaiting
      split <;> rfl
    · exact .same (.unlink c streamId) rfl

theorem syncConnWindowWaitMembership_here (here : c.Here streamId) :
    (c.syncConnWindowWaitMembership streamId).Here streamId := by
  unfold syncConnWindowWaitMembership
  split
  · rename_i missing
    exact .inr (here.late missing)
  · rename_i s found
    split_ifs
    · unfold linkWaiting
      split <;> exact .of_found found
    · exact .of_found found

end Destroy

section Schedule

variable {streamId : Nat}

theorem sendFragment_cases (c : Conn) (streamId : Nat) (entry : PendingEntry) (bytes : Nat) :
    (∃ err, c.sendFragment streamId entry bytes =
        (some err, (c.splitEntry streamId entry bytes).abortConnection err)) ∨
      c.Opened ∧
        c.sendFragment streamId entry bytes = (none, c.sentFragment streamId entry bytes) := by
  unfold sendFragment
  rcases (c.splitEntry streamId entry bytes).enqueueSendEntry_cases (fragment streamId entry bytes) with
    ⟨err, refused⟩ | ⟨opened, taken⟩
  · refine .inl ⟨err, ?_⟩
    unfold splitEntry at refused
    simp only [refused]
    rfl
  · refine .inr ⟨⟨opened.started, opened.valid, opened.running, opened.unclosed⟩, ?_⟩
    unfold splitEntry at taken
    simp only [taken]
    rfl

theorem sendFragment_opened (opened : c.Opened) (entry : PendingEntry) (bytes : Nat) :
    c.sendFragment streamId entry bytes = (none, c.sentFragment streamId entry bytes) := by
  have opened' : (c.splitEntry streamId entry bytes).Opened :=
    ⟨opened.started, opened.valid, opened.running, opened.unclosed⟩
  have taken := enqueueSendEntry_opened opened' (fragment streamId entry bytes)
  unfold splitEntry at taken
  simp only [sendFragment, taken]
  rfl

variable {s : Stream}

theorem sentFragment_find (found : c.streams.find streamId = some s) (entry : PendingEntry) (bytes : Nat) :
    (c.sentFragment streamId entry bytes).streams.find streamId = some (s.sendFragment entry bytes) := by
  rw [sentFragment_eq]
  exact find_modifyStream_self found _

theorem Sound.splitEntry_shut (sound : Sound c) (streamId : Nat) (entry : PendingEntry) (bytes : Nat) (err : IoErr) :
    ((c.splitEntry streamId entry bytes).abortConnection err).sendQueueClosed = true := by
  unfold abortConnection
  split
  · rename_i stopped
    exact sound.shut stopped
  · rfl

/-- The entry at the head is still there when it has left the queue, and is not queued again. -/
theorem popPendingHead_filled (sound : Sound c) (found : c.streams.find streamId = some s) {entry : PendingEntry}
    (head : s.pendingHead = some entry) :
    (c.modifyStream streamId Stream.popPendingHead).Filled streamId entry.id ∧
      (c.modifyStream streamId Stream.popPendingHead).lookup streamId entry.id = some entry := by
  obtain ⟨there, rest, pending⟩ := Stream.pendingHead_entry head
  constructor
  · intro s' _ found' _ queued
    rw [find_modifyStream_self found] at found'
    cases found'
    have lined := (sound.solid found).lined
    rw [Stream.popPendingHead, pending, List.tail_cons] at queued
    rw [pending] at lined
    exact absurd queued (List.nodup_cons.mp lined).1
  · unfold lookup
    rw [find_modifyStream_self found]
    exact there

theorem scheduleLoop_cuts (fuel : Nat) (scheduledAny : Bool) (sound : Sound c) (here : c.Here streamId) :
    Local Cut streamId c (scheduleLoop streamId fuel scheduledAny c).2 ∧
      (scheduleLoop streamId fuel scheduledAny c).2.Here streamId := by
  have finish {c : Conn} (here : c.Here streamId) (result : ScheduleResult) :
      Local Cut streamId c (finishSchedule streamId result c).2 ∧ (finishSchedule streamId result c).2.Here streamId :=
    ⟨(syncConnWindowWaitMembership_atoms here).lift .atom, syncConnWindowWaitMembership_here here⟩
  induction fuel generalizing c scheduledAny with
  | zero => exact finish here _
  | succ fuel ih =>
    unfold scheduleLoop
    split
    · rename_i missing
      exact ⟨.same (.atom (.touch (here.late missing))) rfl, .inr (here.late missing)⟩
    rename_i s found
    split
    · exact finish here _
    rename_i entry head
    have there := (Stream.pendingHead_entry head).1
    split
    · exact finish here _
    split
    · exact finish here _
    split
    · -- an entry without bytes leaves the queue and may be the last of a closed stream
      rename_i empty
      have popped : Local Cut streamId c (c.modifyStream streamId Stream.popPendingHead) :=
        .modify (.pop found head empty) rfl
      obtain ⟨filled, lookedUp⟩ := popPendingHead_filled sound found head
      have ended := maybeFinishPending_atoms filled (.inl (isSome_iff_exists.mpr ⟨entry, lookedUp⟩))
      have ending := finish (maybeFinishPending_here (sound.cuts popped.path) filled lookedUp)
        (if scheduledAny then .scheduled else .noPending)
      exact ⟨(popped.trans (ended.lift .atom)).trans ending.1, ending.2⟩
    split
    · exact finish here _
    rename_i some_bytes
    have positive := Nat.pos_of_ne_zero some_bytes
    rcases c.sendFragment_cases streamId entry (c.fragmentBytes s entry) with ⟨err, refused⟩ | ⟨opened, taken⟩
    · rw [refused]
      have shut := sound.splitEntry_shut streamId entry (c.fragmentBytes s entry) err
      have streams : ((c.splitEntry streamId entry (c.fragmentBytes s entry)).abortConnection err).streams =
          (c.splitEntry streamId entry (c.fragmentBytes s entry)).streams := by
        rw [← (abortConnection_quiet _ err).same]
        rfl
      have lost : Local Cut streamId c _ := .modify (.lost found head _ err shut) streams
      have kept : ((c.splitEntry streamId entry (c.fragmentBytes s entry)).abortConnection err).Here
          streamId := .of_found (streams ▸ find_modifyStream_self found _)
      have ending := finish kept .noPending
      exact ⟨lost.trans ending.1, ending.2⟩
    · rw [taken]
      have sent : Local Cut streamId c (c.sentFragment streamId entry (c.fragmentBytes s entry)) :=
        .modify (.fragment found head positive opened) (by rw [sentFragment_eq])
      have here' : (c.sentFragment streamId entry (c.fragmentBytes s entry)).Here streamId :=
        .of_found (sentFragment_find found entry _)
      simp only
      split
      · have rest := ih true (sound.cuts sent.path) here'
        exact ⟨sent.trans rest.1, rest.2⟩
      · have ending := finish here' .scheduled
        exact ⟨sent.trans ending.1, ending.2⟩

theorem schedulePending_moves (sound : Sound c) (here : c.Here streamId) :
    Local Move streamId c (c.schedulePending streamId).2 ∧ (c.schedulePending streamId).2.Here streamId := by
  have run : Local Cut streamId c (c.schedulePending streamId).2 ∧ (c.schedulePending streamId).2.Here streamId := by
    unfold schedulePending
    split
    · rename_i missing
      exact ⟨.same (.atom (.touch (here.late missing))) rfl, .inr (here.late missing)⟩
    · exact scheduleLoop_cuts _ _ sound here
  exact ⟨⟨.single (.schedule run.1.path), run.1.others⟩, run.2⟩

theorem trySchedulePending_moves (sound : Sound c) (here : c.Here streamId) :
    Local Move streamId c (c.trySchedulePending streamId) ∧ (c.trySchedulePending streamId).Here streamId := by
  unfold trySchedulePending
  split
  · rename_i missing
    exact ⟨.same (.atom (.touch (here.late missing))) rfl, .inr (here.late missing)⟩
  · split
    · exact ⟨.refl c, here⟩
    · exact schedulePending_moves sound here

theorem Sound.moves (path : ReflTransGen Move c d) (sound : Sound c) : Sound d :=
  keeps_path (fun step sound => sound.move step) path sound

theorem drainPass_moves (sound : Sound c) {streamIds : List Nat} (here : ∀ streamId ∈ streamIds, c.Here streamId) :
    ReflTransGen Move c (c.drainPass streamIds).2 := by
  induction streamIds generalizing c with
  | nil => exact .refl
  | cons streamId streamIds ih =>
    obtain ⟨scheduled, kept⟩ := schedulePending_moves sound (here streamId List.mem_cons_self)
    simp only [drainPass]
    split
    · exact scheduled.path
    refine scheduled.path.trans (ih (sound.moves scheduled.path) fun other member => ?_)
    by_cases same : other = streamId
    · rw [same]
      exact kept
    · exact scheduled.here Move.late same (here other (List.mem_cons_of_mem _ member))

theorem drainLoop_moves (fuel : Nat) (sound : Sound c) : ReflTransGen Move c (drainLoop fuel c) := by
  induction fuel generalizing c with
  | zero => exact .refl
  | succ fuel ih =>
    have pass := drainPass_moves sound fun streamId member => .inl (sound.waiting streamId member)
    simp only [drainLoop]
    split
    · exact pass.trans (ih (sound.moves pass))
    · exact pass

theorem drainConnBlockedStreams_moves (sound : Sound c) : ReflTransGen Move c c.drainConnBlockedStreams := by
  unfold drainConnBlockedStreams
  split
  · exact .refl
  · exact drainLoop_moves _ sound

end Schedule

end Conn

end FiberGateway.Http2
