import FiberGateway.Http2.Admission
import FiberGateway.Http2.CloseOrder
import FiberGateway.Http2.LateFrames

namespace FiberGateway.Http2

open List Relation LinearProbing

namespace Stream

variable {s t : Stream} {next id : Nat}

/-- The bytes that the queue still has to hand to the send queue, in order. -/
def queuedPayload (s : Stream) : List UInt8 := s.pending.flatMap fun id => ((s.entry id).map (·.payload)).getD []

theorem queuedPayload_congr (pending : t.pending = s.pending)
    (payloads : ∀ id ∈ s.pending, (t.entry id).map (·.payload) = (s.entry id).map (·.payload)) :
    t.queuedPayload = s.queuedPayload := by
  unfold queuedPayload
  rw [pending]
  refine flatMap_congr fun id member => ?_
  rw [payloads id member]

variable {entry : PendingEntry}

theorem queuedPayload_pop (head : s.pendingHead = some entry) (empty : entry.payload = []) :
    s.popPendingHead.queuedPayload = s.queuedPayload := by
  obtain ⟨there, rest, pending⟩ := pendingHead_entry head
  have popped : s.popPendingHead.queuedPayload = rest.flatMap fun id => ((s.entry id).map (·.payload)).getD [] := by
    unfold queuedPayload
    rw [show s.popPendingHead.pending = rest from congrArg List.tail pending]
    rfl
  rw [popped, queuedPayload, pending, flatMap_cons, there]
  simp [empty]

theorem queuedPayload_remove (left : id ∉ s.pending) :
    (s.removeActivePending id).queuedPayload = s.queuedPayload := by
  refine queuedPayload_congr rfl fun other member => ?_
  rw [entry_removeActivePending, if_neg fun same : other = id => left (same ▸ member)]

theorem queuedPayload_sendFragment (solid : s.Solid next) (head : s.pendingHead = some entry) (bytes : Nat) :
    entry.payload.take bytes ++ (s.sendFragment entry bytes).queuedPayload = s.queuedPayload := by
  obtain ⟨there, rest, pending⟩ := pendingHead_entry head
  have lined := solid.lined
  rw [pending, nodup_cons] at lined
  have lookups (id : Nat) : (s.sendFragment entry bytes).entry id = if id = entry.id then
      (s.entry id).map fun entry => { entry with
        payload := entry.payload.drop bytes
        inflightSends := entry.inflightSends + 1 } else s.entry id :=
    s.entry_modifyEntry entry.id _ (by intro; rfl) id
  have later : rest.flatMap (fun id => (((s.sendFragment entry bytes).entry id).map (·.payload)).getD []) =
      rest.flatMap fun id => ((s.entry id).map (·.payload)).getD [] := by
    refine flatMap_congr fun id member => ?_
    rw [lookups, if_neg fun same : id = entry.id => lined.1 (same ▸ member)]
  unfold queuedPayload
  by_cases last : bytes = entry.payload.length
  · have left : (s.sendFragment entry bytes).pending = rest := by simp [sendFragment, pending, last]
    rw [left, later, pending, flatMap_cons, there, last, take_length]
    rfl
  · have kept : (s.sendFragment entry bytes).pending = entry.id :: rest := by simp [sendFragment, pending, last]
    rw [kept, pending, flatMap_cons, flatMap_cons, later, lookups, if_pos rfl, there, ← append_assoc]
    simp

end Stream

namespace Conn

variable {ok : Allowed} {c d e : Conn} {streamId : Nat}

/-- The bytes of a stream that were put on the send queue, and those that wait for it. -/
def outgoing (c : Conn) (streamId : Nat) : List UInt8 :=
  (c.enqueued.filter fun sent => sent.owner.map (·.1) = some streamId).flatMap (·.payload) ++
    ((c.streams.find streamId).map (·.queuedPayload)).getD []

/-- The close state, and what decides whether the send queue takes entries. -/
def status (c : Conn) : CloseState × Bool × Bool × Bool × Bool :=
  (c.closeState, c.runStarted, c.transportValid, c.stopSendingRequested, c.sendQueueClosed)

theorem Opened.congr (same : d.status = c.status) (opened : c.Opened) : d.Opened := by
  simp only [status, Prod.mk.injEq] at same
  exact ⟨same.2.1.trans opened.started, same.2.2.1.trans opened.valid, same.2.2.2.1.trans opened.running,
    same.2.2.2.2.trans opened.unclosed⟩

/-- The connection goes on as it is: the send queue takes entries, and every stream keeps its state and its data. -/
structure Carries (c d : Conn) : Prop where
  opened : c.Opened → d.Opened
  closeState : d.closeState = c.closeState
  streams : ∀ streamId s, c.streams.find streamId = some s → ∃ s', d.streams.find streamId = some s' ∧ s'.state = s.state
  outgoing : ∀ streamId, d.outgoing streamId = c.outgoing streamId

namespace Carries

theorem refl (c : Conn) : Carries c c := ⟨id, rfl, fun _ s found => ⟨s, found, rfl⟩, fun _ => rfl⟩

theorem trans (first : Carries c d) (second : Carries d e) : Carries c e := by
  refine ⟨fun opened => second.opened (first.opened opened), second.closeState.trans first.closeState,
    fun streamId s found => ?_, fun streamId => (second.outgoing streamId).trans (first.outgoing streamId)⟩
  obtain ⟨s', found', same⟩ := first.streams streamId s found
  obtain ⟨s'', found'', same'⟩ := second.streams streamId s' found'
  exact ⟨s'', found'', same'.trans same⟩

theorem keep (same : d.status = c.status) (streams : d.streams = c.streams) (enqueued : d.enqueued = c.enqueued) :
    Carries c d :=
  ⟨.congr same, congrArg (·.1) same, fun _ s found => ⟨s, streams ▸ found, rfl⟩,
    fun streamId => by rw [Conn.outgoing, Conn.outgoing, streams, enqueued]⟩

theorem push (c : Conn) {entry : SendEntry} (unowned : entry.owner = none) : Carries c (c.push entry) := by
  refine ⟨.congr rfl, rfl,
    fun _ s found => ⟨s, found, rfl⟩, fun streamId => ?_⟩
  simp [Conn.outgoing, Conn.push, unowned]

variable {s : Stream} {entryId : Nat}

theorem modify {f : Stream → Stream} (found : c.streams.find streamId = some s) (same : d.status = c.status)
    (streams : d.streams = c.streams.modify streamId f) (enqueued : d.enqueued = c.enqueued)
    (state : (f s).state = s.state) (payload : (f s).queuedPayload = s.queuedPayload) : Carries c d := by
  refine ⟨.congr same, congrArg (·.1) same, fun other t there => ?_, fun other => ?_⟩
  · rw [streams, Table.find_modify]
    by_cases same : other = streamId
    · subst same
      rw [found] at there
      cases there
      rw [if_pos rfl, found]
      exact ⟨f s, rfl, state⟩
    · rw [if_neg same]
      exact ⟨t, there, rfl⟩
  · rw [Conn.outgoing, Conn.outgoing, enqueued, streams, Table.find_modify]
    by_cases same : other = streamId
    · subst same
      rw [if_pos rfl, found]
      simp [payload]
    · rw [if_neg same]

theorem fragment (sound : Sound c) {entry : PendingEntry} (found : c.streams.find streamId = some s)
    (head : s.pendingHead = some entry) (bytes : Nat) : Carries c (c.sentFragment streamId entry bytes) := by
  rw [sentFragment_eq]
  refine ⟨.congr rfl, rfl, fun other t there => ?_,
    fun other => ?_⟩
  · rw [Table.find_modify]
    by_cases same : other = streamId
    · subst same
      rw [found] at there
      cases there
      rw [if_pos rfl, found]
      exact ⟨_, rfl, rfl⟩
    · rw [if_neg same]
      exact ⟨t, there, rfl⟩
  · have cut := Stream.queuedPayload_sendFragment (sound.solid found) head bytes
    have owner : (Conn.fragment streamId entry bytes).owner = some (streamId, entry.id) := rfl
    have payload : (Conn.fragment streamId entry bytes).payload = entry.payload.take bytes := rfl
    simp only [Conn.outgoing, Conn.push, Table.find_modify, filter_append, flatMap_append]
    by_cases same : other = streamId
    · subst same
      simp [owner, payload, found, ← cut]
    · simp [owner, same, Ne.symm same]

theorem sync (c : Conn) (streamId : Nat) : Carries c (c.syncConnWindowWaitMembership streamId) := by
  unfold syncConnWindowWaitMembership
  split
  · exact keep rfl rfl rfl
  split
  · unfold linkWaiting
    split
    · exact refl c
    · exact keep rfl rfl rfl
  · exact keep rfl rfl rfl

/-- An entry that left the queue of a stream that is not closed. -/
theorem finish (found : c.streams.find streamId = some s) (running : s.state ≠ .closed)
    (left : entryId ∉ s.pending) (result : Option IoErr) : Carries c (c.finishPending streamId entryId result) := by
  unfold finishPending
  rw [found]
  dsimp only
  split
  · exact keep rfl rfl rfl
  generalize PendingEntry.change _ _ _ _ = change
  have removed : Carries c { (c.notify entryId change).modifyStream streamId (·.removeActivePending entryId) with
      queuedReturn := c.queuedReturn || entryId ∈ s.pending } :=
    modify (f := (·.removeActivePending entryId)) found rfl rfl rfl rfl
      (Stream.queuedPayload_remove left)
  obtain ⟨s', found', state⟩ := removed.streams streamId s found
  unfold maybeDestroyStream
  erw [found']
  dsimp only
  rw [if_pos (by rw [state]; exact running)]
  exact removed

theorem maybeFinish (found : c.streams.find streamId = some s) (running : s.state ≠ .closed)
    (left : entryId ∉ s.pending) : Carries c (c.maybeFinishPending streamId entryId) := by
  unfold maybeFinishPending
  split
  · exact keep rfl rfl rfl
  split
  · exact refl c
  split
  · exact finish found running left _
  split
  · exact finish found running left none
  · exact refl c

theorem scheduleLoop (fuel : Nat) (scheduledAny : Bool) (sound : Sound c) (opened : c.Opened)
    (found : c.streams.find streamId = some s) (running : s.state ≠ .closed) :
    Carries c (scheduleLoop streamId fuel scheduledAny c).2 := by
  induction fuel generalizing c s scheduledAny with
  | zero => exact sync c streamId
  | succ fuel ih =>
    unfold Conn.scheduleLoop
    rw [found]
    dsimp only
    split
    · exact sync c streamId
    rename_i entry head
    obtain ⟨there, rest, pending⟩ := Stream.pendingHead_entry head
    split
    · exact sync c streamId
    split
    · exact sync c streamId
    split
    · -- an entry without bytes is at its end once it leaves the queue
      rename_i empty
      have popped : Carries c (c.modifyStream streamId Stream.popPendingHead) :=
        modify found rfl rfl rfl rfl
          (Stream.queuedPayload_pop head empty)
      have found' := find_modifyStream_self found Stream.popPendingHead
      have left : entry.id ∉ s.popPendingHead.pending := by
        have lined := (sound.solid found).lined
        rw [pending, nodup_cons] at lined
        rw [show s.popPendingHead.pending = rest from congrArg List.tail pending]
        exact lined.1
      exact (popped.trans (maybeFinish found' running left)).trans (sync _ streamId)
    split
    · exact sync c streamId
    rename_i some_fit
    rw [sendFragment_opened opened]
    have positive := Nat.pos_of_ne_zero some_fit
    have sent := fragment sound found head (c.fragmentBytes s entry)
    have sound' := sound.cuts (.single (.fragment found head positive opened))
    dsimp only
    split
    · exact sent.trans (ih true sound' (sent.opened opened) (sentFragment_find found entry _) running)
    · exact sent.trans (sync _ streamId)

theorem trySchedule (sound : Sound c) (opened : c.Opened) (streamId : Nat) :
    Carries c (c.trySchedulePending streamId) := by
  unfold trySchedulePending
  split
  · exact keep rfl rfl rfl
  rename_i s found
  split
  · exact refl c
  rename_i goes_on
  rw [not_or] at goes_on
  unfold schedulePending
  rw [found]
  exact scheduleLoop _ false sound opened found goes_on.2

theorem shift (c : Conn) (streamId : Nat) (delta : Int) :
    Carries c (c.modifyStream streamId fun s => { s with sendWindow := s.sendWindow + delta }) := by
  cases found : c.streams.find streamId with
  | some s =>
    exact modify found rfl rfl rfl rfl rfl
  | none =>
    refine keep rfl ?_ rfl
    exact Table.modify_eq_self fun s there => by rw [found] at there; cases there

theorem shiftStreams (delta : Int) {streamIds : List Nat} (sound : Sound c) (opened : c.Opened)
    (here : ∀ streamId ∈ streamIds, (c.streams.find streamId).isSome) :
    Carries c (streamIds.foldl (fun c streamId => c.updateSendWindow streamId delta) c) := by
  induction streamIds generalizing c with
  | nil => exact refl c
  | cons streamId streamIds ih =>
    have shifted := shift c streamId delta
    have turned : ReflTransGen (Turn fun _ _ _ _ => True) c
        (c.modifyStream streamId fun s => { s with sendWindow := s.sendWindow + delta }) := .single (.shift delta)
    have stays {d : Conn} (carries : Carries c d) (other : Nat) (there : (c.streams.find other).isSome) :
        (d.streams.find other).isSome := by
      obtain ⟨s, found⟩ := Option.isSome_iff_exists.mp there
      obtain ⟨s', found', -⟩ := carries.streams other s found
      exact Option.isSome_iff_exists.mpr ⟨s', found'⟩
    have scheduled := trySchedule (sound.turns turned) (shifted.opened opened) streamId
    have moves := trySchedulePending_moves (sound.turns turned) (.inl (stays shifted streamId (here streamId mem_cons_self)))
    have first := shifted.trans scheduled
    have sound' := (sound.turns turned).moves moves.1.path
    exact first.trans (ih sound' (first.opened opened) fun other member =>
      stays first other (here other (mem_cons_of_mem _ member)))

end Carries

/-- A parameter of SETTINGS that a peer may send: values are in their ranges, and so are the windows after it. -/
def LegalParameter (c : Conn) (id value : Nat) : Prop :=
  (id = 0x2 → value ≤ 1) ∧
    (id = 0x4 → (value : Int) ≤ kMaxFlowControlWindow ∧ ∀ streamId s, c.streams.find streamId = some s →
      windowFits (value - c.peerInitialStreamSendWindow) s = true) ∧
    (id = 0x5 → kDefaultMaxFrameSize ≤ value ∧ value ≤ kMaxFrameSizeLimit)

/-- The payload of a SETTINGS frame that a peer may send, one parameter after the other. -/
def LegalSettings (c : Conn) : List UInt8 → Prop
  | [] => True
  | a :: b :: w :: x :: y :: z :: rest =>
    let c := { c with settingsScratch := [a, b, w, x, y, z] }
    c.LegalParameter (parseU16 [a, b]) (parseU32 [w, x, y, z]) ∧
      LegalSettings { (c.applySettingsParameter (parseU16 [a, b]) (parseU32 [w, x, y, z])).2 with settingsScratch := [] } rest
  | _ => False

variable {value id : Nat}

theorem applyPeerInitialStreamWindow_carries (sound : Sound c) (opened : c.Opened)
    (bounded : (value : Int) ≤ kMaxFlowControlWindow)
    (fits : ∀ streamId s, c.streams.find streamId = some s → windowFits (value - c.peerInitialStreamSendWindow) s = true) :
    (c.applyPeerInitialStreamWindow value).1 = none ∧ Carries c (c.applyPeerInitialStreamWindow value).2 := by
  have set (d : Conn) : Carries d { d with peerInitialStreamSendWindow := value } := .keep rfl rfl rfl
  have all : (c.streams.entries.all fun entry => windowFits (value - c.peerInitialStreamSendWindow) entry.2) = true := by
    rw [all_eq_true]
    intro entry member
    exact fits entry.1 entry.2 (Table.mem_entries.mp member)
  unfold applyPeerInitialStreamWindow
  rw [if_neg (not_lt.mpr bounded)]
  dsimp only
  by_cases moved : (value : Int) - c.peerInitialStreamSendWindow ≠ 0
  · rw [if_pos moved, if_pos all]
    refine ⟨rfl, (Carries.shiftStreams _ sound opened fun streamId member => ?_).trans (set _)⟩
    exact Table.mem_keys.mp member
  · rw [if_neg moved]
    exact ⟨rfl, set c⟩

theorem applySettingsParameter_carries (sound : Sound c) (opened : c.Opened)
    (legal : c.LegalParameter id value) :
    (c.applySettingsParameter id value).1 = none ∧ Carries c (c.applySettingsParameter id value).2 := by
  obtain ⟨push, window, size⟩ := legal
  unfold applySettingsParameter
  split_ifs with table pushes more streams initial frame wrong
  · exact ⟨rfl, .keep rfl rfl rfl⟩
  · exact absurd (push pushes) (Nat.not_le.mpr more)
  · exact ⟨rfl, .keep rfl rfl rfl⟩
  · exact ⟨rfl, .keep rfl rfl rfl⟩
  · exact applyPeerInitialStreamWindow_carries sound opened (window initial).1 (window initial).2
  · have bounds := size frame
    omega
  · exact ⟨rfl, .keep rfl rfl rfl⟩
  · exact ⟨rfl, .keep rfl rfl rfl⟩
  · exact ⟨rfl, .refl c⟩

theorem feedSettings_parameter (start : c.settingsScratch = []) (a b w x y z : UInt8) (rest : List UInt8) :
    c.feedSettings (a :: b :: w :: x :: y :: z :: rest) =
      andThen ({ c with settingsScratch := [a, b, w, x, y, z] }.applySettingsParameter (parseU16 [a, b])
        (parseU32 [w, x, y, z])) fun c => { c with settingsScratch := [] }.feedSettings rest := by
  have short (n : Nat) (few : n < 6) : ¬n = kSettingsParameterSize := by
    unfold kSettingsParameterSize
    omega
  simp only [feedSettings, start, nil_append, cons_append, length_cons, length_nil]
  rw [if_neg (short _ (by decide)), if_neg (short _ (by decide)), if_neg (short _ (by decide)), if_neg (short _ (by decide)),
    if_neg (short _ (by decide)), if_pos (by decide)]
  have first : parseU16 [a, b, w, x, y, z] = parseU16 [a, b] := rfl
  have second : parseU32 (List.drop 2 [a, b, w, x, y, z]) = parseU32 [w, x, y, z] := rfl
  rw [first, second]
  generalize applySettingsParameter _ _ _ = outcome
  obtain ⟨err, d⟩ := outcome
  cases err <;> rfl

theorem feedSettings_carries {payload : List UInt8} (sound : Sound c) (opened : c.Opened) (start : c.settingsScratch = [])
    (legal : c.LegalSettings payload) :
    (c.feedSettings payload).1 = none ∧ (c.feedSettings payload).2.settingsScratch = [] ∧
      Carries c (c.feedSettings payload).2 := by
  fun_induction LegalSettings c payload with
  | case1 c => exact ⟨rfl, start, .refl c⟩
  | case2 c a b w x y z rest stored ih =>
    have kept : Carries c stored := .keep rfl rfl rfl
    have quiet : ReflTransGen (Turn fun _ _ _ _ => True) c stored := Quiet.turns (.rest rfl)
    have applied := applySettingsParameter_carries (sound.turns quiet) (kept.opened opened) legal.1
    have turned : ReflTransGen (Turn fun _ _ _ _ => True) _ _ :=
      applySettingsParameter_turns (sound.turns quiet) (parseU16 [a, b]) (parseU32 [w, x, y, z])
    rw [feedSettings_parameter start]
    change (andThen (stored.applySettingsParameter _ _) _).1 = none ∧ _
    generalize stored.applySettingsParameter (parseU16 [a, b]) (parseU32 [w, x, y, z]) = outcome at *
    obtain ⟨err, d⟩ := outcome
    obtain ⟨fine, carries⟩ := applied
    dsimp only at fine
    subst fine
    have cleared : Carries d { d with settingsScratch := [] } := .keep rfl rfl rfl
    have reset : ReflTransGen (Turn fun _ _ _ _ => True) d { d with settingsScratch := [] } := Quiet.turns (.rest rfl)
    have before := (kept.trans carries).trans cleared
    obtain ⟨none_failed, scratch, rest_carries⟩ := ih (((sound.turns quiet).turns turned).turns reset) (before.opened opened) rfl legal.2
    exact ⟨none_failed, scratch, before.trans rest_carries⟩
  | case3 => exact legal.elim

/-- A whole frame that a peer may send before it knows of a GOAWAY: on a stream that this side has not seen, PING, or
SETTINGS. -/
inductive InFlight (c : Conn) (fhr : FrameHeader) (payload : List UInt8) : Prop
  | headers (type : fhr.type = .headers) (idle : c.isIdleStream fhr.streamId = true)
  | continuation (type : fhr.type = .continuation) (idle : c.isIdleStream fhr.streamId = true)
  | data (type : fhr.type = .data) (idle : c.isIdleStream fhr.streamId = true)
  | windowUpdate (type : fhr.type = .windowUpdate) (idle : c.isIdleStream fhr.streamId = true)
      (length : fhr.length = kWindowUpdatePayloadSize) (whole : payload.length = fhr.length)
      (increment : parseU32 payload % 2 ^ 31 ≠ 0)
  | rstStream (type : fhr.type = .rstStream) (idle : c.isIdleStream fhr.streamId = true)
      (length : fhr.length = kRstStreamPayloadSize) (whole : payload.length = fhr.length)
  | ping (type : fhr.type = .ping) (stream : fhr.streamId = 0) (length : fhr.length = kPingPayloadSize)
      (whole : payload.length = fhr.length)
  | settingsAck (type : fhr.type = .settings) (stream : fhr.streamId = 0) (ack : fhr.has kFlagAck = true)
      (length : fhr.length = 0)
  | settings (type : fhr.type = .settings) (stream : fhr.streamId = 0) (ack : fhr.has kFlagAck = false)
      (length : fhr.length % kSettingsParameterSize = 0) (whole : payload.length = fhr.length)
      (legal : { c with settingsScratch := [] }.LegalSettings payload)

theorem isIdleStream_absent (idle : c.isIdleStream streamId = true) :
    streamId ≠ 0 ∧ c.streams.find streamId = none := by
  unfold isIdleStream at idle
  split at idle
  · cases idle
  · rename_i absent
    simpa using absent

section Frames

variable {fhr : FrameHeader} {payload : List UInt8}

theorem beginHeaders_refused (moved : c.closeState ≠ .open) (idle : c.isIdleStream fhr.streamId = true) :
    (c.beginHeaders fhr payload).1 = some .invalid := by
  have refused (pad : Nat) : { c with incomingPadLength := pad }.createPeerStream fhr.streamId = none := by
    rw [createPeerStream_pad]
    simp [createPeerStream, canAcceptPeerStream, moved]
  have idle' (pad : Nat) : { c with incomingPadLength := pad }.isIdleStream fhr.streamId = true := idle
  unfold beginHeaders
  dsimp only
  split
  · rfl
  have padded : ∃ pad, (if fhr.has kFlagPadded = true then { c with incomingPadLength := byteAt payload 0 }
      else { c with incomingPadLength := 0 } : Conn) = { c with incomingPadLength := pad } := by
    split <;> exact ⟨_, rfl⟩
  obtain ⟨pad, padded⟩ := padded
  rw [padded, refused, if_pos (idle' pad)]
  split_ifs <;> rfl

/-- A frame on a stream that was never opened fails, once the connection is not open. -/
theorem consume_idle (moved : c.closeState ≠ .open) (between : c.expectingContinuation = false)
    (inFlight : c.InFlight fhr payload) (idle : c.isIdleStream fhr.streamId = true) :
    (c.consumeIncomingFramePayload fhr 0 payload).1 = some .invalid := by
  obtain ⟨nonzero, absent⟩ := isIdleStream_absent idle
  have stays {scratch : List UInt8} : { c with controlPayloadScratch := scratch }.isIdleStream fhr.streamId = true := idle
  unfold consumeIncomingFramePayload
  rw [if_neg (by simp [between])]
  cases inFlight with
  | ping type stream | settingsAck type stream | settings type stream => exact absurd stream nonzero
  | continuation type => rw [if_pos ⟨by simp [between], type⟩]
  | headers type =>
    rw [if_neg (by simp [type]), type]
    have refused : (c.beginHeaders fhr payload).1 = some .invalid := beginHeaders_refused moved idle
    dsimp only
    rw [handleHeadersPayload, if_pos rfl]
    generalize c.beginHeaders fhr payload = outcome at refused
    obtain ⟨err, d⟩ := outcome
    dsimp only at refused
    rw [refused]
    rfl
  | data type =>
    rw [if_neg (by simp [type]), type]
    have missing {pad : Nat} : { c with incomingPadLength := pad }.deliverData fhr 0 payload =
        (some .invalid, { c with incomingPadLength := pad }) := by
      simp [deliverData, absent]
    dsimp only
    rw [handleDataPayload, if_pos rfl, beginData]
    dsimp only
    rw [if_neg nonzero]
    split_ifs
    · rfl
    · simp only [andThen, missing]
    · simp only [andThen, missing]
  | windowUpdate type _ length whole increment =>
    rw [if_neg (by simp [type]), type]
    dsimp only
    rw [handleWindowUpdatePayload, collect_whole (by simp [length]) _ whole (by rw [whole, length]), applyWindowUpdate]
    dsimp only
    rw [if_neg increment, if_neg nonzero, absent]
    simp [stays]
  | rstStream type _ length whole =>
    rw [if_neg (by simp [type]), type]
    dsimp only
    rw [handleRstStreamPayload, collect_whole (by simp [length, nonzero]) _ whole (by rw [whole, length]), applyRstStream]
    dsimp only
    rw [absent]
    simp [stays]

theorem sendControlFrame_carries (opened : c.Opened) (type : FrameType) (flags : UInt8) (streamId : Nat)
    (payload : List UInt8) : (c.sendControlFrame type flags streamId payload).1 = none ∧
      Carries c (c.sendControlFrame type flags streamId payload).2 := by
  rw [sendControlFrame, enqueueSendEntry_opened opened]
  exact ⟨rfl, .push c rfl⟩

/-- PING and SETTINGS are answered, and leave the streams their state and data. -/
theorem consume_control (sound : Sound c) (opened : c.Opened) (between : c.expectingContinuation = false)
    (inFlight : c.InFlight fhr payload) (stream : c.isIdleStream fhr.streamId = false) :
    (c.consumeIncomingFramePayload fhr 0 payload).1 = none ∧
      Carries c (c.consumeIncomingFramePayload fhr 0 payload).2 := by
  unfold consumeIncomingFramePayload
  rw [if_neg (by simp [between])]
  cases inFlight with
  | headers _ idle | continuation _ idle | data _ idle | windowUpdate _ idle | rstStream _ idle =>
    rw [idle] at stream
    cases stream
  | ping type zero length whole =>
    rw [if_neg (by simp [type]), type]
    dsimp only
    rw [handlePingPayload, collect_whole (by simp [length, zero]) _ whole (by rw [whole, length])]
    have stored : Carries c { c with controlPayloadScratch := payload } := .keep rfl rfl rfl
    dsimp only
    split
    · exact ⟨rfl, stored⟩
    · obtain ⟨sent, carries⟩ := sendControlFrame_carries (stored.opened opened) .ping kFlagAck 0 payload
      exact ⟨sent, stored.trans carries⟩
  | settingsAck type zero ack length =>
    rw [if_neg (by simp [type]), type]
    have noted : Carries c { c with settingsScratch := [], localSettingsAcknowledged := true } := .keep rfl rfl rfl
    simpa [handleSettingsPayload, beginSettings, deliverSettings, andThen, zero, ack, length] using noted
  | settings type zero ack length whole legal =>
    rw [if_neg (by simp [type]), type]
    have cleared : Carries c { c with settingsScratch := [] } := .keep rfl rfl rfl
    have quiet : ReflTransGen (Turn fun _ _ _ _ => True) c { c with settingsScratch := [] } := Quiet.turns (.rest rfl)
    obtain ⟨fine, scratch, carries⟩ := feedSettings_carries (sound.turns quiet) (cleared.opened opened) rfl legal
    have begun : c.beginSettings fhr = (none, { c with settingsScratch := [] }) := by
      simp [beginSettings, zero, ack, length]
    simp only [handleSettingsPayload, begun, andThen, deliverSettings, ack, Bool.false_eq_true, if_false, if_true]
    generalize ({ c with settingsScratch := [] } : Conn).feedSettings payload = outcome at fine scratch carries
    obtain ⟨err, d⟩ := outcome
    dsimp only at fine scratch carries
    subst fine
    have before := cleared.trans carries
    obtain ⟨sent, answered⟩ := sendControlFrame_carries (before.opened opened) .settings kFlagAck 0 []
    simp only [Nat.zero_add, whole, if_true, scratch, ne_eq, not_true_eq_false, if_false]
    exact ⟨sent, before.trans answered⟩

end Frames

/-- The send queue is only closed, and the transport given up, when sending stops or a graceful shutdown is done. -/
structure Sealed (c : Conn) : Prop where
  shut : c.sendQueueClosed = true → c.stopSendingRequested = true ∨ c.gracefulSendQueueCloseRequested = true
  valid : c.transportValid = false → c.stopSendingRequested = true

namespace Sealed

theorem keep (sealed : Sealed c) (closed : d.sendQueueClosed = c.sendQueueClosed)
    (stopped : d.stopSendingRequested = c.stopSendingRequested)
    (graceful : d.gracefulSendQueueCloseRequested = c.gracefulSendQueueCloseRequested)
    (valid : d.transportValid = c.transportValid) : Sealed d :=
  ⟨by rw [closed, stopped, graceful]; exact sealed.shut, by rw [valid, stopped]; exact sealed.valid⟩

theorem quiet (sealed : Sealed c) (rest : Quiet c d) : Sealed d := by
  refine ⟨fun closed => ?_, fun given_up => ?_⟩
  · rcases rest.shuts closed with before | now
    · exact (sealed.shut before).imp rest.stopped rest.gracefully
    · exact now
  · exact (rest.valid given_up).elim (fun before => rest.stopped (sealed.valid before)) id

theorem stage (stage : Stage c d) (sealed : Sealed c) : Sealed d := by
  cases stage with
  | works works =>
    have same := works.same
    refine sealed.keep ?_ ?_ ?_ ?_
    all_goals
      rw [← same]
      rfl
  | atom atom =>
    cases atom with
    | quiet rest => exact sealed.quiet rest
    | erase =>
      rw [dropStream_eq]
      exact sealed.keep rfl rfl rfl rfl
    | link =>
      unfold linkWaiting
      split
      · exact sealed
      · exact sealed.keep rfl rfl rfl rfl
    | insertPeer made =>
      obtain ⟨-, -, streams, inserted, rfl⟩ := createPeerStream_some made
      exact sealed.keep rfl rfl rfl rfl
    | insertLocal made =>
      obtain ⟨-, -, streams, inserted, rfl⟩ := createLocalStream_some made
      exact sealed.keep rfl rfl rfl rfl
    | _ => exact sealed.keep rfl rfl rfl rfl

theorem stages (path : ReflTransGen Stage c d) (sealed : Sealed c) : Sealed d :=
  keeps_path (fun step sealed => sealed.stage step) path sealed

end Sealed

theorem Stage.started (stage : Stage c d) (started : c.runStarted = true) : d.runStarted = true := by
  cases stage with
  | works works => exact works.started started
  | atom atom => exact (Feeds.atom atom).started.trans started

theorem stages_started (path : ReflTransGen Stage c d) (started : c.runStarted = true) : d.runStarted = true :=
  keeps_path (P := (·.runStarted = true)) Stage.started path started

end Conn

namespace Session

open Conn

variable {s : Session}

theorem drainSendQueue_reading (result : IoErr) (fuel : Nat) (s : Session) :
    (drainSendQueue result fuel s).reading = s.reading := by
  induction fuel generalizing s with
  | zero => rfl
  | succ fuel ih =>
    unfold drainSendQueue
    split
    · rfl
    · exact ih _

theorem leaveSendLoop_reading (s : Session) : s.leaveSendLoop.reading = s.reading := by
  unfold leaveSendLoop
  dsimp only
  split
  · exact drainSendQueue_reading _ _ _
  · rfl

theorem step_reading {event : Event} (other : event ≠ .startRun) (reads : (s.step event).reading = true) :
    s.reading = true := by
  cases event with
  | startRun => exact absurd rfl other
  | receive bytes =>
    simp only [step, receive] at reads
    split at reads
    · rename_i going
      exact going.1
    · exact reads
  | endInput failed =>
    simp only [step, endInput] at reads
    split at reads
    · assumption
    · exact reads
  | pollToSend =>
    simp only [step, pollToSend] at reads
    split at reads
    · split at reads
      · split at reads <;> exact reads
      · split at reads
        · rwa [leaveSendLoop_reading] at reads
        · exact reads
    · exact reads
  | written n =>
    simp only [step, written] at reads
    split at reads
    · exact reads
    split at reads
    · split at reads <;> exact reads
    · exact reads
  | writeFailed err =>
    simp only [step, writeFailed] at reads
    split at reads
    · exact reads
    · rwa [leaveSendLoop_reading] at reads
  | pollTimedOut =>
    simp only [step, pollTimedOut] at reads
    split at reads <;> exact reads
  | join =>
    simp only [step, join] at reads
    split at reads <;> exact reads
  | createLocalStream | gracefulShutdown | shutdown => exact reads
  | enqueuePending | sendHeader | sendData | closeRst =>
    simp only [step, onStream] at reads
    split at reads <;> exact reads

theorem startRun_started (s : Session) : s.startRun = s ∨ s.startRun.conn.runStarted = true := by
  unfold startRun
  split
  · exact .inl rfl
  right
  have begun : ({ s.conn with runStarted := true }.startSendLoop).runStarted = true := by
    unfold startSendLoop
    split <;> rfl
  dsimp only
  generalize ({ s.conn with runStarted := true } : Conn).startSendLoop = c at begun
  split
  · have sent := Feeds.path Feeds.atom (sendConnectionPreface_atoms c)
    generalize c.sendConnectionPreface = outcome at sent
    obtain ⟨err, d⟩ := outcome
    cases err with
    | some err =>
      have ended : ReflTransGen (Turn fun _ _ _ _ => True) _ _ := endRun_turns (s.withConn d) err
      exact (Feeds.path .turn ended).started.trans (sent.started.trans begun)
    | none => exact sent.started.trans begun
  · exact begun

/-- While a run reads, its send queue is closed only by an abort or by a graceful shutdown. -/
structure Served (s : Session) : Prop where
  sealed : s.conn.Sealed ∨ s.reading = false ∧ s.conn.runStarted = true
  started : s.reading = true → s.conn.runStarted = true

theorem Served.init (options : Options) : Served (Session.init options) :=
  ⟨.inl ⟨nofun, nofun⟩, nofun⟩

theorem Served.step (served : Served s) (ready : s.conn.Ready) (event : Event) : Served (s.step event) := by
  have mono : s.conn.runStarted = true → (s.step event).conn.runStarted = true := by
    have happens := step_happens ready (meets_any [event] event mem_cons_self)
    obtain ⟨mid, ended, path⟩ := happens.stages
    intro started
    refine stages_started path ?_
    cases ended with
    | refl => exact started
    | single ends => exact ends.calm.started.trans started
  have reads (reading : (s.step event).reading = true) : (s.step event).conn.runStarted = true := by
    by_cases starts : event = .startRun
    · subst starts
      rcases s.startRun_started with same | started
      · change s.startRun.conn.runStarted = true
        change s.startRun.reading = true at reading
        rw [same] at reading ⊢
        exact served.started reading
      · exact started
    · exact mono (served.started (step_reading starts reading))
  have rests (idle : s.reading = false) (started : s.conn.runStarted = true) :
      (s.step event).reading = false ∧ (s.step event).conn.runStarted = true := by
    refine ⟨?_, mono started⟩
    by_cases starts : event = .startRun
    · subst starts
      have same : s.step .startRun = s := if_pos (.inl started)
      rw [same]
      exact idle
    · by_contra reading
      rw [step_reading starts (by simpa using reading)] at idle
      cases idle
  refine ⟨?_, reads⟩
  rcases served.sealed with sealed | ⟨idle, started⟩
  · cases ending : event.ending with
    | false =>
      have proceeds := step_proceeds ready (meets_any [event] event mem_cons_self) ending
      exact .inl (sealed.stages proceeds.stages)
    | true =>
      -- the run no longer reads, or nothing happens
      cases event with
      | endInput failed =>
        cases failed with
        | some err => cases ending
        | none =>
          cases reading : s.reading with
          | false =>
            have same : s.step (.endInput none) = s := if_neg (by simp [reading])
            rw [same]
            exact .inl sealed
          | true =>
            refine .inr ⟨?_, mono (served.started reading)⟩
            simp only [Session.step, endInput, reading, if_true]
            rfl
      | join =>
        by_cases ready' : s.conn.runStarted ∧ ¬s.reading ∧ s.conn.lifetime = 0
        · exact .inr (rests (by simpa using ready'.2.1) ready'.1)
        have same : s.step .join = s := if_neg ready'
        rw [same]
        exact .inl sealed
      | _ => cases ending
  · exact .inr (rests idle started)

theorem Served.run (served : Served s) (ready : s.conn.Ready) (events : List Event) : Served (s.run events) := by
  induction events generalizing s with
  | nil => exact served
  | cons event events ih =>
    have happens := step_happens ready (meets_any [event] event mem_cons_self)
    exact ih (served.step ready event) (ready.happens happens)

/-- A run that still reads and was not stopped has an open send queue as long as it has streams. -/
theorem run_opened (options : Options) (events : List Event)
    (reading : ((Session.init options).run events).reading = true)
    (running : ((Session.init options).run events).conn.stopSendingRequested = false)
    (held : ((Session.init options).run events).conn.streams.size ≠ 0) :
    ((Session.init options).run events).conn.Opened := by
  have served := (Served.init options).run (.init options) events
  have kept := (Kept.init options).run events
  generalize (Session.init options).run events = s at *
  have sealed := served.sealed.resolve_right fun idle => by
    rw [reading] at idle
    cases idle.1
  refine ⟨served.started reading, ?_, running, ?_⟩
  · by_contra given_up
    rw [sealed.valid (by simpa using given_up)] at running
    cases running
  · by_contra closed
    rcases sealed.shut (by simpa using closed) with stopped | finished
    · rw [stopped] at running
      cases running
    · exact held (kept.drained.finished finished).1

/-- Once this side has announced that it drains, a frame that the peer sent before it knew leaves the connection and the
streams as they are, unless it is on a stream that this side has not seen: that fails the connection. -/
theorem run_drains (options : Options) (events : List Event) (fhr : FrameHeader) (payload : List UInt8)
    (reading : ((Session.init options).run events).reading = true)
    (running : ((Session.init options).run events).conn.stopSendingRequested = false)
    (announced : ((Session.init options).run events).conn.localGoawaySent = true)
    (held : ((Session.init options).run events).conn.streams.size ≠ 0)
    (between : ((Session.init options).run events).conn.expectingContinuation = false)
    (inFlight : ((Session.init options).run events).conn.InFlight fhr payload) :
    ((((Session.init options).run events).conn.consumeIncomingFramePayload fhr 0 payload).1 = none ∧
        ((Session.init options).run events).conn.Carries
          (((Session.init options).run events).conn.consumeIncomingFramePayload fhr 0 payload).2) ↔
      ((Session.init options).run events).conn.isIdleStream fhr.streamId = false := by
  have opened := run_opened options events reading running held
  have kept := (Kept.init options).run events
  generalize ((Session.init options).run events) = s at *
  constructor
  · rintro ⟨fine, -⟩
    by_contra idle
    rw [consume_idle (kept.drained.announced announced).1 between inFlight (by simpa using idle)] at fine
    cases fine
  · exact consume_control kept.ready.sound opened between inFlight

/-- The peer has a stream with a header on its way out when this side starts to drain. -/
def draining : List Event := greeted ++ [.receive (openingFrame 1), .sendHeader 1 [0x88] false, .gracefulShutdown]

/-- The peer opens its next stream before it knows: the connection is aborted, and the send loop then fails the stream that
was announced as accepted. -/
theorem higherStream_aborts :
    (((Session.init {}).run draining).conn.closeState = .localDraining ∧
      ((Session.init {}).run draining).conn.localGoawayLastStreamId = 1 ∧
      ((((Session.init {}).run draining).conn.streams.find 1).map (·.state)) = some .open) ∧
    ((Session.init {}).run (draining ++ [.receive (openingFrame 3)])).conn.closeState = .abortClosing ∧
      (((Session.init {}).run (draining ++ [.receive (openingFrame 3), .pollToSend, .writeFailed .connReset])).conn.streams.find
        1).isNone ∧
      ((Session.init {}).run (draining ++ [.receive (openingFrame 3), .pollToSend, .writeFailed .connReset])).conn.changes.map
        (·.2.kind) = [.scheduled, .failed] := by
  decide +kernel

theorem ping_drains :
    (((Session.init {}).run draining).conn.consumeIncomingFramePayload ⟨8, .ping, 0, 0⟩ 0 (List.replicate 8 7)).1 = none ∧
      ((Session.init {}).run draining).conn.Carries
        (((Session.init {}).run draining).conn.consumeIncomingFramePayload ⟨8, .ping, 0, 0⟩ 0 (List.replicate 8 7)).2 :=
  (run_drains {} draining ⟨8, .ping, 0, 0⟩ (List.replicate 8 7) (by decide +kernel) (by decide +kernel) (by decide +kernel)
    (by decide +kernel) (by decide +kernel) (.ping rfl rfl rfl rfl)).mpr (by decide +kernel)

end Session

end FiberGateway.Http2
