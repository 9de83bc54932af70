import FiberGateway.Http2.Moves

namespace FiberGateway.Http2

open Relation LinearProbing Option

namespace StreamState

variable {next state : StreamState} {endStream : Bool}

theorem onSendHeaders_silent (sends : state.onSendHeaders endStream = some next) : ¬state.Silent := by
  rintro (rfl | rfl) <;> cases endStream <;> cases sends

theorem onSendData_silent (sends : state.onSendData endStream = some next) : ¬state.Silent := by
  rintro (rfl | rfl) <;> cases endStream <;> cases sends

/-- What a frame of the peer does to a stream: a closed one takes none, and one that is silent stays so. -/
def Hears (state next : StreamState) : Prop := state ≠ .closed ∧ (state.Silent → next.Silent)

theorem onRecvHeaders_hears (receives : state.onRecvHeaders endStream = some next) : state.Hears next := by
  constructor
  · rintro rfl
    cases endStream <;> cases receives
  · rintro (rfl | rfl) <;> cases endStream <;> cases receives
    · exact .inl rfl
    · exact .inr rfl

theorem onRecvData_hears (receives : state.onRecvData endStream = some next) : state.Hears next := by
  constructor
  · rintro rfl
    cases endStream <;> cases receives
  · rintro (rfl | rfl) <;> cases endStream <;> cases receives
    · exact .inl rfl
    · exact .inr rfl

end StreamState

namespace Conn

variable {ok : Allowed} {c d : Conn} {streamId limit increment : Nat}

theorem Local.moves (atoms : Local Atom streamId c d) : Local Move streamId c d := atoms.lift .atom

theorem Local.turns (moves : Local Move streamId c d) : ReflTransGen (Turn ok) c d :=
  ReflTransGen.mono (fun _ _ step => .move step) _ _ moves.path

section Calls

theorem Sound.turns (path : ReflTransGen (Turn ok) c d) (sound : Sound c) : Sound d :=
  keeps_path (fun step sound => sound.turn step) path sound

variable {payload : List UInt8}

variable {kind : PendingKind} {last first : UInt8} {s : Stream} {endStream : Bool}

theorem enqueuePending_turns (sound : Sound c) (here : c.Here streamId) (allowed : ok kind payload first last) :
    ReflTransGen (Turn ok) c (c.enqueuePending streamId kind payload first last).2 := by
  unfold enqueuePending
  split
  · rename_i missing
    exact .single (.move (.atom (.touch (here.late missing))))
  rename_i s found
  split
  · exact .refl
  rename_i usable
  simp only [Bool.or_eq_true, Bool.not_eq_true', decide_eq_true_eq, not_or, Bool.not_eq_false] at usable
  have added : ReflTransGen (Turn ok) c (c.addPending streamId kind payload first last) :=
    .single (.append found usable.2 usable.1 allowed)
  have there : (c.addPending streamId kind payload first last).Here streamId :=
    .of_found (find_modifyStream_self (c := { c with
      nextPendingId := _
      accepted := _ }) found _)
  exact added.trans (trySchedulePending_moves (sound.turns added) there).1.turns

theorem setState_atoms (found : c.streams.find streamId = some s) (running : s.state ≠ .closed)
    (next : StreamState) (silent : s.state.Silent → next.Silent) : Local Atom streamId c (c.setState streamId next) :=
  .modify (.state next found running silent) rfl

theorem setState_here (here : c.Here streamId) (next : StreamState) : (c.setState streamId next).Here streamId := by
  rcases here with found | late
  · obtain ⟨s, found⟩ := isSome_iff_exists.mp found
    exact .of_found (find_modifyStream_self found _)
  · exact .inr (by simp [setState, late])

/-- A frame of this side goes out on a stream that may send. -/
theorem send_turns (sound : Sound c) (here : c.Here streamId) (found : c.streams.find streamId = some s)
    (loud : ¬s.state.Silent) (state : StreamState) (allowed : ok kind payload first last) :
    ReflTransGen (Turn ok) c ((c.setState streamId state).enqueuePending streamId kind payload first last).2 := by
  have moved := (setState_atoms found (fun closed => loud (.inr closed)) state fun silent => absurd silent loud).moves
  exact moved.turns.trans (enqueuePending_turns (sound.moves moved.path) (setState_here here state) allowed)

theorem sendHeader_turns (sound : Sound c) (here : c.Here streamId)
    (allowed : ok .header payload 0 (kFlagEndHeaders ||| if endStream then kFlagEndStream else 0)) :
    ReflTransGen (Turn ok) c (c.sendHeader streamId payload endStream).2 := by
  unfold sendHeader
  split
  · rename_i missing
    exact .single (.move (.atom (.touch (here.late missing))))
  · rename_i s found
    split
    · exact .refl
    · rename_i state sends
      exact send_turns sound here found (StreamState.onSendHeaders_silent sends) state allowed

theorem sendData_turns (sound : Sound c) (here : c.Here streamId)
    (allowed : ok .data payload 0 (if endStream then kFlagEndStream else 0)) :
    ReflTransGen (Turn ok) c (c.sendData streamId payload endStream).2 := by
  unfold sendData
  split
  · rename_i missing
    exact .single (.move (.atom (.touch (here.late missing))))
  · rename_i s found
    split
    · exact .refl
    · rename_i state sends
      exact send_turns sound here found (StreamState.onSendData_silent sends) state allowed

theorem enqueueSendEntry_streams (c : Conn) (entry : SendEntry) : (c.enqueueSendEntry entry).2.streams = c.streams := by
  rcases c.enqueueSendEntry_cases entry with ⟨err, refused⟩ | ⟨-, taken⟩
  · rw [refused]
  · rw [taken]
    rfl

theorem closeRst_atoms (here : c.Here streamId) (code : ErrorCode) (result : IoErr) :
    Local Atom streamId c (c.closeRst streamId code result).2 := by
  unfold closeRst
  split
  · rename_i missing
    exact .same (.touch (here.late missing)) rfl
  rename_i s found
  have sent : Local Atom streamId c _ := sendRstStream_atoms streamId code
  have streams : (c.sendRstStream streamId code).2.streams = c.streams := enqueueSendEntry_streams _ _
  generalize c.sendRstStream streamId code = outcome at sent streams
  obtain ⟨err, d⟩ := outcome
  cases err with
  | some err => exact sent
  | none => exact sent.trans (closeStream_atoms (.of_found (streams ▸ found)) result)

theorem closeStreams_atoms {streamIds : List Nat} (distinct : streamIds.Nodup)
    (here : ∀ streamId ∈ streamIds, c.Here streamId) (result : IoErr) :
    ReflTransGen Atom c (c.closeStreams streamIds result) := by
  induction streamIds generalizing c with
  | nil => exact .refl
  | cons streamId streamIds ih =>
    obtain ⟨apart, distinct⟩ := List.nodup_cons.mp distinct
    have first := closeStream_atoms (here streamId List.mem_cons_self) result
    refine first.path.trans (ih distinct fun other member => ?_)
    exact first.here Atom.late (fun same => apart (same ▸ member)) (here other (List.mem_cons_of_mem _ member))

theorem streamIds_here (c : Conn) : ∀ streamId ∈ c.streamIds, c.Here streamId :=
  fun _ member => .inl (Table.mem_keys.mp member)

theorem closeAllStreams_atoms (c : Conn) (result : IoErr) : ReflTransGen Atom c (c.closeAllStreams result) :=
  closeStreams_atoms (Table.keys_nodup c.streams) c.streamIds_here result

theorem closeStreamsAfterGoaway_atoms (c : Conn) (lastStreamId : Nat) :
    ReflTransGen Atom c (c.closeStreamsAfterGoaway lastStreamId) :=
  closeStreams_atoms ((Table.keys_nodup c.streams).filter _)
    (fun streamId member => c.streamIds_here streamId (List.mem_filter.mp member).1) _

/-- GOAWAY and what follows it: the connection is drained, or aborted. -/
theorem announce_atoms {next : CloseState} (first : c.localGoawaySent = false ∨ c.closeState = .open ∨
      c.closeState = .peerDraining) (leads : c.closeState.Leads next) (drains : next = .localDraining ∨ next = .bothDraining) :
    (∃ err, c.sendGoaway c.localGoawayLastStreamId .noError = (some err, c)) ∨
      c.sendGoaway c.localGoawayLastStreamId .noError = (none, c.push (goawayFrame c.localGoawayLastStreamId)) ∧
        ReflTransGen Atom c { c.push (goawayFrame c.localGoawayLastStreamId) with
          localGoawaySent := true
          stopKeepalive := true
          closeState := next }.maybeFinishGracefulShutdown := by
  rcases c.enqueueSendEntry_cases (goawayFrame c.localGoawayLastStreamId) with ⟨err, refused⟩ | ⟨opened, taken⟩
  · exact .inl ⟨err, refused⟩
  · exact .inr ⟨taken, .head (.announce next opened first leads drains) (.single (.quiet (maybeFinishGracefulShutdown_quiet _)))⟩

theorem answerGoaway_atoms (c : Conn) : ReflTransGen Atom c c.answerGoaway := by
  unfold answerGoaway
  split
  · rename_i unsent
    simp only [Bool.and_eq_true, Bool.not_eq_true', decide_eq_true_eq, ne_eq] at unsent
    refine .head (.quiet (d := { c with localGoawayLastStreamId := c.lastPeerStreamId }) (.rest rfl)) ?_
    have drains := CloseState.leads_both unsent.1.2 unsent.2
    rcases announce_atoms (c := { c with localGoawayLastStreamId := c.lastPeerStreamId }) (.inl unsent.1.1) drains
      (.inr rfl) with ⟨err, refused⟩ | ⟨taken, path⟩
    · simp only [refused]
      exact .single (.quiet (abortConnection_quiet _ err))
    · simp only [taken]
      exact path
  · exact .single (.quiet (maybeFinishGracefulShutdown_quiet c))

theorem notePeerGoaway_quiet (c : Conn) (lastStreamId : Nat) (code : ErrorCode) :
    Quiet c (c.notePeerGoaway lastStreamId code) := by
  have leads := c.closeState.leads_peer
  exact ⟨⟨rfl, rfl, id, id, .inl⟩, .inl leads.1, leads.2.mp, fun closed differs => absurd (leads.2.mpr closed) differs,
    rfl, .inl, .inl, .inl, id⟩

theorem onPeerGoaway_atoms (c : Conn) (lastStreamId : Nat) (code : ErrorCode) :
    ReflTransGen Atom c (c.onPeerGoaway lastStreamId code) :=
  .head (.quiet (notePeerGoaway_quiet c lastStreamId code))
    ((closeStreamsAfterGoaway_atoms _ lastStreamId).trans (answerGoaway_atoms _))

theorem gracefulShutdown_atoms (c : Conn) : ReflTransGen Atom c c.gracefulShutdown := by
  have begun : ReflTransGen Atom c c.beginGracefulShutdown.2 := by
    unfold beginGracefulShutdown
    split_ifs with stopped done unready draining
    · exact .refl
    · exact .refl
    · exact .refl
    · exact .refl
    refine .head (.quiet (d := { c with localGoawayLastStreamId := c.lastPeerStreamId }) (.rest rfl)) ?_
    have fresh : c.closeState = .open ∨ c.closeState = .peerDraining := by
      revert done draining
      cases c.closeState <;> decide
    have leads : c.closeState.Leads (if c.closeState = .peerDraining then .bothDraining else .localDraining) := by
      rcases fresh with state | state <;> rw [state] <;> decide
    have drains : (if c.closeState = .peerDraining then CloseState.bothDraining else .localDraining) = .localDraining ∨
        (if c.closeState = .peerDraining then CloseState.bothDraining else .localDraining) = .bothDraining := by
      split
      · exact .inr rfl
      · exact .inl rfl
    rcases announce_atoms (c := { c with localGoawayLastStreamId := c.lastPeerStreamId }) (.inr fresh) leads drains with
      ⟨err, refused⟩ | ⟨taken, path⟩
    · simp only [refused]
      exact .single (.quiet (abortConnection_quiet _ err))
    · simp only [taken]
      exact path
  unfold gracefulShutdown
  generalize c.beginGracefulShutdown = outcome at begun
  obtain ⟨err, d⟩ := outcome
  cases err with
  | none => exact begun
  | some err =>
    dsimp only
    split
    · exact begun.tail (.quiet (abortConnection_quiet d err))
    · exact begun

theorem isGoaway_preface (options : Options) : isGoaway (prefaceEntry options) = false := by
  have fourth : (prefaceBytes options)[3]? = some (if options.role = .client then 0x20 else FrameType.settings.toByte) := by
    unfold prefaceBytes
    by_cases role : options.role = .client
    · have inside : 3 < kClientPreface.length := by rw [kClientPreface_length]; decide
      simp only [if_pos role]
      rw [List.append_assoc, List.append_assoc, List.getElem?_append_left inside]
      decide +kernel
    · simp only [if_neg role]
      rfl
  simp only [isGoaway, prefaceEntry, fourth]
  split <;> decide

theorem sendConnectionPreface_atoms (c : Conn) : ReflTransGen Atom c c.sendConnectionPreface.2 := by
  have sent : Local Atom 0 c _ := enqueue_atoms (.preface c.options) (isGoaway_preface c.options)
  replace sent := sent.path
  unfold sendConnectionPreface
  dsimp only
  split
  · rename_i d taken
    have taken : c.enqueueSendEntry (prefaceEntry c.options) = (none, d) := taken
    rw [taken] at sent
    exact sent.tail (.quiet (.rest rfl))
  · exact sent

end Calls

section Inbound

variable {fhr : FrameHeader}

variable {s : Stream}

/-- `on_data_recv` and `on_header_recv` set the state and hand over what has come. -/
theorem recv_atoms {next : StreamState → Option StreamState}
    (hears : ∀ {state state'}, next state = some state' → state.Hears state') (received : List Received) :
    let outcome : Option IoErr × Conn := match (c.streams.find streamId).bind (next ·.state) with
      | none => (some .invalid, c)
      | some state => (none, { c.setState streamId state with received := received })
    Local Atom streamId c outcome.2 ∧
      (c.streams.find streamId = some s → (outcome.2.streams.find streamId).isSome) := by
  dsimp only
  split
  · exact ⟨.refl c, fun found => isSome_iff_exists.mpr ⟨s, found⟩⟩
  rename_i state receives
  obtain ⟨s', found, receives⟩ := bind_eq_some_iff.mp receives
  obtain ⟨running, silent⟩ := hears receives
  refine ⟨(setState_atoms found running state silent).trans (.quiet (.rest rfl)), fun _ => ?_⟩
  exact isSome_iff_exists.mpr ⟨_, find_modifyStream_self found _⟩

theorem onDataRecv_atoms (streamId offset : Nat) (bytes : List UInt8) (endStream : Bool) :
    Local Atom streamId c (c.onDataRecv streamId offset bytes endStream).2 ∧
      (c.streams.find streamId = some s → ((c.onDataRecv streamId offset bytes endStream).2.streams.find streamId).isSome) :=
  recv_atoms StreamState.onRecvData_hears _

theorem onHeaderRecv_atoms (streamId offset : Nat) (bytes : List UInt8) (endStream : Bool) :
    Local Atom streamId c (c.onHeaderRecv streamId offset bytes endStream).2 ∧
      (c.streams.find streamId = some s → ((c.onHeaderRecv streamId offset bytes endStream).2.streams.find streamId).isSome) :=
  recv_atoms StreamState.onRecvHeaders_hears _

theorem deliverData_atoms (fhr : FrameHeader) (offset : Nat) (chunk : List UInt8) (c : Conn) :
    Local Atom fhr.streamId c (c.deliverData fhr offset chunk).2 := by
  unfold deliverData
  split
  · exact .refl c
  rename_i s found
  dsimp only
  split
  · have handed := onDataRecv_atoms (c := c) (s := s) fhr.streamId (max offset (dataPrefix fhr) - dataPrefix fhr)
      (overlap chunk offset (dataPrefix fhr) (fhr.length - c.incomingPadLength))
      (fhr.has kFlagEndStream && decide (fhr.length - c.incomingPadLength ≤ offset + chunk.length))
    generalize c.onDataRecv fhr.streamId _ _ _ = outcome at handed
    obtain ⟨err, d⟩ := outcome
    refine handed.1.trans ?_
    cases err with
    | some err => exact handleStreamError_atoms d fhr.streamId .streamClosed err
    | none => exact maybeDestroyStream_atoms (.inl (handed.2 found))
  · exact .refl c

theorem Local.andThen {outcome : Option IoErr × Conn} {rest : Conn → Option IoErr × Conn}
    (first : Local Atom streamId c outcome.2) (second : ∀ d, Local Atom streamId d (rest d).2) :
    Local Atom streamId c (Conn.andThen outcome rest).2 := by
  obtain ⟨err, d⟩ := outcome
  cases err with
  | some err => exact first
  | none => exact first.trans (second d)

theorem handleDataPayload_atoms (fhr : FrameHeader) (offset : Nat) (chunk : List UInt8) :
    Local Atom fhr.streamId c (c.handleDataPayload fhr offset chunk).2 := by
  unfold handleDataPayload
  split
  · refine .andThen ?_ (deliverData_atoms fhr offset chunk)
    unfold beginData
    dsimp only
    split_ifs
    all_goals exact .quiet (.rest rfl)
  · exact deliverData_atoms fhr offset chunk c

theorem beginHeaders_atoms (fhr : FrameHeader) (chunk : List UInt8) :
    Local Atom fhr.streamId c (c.beginHeaders fhr chunk).2 := by
  have padded (pad : Nat) : Local Atom fhr.streamId c { c with incomingPadLength := pad } := .quiet (.rest rfl)
  unfold beginHeaders
  dsimp only
  split
  · exact padded 0
  have started : ∃ pad, (if fhr.has kFlagPadded then { c with incomingPadLength := byteAt chunk 0 }
      else { c with incomingPadLength := 0 } : Conn) = { c with incomingPadLength := pad } := by
    split
    · exact ⟨_, rfl⟩
    · exact ⟨_, rfl⟩
  obtain ⟨pad, started⟩ := started
  rw [started]
  split_ifs
  · exact padded pad
  · exact padded pad
  · refine (padded pad).trans ?_
    generalize ({ c with incomingPadLength := pad } : Conn) = d
    split
    · exact .refl d
    rename_i d' made
    refine .single (.insertPeer made) fun other apart => ?_
    obtain ⟨-, -, streams, inserted, rfl⟩ := createPeerStream_some made
    exact (Table.find_insert inserted other).trans (if_neg apart)
  · exact padded pad

theorem endFragment_quiet (c : Conn) (fragmentBytes : Nat) (endHeaders : Bool) :
    Quiet c (c.endFragment fragmentBytes endHeaders) := by
  unfold endFragment
  split <;> exact (.rest rfl)

theorem recvFragment_atoms (found : c.streams.find streamId = some s) (offset : Nat) (bytes : List UInt8)
    (endStream : Bool) {finish : Conn → Conn} (quiet : ∀ d, Quiet d (finish d)) :
    Local Atom streamId c (c.recvFragment streamId offset bytes endStream finish).2 := by
  unfold recvFragment
  have handed := onHeaderRecv_atoms (c := c) (s := s) streamId offset bytes endStream
  generalize c.onHeaderRecv streamId offset bytes endStream = outcome at handed
  obtain ⟨err, d⟩ := outcome
  refine handed.1.trans ?_
  cases err with
  | some err => exact handleStreamError_atoms d streamId .protocolError err
  | none => exact (maybeDestroyStream_atoms (.inl (handed.2 found))).trans (.quiet (quiet _))

theorem deliverHeaders_atoms (fhr : FrameHeader) (offset : Nat) (chunk : List UInt8) (c : Conn) :
    Local Atom fhr.streamId c (c.deliverHeaders fhr offset chunk).2 := by
  unfold deliverHeaders
  split
  · exact .refl c
  rename_i s found
  have begun : Local Atom fhr.streamId c (if offset = 0 then c.beginBlock fhr else c) := by
    split
    · exact .quiet (.rest rfl)
    · exact .refl c
  have found' : (if offset = 0 then c.beginBlock fhr else c).streams.find fhr.streamId = some s := by
    split <;> exact found
  dsimp only
  have finishes (last : Prop) [Decidable last] (bytes : Nat) (d : Conn) :
      Quiet d (if last then d.endFragment bytes (fhr.has kFlagEndHeaders) else d) := by
    split
    · exact endFragment_quiet d _ _
    · exact .refl d
  split
  · exact begun.trans (recvFragment_atoms found' _ _ _ fun d => finishes _ _ d)
  · exact begun.trans (.quiet (finishes _ _ _))

theorem handleHeadersPayload_atoms (fhr : FrameHeader) (offset : Nat) (chunk : List UInt8) :
    Local Atom fhr.streamId c (c.handleHeadersPayload fhr offset chunk).2 := by
  unfold handleHeadersPayload
  split
  · exact (beginHeaders_atoms fhr chunk).andThen (deliverHeaders_atoms fhr offset chunk)
  · exact deliverHeaders_atoms fhr offset chunk c

theorem handleContinuationPayload_atoms (fhr : FrameHeader) (offset : Nat) (chunk : List UInt8) :
    Local Atom fhr.streamId c (c.handleContinuationPayload fhr offset chunk).2 := by
  unfold handleContinuationPayload deliverContinuation
  split
  · exact .refl c
  split
  · exact .refl c
  rename_i s found
  have finishes (last : Prop) [Decidable last] (d : Conn) :
      Quiet d (if last then d.endFragment fhr.length (fhr.has kFlagEndHeaders) else d) := by
    split
    · exact endFragment_quiet d _ _
    · exact .refl d
  dsimp only
  split
  · exact recvFragment_atoms found _ _ _ fun d => finishes _ d
  · exact .quiet (finishes _ _)

theorem Quiet.turns (rest : Quiet c d) : ReflTransGen (Turn ok) c d := .single (.move (.atom (.quiet rest)))

theorem atoms_turns (path : ReflTransGen Atom c d) : ReflTransGen (Turn ok) c d :=
  ReflTransGen.mono (fun _ _ step => .move (.atom step)) _ _ path

theorem moves_turns (path : ReflTransGen Move c d) : ReflTransGen (Turn ok) c d :=
  ReflTransGen.mono (fun _ _ step => .move step) _ _ path

theorem shiftStreams_turns (delta : Int) {streamIds : List Nat} (sound : Sound c)
    (here : ∀ streamId ∈ streamIds, c.Here streamId) :
    ReflTransGen (Turn ok) c (streamIds.foldl (fun c streamId => c.updateSendWindow streamId delta) c) := by
  induction streamIds generalizing c with
  | nil => exact .refl
  | cons streamId streamIds ih =>
    let shift (s : Stream) : Stream := { s with sendWindow := s.sendWindow + delta }
    have shifted : ReflTransGen (Turn ok) c (c.modifyStream streamId shift) := .single (.shift delta)
    have keeps (other : Nat) (here : c.Here other) : (c.modifyStream streamId shift).Here other := by
      rcases here with found | late
      · left
        rw [find_modifyStream]
        split
        · rwa [isSome_map]
        · exact found
      · exact .inr late
    have tried := trySchedulePending_moves (sound.turns shifted) (keeps streamId (here streamId List.mem_cons_self))
    have first := shifted.trans tried.1.turns
    refine first.trans (ih (sound.turns first) fun other member => ?_)
    by_cases same : other = streamId
    · rw [same]
      exact tried.2
    · exact tried.1.here Move.late same (keeps other (here other (List.mem_cons_of_mem _ member)))

section

variable (sound : Sound c)

include sound

theorem applyPeerInitialStreamWindow_turns (value : Nat) :
    ReflTransGen (Turn ok) c (c.applyPeerInitialStreamWindow value).2 := by
  unfold applyPeerInitialStreamWindow
  split
  · exact .refl
  dsimp only
  split
  · split
    · exact (shiftStreams_turns _ sound c.streamIds_here).tail (.initial _ _)
    · exact .refl
  · exact .single (.initial _ _)

theorem applySettingsParameter_turns (id value : Nat) :
    ReflTransGen (Turn ok) c (c.applySettingsParameter id value).2 := by
  unfold applySettingsParameter
  split_ifs
  · exact Quiet.turns (.rest rfl)
  · exact .refl
  · exact Quiet.turns (.rest rfl)
  · exact Quiet.turns (.rest rfl)
  · exact applyPeerInitialStreamWindow_turns sound value
  · exact .refl
  · exact Quiet.turns (.rest rfl)
  · exact Quiet.turns (.rest rfl)
  · exact .refl

theorem feedSettings_turns (bytes : List UInt8) : ReflTransGen (Turn ok) c (c.feedSettings bytes).2 := by
  induction bytes generalizing c with
  | nil => exact .refl
  | cons byte bytes ih =>
    have stored : ReflTransGen (Turn ok) c { c with settingsScratch := c.settingsScratch ++ [byte] } :=
      Quiet.turns (.rest rfl)
    unfold feedSettings
    dsimp only
    split
    · generalize ({ c with settingsScratch := c.settingsScratch ++ [byte] } : Conn) = d at stored
      have applied : ReflTransGen (Turn ok) d _ := applySettingsParameter_turns (sound.turns stored)
        (parseU16 (c.settingsScratch ++ [byte])) (parseU32 ((c.settingsScratch ++ [byte]).drop 2))
      generalize d.applySettingsParameter _ _ = outcome at applied
      obtain ⟨err, d'⟩ := outcome
      refine stored.trans ?_
      cases err with
      | some err => exact applied
      | none =>
        have reset : ReflTransGen (Turn ok) d' { d' with settingsScratch := [] } := Quiet.turns (.rest rfl)
        have before := applied.trans reset
        exact before.trans (ih ((sound.turns stored).turns before))
    · exact stored.trans (ih (sound.turns stored))

theorem andThen_turns {outcome : Option IoErr × Conn} {rest : Conn → Option IoErr × Conn}
    (first : ReflTransGen (Turn ok) c outcome.2) (second : ∀ {d}, Sound d → ReflTransGen (Turn ok) d (rest d).2) :
    ReflTransGen (Turn ok) c (Conn.andThen outcome rest).2 := by
  obtain ⟨err, d⟩ := outcome
  cases err with
  | some err => exact first
  | none => exact first.trans (second (sound.turns first))

theorem handleSettingsPayload_turns (fhr : FrameHeader) (offset : Nat) (chunk : List UInt8) :
    ReflTransGen (Turn ok) c (c.handleSettingsPayload fhr offset chunk).2 := by
  have deliver {d : Conn} (sound : Sound d) : ReflTransGen (Turn ok) d (d.deliverSettings fhr offset chunk).2 := by
    unfold deliverSettings
    split
    · exact .refl
    refine andThen_turns sound (feedSettings_turns sound chunk) fun {e} sound => ?_
    split_ifs
    · exact .refl
    · exact atoms_turns (control_path (by decide) (by decide) _ _ _)
    · exact .refl
  unfold handleSettingsPayload
  split
  · refine andThen_turns sound ?_ deliver
    unfold beginSettings
    split_ifs
    all_goals exact Quiet.turns (.rest rfl)
  · exact deliver sound

end

theorem collect_path {P : Conn → Conn → Prop} (trans : ∀ {a b c : Conn}, P a b → P b c → P a c)
    (quiet : ∀ {a b : Conn}, Quiet a b → P a b) {valid : Bool} {act : Conn → Option IoErr × Conn}
    (acts : ∀ {d : Conn}, Sound d → P d (act d).2) (sound : Sound c) (fhr : FrameHeader) (offset : Nat)
    (chunk : List UInt8) : P c (collect valid limit act c fhr offset chunk).2 := by
  have cleared : Quiet c (if offset = 0 then { c with controlPayloadScratch := [] } else c) := by
    split
    · exact (.rest rfl)
    · exact .refl c
  unfold collect
  generalize (if offset = 0 then { c with controlPayloadScratch := [] } else c : Conn) = d at cleared
  split
  · exact quiet cleared
  have stored : Quiet d { d with controlPayloadScratch :=
      d.controlPayloadScratch ++ chunk.take (limit - d.controlPayloadScratch.length) } := (.rest rfl)
  split
  · exact trans (quiet cleared) (quiet stored)
  · exact trans (quiet cleared) (trans (quiet stored) (acts ((sound.calm cleared.toCalm).calm stored.toCalm)))

theorem streamCredit_moves (sound : Sound c) (found : c.streams.find streamId = some s) (nonzero : streamId ≠ 0)
    (fits : s.sendWindow + increment ≤ kMaxFlowControlWindow) :
    Local Move streamId c ({ c with credits := c.credits ++ [(streamId, increment)] }.updateSendWindow streamId
      increment) := by
  have credited := (Local.modify (.streamCredit found nonzero fits) rfl : Local Atom _ _ _).moves
  have there := find_modifyStream_self (c := { c with credits := c.credits ++ [(streamId, increment)] }) found
    fun s => { s with sendWindow := s.sendWindow + increment }
  exact credited.trans (trySchedulePending_moves (sound.moves credited.path) (.of_found there)).1

theorem applyWindowUpdate_moves (sound : Sound c) (fhr : FrameHeader) (nonzero : fhr.streamId ≠ 0) :
    Local Move fhr.streamId c (c.applyWindowUpdate fhr).2 := by
  unfold applyWindowUpdate
  simp only [nonzero, if_false]
  split
  · exact (handleStreamError_atoms c _ _ _).moves
  split
  · exact .refl c
  rename_i s found
  split
  · exact (handleStreamError_atoms c _ _ _).moves
  · rename_i fits
    exact streamCredit_moves sound found nonzero (Int.not_lt.mp fits)

theorem applyWindowUpdate_turns (sound : Sound c) (fhr : FrameHeader) :
    ReflTransGen (Turn ok) c (c.applyWindowUpdate fhr).2 := by
  by_cases zero : fhr.streamId = 0
  · unfold applyWindowUpdate
    simp only [zero, if_true]
    split
    · exact .refl
    split
    · exact .refl
    rename_i fits
    have credited : ReflTransGen Move c _ := .single (.atom (.credit (Int.not_lt.mp fits)))
    exact moves_turns (credited.trans (drainConnBlockedStreams_moves (sound.moves credited)))
  · exact (applyWindowUpdate_moves sound fhr zero).turns

theorem applyRstStream_atoms (fhr : FrameHeader) : Local Atom fhr.streamId c (c.applyRstStream fhr).2 := by
  unfold applyRstStream
  split
  · exact .refl c
  · rename_i s found
    exact closeStream_atoms (.of_found found) _

theorem handleRstStreamPayload_atoms (sound : Sound c) (fhr : FrameHeader) (offset : Nat) (chunk : List UInt8) :
    Local Atom fhr.streamId c (c.handleRstStreamPayload fhr offset chunk).2 :=
  collect_path .trans .quiet (fun _ => applyRstStream_atoms fhr) sound fhr offset chunk

theorem consumeIncomingFramePayload_turns (sound : Sound c) (fhr : FrameHeader) (offset : Nat) (chunk : List UInt8) :
    ReflTransGen (Turn ok) c (c.consumeIncomingFramePayload fhr offset chunk).2 := by
  unfold consumeIncomingFramePayload
  split
  · exact .refl
  split
  · exact .refl
  split
  · exact (handleDataPayload_atoms fhr offset chunk).moves.turns
  · exact (handleHeadersPayload_atoms fhr offset chunk).moves.turns
  · exact (handleContinuationPayload_atoms fhr offset chunk).moves.turns
  · exact handleSettingsPayload_turns sound fhr offset chunk
  · refine collect_path .trans Quiet.turns (fun {d} _ => ?_) sound fhr offset chunk
    split
    · exact .refl
    · exact atoms_turns (control_path (by decide) (by decide) _ _ _)
  · exact collect_path .trans Quiet.turns (fun sound => applyWindowUpdate_turns sound fhr) sound fhr offset chunk
  · exact (handleRstStreamPayload_atoms sound fhr offset chunk).moves.turns
  · exact collect_path .trans Quiet.turns (fun {d} _ => atoms_turns (onPeerGoaway_atoms d _ _)) sound fhr offset chunk
  · exact .refl
  · exact .refl
  · exact .refl

end Inbound

end Conn

end FiberGateway.Http2
