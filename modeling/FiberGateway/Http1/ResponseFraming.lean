import FiberGateway.Http1.ResponseWriter
import FiberGateway.Http1.Segmentation

namespace FiberGateway.Http1

open List

variable {answers : List (Except IoErr Nat)} {value bytes more input payload tail behind : List UInt8} {fields : List (List UInt8 × List UInt8)}

theorem writeBuffer_whole (success : (writeBuffer answers bytes).returned = some (.ok ())) :
    (writeBuffer answers bytes).wire = bytes := by
  induction answers generalizing bytes with
  | nil =>
    unfold writeBuffer at success ⊢
    split_ifs at success ⊢ with empty
    exact empty.symm
  | cons answer answers ih =>
    unfold writeBuffer at success ⊢
    split_ifs at success ⊢ with empty
    · exact empty.symm
    cases answer with
    | error err => cases success
    | ok accepted =>
      dsimp only at success ⊢
      split_ifs at success ⊢ with none_taken
      · cases success
      · dsimp only at success ⊢
        rw [ih success, take_append_drop]

theorem TransportKind.writeAll_whole (kind : TransportKind) {chain : BufChain} (formed : chain.WellFormed)
    {done : WriteAll} (ran : writeAll kind.writev answers chain = .ok done)
    (success : done.returned = some (.ok ())) : done.wire = chain.bytes := by
  cases kind with
  | tcp =>
    obtain ⟨done', ran', -, whole⟩ := TcpTransport.writeAll_whole formed answers
    cases ran.symm.trans ran'
    exact whole.mp success
  | tls =>
    -- only a chain with nothing in it gets through
    obtain ⟨done', ran', whole⟩ := TlsTransport.writeAll_fails formed answers
    cases ran.symm.trans ran'
    have empty := whole.mp success
    have left : chain.readableBytes = 0 := by rw [formed.readable, empty]; rfl
    have nothing := writeAll_empty TlsTransport.writev answers left
    cases ran.symm.trans nothing
    exact empty.symm

namespace ResponseM

variable {α β : Type} {r r' : Response}

theorem bind_ok {m : ResponseM α} {f : α → ResponseM β} {b : β} :
    (m >>= f) r = .ok b r' ↔ ∃ a between, m r = .ok a between ∧ f a between = .ok b r' := by
  change EStateM.bind m f r = _ ↔ _
  unfold EStateM.bind
  cases m r <;> simp

theorem get_bind (f : Response → ResponseM β) : (get >>= f) r = f r r := rfl

theorem modify_bind (g : Response → Response) (f : Unit → ResponseM β) : (modify g >>= f) r = f () (g r) := rfl

/-- A call that succeeds only if it has written the bytes, and does nothing else. -/
def Emits (m : ResponseM Unit) (bytes : List UInt8) : Prop :=
  ∀ r r', m r = .ok () r' → ∃ answers, r' = { r with wire := r.wire ++ bytes, answers := answers }

theorem Emits.bind {m n : ResponseM Unit} (first : Emits m bytes) (second : Emits n more) :
    Emits (m >>= fun _ => n) (bytes ++ more) := by
  intro r r' run
  rw [bind_ok] at run
  obtain ⟨_, between, ran, run⟩ := run
  obtain ⟨answers, rfl⟩ := first r between ran
  obtain ⟨answers', rfl⟩ := second _ r' run
  exact ⟨answers', by simp⟩

end ResponseM

open ResponseM

namespace Response

variable {r r' : Response}

theorem sent_emits {done : WriteAll} (whole : done.returned = some (.ok ()) → done.wire = bytes) :
    Emits (sent done) bytes := by
  intro r r' run
  unfold sent at run
  rw [modify_bind] at run
  rcases success : done.returned with _ | err | done
  · rw [success] at run
    cases run
  · rw [success] at run
    cases run
  · rw [success] at run
    cases run
    exact ⟨r.answers, by rw [whole success]⟩

theorem writeAllBytes_emits (bytes : List UInt8) : Emits (writeAllBytes bytes) bytes := by
  intro r r' run
  unfold writeAllBytes at run
  rw [bind_ok] at run
  obtain ⟨answers, between, next, run⟩ := run
  cases next
  obtain ⟨answers', rfl⟩ := sent_emits writeBuffer_whole _ r' run
  exact ⟨answers', rfl⟩

variable {chain : BufChain} {data : ResponseM Unit} {answers : List (List (Except IoErr Nat))}
  {mode : ResponseBodyMode} {infer bodyEnd : Bool} {c : Call}

theorem writeAllChain_emits (formed : chain.WellFormed) : Emits (writeAllChain chain) chain.bytes := by
  intro r r' run
  unfold writeAllChain at run
  rw [bind_ok] at run
  obtain ⟨answers, between, next, run⟩ := run
  cases next
  rw [bind_ok] at run
  obtain ⟨_, between, got, run⟩ := run
  cases got
  generalize ran : writeAll _ _ chain = result at run
  cases result with
  | error fault => cases run
  | ok done =>
    obtain ⟨answers', rfl⟩ := sent_emits (TransportKind.writeAll_whole _ formed ran) _ r' run
    exact ⟨answers', rfl⟩

/-- A payload as it stands in the body. -/
def frame (mode : ResponseBodyMode) (payload : List UInt8) : List UInt8 :=
  if mode = .chunked ∧ payload ≠ [] then toChars 16 payload.length ++ crLf ++ payload ++ crLf else payload

variable {payload buf : List UInt8} {len : Nat} {last closeConn : Bool} {start : Response} {calls : List Call}

theorem writeChunk_emits (emits : Emits data payload) :
    Emits (writeChunk payload.length data) (toChars 16 payload.length ++ (crLf ++ (payload ++ crLf))) :=
  (writeAllBytes_emits _).bind ((writeAllBytes_emits _).bind (emits.bind (writeAllBytes_emits _)))

/-- The response once its header is out. -/
def withHeader (r : Response) : Response :=
  { r with
    wire := r.wire ++ r.headerBlock r.closeConn
    closeAfterResponse := r.closeConn
    connectionMode := if r.closeConn then .close else r.connectionMode
    phase := .headerSent }

/-- The response once a payload is out. -/
def withBody (r : Response) (payload : List UInt8) : Response :=
  { r with
    wire := r.wire ++ frame r.bodyMode payload
    bodySent := r.bodySent + payload.length.toUInt64
    phase := if payload.length > 0 then .bodyStreaming else r.phase }

/-- The end of a call, which is the response's if the payload is the last. -/
def Ends (last : Bool) (r r' : Response) : Prop :=
  if last then finishResponse r = .ok () r' else r' = r

/-- What every `write_body` that succeeds has done. -/
structure Writes (payload : List UInt8) (last : Bool) (r r' : Response) : Prop where
  opened : r.phase ≠ .finished
  done : ∃ lead answers,
    lead = (if r.phase = .init then (r.inferBodyMode last payload.length true).withHeader else r) ∧
    (lead.bodyMode = .contentLength → payload.length ≤ (lead.contentLength - lead.bodySent).toNat) ∧
    Ends last { lead.withBody payload with answers := answers } r'

theorem checkRemaining_ok (run : checkRemaining len r = .ok () r') :
    r' = r ∧ (r.bodyMode = .contentLength → len ≤ (r.contentLength - r.bodySent).toNat) := by
  unfold checkRemaining at run
  rw [get_bind] at run
  split_ifs at run with exceeds
  · cases run
  · cases run
    exact ⟨rfl, fun mode => Nat.le_of_not_lt fun more => exceeds ⟨mode, more⟩⟩

theorem bodyWritten_ok
    (run : bodyWritten payload.length last { r with wire := r.wire ++ frame r.bodyMode payload, answers := answers } = .ok () r') :
    Ends last { r.withBody payload with answers := answers } r' := by
  unfold bodyWritten at run
  rw [modify_bind] at run
  unfold Ends
  cases last with
  | true => exact run
  | false => cases run; rfl

theorem firstWritten_ok
    (run : firstWritten r.closeConn payload.length last { r with wire := r.wire ++ (r.headerBlock r.closeConn ++ frame r.bodyMode payload), answers := answers } = .ok () r') :
    Ends last { r.withHeader.withBody payload with answers := answers } r' := by
  unfold firstWritten headerWritten at run
  rw [modify_bind] at run
  rw [modify_bind] at run
  unfold Ends
  rw [← append_assoc] at run
  cases last with
  | true => exact run
  | false => cases run; rfl

theorem frame_chunk (some_data : payload.length > 0) :
    toChars 16 payload.length ++ (crLf ++ (payload ++ crLf)) = frame .chunked payload := by
  rw [frame, if_pos ⟨rfl, length_pos_iff.mp some_data⟩]
  simp

theorem frame_plain (plain : ¬(mode = .chunked ∧ payload.length > 0)) : frame mode payload = payload := by
  rw [frame, if_neg]
  rwa [← length_pos_iff]

theorem frames_plain (payloads : List (List UInt8)) : payloads.flatMap (frame .contentLength) = payloads.flatten := by
  have same : frame .contentLength = id := funext fun payload => frame_plain fun both => nomatch both.1
  rw [same, flatMap_id]

theorem frame_empty (none_given : ¬payload.length > 0) : frame mode payload = [] := by
  rw [frame_plain fun both => none_given both.2]
  exact length_eq_zero_iff.mp (Nat.le_zero.mp (Nat.le_of_not_lt none_given))

theorem filledView_readable (capacity : Nat) (bytes : List UInt8) : (filledView capacity bytes).readable = bytes := by
  simp [filledView, IoView.readable]

theorem streamBody_writes (emits : Emits data payload) (opened : r.phase ≠ .finished) (started : r.phase ≠ .init)
    (run : streamBody payload.length data last r = .ok () r') : Writes payload last r r' := by
  unfold streamBody at run
  rw [get_bind] at run
  refine ⟨opened, r, ?_⟩
  simp only [if_neg started, true_and]
  by_cases chunked : r.bodyMode = .chunked
  · rw [if_pos chunked] at run
    have other : r.bodyMode ≠ .contentLength := by rw [chunked]; nofun
    by_cases some_data : payload.length > 0
    · rw [if_pos some_data] at run
      rw [bind_ok] at run
      obtain ⟨_, between, wrote, run⟩ := run
      obtain ⟨answers, rfl⟩ := writeChunk_emits emits r between wrote
      rw [frame_chunk some_data, ← chunked] at run
      exact ⟨answers, fun mode => absurd mode other, bodyWritten_ok run⟩
    · rw [if_neg some_data] at run
      refine ⟨r.answers, fun mode => absurd mode other, bodyWritten_ok ?_⟩
      rw [frame_empty some_data, append_nil]
      exact run
  · rw [if_neg chunked] at run
    rw [bind_ok] at run
    obtain ⟨_, between, checked, run⟩ := run
    obtain ⟨rfl, fits⟩ := checkRemaining_ok checked
    by_cases some_data : payload.length > 0
    · rw [if_pos some_data] at run
      rw [bind_ok] at run
      obtain ⟨_, between, wrote, run⟩ := run
      obtain ⟨answers, rfl⟩ := emits _ between wrote
      refine ⟨answers, fits, bodyWritten_ok ?_⟩
      rw [frame_plain fun both => chunked both.1]
      exact run
    · rw [if_neg some_data] at run
      refine ⟨between.answers, fits, bodyWritten_ok ?_⟩
      rw [frame_empty some_data, append_nil]
      exact run

theorem buildResponseHeader_ok {header : IoView}
    (run : buildResponseHeader bodyEnd len infer r = .ok (header, closeConn) r') :
    r' = r.inferBodyMode bodyEnd len infer ∧ header.readable = r'.headerBlock r'.closeConn ∧ closeConn = r'.closeConn := by
  unfold buildResponseHeader at run
  rw [modify_bind, get_bind] at run
  generalize r.inferBodyMode bodyEnd len infer = lead at run ⊢
  cases room : IoBuf.allocate (lead.headerLen lead.closeConn) with
  | none =>
    rw [room] at run
    cases run
  | some buf =>
    rw [room] at run
    injection run with built same
    injection built with block closing
    subst same
    exact ⟨rfl, by rw [← block, filledView_readable], closing.symm⟩

theorem first_frame (mode : ResponseBodyMode) (payload : List UInt8) :
    (if mode = .chunked ∧ payload.length > 0 then toChars 16 payload.length ++ crLf ++ payload ++ crLf else payload) =
      frame mode payload := by
  simp only [frame, length_pos_iff, gt_iff_lt]

theorem writeBody_writes (run : writeBody buf last r = .ok () r') : Writes buf last r r' := by
  unfold writeBody at run
  rw [get_bind] at run
  by_cases finished : r.phase = .finished
  · rw [if_pos finished] at run
    cases run
  rw [if_neg finished] at run
  dsimp only at run
  rw [get_bind] at run
  by_cases first : r.phase = .init
  · rw [if_pos first] at run
    rw [bind_ok] at run
    obtain ⟨⟨header, closeConn⟩, between, built, run⟩ := run
    obtain ⟨rfl, block, rfl⟩ := buildResponseHeader_ok built
    generalize lead_eq : r.inferBodyMode last buf.length true = lead at *
    rw [bind_ok] at run
    obtain ⟨_, between, checked, run⟩ := run
    obtain ⟨rfl, fits⟩ := checkRemaining_ok checked
    rw [get_bind] at run
    refine ⟨finished, between.withHeader, ?_⟩
    rw [if_pos first, lead_eq]
    by_cases inline : buf.length ≤ kInlineFirstWriteBodyLimit
    · rw [if_pos inline, bind_ok] at run
      obtain ⟨_, written, wrote, run⟩ := run
      obtain ⟨answers, rfl⟩ := writeAllBytes_emits _ _ written wrote
      rw [block, first_frame] at run
      exact ⟨answers, rfl, fits, firstWritten_ok run⟩
    rw [if_neg inline, bind_ok] at run
    obtain ⟨_, headed, wrote, run⟩ := run
    obtain ⟨answers, rfl⟩ := writeAllBytes_emits _ _ headed wrote
    have some_data : buf.length > 0 := by omega
    by_cases chunked : between.bodyMode = .chunked
    · rw [if_pos ⟨chunked, some_data⟩, bind_ok] at run
      obtain ⟨_, written, wrote, run⟩ := run
      obtain ⟨answers', rfl⟩ := writeChunk_emits (writeAllBytes_emits buf) _ written wrote
      rw [frame_chunk some_data, ← chunked, append_assoc, block] at run
      exact ⟨answers', rfl, fits, firstWritten_ok run⟩
    · rw [if_neg fun both => chunked both.1, if_pos some_data, bind_ok] at run
      obtain ⟨_, written, wrote, run⟩ := run
      obtain ⟨answers', rfl⟩ := writeAllBytes_emits buf _ written wrote
      refine ⟨answers', rfl, fits, firstWritten_ok ?_⟩
      rw [frame_plain fun both => chunked both.1, ← block, ← append_assoc]
      exact run
  · rw [if_neg first] at run
    exact streamBody_writes (writeAllBytes_emits buf) finished first run

theorem writeBodyChunk_writes (formed : chain.WellFormed) (run : writeBodyChunk chain last r = .ok () r') :
    Writes chain.bytes last r r' := by
  unfold writeBodyChunk at run
  rw [formed.readable, get_bind] at run
  by_cases finished : r.phase = .finished
  · rw [if_pos finished] at run
    cases run
  rw [if_neg finished] at run
  dsimp only at run
  rw [get_bind] at run
  by_cases first : r.phase = .init
  · rw [if_pos first, bind_ok] at run
    obtain ⟨⟨header, closeConn⟩, between, built, run⟩ := run
    obtain ⟨rfl, block, rfl⟩ := buildResponseHeader_ok built
    generalize lead_eq : r.inferBodyMode last chain.bytes.length true = lead at *
    rw [bind_ok] at run
    obtain ⟨_, between, checked, run⟩ := run
    obtain ⟨rfl, fits⟩ := checkRemaining_ok checked
    rw [get_bind] at run
    rw [bind_ok] at run
    obtain ⟨_, written, wrote, run⟩ := run
    refine ⟨finished, between.withHeader, ?_⟩
    rw [if_pos first, lead_eq]
    have framed : ∃ whole : BufChain, whole.WellFormed ∧ whole.bytes = frame between.bodyMode chain.bytes ∧
        writeAllChain (whole.prepend header) between = .ok () written := by
      refine ⟨_, ?_, ?_, wrote⟩
      · split_ifs
        · exact (formed.append _).prepend _
        · exact formed
      · split_ifs with chunked
        · rw [BufChain.prepend_bytes, BufChain.append_bytes, filledView_readable, filledView_readable, ← first_frame,
            if_pos chunked]
          simp
        · rw [frame_plain chunked]
    obtain ⟨whole, formed', bytes, wrote⟩ := framed
    obtain ⟨answers, rfl⟩ := writeAllChain_emits (formed'.prepend header) _ written wrote
    rw [BufChain.prepend_bytes, bytes, block] at run
    exact ⟨answers, rfl, fits, firstWritten_ok run⟩
  · rw [if_neg first] at run
    exact streamBody_writes (writeAllChain_emits formed) finished first run

theorem sendResponseHeader_ok (run : sendResponseHeader r = .ok () r') :
    r.phase = .init ∧ ∃ answers, r' = { (r.inferBodyMode true 0 false).withHeader with answers := answers } := by
  unfold sendResponseHeader at run
  rw [get_bind] at run
  by_cases first : r.phase = .init
  · rw [if_neg (not_not.mpr first)] at run
    dsimp only at run
    rw [modify_bind, get_bind, bind_ok] at run
    obtain ⟨_, written, wrote, run⟩ := run
    obtain ⟨answers, rfl⟩ := writeAllBytes_emits _ _ written wrote
    cases run
    exact ⟨first, answers, rfl⟩
  · rw [if_pos first] at run
    cases run

/-- What stands behind the payloads. -/
def ending (r : Response) : List UInt8 :=
  if r.bodyMode = .chunked then text "0" ++ crLf ++ (r.trailers.flatMap encodeField ++ crLf) else []

theorem finishResponse_ok (run : finishResponse r = .ok () r') :
    (r.phase ≠ .init ∧ r.phase ≠ .finished) ∧
      (r.bodyMode ≠ .chunked → r.trailers = [] ∧ (r.bodyMode = .contentLength → r.bodySent = r.contentLength)) ∧
      ∃ answers, r' = { r with wire := r.wire ++ r.ending, phase := .finished, answers := answers } := by
  unfold finishResponse at run
  rw [get_bind] at run
  by_cases first : r.phase = .init
  · rw [if_pos first] at run
    cases run
  rw [if_neg first] at run
  by_cases finished : r.phase = .finished
  · rw [if_pos finished] at run
    cases run
  rw [if_neg finished] at run
  refine ⟨⟨first, finished⟩, ?_⟩
  by_cases chunked : r.bodyMode = .chunked
  · rw [if_pos chunked, bind_ok] at run
    obtain ⟨_, zeroed, wrote, run⟩ := run
    obtain ⟨answers, rfl⟩ := writeAllBytes_emits _ _ zeroed wrote
    unfold writeChunkedTrailerBlock at run
    rw [bind_ok] at run
    obtain ⟨_, ended, wrote, run⟩ := run
    rw [bind_ok] at wrote
    obtain ⟨_, _, got, wrote⟩ := wrote
    cases got
    obtain ⟨answers', rfl⟩ := writeAllBytes_emits _ _ ended wrote
    cases run
    refine ⟨fun other => absurd chunked other, answers', ?_⟩
    simp only [ending, if_pos chunked, append_assoc]
  · rw [if_neg chunked] at run
    by_cases fields : r.trailers.length > 0
    · rw [if_pos fields] at run
      cases run
    rw [if_neg fields] at run
    by_cases short : r.bodyMode = .contentLength ∧ r.bodySent ≠ r.contentLength
    · rw [if_pos short] at run
      cases run
    · rw [if_neg short] at run
      cases run
      refine ⟨fun _ => ⟨length_eq_zero_iff.mp (by omega), fun mode => ?_⟩, r.answers, ?_⟩
      · by_contra other
        exact short ⟨mode, other⟩
      · rw [ending, if_neg chunked, append_nil]

/-- The header is out, and behind it the payloads. -/
structure Streams (start r : Response) (payloads : List (List UInt8)) : Prop where
  wire : r.wire = start.wire ++ r.headerBlock r.closeAfterResponse ++ payloads.flatMap (frame r.bodyMode)
  settled : r.bodyMode ≠ .auto
  kept : start.bodyMode ≠ .auto → r.bodyMode = start.bodyMode ∧ r.contentLength = start.contentLength
  counted : r.bodyMode = .contentLength →
    r.bodySent.toNat = payloads.flatten.length ∧ payloads.flatten.length ≤ r.contentLength.toNat

/-- Nothing is out. -/
structure Untouched (start r : Response) (payloads : List (List UInt8)) : Prop where
  phase : r.phase = .init
  wire : r.wire = start.wire
  kept : r.bodyMode = start.bodyMode ∧ r.contentLength = start.contentLength
  bodySent : r.bodySent = 0
  payloads : payloads = []

/-- How far the response is. -/
def Progress (start r : Response) (payloads : List (List UInt8)) : Prop :=
  Untouched start r payloads ∨ (r.phase = .headerSent ∨ r.phase = .bodyStreaming) ∧ Streams start r payloads

theorem Untouched.withHeader {payloads : List (List UInt8)} (fresh : Untouched start r payloads) :
    Streams start (r.inferBodyMode bodyEnd len infer).withHeader payloads := by
  obtain ⟨-, wire, same, bodySent, rfl⟩ := fresh
  have kept : (r.inferBodyMode bodyEnd len infer).wire = r.wire ∧ (r.inferBodyMode bodyEnd len infer).bodySent = r.bodySent ∧
      (r.inferBodyMode bodyEnd len infer).bodyMode ≠ .auto := by
    unfold inferBodyMode
    split_ifs with auto <;> simp [auto]
  refine ⟨?_, kept.2.2, fun fixed => ?_, fun _ => ?_⟩
  · simp only [Response.withHeader, kept.1, wire, flatMap_nil, append_nil]
    rfl
  · rw [← same.1] at fixed
    have unchanged : r.inferBodyMode bodyEnd len infer = r := if_neg fixed
    rw [unchanged]
    exact same
  · simp [Response.withHeader, kept.2.1, bodySent]

theorem Streams.withBody {payloads : List (List UInt8)} (streams : Streams start r payloads)
    (fits : r.bodyMode = .contentLength → payload.length ≤ (r.contentLength - r.bodySent).toNat)
    (answers : List (List (Except IoErr Nat))) :
    Streams start { r.withBody payload with answers := answers } (payloads ++ [payload]) := by
  refine ⟨?_, streams.settled, streams.kept, fun mode => ?_⟩
  · have wire := streams.wire
    simp only [Response.withBody, wire, flatMap_append, flatMap_singleton, append_assoc]
    rfl
  · obtain ⟨count, within⟩ := streams.counted mode
    have room := fits mode
    have whole : (r.contentLength - r.bodySent).toNat = r.contentLength.toNat - r.bodySent.toNat :=
      UInt64.toNat_sub_of_le _ _ (UInt64.le_iff_toNat_le.mpr (by omega))
    have bound := r.contentLength.toNat_lt
    have small : payload.length.toUInt64.toNat = payload.length := by
      rw [Nat.toUInt64, UInt64.toNat_ofNat']
      omega
    simp only [Response.withBody, UInt64.toNat_add, small, flatten_append, flatten_singleton, length_append]
    omega

/-- The response is out. -/
structure Complete (start r : Response) (payloads : List (List UInt8)) : Prop where
  wire : r.wire = start.wire ++ r.headerBlock r.closeAfterResponse ++ payloads.flatMap (frame r.bodyMode) ++ r.ending
  settled : r.bodyMode ≠ .auto
  kept : start.bodyMode ≠ .auto → r.bodyMode = start.bodyMode ∧ r.contentLength = start.contentLength
  exact : r.bodyMode = .contentLength → payloads.flatten.length = r.contentLength.toNat

theorem Streams.finish {payloads : List (List UInt8)} (streams : Streams start r payloads)
    (run : finishResponse r = .ok () r') : r'.phase = .finished ∧ Complete start r' payloads := by
  obtain ⟨-, whole, answers, rfl⟩ := finishResponse_ok run
  refine ⟨rfl, ?_, streams.settled, streams.kept, fun mode => ?_⟩
  · have wire := streams.wire
    dsimp only
    rw [wire]
    rfl
  · have sent := (whole (by rw [show r.bodyMode = _ from mode]; nofun)).2 mode
    rw [← (streams.counted mode).1, sent]

theorem Progress.write {payloads : List (List UInt8)} (progress : Progress start r payloads)
    (writes : Writes payload last r r') :
    (last = false → Progress start r' (payloads ++ [payload])) ∧
      (last = true → r'.phase = .finished ∧ Complete start r' (payloads ++ [payload])) := by
  obtain ⟨-, lead, answers, leads, fits, ends⟩ := writes
  have streams : (lead.phase = .headerSent ∨ lead.phase = .bodyStreaming) ∧ Streams start lead payloads := by
    rcases progress with fresh | ⟨phase, streams⟩
    · rw [leads, if_pos fresh.phase]
      exact ⟨.inl rfl, fresh.withHeader⟩
    · rw [leads, if_neg (by rcases phase with phase | phase <;> rw [phase] <;> nofun)]
      exact ⟨phase, streams⟩
  have more := streams.2.withBody fits answers
  cases last with
  | false =>
    refine ⟨fun _ => ?_, nofun⟩
    obtain rfl : r' = _ := ends
    refine .inr ⟨?_, more⟩
    change (if payload.length > 0 then ResponsePhase.bodyStreaming else lead.phase) = _ ∨
      (if payload.length > 0 then ResponsePhase.bodyStreaming else lead.phase) = _
    split_ifs
    · exact .inr rfl
    · exact streams.1
  | true => exact ⟨nofun, fun _ => more.finish ends⟩

/-- The payload of a call, if it has one. -/
def Call.payloads : Call → List (List UInt8)
  | .writeBody buf _ => [buf]
  | .writeBodyChunk chain _ => [chain.bytes]
  | _ => []

/-- The call ends the response. -/
def Call.Last : Call → Prop
  | .writeBody _ last => last = true
  | .writeBodyChunk _ last => last = true
  | .finishResponse => True
  | _ => False

/-- The chain of a call is one that the program can have. -/
def Call.Formed : Call → Prop
  | .writeBodyChunk chain _ => chain.WellFormed
  | _ => True

theorem call_finished (formed : c.Formed) (finished : r.phase = .finished) (run : call c r = .ok () r') :
    r'.phase = .finished ∧ ¬c.Last := by
  cases c with
  | setTrailers trailers =>
    cases run
    exact ⟨finished, nofun⟩
  | sendResponseHeader =>
    have first := (sendResponseHeader_ok run).1
    rw [finished] at first
    cases first
  | writeBody buf last => exact absurd finished (writeBody_writes run).opened
  | writeBodyChunk chain last => exact absurd finished (writeBodyChunk_writes formed run).opened
  | finishResponse => exact absurd finished (finishResponse_ok run).1.2

theorem Progress.call {payloads : List (List UInt8)} (progress : Progress start r payloads) (formed : c.Formed)
    (run : call c r = .ok () r') :
    (¬c.Last → Progress start r' (payloads ++ c.payloads)) ∧
      (c.Last → r'.phase = .finished ∧ Complete start r' (payloads ++ c.payloads)) := by
  cases c with
  | setTrailers trailers =>
    cases run
    refine ⟨fun _ => ?_, nofun⟩
    simp only [Call.payloads, append_nil]
    rcases progress with ⟨phase, wire, kept, bodySent, none_yet⟩ | ⟨phase, wire, settled, kept, counted⟩
    · exact .inl ⟨phase, wire, kept, bodySent, none_yet⟩
    · exact .inr ⟨phase, wire, settled, kept, counted⟩
  | sendResponseHeader =>
    obtain ⟨first, answers, rfl⟩ := sendResponseHeader_ok run
    refine ⟨fun _ => ?_, nofun⟩
    simp only [Call.payloads, append_nil]
    rcases progress with fresh | ⟨phase, -⟩
    · obtain ⟨wire, settled, kept, counted⟩ := fresh.withHeader
      exact .inr ⟨.inl rfl, wire, settled, kept, counted⟩
    · rcases phase with phase | phase <;> rw [first] at phase <;> cases phase
  | writeBody buf last =>
    obtain ⟨goes_on, ends⟩ := progress.write (writeBody_writes run)
    exact ⟨fun more => goes_on (by simpa [Call.Last] using more), fun last => ends last⟩
  | writeBodyChunk chain last =>
    obtain ⟨goes_on, ends⟩ := progress.write (writeBodyChunk_writes formed run)
    exact ⟨fun more => goes_on (by simpa [Call.Last] using more), fun last => ends last⟩
  | finishResponse =>
    refine ⟨fun more => absurd trivial more, fun _ => ?_⟩
    simp only [Call.payloads, append_nil]
    rcases progress with fresh | ⟨-, streams⟩
    · exact absurd fresh.phase (finishResponse_ok run).1.1
    · exact streams.finish run

theorem run_progress (formed : ∀ c ∈ calls, c.Formed) {payloads : List (List UInt8)}
    (progress : Progress start r payloads ∨ r.phase = .finished) (ran : run calls r = .ok () r') :
    Progress start r' (payloads ++ calls.flatMap Call.payloads) ∨ r'.phase = .finished := by
  induction calls generalizing r payloads with
  | nil =>
    cases ran
    simpa using progress
  | cons c calls ih =>
    rw [run, bind_ok] at ran
    obtain ⟨_, between, called, ran⟩ := ran
    rw [flatMap_cons, ← append_assoc]
    refine ih (fun other member => formed other (mem_cons_of_mem _ member)) ?_ ran
    have here := formed c mem_cons_self
    rcases progress with progress | finished
    · by_cases last : c.Last
      · exact .inr ((progress.call here called).2 last).1
      · exact .inl ((progress.call here called).1 last)
    · exact .inr (call_finished here finished called).1

theorem run_append {more : List Call} (ran : run (calls ++ more) r = .ok () r') :
    ∃ between, run calls r = .ok () between ∧ run more between = .ok () r' := by
  induction calls generalizing r with
  | nil => exact ⟨r, rfl, ran⟩
  | cons c calls ih =>
    rw [cons_append, run, bind_ok] at ran
    obtain ⟨_, next, called, ran⟩ := ran
    obtain ⟨between, before, after⟩ := ih ran
    exact ⟨between, by rw [run, bind_ok]; exact ⟨_, next, called, before⟩, after⟩

theorem run_complete {last : Call} (formed : ∀ c ∈ calls ++ [last], c.Formed) (fresh : start.phase = .init)
    (unsent : start.bodySent = 0) (ends : last.Last) (ran : run (calls ++ [last]) start = .ok () r) :
    Complete start r ((calls ++ [last]).flatMap Call.payloads) := by
  obtain ⟨before, ran, called⟩ := run_append ran
  have progress :=
    run_progress (fun c member => formed c (mem_append_left _ member)) (.inl (.inl ⟨fresh, rfl, ⟨rfl, rfl⟩, unsent, rfl⟩)) ran
  rw [run, bind_ok] at called
  obtain ⟨_, after, called, nothing⟩ := called
  cases nothing
  have here := formed last (mem_append_right _ mem_cons_self)
  rcases progress with progress | finished
  · have complete := ((progress.call here called).2 ends).2
    simpa using complete
  · exact absurd ends (call_finished here finished called).2

end Response

/-- The chunks of a body, with what stands behind the line of the last chunk. -/
def decodeChunks : Nat → ChunkedBodyParser → List UInt8 → Option (List UInt8 × List UInt8)
  | 0, _, _ => none
  | fuel + 1, parser, input =>
    match parser.execute input with
    | (.ok, parser, consumed) => do
      let data := (input.drop consumed).take parser.size
      let (payload, rest) ← decodeChunks fuel (parser.consume data.length) (input.drop (consumed + data.length))
      return (data ++ payload, rest)
    | (.bodyDone, _, consumed) => some ([], input.drop consumed)
    | _ => none

/-- The fields up to the empty line, with what stands behind it. -/
def decodeFields : Nat → HeaderLineParser → IoBuf → Option (List (List UInt8 × List UInt8) × List UInt8)
  | 0, _, _ => none
  | fuel + 1, parser, buf =>
    match parser.execute buf with
    | (.ok, parser, rest) => do
      let field ← fieldOf parser.line rest.data
      let (fields, behind) ← decodeFields fuel parser rest
      return (field :: fields, behind)
    | (.headerDone, _, rest) => some ([], rest.readable)
    | _ => none

/-- A chunked body read by `ChunkedBodyParser` and then by `HeaderLineParser`: payload, fields and what is left over. -/
def decodeBody (body : List UInt8) : Option (List UInt8 × List (List UInt8 × List UInt8) × List UInt8) := do
  let (payload, rest) ← decodeChunks (body.length + 1) {} body
  let (fields, behind) ← decodeFields (rest.length + 1) {} ⟨rest, 0, rest.length, zero_le, le_rfl⟩
  return (payload, fields, behind)

variable {fuel start digit : Nat}

theorem decodeChunks_decodes {parser : ChunkedBodyParser}
    (run : Decodes parser.state parser.size input payload tail) (enough : input.length < fuel) :
    decodeChunks fuel parser input = some (payload, tail) := by
  induction fuel generalizing parser input payload with
  | zero => omega
  | succ fuel ih =>
    rw [← append_nil input] at run
    have ending := ChunkedBodyParser.execute_decodes run
    rw [decodeChunks]
    generalize parser.execute input = result at ending
    cases ending with
    | again after run => exact absurd rfl run.input_nonempty
    | ok after skipped inside inData positive _ run =>
      rw [append_nil] at run
      obtain ⟨fits, whole, rest⟩ := run.take le_rfl
      have taken : ((input.drop skipped).take after.size).length = after.size := by
        rw [length_take]
        omega
      dsimp only
      rw [taken]
      rw [drop_drop] at rest
      have more : decodeChunks fuel (after.consume after.size) (input.drop (skipped + after.size)) =
          some (payload.drop after.size, tail) := by
        refine ih ?_ ?_
        · rw [ChunkedBodyParser.consume_state, ChunkedBodyParser.consume_size, inData]
          exact rest
        · rw [length_drop]
          omega
      rw [more]
      change some (_ ++ _, tail) = _
      rw [← whole]
    | bodyDone after skipped _ _ empty behind =>
      rw [append_nil] at behind
      rw [empty, behind]

theorem decodeFields_lines {lines : List TrailerLine}     {parser : HeaderLineParser} {buf : IoBuf}
    (progress : LineProgress lines start [] (currentLine lines) buf parser)
    (input : buf.readable = currentLine lines ++ (linesBehind lines ++ behind)) (enough : lines.length < fuel) :
    decodeFields fuel parser buf = some (lines.map fun line => (line.name, fieldValue line.value), behind) := by
  induction lines generalizing fuel parser buf start with
  | nil =>
    obtain ⟨fuel, rfl⟩ := Nat.exists_eq_add_one_of_ne_zero (Nat.ne_of_gt enough)
    obtain ⟨parser', done⟩ := progress.execute_headerDone input
    rw [decodeFields, done]
    simp only [IoBuf.consume_readable, input, drop_left]
    rfl
  | cons line lines ih =>
    obtain ⟨fuel, rfl⟩ := Nat.exists_eq_add_one_of_ne_zero (Nat.ne_of_gt (Nat.zero_lt_of_lt enough))
    obtain ⟨parser', done, field, next⟩ := progress.execute_ok input
    have rest : (buf.consume (currentLine (line :: lines)).length).readable = currentLine lines ++ (linesBehind lines ++ behind) := by
      rw [IoBuf.consume_readable, input, drop_left, ← append_assoc, currentLine_append_linesBehind]
      rfl
    rw [decodeFields, done]
    dsimp only
    rw [IoBuf.consume_data, field, ih next rest (by simpa using enough)]
    rfl

theorem hexValue_append (acc : Nat) (digits more : List UInt8) :
    hexValue acc (digits ++ more) = (hexValue acc digits).bind fun value => hexValue value more := by
  induction digits generalizing acc with
  | nil => rfl
  | cons ch digits ih =>
    simp only [cons_append, hexValue]
    cases hexDigit ch with
    | none => rfl
    | some digit => exact ih _

theorem hexDigit_digitChar (small : digit < 16) : hexDigit (digitChar digit) = some digit := by
  have all : ∀ digit : Fin 16, hexDigit (digitChar digit) = some digit.val := by decide
  exact all ⟨digit, small⟩

theorem hexValue_toCharsLoop {value : Nat} (enough : value < fuel) :
    hexValue 0 (toCharsLoop 16 fuel value) = some value := by
  induction fuel generalizing value with
  | zero => omega
  | succ fuel ih =>
    rw [toCharsLoop]
    split_ifs with small
    · simp [hexValue, hexDigit_digitChar small]
    rw [hexValue_append, ih (by omega)]
    simp only [Option.bind_some, hexValue, hexDigit_digitChar (Nat.mod_lt value (by decide)), Option.some.injEq]
    omega

theorem hexValue_toChars (value : Nat) : hexValue 0 (toChars 16 value) = some value :=
  hexValue_toCharsLoop (Nat.lt_succ_self value)

theorem toChars_nonempty (value : Nat) : toChars 16 value ≠ [] := by
  rw [toChars, toCharsLoop]
  split_ifs <;> simp

/-- The chunk a payload is framed as. -/
def chunkOf (payload : List UInt8) (nonempty : payload ≠ []) (bound : payload.length ≤ kMaxSize - 5) : Chunk where
  line := ⟨toChars 16 payload.length, [], payload.length, toChars_nonempty _, hexValue_toChars _, trivial, bound⟩
  data := payload
  size_eq := rfl
  nonempty := nonempty

theorem frames_decode {payloads : List (List UInt8)} (bound : ∀ payload ∈ payloads, payload.length ≤ kMaxSize - 5)
    (tail : List UInt8) :
    Decodes .chunkStart 0 (payloads.flatMap (Response.frame .chunked) ++ (text "0" ++ crLf ++ tail)) payloads.flatten
      tail := by
  induction payloads with
  | nil =>
    have zero : (⟨text "0", [], 0, nofun, rfl, trivial, Nat.zero_le _⟩ : SizeLine).size = 0 := rfl
    exact Decodes.last zero tail
  | cons payload payloads ih =>
    have rest := ih fun other member => bound other (mem_cons_of_mem _ member)
    rw [flatMap_cons, flatten_cons, append_assoc]
    by_cases empty : payload = []
    · rw [empty]
      exact rest
    · have one := Decodes.chunk (chunkOf payload empty (bound payload mem_cons_self)) rest
      rw [Response.frame, if_pos ⟨rfl, empty⟩]
      simpa [chunkOf, Chunk.encode, SizeLine.encode, crLf] using one

/-- A field that a header line can hold: a name of visible bytes, and a value in one line with no blanks around it. -/
def FieldText (field : List UInt8 × List UInt8) : Prop :=
  (∀ ch ∈ field.1, 0x20 < ch ∧ ch ≠ 0x7f ∧ ch ≠ colon) ∧ (∀ ch ∈ field.2, ch ≠ 0 ∧ ch ≠ cr ∧ ch ≠ lf) ∧
    field.2.head? ≠ some space ∧ field.2.getLast? ≠ some space

instance (field : List UInt8 × List UInt8) : Decidable (FieldText field) := by
  unfold FieldText
  infer_instance

theorem trimRight_eq_self (unpadded : value.getLast? ≠ some space) : trimRight value = value := by
  induction value with
  | nil => rfl
  | cons ch rest ih =>
    rw [trimRight]
    cases rest with
    | nil =>
      rw [if_neg fun blank => unpadded (by simp [blank.1])]
      rfl
    | cons next rest =>
      rw [ih (by simpa using unpadded), if_neg (by simp)]

theorem fieldValue_space (front : value.head? ≠ some space) (back : value.getLast? ≠ some space) :
    fieldValue (space :: value) = value := by
  have dropped : (space :: value).dropWhile (· = space) = value := by
    rw [dropWhile_cons_of_pos (by simp)]
    cases value with
    | nil => rfl
    | cons ch rest => exact dropWhile_cons_of_neg (by simpa using front)
  rw [fieldValue, dropped, trimRight_eq_self back]

theorem lines_of_fields (plain : ∀ field ∈ fields, field.1 ≠ [] → FieldText field) :
    ∃ lines : List TrailerLine, (lines.map TrailerLine.encode).flatten = fields.flatMap encodeField ∧
      lines.map (fun line => (line.name, fieldValue line.value)) = fields.filter (·.1 ≠ []) := by
  induction fields with
  | nil => exact ⟨[], rfl, rfl⟩
  | cons field fields ih =>
    obtain ⟨lines, encoded, values⟩ := ih fun other member => plain other (mem_cons_of_mem _ member)
    by_cases unnamed : field.1 = []
    · refine ⟨lines, ?_, ?_⟩
      · rw [flatMap_cons, encodeField, if_pos unnamed, encoded]
        rfl
      · rw [values, filter_cons_of_neg (by simp [unnamed])]
    obtain ⟨visible, oneLine, front, back⟩ := plain field mem_cons_self unnamed
    have oneLine' : ∀ ch ∈ space :: field.2, ch ≠ 0 ∧ ch ≠ cr ∧ ch ≠ lf := by
      intro ch member
      rcases mem_cons.mp member with rfl | member
      · decide
      · exact oneLine ch member
    refine ⟨⟨field.1, space :: field.2, unnamed, visible, oneLine'⟩ :: lines, ?_, ?_⟩
    · rw [flatMap_cons, encodeField, if_neg unnamed, ← encoded, map_cons, flatten_cons]
      have separator : text ": " = [colon, space] := by decide
      simp [TrailerLine.encode, crLf, separator]
    · rw [map_cons, values, fieldValue_space front back, filter_cons_of_pos (by simp [unnamed])]

theorem lines_length_le (lines : List TrailerLine) : lines.length ≤ ((lines.map TrailerLine.encode).flatten).length := by
  induction lines with
  | nil => exact le_rfl
  | cons line lines ih =>
    simp only [length_cons, map_cons, flatten_cons, length_append, TrailerLine.encode]
    omega

theorem decodeBody_framed {payloads : List (List UInt8)}
    (bound : ∀ payload ∈ payloads, payload.length ≤ kMaxSize - 5)
    (plain : ∀ field ∈ fields, field.1 ≠ [] → FieldText field) :
    decodeBody (payloads.flatMap (Response.frame .chunked) ++ (text "0" ++ crLf ++ (fields.flatMap encodeField ++ crLf))) =
      some (payloads.flatten, fields.filter (·.1 ≠ []), []) := by
  obtain ⟨lines, encoded, values⟩ := lines_of_fields plain
  have start : Decodes ({} : ChunkedBodyParser).state ({} : ChunkedBodyParser).size
      (payloads.flatMap (Response.frame .chunked) ++ (text "0" ++ crLf ++ (fields.flatMap encodeField ++ crLf)))
      payloads.flatten (fields.flatMap encodeField ++ crLf) := frames_decode bound _
  rw [decodeBody, decodeChunks_decodes start (Nat.lt_succ_self _), ← encoded]
  have input : (lines.map TrailerLine.encode).flatten ++ crLf = currentLine lines ++ (linesBehind lines ++ []) := by
    rw [append_nil, currentLine_append_linesBehind]
    rfl
  have begins : LineProgress lines 0 [] (currentLine lines)
      ⟨(lines.map TrailerLine.encode).flatten ++ crLf, 0, _, Nat.zero_le _, le_rfl⟩ {} :=
    ⟨rfl, by cases lines <;> simp [currentLine, TrailerLine.encode], rfl, rfl, {}, rfl⟩
  have enough : lines.length < ((lines.map TrailerLine.encode).flatten ++ crLf).length + 1 := by
    have := lines_length_le lines
    rw [length_append]
    omega
  simp only [Option.bind_eq_bind, Option.bind_some]
  rw [decodeFields_lines begins input enough, values]
  rfl

namespace Response

/-- A response written to its end by calls that all succeed. -/
theorem run_roundTrip (start r : Response) (calls : List Call) (last : Call) (fresh : start.phase = .init)
    (unsent : start.bodySent = 0) (formed : ∀ c ∈ calls ++ [last], c.Formed) (ends : last.Last)
    (ran : run (calls ++ [last]) start = .ok () r)
    (bound : ∀ payload ∈ (calls ++ [last]).flatMap Call.payloads, payload.length ≤ kMaxSize - 5)
    (plain : ∀ field ∈ r.trailers, field.1 ≠ [] → FieldText field) :
    (start.bodyMode ≠ .auto → r.bodyMode = start.bodyMode ∧ r.contentLength = start.contentLength) ∧
    r.bodyMode ≠ .auto ∧ ∃ body, r.wire = start.wire ++ r.headerBlock r.closeAfterResponse ++ body ∧
      (r.bodyMode = .chunked → decodeBody body =
        some (((calls ++ [last]).flatMap Call.payloads).flatten, r.trailers.filter (·.1 ≠ []), [])) ∧
      (r.bodyMode = .contentLength →
        body = ((calls ++ [last]).flatMap Call.payloads).flatten ∧ body.length = r.contentLength.toNat) := by
  obtain ⟨wire, settled, kept, exact⟩ := run_complete formed fresh unsent ends ran
  refine ⟨kept, settled, ((calls ++ [last]).flatMap Call.payloads).flatMap (frame r.bodyMode) ++ r.ending, ?_, ?_, ?_⟩
  · rw [wire, append_assoc]
  · intro mode
    rw [ending, if_pos mode, mode]
    exact decodeBody_framed bound plain
  · intro mode
    rw [ending, if_neg (by rw [mode]; nofun), append_nil, mode, frames_plain]
    exact ⟨rfl, exact mode⟩

/-- A transport that takes all it is given. -/
def willing : List (List (Except IoErr Nat)) := List.replicate 16 [.ok 4096]

/-- A chunked response in four calls. -/
def digestCalls : List Call :=
  [.writeBody (text "he") false, .writeBody [] false,
    .writeBodyChunk ⟨[filledView 4 (text "llo")], 1, 3, 1⟩ false, .setTrailers [(text "digest", text "sha-256=xyz")]]

def digestResponse : Response := { bodyMode := .chunked, answers := willing }

/-- The response behind its last call. -/
def digestSent : Response :=
  match run (digestCalls ++ [.finishResponse]) digestResponse with
  | .ok _ r => r
  | .error _ r => r

theorem digestResponse_roundTrip : run (digestCalls ++ [.finishResponse]) digestResponse = .ok () digestSent ∧
    ∃ body, digestSent.wire = digestSent.headerBlock digestSent.closeAfterResponse ++ body ∧
      decodeBody body = some (text "hello", [(text "digest", text "sha-256=xyz")], []) := by
  have succeeds : (run (digestCalls ++ [.finishResponse]) digestResponse matches .ok _ _) = true := by decide +kernel
  have ran : run (digestCalls ++ [.finishResponse]) digestResponse = .ok () digestSent := by
    unfold digestSent
    cases eq : run (digestCalls ++ [.finishResponse]) digestResponse with
    | ok _ r => rfl
    | error _ r =>
      rw [eq] at succeeds
      cases succeeds
  have formed : ∀ c ∈ digestCalls ++ [.finishResponse], c.Formed := by
    simp only [digestCalls, cons_append, nil_append, forall_mem_cons]
    exact ⟨trivial, trivial, ⟨rfl, rfl, rfl⟩, trivial, trivial, nofun⟩
  obtain ⟨-, -, body, wire, decoded, -⟩ := run_roundTrip digestResponse digestSent digestCalls .finishResponse rfl rfl formed
    trivial ran (by decide +kernel) (by decide +kernel)
  have mode : digestSent.bodyMode = .chunked := by decide +kernel
  have payload : ((digestCalls ++ [Call.finishResponse]).flatMap Call.payloads).flatten = text "hello" := by decide +kernel
  have fields : digestSent.trailers.filter (·.1 ≠ []) = [(text "digest", text "sha-256=xyz")] := by decide +kernel
  rw [payload, fields] at decoded
  rw [show digestResponse.wire = [] from rfl, nil_append] at wire
  exact ⟨ran, body, wire, decoded mode⟩

/-- A trailer value with a line end in it comes out as two trailers. -/
theorem trailer_splits : ∃ r body,
    run [.writeBody (text "h") true] { bodyMode := .chunked, trailers := [(text "x", text "a\r\ny: b")], answers := willing } =
      .ok () r ∧ r.wire = r.headerBlock r.closeAfterResponse ++ body ∧ r.trailers = [(text "x", text "a\r\ny: b")] ∧
    decodeBody body = some (text "h", [(text "x", text "a"), (text "y", text "b")], []) ∧
    decodeBody body ≠ some (text "h", r.trailers.filter (·.1 ≠ []), []) := by
  refine ⟨_, text "1\r\nh\r\n0\r\nx: a\r\ny: b\r\n\r\n", rfl, ?_, ?_, ?_, ?_⟩
  · decide +kernel
  · decide +kernel
  · decide +kernel
  · decide +kernel

end Response

end FiberGateway.Http1
