import FiberGateway.Http1.ParseConservation

namespace FiberGateway.Http1

open List

theorem ChunkedBodyParser.scan_consumed {state state' : ChunkState} {size size' start stop : Nat} {rc : ParseCode}
    {bytes : List UInt8} (run : scan state size start bytes = .data rc state' size' stop) :
    stop ≤ start + bytes.length ∧ rc ≠ .done := by
  induction bytes generalizing state size start with
  | nil =>
    cases run
    exact ⟨le_rfl, by simp⟩
  | cons ch rest ih =>
    simp only [scan] at run
    split at run
    · obtain ⟨inside, code⟩ := ih run
      exact ⟨by rw [length_cons]; omega, code⟩
    · rename_i move
      cases run
      refine ⟨by rw [length_cons]; split <;> omega, ?_⟩
      rintro rfl
      cases state <;> simp only [step] at move
      all_goals
        repeat' split at move
        all_goals simp_all
    · cases run

theorem ChunkedBodyParser.execute_consumed (parser : ChunkedBodyParser) (bytes : List UInt8) :
    (parser.execute bytes).2.2 ≤ bytes.length ∧ (parser.execute bytes).1 ≠ .done := by
  unfold execute
  split
  · exact ⟨Nat.zero_le _, by simp⟩
  rename_i run
  obtain ⟨inside, code⟩ := scan_consumed run
  rw [Nat.zero_add] at inside
  split
  · exact ⟨inside, by simp⟩
  · exact ⟨inside, code⟩

namespace Exchange

/-- Everything received and still to come, in order; `unread` is what a parse buffer holds. -/
def stream (x : Exchange) (unread : List UInt8) : List UInt8 := x.consumed ++ unread ++ x.input

def ChunkedOpen (x : Exchange) : Prop := x.bodyParser.type = .chunked ∧ x.bodyParser.done = false

/-- One state of a chunked body leads to another with the same bytes. -/
structure Carries (x : Exchange) (unread : List UInt8) (x' : Exchange) (unread' : List UInt8) : Prop where
  stream_eq : x'.stream unread' = x.stream unread
  nonempty : [] ∉ x.inbound → [] ∉ x'.inbound
  opened : x.ChunkedOpen → x'.ChunkedOpen

variable {x : Exchange} {chain : IoBufChain}

variable {x' x'' : Exchange} {front unread unread' unread'' out : List UInt8}

theorem Carries.trans (first : Carries x unread x' unread')
    (second : Carries x' unread' x'' unread'') : Carries x unread x'' unread'' :=
  ⟨second.stream_eq.trans first.stream_eq, fun nonempty => second.nonempty (first.nonempty nonempty),
    fun opened => second.opened (first.opened opened)⟩

theorem Carries.refl (x : Exchange) (unread : List UInt8) : Carries x unread x unread := ⟨rfl, id, id⟩

theorem dropEmptyFront_nonempty (nonempty : [] ∉ chain) : [] ∉ IoBufChain.dropEmptyFront chain := by
  cases chain with
  | nil => exact nonempty
  | cons node rest =>
    cases node with
    | nil => simp at nonempty
    | cons byte bytes => exact nonempty

theorem consumeAndCompact_nonempty (nonempty : [] ∉ chain) (n : Nat) : [] ∉ IoBufChain.consumeAndCompact n chain := by
  fun_induction IoBufChain.consumeAndCompact n chain with
  | case1 => exact nonempty
  | case2 => exact nonempty
  | case3 n node rest positive inside => exact nonempty_drop nonempty inside
  | case4 n node rest positive outside ih => exact ih (fun member => nonempty (mem_cons_of_mem _ member))

theorem takeChain_nonempty (nonempty : [] ∉ chain) (len : Nat) : [] ∉ (takeChain chain len).2.1 := by
  fun_induction takeChain chain len with
  | case1 => exact nonempty
  | case2 => exact nonempty
  | case3 node rest len positive inside => exact nonempty_drop nonempty inside
  | case4 node rest len positive outside bytes chain missing eq ih =>
    simp only [eq] at ih
    exact ih (fun member => nonempty (mem_cons_of_mem _ member))

theorem compactInbound_carries (x : Exchange) (unread : List UInt8) : Carries x unread x.compactInbound unread :=
  ⟨by simp only [stream, compactInbound_input]; rfl, dropEmptyFront_nonempty, id⟩

theorem readMore_carries (x : Exchange) (maxBytes : Nat) (unread : List UInt8) :
    Carries x unread (x.readMore maxBytes).2 unread := by
  refine ⟨?_, ?_, ?_⟩
  · simp only [stream, readMore_input]
    simp only [readMore]
    split <;> rfl
  · simp only [readMore]
    split <;> exact id
  · simp only [ChunkedOpen, readMore_bodyParser]
    exact id

theorem consumeFront_carries (found : x.frontBodyInput = some front) {n : Nat} (inside : n ≤ front.length) :
    Carries x [] (x.consumeFront n) [] := by
  obtain ⟨rest, split_eq, consumed_eq⟩ := frontBodyInput_eq_some found
  have logged : (x.consumeFront n).consumed = x.consumed ++ front.take n := by
    unfold frontBodyInput at found
    unfold consumeFront
    split at found
    · rename_i inbound_eq
      cases found
      simp only [inbound_eq]
    · rename_i inbound_eq
      split at found
      · cases found
      · cases found
        simp only [inbound_eq]
  refine ⟨?_, fun nonempty => ?_, fun opened => ?_⟩
  · simp only [stream, input_eq, logged, consumed_eq n inside, split_eq, consumeFront_transport, append_nil]
    rw [append_assoc, append_assoc (front.drop n), ← append_assoc (front.take n),
      take_append_drop, ← append_assoc]
    simp
  · unfold consumeFront
    split
    · exact nonempty
    rename_i inbound_eq
    rw [inbound_eq] at nonempty
    exact consumeAndCompact_nonempty nonempty n
  · simpa only [ChunkedOpen, consumeFront_bodyParser] using opened

theorem parseFront_carries (opened : x.ChunkedOpen) (found : x.frontBodyInput = some front) :
    Carries x [] (x.parseFront front).2.1 [] := by
  obtain ⟨inside, code⟩ := x.bodyParser.chunkedParser.execute_consumed front
  simp only [parseFront, BodyParser.execute_chunked opened.1 opened.2]
  generalize x.bodyParser.chunkedParser.execute front = result at inside code
  obtain ⟨code', parser, n⟩ := result
  simp only at inside code
  have parsed : Carries x [] { x with bodyParser := { x.bodyParser with
      chunkedParser := parser, done := decide (code' = .done) } } [] :=
    ⟨rfl, id, fun opened => ⟨opened.1, by simpa using code⟩⟩
  exact parsed.trans (consumeFront_carries (x := { x with bodyParser := { x.bodyParser with
    chunkedParser := parser, done := decide (code' = .done) } }) found inside)

theorem advanceChunkedBody_carries (maxBytes fuel : Nat) (allowRead : Bool) (opened : x.ChunkedOpen) :
    Carries x [] (advanceChunkedBody maxBytes fuel x allowRead).2 [] := by
  induction fuel generalizing x allowRead with
  | zero => exact .refl x []
  | succ fuel ih =>
    have compacted := compactInbound_carries x []
    unfold advanceChunkedBody
    simp only
    split
    · split
      · have read := readMore_carries x.compactInbound maxBytes []
        generalize x.compactInbound.readMore maxBytes = result at read
        obtain ⟨n, y⟩ := result
        cases n with
        | zero => exact compacted.trans read
        | succ n => exact (compacted.trans read).trans (ih _ (read.opened (compacted.opened opened)))
      · exact compacted
    · rename_i front found
      have parsed := parseFront_carries (compacted.opened opened) found
      generalize x.compactInbound.parseFront front = result at parsed
      obtain ⟨code, y, n⟩ := result
      simp only at parsed ⊢
      split
      · split
        · exact compacted.trans parsed
        · exact (compacted.trans parsed).trans (ih _ (parsed.opened (compacted.opened opened)))
      · split <;> exact compacted.trans parsed

theorem takePrefix_carries (x : Exchange) (len : Nat) : Carries x [] (x.takePrefix len).2 [] := by
  obtain ⟨taken, behind, missing⟩ := takeChain_eq x.inbound len
  have kept := fun (nonempty : [] ∉ x.inbound) => takeChain_nonempty nonempty len
  unfold takePrefix
  generalize takeChain x.inbound len = result at taken behind missing kept
  obtain ⟨bytes, chain, missing'⟩ := result
  simp only at taken behind missing kept ⊢
  have moved : Carries x [] { x with
      inbound := chain, readBuf := x.readBuf.drop missing',
      consumed := x.consumed ++ (bytes ++ x.readBuf.take missing') } [] := by
    refine ⟨?_, kept, id⟩
    have data_eq : bytes ++ x.readBuf.take missing' = x.buffered.take len := by
      rw [taken, missing, buffered, take_append]
    have rest_eq : chain.flatten ++ x.readBuf.drop missing' = x.buffered.drop len := by
      rw [behind, missing, buffered, drop_append]
    simp only [stream, input, data_eq, rest_eq, append_nil]
    rw [append_assoc x.consumed, ← append_assoc (x.buffered.take len), take_append_drop]
    rfl
  split <;> exact moved

theorem awaitBodyInput_carries (x : Exchange) (limit : Nat) : Carries x [] (x.awaitBodyInput limit).2 [] := by
  unfold awaitBodyInput
  split
  · split
    · exact .refl x []
    · have read := readMore_carries x limit []
      generalize x.readMore limit = result at read
      obtain ⟨n, y⟩ := result
      cases n <;> exact read
  · exact .refl x []

theorem consume_opened (opened : x.ChunkedOpen) (n : Nat) :
    (x.bodyParser.consume n).type = .chunked ∧ (x.bodyParser.consume n).done = false := by
  rw [BodyParser.consume_chunked opened.1]
  exact opened

theorem takeBody_carries (budget : Nat) : Carries x [] (x.takeBody budget).2 [] := by
  unfold takeBody
  simp only
  have taken := takePrefix_carries x (min budget (min x.bodyParser.remaining x.bodyInputReadable))
  generalize x.takePrefix (min budget (min x.bodyParser.remaining x.bodyInputReadable)) = result at taken
  obtain ⟨outcome, y⟩ := result
  cases outcome with
  | error fault => exact taken
  | ok data => exact taken.trans ⟨rfl, id, fun opened => consume_opened opened _⟩

theorem takeData_carries {budget : Nat} (opened : x.ChunkedOpen)
    {again : Exchange → Nat → List UInt8 → Except Fault BodyStep × Exchange}
    (continues : ∀ (y : Exchange) (budget' : Nat) (out' : List UInt8), y.ChunkedOpen → Carries y [] (again y budget' out').2 []) :
    Carries x [] (takeData again x budget out).2 [] := by
  unfold takeData
  have awaited := awaitBodyInput_carries x (min budget x.bodyParser.remaining)
  generalize x.awaitBodyInput (min budget x.bodyParser.remaining) = result at awaited
  obtain ⟨outcome, y⟩ := result
  match outcome with
  | .error fault => exact awaited
  | .ok false => exact awaited
  | .ok true =>
    have taken := takeBody_carries (x := y) budget
    simp only
    generalize y.takeBody budget = result at taken
    obtain ⟨outcome, z⟩ := result
    cases outcome with
    | error fault => exact awaited.trans taken
    | ok data =>
      simp only
      split
      · exact awaited.trans taken
      · exact (awaited.trans taken).trans (continues _ _ _ (taken.opened (awaited.opened opened)))

theorem readChunked_carries (fuel : Nat) (budget : Nat) (out : List UInt8) (opened : x.ChunkedOpen) :
    Carries x [] (readChunked fuel x budget out).2 [] := by
  induction fuel generalizing x budget out with
  | zero => exact .refl x []
  | succ fuel ih =>
    unfold readChunked
    split
    · have advanced := advanceChunkedBody_carries budget x.advanceFuel (!x.readCallUsedIo) opened
      generalize (advanceChunkedBody budget x.advanceFuel x !x.readCallUsedIo) = result at advanced
      obtain ⟨outcome, y⟩ := result
      simp only at advanced ⊢
      split
      · cases ‹(_, y) = _›; exact advanced
      · cases ‹(_, y) = _›; exact advanced
      · cases ‹(_, y) = _›; exact advanced
      · cases ‹(_, y) = _›
        exact advanced.trans (takeData_carries (advanced.opened opened) (fun y budget' out' => ih budget' out'))
    · exact takeData_carries opened (fun y budget' out' => ih budget' out')

theorem Carries.drop (x : Exchange) (buf : IoBuf) : Carries x buf.readable (x.dropParseBuf buf) [] := by
  refine ⟨?_, id, id⟩
  simp only [stream, dropParseBuf, append_nil]
  rfl

theorem Carries.log (x : Exchange) (buf : IoBuf) (n : Nat) :
    Carries x buf.readable (x.logParsed buf (buf.consume n)) (buf.consume n).readable := by
  refine ⟨?_, id, id⟩
  simp only [stream, logParsed_input]
  rw [logParsed, append_assoc x.consumed, IoBuf.take_consume_append]

/-- A filled parse buffer holds the next bytes; an error leaves everything where it was. -/
theorem fillParseBuf_carries (x : Exchange) (buf : IoBuf) :
    match x.fillParseBuf buf with
    | (.ok filled, x') => Carries x buf.readable x' filled.readable
    | (.error _, x') => Carries x buf.readable x' buf.readable := by
  obtain ⟨count, buffered_eq, transport_eq, refilled⟩ := drainBodyInput_refilled x buf
  have kept : [] ∉ x.inbound → [] ∉ (x.drainBodyInput buf).2.1.inbound :=
    fun nonempty => takeChain_nonempty nonempty buf.writable
  have opened : x.ChunkedOpen → (x.drainBodyInput buf).2.1.ChunkedOpen := id
  unfold fillParseBuf
  generalize x.drainBodyInput buf = drain at count buffered_eq transport_eq refilled kept opened
  obtain ⟨n, y, buf'⟩ := drain
  simp only at count buffered_eq transport_eq refilled kept opened
  subst count
  have drained : Carries x buf.readable y buf'.readable := by
    refine ⟨?_, kept, opened⟩
    rw [stream, stream, refilled.filled, IoBuf.fill_readable refilled.fits, refilled.input_eq,
      refilled.consumed_eq]
    simp
  cases bytes_eq : x.buffered.take buf.writable with
  | nil =>
    have same : buf' = buf := by
      rw [refilled.filled, bytes_eq]
      simp [IoBuf.fill]
    subst same
    simp only [length_nil]
    have read_fits := y.transport.read_length_le buf'.writable
    have read_bytes := y.transport.read_bytes buf'.writable
    generalize y.transport.read buf'.writable = read at read_fits read_bytes
    obtain ⟨bytes, transport⟩ := read
    cases bytes with
    | nil => exact drained
    | cons byte bytes =>
      simp only at read_fits read_bytes ⊢
      refine drained.trans ⟨?_, id, id⟩
      have room : 0 < buf'.writable := lt_of_lt_of_le (by simp) read_fits
      have empty : x.buffered = [] := by
        have := congrArg List.length bytes_eq
        simp only [length_take, length_nil] at this
        exact length_eq_zero_iff.mp (by omega)
      have after_empty : y.inbound.flatten ++ y.readBuf = [] := by
        rw [show y.inbound.flatten ++ y.readBuf = y.buffered from rfl, buffered_eq, empty, drop_nil]
      rw [IoBuf.fill_readable read_fits]
      simp [stream, input, after_empty, ← read_bytes]
  | cons byte bytes =>
    simp only [length_cons]
    exact drained

/-- Parsing trailers keeps the bytes: with the buffer it yields, or with nothing unread if it fails. -/
def Keeps (x : Exchange) (unread : List UInt8) : Except Fault IoBuf × Exchange → Prop
  | (.ok rest, x') => Carries x unread x' rest.readable
  | (.error _, x') => Carries x unread x' []

theorem Carries.keeps {result : Except Fault IoBuf × Exchange} (first : Carries x unread x' unread')
    (second : x'.Keeps unread' result) : x.Keeps unread result := by
  obtain ⟨outcome, x''⟩ := result
  cases outcome with
  | error fault => exact first.trans second
  | ok rest => exact first.trans second

theorem readTrailerLines_keeps (fuel : Nat) (x : Exchange) (buf : IoBuf) (growthCount : Nat)
    (parser : HeaderLineParser) : x.Keeps buf.readable (readTrailerLines fuel x buf growthCount parser) := by
  induction fuel generalizing x buf growthCount parser with
  | zero => exact .drop x buf
  | succ fuel ih =>
    obtain ⟨n, consumed⟩ := HeaderLineParser.lineParser.consumes parser buf
    have all := HeaderLineParser.lineParser.again_all parser buf
    unfold readTrailerLines
    generalize parser.execute buf = result at consumed all
    obtain ⟨code, parser', rest⟩ := result
    simp only at consumed all
    subst consumed
    have logged := Carries.log x buf n
    simp only
    split
    · refine logged.keeps ?_
      have parsedAll := all rfl
      split
      · exact .drop _ _
      rename_i room growthCount' parser'' room_eq
      have same : (buf.consume n).readable = room.readable := by
        rw [parsedAll, HeaderLineParser.lineParser.ensureRoom_readable parsedAll room_eq]
      rw [same]
      have filled := fillParseBuf_carries (x.logParsed buf (buf.consume n)) room
      generalize (x.logParsed buf (buf.consume n)).fillParseBuf room = fill at filled
      obtain ⟨result, y⟩ := fill
      cases result with
      | error fault => exact filled.trans (.drop y room)
      | ok buf' => exact Carries.keeps filled (ih _ _ _ _)
    · split
      · exact logged.trans (.drop _ _)
      · split
        · exact logged.trans (.drop _ _)
        · rename_i trailers _
          have stored : Carries (x.logParsed buf (buf.consume n)) (buf.consume n).readable
              { x.logParsed buf (buf.consume n) with trailers := trailers } (buf.consume n).readable :=
            ⟨rfl, id, id⟩
          exact (logged.trans stored).keeps (ih _ _ _ _)
    · exact logged
    · exact logged.trans (.drop _ _)

theorem parseTrailers_keeps (x : Exchange) : x.Keeps [] x.parseTrailers := by
  unfold parseTrailers
  cases allocated : IoBuf.allocate x.options.headerInitSize with
  | none => exact .refl x []
  | some buf =>
    have unread : buf.readable = [] := by
      rw [IoBuf.readable, (IoBuf.allocate_eq_some allocated).1, drop_nil]
    have lines := readTrailerLines_keeps x.trailerFuel x buf 0 {}
    rwa [unread] at lines

/-- Between calls, the exchange's own buffer holds nothing that the next request would need. -/
structure Settled (x : Exchange) : Prop where
  nonempty : [] ∉ x.inbound
  done_of_none : x.bodyParser.type = .none → x.bodyParser.done = true
  empty_of_done : x.bodyParser.done = true → x.readBuf = []
  bounded : x.bodyParser.type = .contentLength →
    x.readBuf = [] ∨ x.inbound = [] ∧ x.readBuf.length ≤ x.bodyParser.remainingLength

theorem Settled.of_chunkedOpen (nonempty : [] ∉ x.inbound) (opened : x.ChunkedOpen) : x.Settled :=
  ⟨nonempty, by simp [opened.1], by simp [opened.2], by simp [opened.1]⟩

/-- A body with a length that is not complete yet. -/
structure CountedOpen (x : Exchange) : Prop where
  nonempty : [] ∉ x.inbound
  counted : x.bodyParser.type = .contentLength
  opened : x.bodyParser.done = false
  bounded : x.readBuf = [] ∨ x.inbound = [] ∧ x.readBuf.length ≤ x.bodyParser.remainingLength

section

variable (counted : x.CountedOpen)

include counted

theorem CountedOpen.settled : x.Settled :=
  ⟨counted.nonempty, by simp [counted.counted], by simp [counted.opened], fun _ => counted.bounded⟩

theorem CountedOpen.await (maxBytes : Nat) :
    (x.awaitBodyInput (min maxBytes x.bodyParser.remaining)).2.CountedOpen := by
  have remaining_eq : x.bodyParser.remaining = x.bodyParser.remainingLength := by
    simp [BodyParser.remaining, counted.counted]
  unfold awaitBodyInput
  rw [bodyInputReadable_eq]
  split
  · rename_i unread
    split
    · exact counted
    have empty := append_eq_nil_iff.mp (length_eq_zero_iff.mp unread)
    have inbound_nil : x.inbound = [] := by
      cases inbound_eq : x.inbound with
      | nil => rfl
      | cons node rest =>
        rw [inbound_eq] at empty
        simp only [flatten_cons, append_eq_nil_iff] at empty
        exact absurd (by rw [inbound_eq, empty.1.1]; simp) counted.nonempty
    have read : (x.readMore (min maxBytes x.bodyParser.remaining)).2.CountedOpen := by
      have fits := x.transport.read_length_le
        (min (min maxBytes x.bodyParser.remaining) kMaxDirectBodyRead)
      simp only [readMore]
      split
      · exact counted
      refine ⟨counted.nonempty, counted.counted, counted.opened, .inr ⟨inbound_nil, ?_⟩⟩
      simp only [empty.2, nil_append]
      omega
    generalize x.readMore (min maxBytes x.bodyParser.remaining) = result at read
    obtain ⟨n, y⟩ := result
    cases n <;> exact read
  · exact counted

theorem CountedOpen.take (maxBytes : Nat) : (x.takeBody maxBytes).2.Settled := by
  have carried := takePrefix_carries x (min maxBytes (min x.bodyParser.remaining x.bodyInputReadable))
  have remaining_eq : x.bodyParser.remaining = x.bodyParser.remainingLength := by
    simp [BodyParser.remaining, counted.counted]
  unfold takeBody
  rw [bodyInputReadable_eq] at carried ⊢
  generalize take_eq : min maxBytes (min x.bodyParser.remaining x.buffered.length) = take at carried
  have fits : take ≤ x.buffered.length := by omega
  have shape : (x.takePrefix take).2.bodyParser = x.bodyParser ∧
      ((x.takePrefix take).2.readBuf = [] ∨ (x.takePrefix take).2.inbound = [] ∧
        (x.takePrefix take).2.readBuf.length ≤ x.bodyParser.remainingLength - take) := by
    obtain ⟨chain, readBuf, behind, run⟩ := takePrefix_eq fits
    refine ⟨by rw [run], ?_⟩
    rcases counted.bounded with none_read | ⟨no_inbound, small⟩
    · left
      simp only [takePrefix, none_read]
      split <;> simp
    · right
      simp only [takePrefix, no_inbound, takeChain]
      split
      · simp only [length_drop]
        exact ⟨trivial, by omega⟩
      · simp only [length_drop]
        exact ⟨trivial, by omega⟩
  have kept := carried.nonempty counted.nonempty
  simp only
  generalize x.takePrefix take = result at shape kept
  obtain ⟨outcome, y⟩ := result
  simp only at shape kept ⊢
  obtain ⟨parser_eq, bounded⟩ := shape
  cases outcome with
  | error fault =>
    refine ⟨kept, by simp [parser_eq, counted.counted], by simp [parser_eq, counted.opened], fun _ => ?_⟩
    rw [parser_eq]
    rcases bounded with empty | ⟨no_inbound, small⟩
    · exact .inl empty
    · exact .inr ⟨no_inbound, small.trans (Nat.sub_le _ _)⟩
  | ok data =>
    simp only [parser_eq, BodyParser.consume, counted.counted]
    split
    · rename_i all
      have empty : y.readBuf = [] := by
        rcases bounded with empty | ⟨-, small⟩
        · exact empty
        · exact length_eq_zero_iff.mp (by omega)
      exact ⟨kept, by simp, fun _ => empty, fun _ => .inl empty⟩
    · refine ⟨kept, by simp, by simp [counted.opened], fun _ => ?_⟩
      rcases bounded with empty | ⟨no_inbound, small⟩
      · exact .inl empty
      · exact .inr ⟨no_inbound, small⟩

theorem CountedOpen.readContentLength (maxBytes : Nat) :
    (x.readContentLength maxBytes).2.stream [] = x.stream [] ∧ (x.readContentLength maxBytes).2.Settled := by
  have awaited := awaitBodyInput_carries x (min maxBytes x.bodyParser.remaining)
  have counted' := counted.await maxBytes
  unfold Exchange.readContentLength
  generalize x.awaitBodyInput (min maxBytes x.bodyParser.remaining) = result at awaited counted'
  obtain ⟨outcome, y⟩ := result
  cases outcome with
  | error fault => exact ⟨awaited.stream_eq, counted'.settled⟩
  | ok ready =>
    have taken := takeBody_carries (x := y) maxBytes
    have settled := counted'.take maxBytes
    simp only at awaited ⊢
    generalize y.takeBody maxBytes = result at taken settled
    obtain ⟨outcome, z⟩ := result
    cases outcome with
    | error fault => exact ⟨taken.stream_eq.trans awaited.stream_eq, settled⟩
    | ok data =>
      simp only
      split
      · exact ⟨taken.stream_eq.trans awaited.stream_eq,
          settled.nonempty, settled.done_of_none, settled.empty_of_done, settled.bounded⟩
      · exact ⟨taken.stream_eq.trans awaited.stream_eq, settled⟩

end

/-- What a body read does to the bytes, up to where it would hand some of them back. -/
def StepKeeps (x : Exchange) : ReadStep × Exchange → Prop
  | (.finished _, x') => x'.stream [] = x.stream [] ∧ x'.Settled
  | (.trailersDone parseBuf _, x') =>
    x'.stream parseBuf.readable = x.stream [] ∧ [] ∉ x'.inbound ∧ x'.ChunkedOpen

theorem Settled.readBodyStep (settled : x.Settled) (maxBytes : Nat) : x.StepKeeps (x.readBodyStep maxBytes) := by
  unfold Exchange.readBodyStep
  split
  · exact ⟨rfl, settled.nonempty, settled.done_of_none, settled.empty_of_done, settled.bounded⟩
  rename_i notDone
  split
  · exact ⟨rfl, settled⟩
  simp only
  split
  · rename_i chunked
    have opened : ({ x with readCallUsedIo := false } : Exchange).ChunkedOpen := ⟨chunked, by simpa using notDone⟩
    have read := readChunked_carries ({ x with readCallUsedIo := false } : Exchange).readFuel maxBytes []
      opened
    generalize readChunked ({ x with readCallUsedIo := false } : Exchange).readFuel
      ({ x with readCallUsedIo := false } : Exchange) maxBytes [] = result at read
    obtain ⟨outcome, y⟩ := result
    have kept := read.nonempty settled.nonempty
    have opened' := read.opened opened
    match outcome with
    | .error fault => exact ⟨read.stream_eq, .of_chunkedOpen kept opened'⟩
    | .ok (.chunk out) => exact ⟨read.stream_eq, .of_chunkedOpen kept opened'⟩
    | .ok (.trailers data) =>
      have trailers := parseTrailers_keeps y
      simp only
      generalize y.parseTrailers = result at trailers
      obtain ⟨outcome, z⟩ := result
      cases outcome with
      | error fault =>
        exact ⟨trailers.stream_eq.trans read.stream_eq,
          .of_chunkedOpen (trailers.nonempty kept) (trailers.opened opened')⟩
      | ok rest =>
        exact ⟨trailers.stream_eq.trans read.stream_eq, trailers.nonempty kept, trailers.opened opened'⟩
  · rename_i notChunked
    have counted : ({ x with readCallUsedIo := false } : Exchange).CountedOpen := by
      have type_eq : x.bodyParser.type = .contentLength := by
        cases type_eq : x.bodyParser.type with
        | none => exact absurd (settled.done_of_none type_eq) notDone
        | contentLength => rfl
        | chunked => exact absurd type_eq notChunked
      exact ⟨settled.nonempty, type_eq, by simpa using notDone, settled.bounded type_eq⟩
    have read := counted.readContentLength maxBytes
    generalize ({ x with readCallUsedIo := false } : Exchange).readContentLength maxBytes = result at read
    exact read

end Exchange

/-- Where a connection can be: between requests, at the two places where unread bytes of a parse
buffer are about to be handed back, in a handler that may read the body, or past a request that
could not be parsed. -/
inductive Phase
  | idle (c : Connection)
  | headDone (c : Connection) (parseBuf : IoBuf) (request : Request)
  | handling (x : Exchange)
  | trailersDone (x : Exchange) (parseBuf : IoBuf)
  | closed (c : Connection)

namespace Phase

/-- One step of `Http1Connection::run`. The handler reads the body as it likes, with any budgets, and
so does `discard_body` after it; the next request follows only behind a complete body. -/
inductive Step : Phase → Phase → Prop
  | parse {c c' : Connection} {parseBuf : IoBuf} {request : Request} :
      c.parseHead = (.ok (parseBuf, request), c') → Step (.idle c) (.headDone c' parseBuf request)
  | stop {c c' : Connection} {stop : Stop} : c.parseHead = (.error stop, c') → Step (.idle c) (.closed c')
  | handBackHead {c : Connection} {parseBuf : IoBuf} {request : Request} :
      Step (.headDone c parseBuf request) (.handling ((c.handBackHead parseBuf).openExchange request))
  | read {x x' : Exchange} {maxBytes : Nat} {result : Except Fault BodyChunk} :
      x.readBodyStep maxBytes = (.finished result, x') → Step (.handling x) (.handling x')
  | readTrailers {x x' : Exchange} {maxBytes : Nat} {parseBuf : IoBuf} {data : List UInt8} :
      x.readBodyStep maxBytes = (.trailersDone parseBuf data, x') →
      Step (.handling x) (.trailersDone x' parseBuf)
  | handBackTrailers {x : Exchange} {parseBuf : IoBuf} :
      Step (.trailersDone x parseBuf) (.handling (x.handBackTrailers parseBuf))
  | next {x : Exchange} : x.bodyParser.done = true → Step (.handling x) (.idle x.connection)

/-- The bytes consumed so far, what a parse buffer holds, `inbound_bufs_`, `read_buf_` and what the
transport has not delivered yet, in this order. -/
def stream : Phase → List UInt8
  | .idle c => c.stream []
  | .headDone c parseBuf _ => c.stream parseBuf.readable
  | .handling x => x.stream []
  | .trailersDone x parseBuf => x.stream parseBuf.readable
  | .closed c => c.stream []

/-- What is about to be handed back keeps its place when it is put behind `inbound_bufs_`: one of the
two is empty, or they read the same in either order. -/
def HandsBackInOrder : Phase → Prop
  | .headDone c parseBuf _ =>
    parseBuf.readable ++ c.inbound.flatten = c.inbound.flatten ++ parseBuf.readable
  | .trailersDone x parseBuf =>
    parseBuf.readable ++ x.inbound.flatten = x.inbound.flatten ++ parseBuf.readable
  | _ => True

/-- Phases reached from a new connection by steps that all hand back in order. -/
inductive Reach (options : HttpServerOptions) (transport : Transport) : Phase → Prop
  | start : Reach options transport (.idle ⟨options, transport, [], []⟩)
  | step {phase phase' : Phase} : Reach options transport phase → phase.HandsBackInOrder → Step phase phase' →
      Reach options transport phase'

/-- What the steps rely on besides the order of the bytes. -/
def Sound : Phase → Prop
  | .idle c => [] ∉ c.inbound
  | .headDone c _ _ => [] ∉ c.inbound
  | .handling x => x.Settled
  | .trailersDone x _ => [] ∉ x.inbound ∧ x.ChunkedOpen
  | .closed _ => True

end Phase

theorem Connection.handBackHead_inbound (c : Connection) (parseBuf : IoBuf) (nonempty : [] ∉ c.inbound) :
    [] ∉ (c.handBackHead parseBuf).inbound ∧
      (c.handBackHead parseBuf).inbound.flatten = c.inbound.flatten ++ parseBuf.readable := by
  unfold handBackHead
  split
  · rename_i empty
    exact ⟨nonempty, by rw [empty, append_nil]⟩
  · rename_i unread
    refine ⟨?_, by simp⟩
    simp only [mem_append, mem_singleton, not_or]
    exact ⟨nonempty, fun empty => unread empty.symm⟩

theorem Exchange.handBackTrailers_input (x : Exchange) (parseBuf : IoBuf) (nonempty : [] ∉ x.inbound) :
    [] ∉ (x.handBackTrailers parseBuf).inbound ∧ (x.handBackTrailers parseBuf).readBuf = [] ∧
      (x.handBackTrailers parseBuf).input =
        x.inbound.flatten ++ parseBuf.readable ++ x.readBuf ++ x.transport.bytes := by
  unfold handBackTrailers spillReadBufToInbound input
  by_cases unread : parseBuf.readable = [] <;> by_cases spilled : x.readBuf = []
  all_goals simp [unread, spilled, nonempty, Ne.symm]

/-- Putting bytes behind others instead of in front of them changes nothing exactly if they commute. -/
theorem stream_swap_iff (consumed behind : List UInt8) {unread queued : List UInt8} :
    consumed ++ (queued ++ unread ++ behind) = consumed ++ unread ++ (queued ++ behind) ↔
      unread ++ queued = queued ++ unread := by
  rw [append_assoc consumed, append_cancel_left_eq, ← append_assoc unread,
    append_cancel_right_eq]
  exact eq_comm

variable {phase phase' : Phase}

theorem Phase.Step.keeps (step : Step phase phase') (sound : phase.Sound) :
    phase'.Sound ∧ (phase'.stream = phase.stream ↔ phase.HandsBackInOrder) := by
  cases step with
  | @parse c c' parseBuf request run =>
    have kept := Connection.parseHead_keeps sound
    rw [run] at kept
    exact ⟨kept.nonempty sound, iff_of_true kept.stream_eq trivial⟩
  | @stop c c' stop run =>
    have kept := Connection.parseHead_keeps sound
    rw [run] at kept
    exact ⟨trivial, iff_of_true kept.stream_eq trivial⟩
  | @handBackHead c parseBuf request =>
    obtain ⟨nonempty, inbound_eq⟩ := c.handBackHead_inbound parseBuf sound
    have options_eq : (c.handBackHead parseBuf).consumed = c.consumed ∧
        (c.handBackHead parseBuf).transport = c.transport := by
      unfold Connection.handBackHead
      split <;> exact ⟨rfl, rfl⟩
    refine ⟨⟨nonempty, ?_, fun _ => rfl, fun _ => .inl rfl⟩, ?_⟩
    · simp only [Connection.openExchange]
      split
      · simp [BodyParser.setChunked]
      split
      · simp [BodyParser.setNone]
      · simp [BodyParser.setContentLength]
    · rw [HandsBackInOrder, ← stream_swap_iff c.consumed c.transport.bytes]
      simp [stream, Exchange.stream, Exchange.input, Connection.openExchange, inbound_eq, options_eq.1, options_eq.2, Connection.stream]
  | @read x x' maxBytes result run =>
    have kept := Exchange.Settled.readBodyStep sound maxBytes
    rw [run] at kept
    exact ⟨kept.2, iff_of_true kept.1 trivial⟩
  | @readTrailers x x' maxBytes parseBuf data run =>
    have kept := Exchange.Settled.readBodyStep sound maxBytes
    rw [run] at kept
    exact ⟨kept.2, iff_of_true kept.1 trivial⟩
  | @handBackTrailers x parseBuf =>
    obtain ⟨nonempty, spilled, input_eq⟩ := x.handBackTrailers_input parseBuf sound.1
    have parser_eq : (x.handBackTrailers parseBuf).bodyParser = x.bodyParser.finishChunkedTrailers ∧
        (x.handBackTrailers parseBuf).consumed = x.consumed := by
      unfold Exchange.handBackTrailers Exchange.spillReadBufToInbound
      by_cases unread : parseBuf.readable = [] <;> by_cases spill : x.readBuf = [] <;> simp [unread, spill]
    refine ⟨⟨nonempty, ?_, fun _ => spilled, fun _ => .inl spilled⟩, ?_⟩
    · rw [parser_eq.1, BodyParser.finishChunkedTrailers, if_pos sound.2.1]
      exact fun _ => rfl
    · rw [HandsBackInOrder, ← stream_swap_iff x.consumed (x.readBuf ++ x.transport.bytes)]
      have before_eq : x.input = x.inbound.flatten ++ x.readBuf ++ x.transport.bytes := rfl
      simp [stream, Exchange.stream, input_eq, before_eq, parser_eq.2]
  | @next x done =>
    have empty := sound.empty_of_done done
    refine ⟨sound.nonempty, iff_of_true ?_ trivial⟩
    simp [stream, Connection.stream, Exchange.connection, Exchange.stream, Exchange.input, empty]

theorem Phase.Reach.conserved {options : HttpServerOptions} {transport : Transport}
    (reach : Reach options transport phase) : phase.Sound ∧ phase.stream = transport.bytes := by
  induction reach with
  | start => exact ⟨by simp [Sound], by simp [stream, Connection.stream]⟩
  | step before inOrder move ih =>
    obtain ⟨sound, kept⟩ := move.keeps ih.1
    exact ⟨sound, (kept.mpr inOrder).trans ih.2⟩

/-- As long as the connection hands bytes back in order it conserves them, in every phase of every
run; and the first hand-back that is not in order breaks the stream. -/
theorem Phase.stream_conserved {options : HttpServerOptions} {transport : Transport} {phase : Phase}
    (reach : Reach options transport phase) :
    phase.stream = transport.bytes ∧
      ∀ phase', Step phase phase' → (phase'.stream = transport.bytes ↔ phase.HandsBackInOrder) := by
  obtain ⟨sound, conserved⟩ := reach.conserved
  exact ⟨conserved, fun phase' move => conserved ▸ (move.keeps sound).2⟩

/-- What `parseHead` yields for a connection on which it succeeds. -/
def Connection.head (c : Connection) (parsed : c.parseHead.1.toOption.isSome) : IoBuf × Request :=
  c.parseHead.1.toOption.get parsed

theorem Connection.parseHead_eq_head (c : Connection) (parsed : c.parseHead.1.toOption.isSome) :
    c.parseHead = (.ok ((c.head parsed).1, (c.head parsed).2), c.parseHead.2) := by
  unfold head
  generalize c.parseHead = result at parsed
  obtain ⟨outcome, c'⟩ := result
  cases outcome with
  | error stop => simp [Except.toOption] at parsed
  | ok value => rfl

/-- Parse buffers of 24 bytes, and of 88 after one growth. -/
def smallBuffers : HttpServerOptions := { headerInitSize := 24, headerLargeSize := 64 }

/-- Three pipelined requests; the first does not fit in the initial parse buffer. -/
def pipelined : Transport where
  reads := [("GET /aaaaaaaaaaaa HTTP/1.1\r\n\r\nGET / HTTP/1.1\r\n\r\nGET / HTTP/1.1\r\n\r\n").toList.map byte]
  nonempty := by decide

def pipelinedStart : Connection := ⟨smallBuffers, pipelined, [], []⟩

theorem pipelinedStart_parsed : pipelinedStart.parseHead.1.toOption.isSome := by decide +kernel

/-- The exchange of the first request. -/
def firstExchange : Exchange :=
  (pipelinedStart.parseHead.2.handBackHead (pipelinedStart.head pipelinedStart_parsed).1).openExchange
    (pipelinedStart.head pipelinedStart_parsed).2

theorem secondRequest_parsed : firstExchange.connection.parseHead.1.toOption.isSome := by decide +kernel

/-- Behind the second request: six bytes of the third are in the parse buffer, the others in front of
them in `inbound_bufs_`. -/
def secondHead : Phase :=
  .headDone firstExchange.connection.parseHead.2 (firstExchange.connection.head secondRequest_parsed).1
    (firstExchange.connection.head secondRequest_parsed).2

theorem secondHead_reach : Phase.Reach smallBuffers pipelined secondHead := by
  have parsed : Phase.Reach smallBuffers pipelined (.headDone _ _ _) :=
    .step .start trivial (.parse (pipelinedStart.parseHead_eq_head pipelinedStart_parsed))
  have handled : Phase.Reach smallBuffers pipelined (.handling firstExchange) :=
    .step parsed (by unfold Phase.HandsBackInOrder; decide +kernel) .handBackHead
  have next : Phase.Reach smallBuffers pipelined (.idle firstExchange.connection) :=
    .step handled trivial (.next (by decide +kernel))
  exact .step next trivial (.parse (firstExchange.connection.parseHead_eq_head secondRequest_parsed))

/-- Handing the six bytes back puts `GET / ` behind `HTTP/1.1` and the line ends. -/
theorem secondHead_reordered : ∃ phase, Phase.Reach smallBuffers pipelined secondHead ∧
    Phase.Step secondHead phase ∧ phase.stream ≠ pipelined.bytes :=
  ⟨_, secondHead_reach, .handBackHead, by decide +kernel⟩

/-- Up to that hand-back nothing is out of place. -/
theorem secondHead_conserved : secondHead.stream = pipelined.bytes :=
  (Phase.stream_conserved secondHead_reach).1

end FiberGateway.Http1
