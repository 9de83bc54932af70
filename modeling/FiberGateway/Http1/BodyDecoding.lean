import FiberGateway.Http1.ChunkedBody
import FiberGateway.Http1.ExchangeIo

namespace FiberGateway.Http1

open List

namespace ChunkedBodyParser

variable {state : ChunkState} {size : Nat} {rest tail input payload : List UInt8}

variable {size' start skipped : Nat} {ch : UInt8} {parser : ChunkedBodyParser}

/-- Line ends lead to the data of a chunk with a size other than zero only. -/
theorem step_chunkData (outside : state ≠ .chunkData) (coherent : Coherent state size)
    (move : step state size ch = .next .chunkData size') : size' ≠ 0 := by
  cases state <;> simp only [step, Coherent, reduceCtorEq, not_false_eq_true, ne_eq] at *
  all_goals
    repeat' split at move
    all_goals simp_all

inductive ScanEnd (input payload tail : List UInt8) (start : Nat) (rest : List UInt8) : Scan → Prop
  | again (state : ChunkState) (size : Nat) : Decodes state size rest payload tail →
      ScanEnd input payload tail start rest (.data .again state size (start + input.length))
  | ok (size skipped : Nat) : skipped < input.length → size ≠ 0 →
      Decodes .chunkData size (input.drop skipped ++ rest) payload tail →
      ScanEnd input payload tail start rest (.data .ok .chunkData size (start + skipped))
  | bodyDone (skipped : Nat) : 0 < skipped → skipped ≤ input.length → payload = [] →
      tail = input.drop skipped ++ rest →
      ScanEnd input payload tail start rest (.data .bodyDone .trailer 0 (start + skipped))

theorem scanEnd_cons {result : Scan} (ending : ScanEnd input payload tail (start + 1) rest result) :
    ScanEnd (ch :: input) payload tail start rest result := by
  cases ending with
  | again state size run =>
    rw [Nat.add_right_comm, Nat.add_assoc, ← length_cons]
    exact .again state size run
  | ok size skipped inside positive run =>
    rw [Nat.add_assoc, Nat.add_comm 1]
    exact .ok size (skipped + 1) (by simpa using inside) positive (by simpa using run)
  | bodyDone skipped positive inside empty behind =>
    rw [Nat.add_assoc, Nat.add_comm 1]
    exact .bodyDone (skipped + 1) (Nat.succ_pos _) (by simpa using inside) empty (by simpa using behind)

theorem scan_decodes (start : Nat) (run : Decodes state size (input ++ rest) payload tail)
    (filled : state = .chunkData → size ≠ 0) :
    ScanEnd input payload tail start rest (scan state size start input) := by
  induction input generalizing state size start with
  | nil => exact .again state size run
  | cons ch input ih =>
    cases run with
    | data run bound => exact .ok _ 0 (by simp) (by simp) (.data run bound)
    | dataEnd => exact absurd rfl (filled rfl)
    | next outside coherent bound move run =>
      rw [scan, move]
      refine scanEnd_cons (ih _ run ?_)
      rintro rfl
      exact step_chunkData outside coherent move
    | finish outside coherent move =>
      rw [scan, move]
      exact .bodyDone 1 (Nat.succ_pos _) (by simp) rfl (by simp)

theorem resume_decodes (run : Decodes parser.state parser.size input payload tail) :
    Decodes parser.resumeState parser.size input payload tail ∧
      (parser.resumeState = .chunkData → parser.size ≠ 0) := by
  obtain ⟨state, size, length⟩ := parser
  by_cases atEnd : state = .chunkData ∧ size = 0
  · obtain ⟨rfl, rfl⟩ := atEnd
    cases run with
    | dataEnd run => exact ⟨run, by simp [resumeState]⟩
    | next outside | finish outside => exact absurd rfl outside
  · simp only [resumeState, if_neg atEnd]
    exact ⟨run, fun inData zero => atEnd ⟨inData, zero⟩⟩

/-- What `execute` can do with the next buffer of a valid body. -/
inductive ExecuteEnd (parser : ChunkedBodyParser) (input rest payload tail : List UInt8) :
    ParseCode × ChunkedBodyParser × Nat → Prop
  | again (after : ChunkedBodyParser) : Decodes after.state after.size rest payload tail →
      ExecuteEnd parser input rest payload tail (.again, after, input.length)
  | ok (after : ChunkedBodyParser) (skipped : Nat) : skipped < input.length → after.state = .chunkData →
      after.size ≠ 0 → (parser.size = 0 → 0 < skipped) →
      Decodes .chunkData after.size (input.drop skipped ++ rest) payload tail →
      ExecuteEnd parser input rest payload tail (.ok, after, skipped)
  | bodyDone (after : ChunkedBodyParser) (skipped : Nat) : 0 < skipped → skipped ≤ input.length →
      payload = [] → tail = input.drop skipped ++ rest →
      ExecuteEnd parser input rest payload tail (.bodyDone, after, skipped)

theorem scan_ok_positive (outside : state ≠ .chunkData)
    (run : scan state size 0 input = .data .ok .chunkData size' skipped) : 0 < skipped := by
  have advanced : ∀ (bytes : List UInt8) (state : ChunkState) (size start : Nat) (rc : ParseCode)
      (state' : ChunkState) (size' stop : Nat),
      scan state size start bytes = .data rc state' size' stop → start ≤ stop := by
    intro bytes
    induction bytes with
    | nil => intro state size start rc state' size' stop run; simp only [scan] at run; cases run; omega
    | cons ch bytes ih =>
      intro state size start rc state' size' stop run
      simp only [scan] at run
      split at run
      · have := ih _ _ _ _ _ _ _ run; omega
      · cases run; split <;> omega
      · cases run
  cases input with
  | nil => simp [scan] at run
  | cons ch input =>
    simp only [scan] at run
    split at run
    · have := advanced _ _ _ _ _ _ _ _ run; omega
    · rename_i move
      cases run
      cases state <;> simp only [step, ne_eq, not_true_eq_false] at move outside
      all_goals
        repeat' split at move
        all_goals simp_all
    · cases run

theorem execute_decodes (run : Decodes parser.state parser.size (input ++ rest) payload tail) :
    ExecuteEnd parser input rest payload tail (parser.execute input) := by
  obtain ⟨resumed, filled⟩ := resume_decodes run
  have ending := scan_decodes 0 resumed filled
  unfold execute
  generalize result_eq : scan parser.resumeState parser.size 0 input = result at ending
  cases ending with
  | again state size after =>
    have bound := after.size_le
    simp only [Nat.zero_add, if_neg (Nat.not_lt.mpr bound)]
    exact .again _ after
  | ok size skipped inside positive after =>
    have bound := after.size_le
    simp only [Nat.zero_add, if_neg (Nat.not_lt.mpr bound)] at result_eq ⊢
    refine .ok _ skipped inside rfl positive (fun zero => ?_) after
    exact scan_ok_positive (fun inData => filled inData zero) result_eq
  | bodyDone skipped positive inside empty behind =>
    simp only [Nat.zero_add, Nat.not_lt_zero, if_false, gt_iff_lt]
    exact .bodyDone _ skipped positive inside empty behind

end ChunkedBodyParser

@[simp] theorem ChunkedBodyParser.consume_size (parser : ChunkedBodyParser) (n : Nat) :
    (parser.consume n).size = parser.size - n := by
  unfold consume
  split <;> simp only
  omega

@[simp] theorem ChunkedBodyParser.consume_state (parser : ChunkedBodyParser) (n : Nat) :
    (parser.consume n).state = parser.state := by
  unfold consume
  split <;> rfl

variable {parser : BodyParser}

theorem BodyParser.consume_chunked (chunked : parser.type = .chunked) (n : Nat) :
    parser.consume n = { parser with chunkedParser := parser.chunkedParser.consume n } := by
  simp [consume, chunked]

theorem BodyParser.remaining_chunked (chunked : parser.type = .chunked) :
    parser.remaining = parser.chunkedParser.size := by
  simp [remaining, chunked]

theorem BodyParser.execute_chunked (chunked : parser.type = .chunked) (opened : parser.done = false)
    (bytes : List UInt8) :
    parser.execute bytes =
      ((parser.chunkedParser.execute bytes).1,
        { parser with
          chunkedParser := (parser.chunkedParser.execute bytes).2.1
          done := (parser.chunkedParser.execute bytes).1 = .done },
        (parser.chunkedParser.execute bytes).2.2) := by
  unfold execute
  split <;> simp_all

theorem takeChain_eq (chain : IoBufChain) (len : Nat) :
    (takeChain chain len).1 = chain.flatten.take len ∧
      (takeChain chain len).2.1.flatten = chain.flatten.drop len ∧
      (takeChain chain len).2.2 = len - chain.flatten.length := by
  fun_induction takeChain chain len with
  | case1 len => simp
  | case2 node rest => simp
  | case3 node rest len positive inside =>
    simp only [flatten_cons, take_append_of_le_length inside.le,
      drop_append_of_le_length inside.le, length_append, true_and]
    omega
  | case4 node rest len positive outside bytes chain missing eq ih =>
    simp only [eq] at ih
    obtain ⟨rfl, behind, rfl⟩ := ih
    have long : node.length ≤ len := by omega
    simp only [flatten_cons, take_append, take_of_length_le long, drop_append,
      drop_of_length_le long, nil_append, behind, length_append, true_and]
    omega

namespace Exchange

/-- The input that needs no further read. -/
def buffered (x : Exchange) : List UInt8 := x.inbound.flatten ++ x.readBuf

theorem input_eq (x : Exchange) : x.input = x.buffered ++ x.transport.bytes := rfl

theorem bodyInputReadable_eq (x : Exchange) : x.bodyInputReadable = x.buffered.length := by
  simp [bodyInputReadable, buffered]

@[simp] theorem compactInbound_buffered (x : Exchange) : x.compactInbound.buffered = x.buffered := by
  simp [compactInbound, buffered]

@[simp] theorem compactInbound_input (x : Exchange) : x.compactInbound.input = x.input := by
  simp [compactInbound, input]

variable {x : Exchange} {tail front payload : List UInt8} {maxBytes len limit : Nat} {options : HttpServerOptions}

theorem frontBodyInput_eq_some (found : x.frontBodyInput = some front) :
    ∃ rest, x.buffered = front ++ rest ∧
      ∀ n, n ≤ front.length → (x.consumeFront n).buffered = front.drop n ++ rest := by
  unfold frontBodyInput at found
  split at found
  · rename_i first nodes inbound_eq
    cases found
    refine ⟨nodes.flatten ++ x.readBuf, by simp [buffered, inbound_eq], fun n inside => ?_⟩
    simp [buffered, consumeFront, inbound_eq, IoBufChain.consumeAndCompact_flatten, flatten_cons, drop_append_of_le_length inside, append_assoc]
  · rename_i inbound_eq
    split at found
    · cases found
    cases found
    refine ⟨[], by simp [buffered, inbound_eq], fun n inside => ?_⟩
    simp [buffered, consumeFront, inbound_eq]

theorem frontBodyInput_eq_none (found : x.frontBodyInput = none) : x.buffered = [] := by
  unfold frontBodyInput at found
  split at found
  · cases found
  rename_i inbound_eq
  split at found
  · rename_i empty
    simp [buffered, inbound_eq, empty]
  · cases found

theorem frontBodyInput_nonempty (found : x.compactInbound.frontBodyInput = some front) : front ≠ [] := by
  rcases IoBufChain.dropEmptyFront_cases x.inbound with ⟨empty, _⟩ | ⟨byte, bytes, rest, shape⟩
  · simp only [frontBodyInput, compactInbound, empty] at found
    split at found
    · cases found
    · cases found; assumption
  · simp only [frontBodyInput, compactInbound, shape, Option.some.injEq] at found
    exact found ▸ cons_ne_nil _ _

@[simp] theorem consumeFront_options (x : Exchange) (n : Nat) : (x.consumeFront n).options = x.options := by
  unfold consumeFront; split <;> rfl

@[simp] theorem consumeFront_bodyParser (x : Exchange) (n : Nat) :
    (x.consumeFront n).bodyParser = x.bodyParser := by
  unfold consumeFront; split <;> rfl

@[simp] theorem consumeFront_transport (x : Exchange) (n : Nat) :
    (x.consumeFront n).transport = x.transport := by
  unfold consumeFront; split <;> rfl

@[simp] theorem readMore_options (x : Exchange) (maxBytes : Nat) :
    (x.readMore maxBytes).2.options = x.options := by
  simp only [readMore]; split <;> rfl

@[simp] theorem readMore_bodyParser (x : Exchange) (maxBytes : Nat) :
    (x.readMore maxBytes).2.bodyParser = x.bodyParser := by
  simp only [readMore]; split <;> rfl

@[simp] theorem readMore_input (x : Exchange) (maxBytes : Nat) :
    (x.readMore maxBytes).2.input = x.input := by
  simp only [readMore]
  split
  · rfl
  · simp [input, Transport.read_bytes]

theorem readMore_positive (room : 0 < maxBytes) (more : x.transport.bytes ≠ []) :
    ∃ n, (x.readMore maxBytes).1 = n + 1 ∧ (x.readMore maxBytes).2.buffered ≠ [] := by
  have positive : 0 < min maxBytes kMaxDirectBodyRead := by
    simp only [kMaxDirectBodyRead]
    omega
  have some_read : (x.transport.read (min maxBytes kMaxDirectBodyRead)).1 ≠ [] :=
    fun empty => more (Transport.read_eq_nil positive empty)
  refine ⟨(x.transport.read (min maxBytes kMaxDirectBodyRead)).1.length - 1, ?_, ?_⟩
  · have length_pos := length_pos_iff.mpr some_read
    simp only [readMore, if_neg positive.ne']
    omega
  · simp only [readMore, if_neg positive.ne', buffered, ne_eq, append_eq_nil_iff, some_read, and_false,
      not_false_eq_true]

/-- The exchange is inside a chunked body that still holds the payload and ends in front of the tail. -/
structure Awaits (options : HttpServerOptions) (payload tail : List UInt8) (x : Exchange) : Prop where
  options_eq : x.options = options
  chunked : x.bodyParser.type = .chunked
  opened : x.bodyParser.done = false
  decodes : Decodes x.bodyParser.chunkedParser.state x.bodyParser.chunkedParser.size x.input payload tail

section

variable (waits : x.Awaits options payload tail)

include waits

theorem Awaits.compactInbound : x.compactInbound.Awaits options payload tail :=
  ⟨waits.options_eq, waits.chunked, waits.opened, by rw [compactInbound_input]; exact waits.decodes⟩

theorem Awaits.readMore (maxBytes : Nat) : (x.readMore maxBytes).2.Awaits options payload tail :=
  ⟨by simpa using waits.options_eq, by simpa using waits.chunked, by simpa using waits.opened,
    by simpa using waits.decodes⟩

/-- With nothing buffered, a read brings in the next part of the body. -/
theorem Awaits.readMore_positive (empty : x.buffered = [])
    (room : 0 < maxBytes) : ∃ n, (x.readMore maxBytes).1 = n + 1 ∧ (x.readMore maxBytes).2.buffered ≠ [] := by
  have nonempty := waits.decodes.input_nonempty
  rw [input_eq, empty, nil_append] at nonempty
  exact Exchange.readMore_positive room nonempty

end

/-- The chunks are behind the exchange, and the trailer section is in front of it. -/
structure AtTrailers (options : HttpServerOptions) (tail : List UInt8) (x : Exchange) : Prop where
  options_eq : x.options = options
  chunked : x.bodyParser.type = .chunked
  input_eq : x.input = tail

inductive AdvanceEnd (options : HttpServerOptions) (payload tail : List UInt8) (x : Exchange)
    (allowRead : Bool) : Except Fault ParseCode × Exchange → Prop
  | again (after : Exchange) : after.Awaits options payload tail →
      after.input.length ≤ x.input.length →
      (allowRead = true ∨ x.buffered ≠ [] → after.input.length < x.input.length) →
      AdvanceEnd options payload tail x allowRead (.ok .again, after)
  | ok (after : Exchange) : after.Awaits options payload tail → after.buffered ≠ [] →
      after.bodyParser.chunkedParser.state = .chunkData → after.bodyParser.chunkedParser.size ≠ 0 →
      after.input.length ≤ x.input.length →
      (x.bodyParser.chunkedParser.size = 0 → after.input.length < x.input.length) →
      AdvanceEnd options payload tail x allowRead (.ok .ok, after)
  | bodyDone (after : Exchange) : after.AtTrailers options tail → payload = [] →
      AdvanceEnd options payload tail x allowRead (.ok .bodyDone, after)

variable {between : Exchange} {allowRead allowRead' : Bool} {result : Except Fault ParseCode × Exchange}

theorem AdvanceEnd.behind (shorter : between.input.length < x.input.length)
    (ending : AdvanceEnd options payload tail between allowRead result) :
    AdvanceEnd options payload tail x allowRead' result := by
  cases ending with
  | again after waits le lt => exact .again after waits (by omega) (fun _ => by omega)
  | ok after waits ready state size le lt => exact .ok after waits ready state size (by omega) (fun _ => by omega)
  | bodyDone after waits empty => exact .bodyDone after waits empty

theorem AdvanceEnd.of_read (same : between.input = x.input) (ready : between.buffered ≠ [])
    (parser : between.bodyParser = x.bodyParser) (ending : AdvanceEnd options payload tail between false result) :
    AdvanceEnd options payload tail x allowRead result := by
  cases ending with
  | again after waits le lt =>
    rw [same] at le lt
    exact .again after waits le (fun _ => lt (.inr ready))
  | ok after waits ready state size le lt =>
    rw [same] at le lt
    rw [parser] at lt
    exact .ok after waits ready state size le lt
  | bodyDone after waits empty => exact .bodyDone after waits empty

inductive ParseEnd (options : HttpServerOptions) (payload tail : List UInt8) (x : Exchange) :
    ParseCode × Exchange × Nat → Prop
  | again (after : Exchange) (n : Nat) : after.Awaits options payload tail → 0 < n →
      after.input.length < x.input.length → ParseEnd options payload tail x (.again, after, n)
  | ok (after : Exchange) (n : Nat) : after.Awaits options payload tail → after.buffered ≠ [] →
      after.bodyParser.chunkedParser.state = .chunkData → after.bodyParser.chunkedParser.size ≠ 0 →
      after.input.length ≤ x.input.length →
      (x.bodyParser.chunkedParser.size = 0 → after.input.length < x.input.length) →
      ParseEnd options payload tail x (.ok, after, n)
  | bodyDone (after : Exchange) (n : Nat) : after.AtTrailers options tail → payload = [] →
      ParseEnd options payload tail x (.bodyDone, after, n)

theorem parseFront_decodes (waits : x.Awaits options payload tail) (found : x.frontBodyInput = some front)
    (nonempty : front ≠ []) : ParseEnd options payload tail x (x.parseFront front) := by
  obtain ⟨rest, split_eq, consumed_eq⟩ := frontBodyInput_eq_some found
  have input_split : x.input = front ++ (rest ++ x.transport.bytes) := by
    rw [input_eq, split_eq, append_assoc]
  have after_input : ∀ (parser : BodyParser) (n : Nat), n ≤ front.length →
      (({ x with bodyParser := parser } : Exchange).consumeFront n).buffered = front.drop n ++ rest ∧
      (({ x with bodyParser := parser } : Exchange).consumeFront n).input =
        front.drop n ++ (rest ++ x.transport.bytes) := by
    intro parser n inside
    have same : (({ x with bodyParser := parser } : Exchange).consumeFront n).buffered =
        (x.consumeFront n).buffered := by
      simp only [consumeFront, buffered]; split <;> rfl
    refine ⟨same.trans (consumed_eq n inside), ?_⟩
    rw [input_eq, consumeFront_transport, same, consumed_eq n inside, append_assoc]
  have shorter : ∀ n, 0 < n → n ≤ front.length →
      (front.drop n ++ (rest ++ x.transport.bytes)).length < x.input.length := by
    rw [input_split]
    simp only [length_append, length_drop]
    omega
  have ending := ChunkedBodyParser.execute_decodes (input_split ▸ waits.decodes)
  simp only [parseFront, BodyParser.execute_chunked waits.chunked waits.opened]
  generalize x.bodyParser.chunkedParser.execute front = result at ending
  cases ending with
  | again after run =>
    have positive := length_pos_iff.mpr nonempty
    obtain ⟨-, input_after⟩ := after_input { x.bodyParser with chunkedParser := after, done := false } _ le_rfl
    refine .again _ _ ⟨by simp [waits.options_eq], by simp [waits.chunked], by simp, ?_⟩ positive ?_
    · simpa [input_after] using run
    · simpa [input_after] using shorter _ positive le_rfl
  | ok after skipped inside state size positive run =>
    obtain ⟨buffered_after, input_after⟩ :=
      after_input { x.bodyParser with chunkedParser := after, done := false } _ inside.le
    refine .ok _ _ ⟨by simp [waits.options_eq], by simp [waits.chunked], by simp, ?_⟩ ?_ (by simpa using state)
      (by simpa using size) ?_ (fun zero => ?_)
    · simpa [input_after, state] using run
    · simp [buffered_after, inside]
    · rw [show decide (ParseCode.ok = ParseCode.done) = false from rfl, input_after, input_split]
      simp
    · simpa [input_after] using shorter _ (positive zero) inside.le
  | bodyDone after skipped positive inside empty behind =>
    obtain ⟨-, input_after⟩ :=
      after_input { x.bodyParser with chunkedParser := after, done := false } _ inside
    exact .bodyDone _ _ ⟨by simp [waits.options_eq], by simp [waits.chunked], by simpa [behind] using input_after⟩
      empty

/-- On a valid body the parser comes to the end of the input, to chunk data or to the trailers. -/
theorem advanceChunkedBody_decodes (room : 0 < maxBytes) (fuel : Nat) (allowRead : Bool)
    (waits : x.Awaits options payload tail) (enough : x.input.length + (if allowRead then 1 else 0) + 1 < fuel) :
    AdvanceEnd options payload tail x allowRead (advanceChunkedBody maxBytes fuel x allowRead) := by
  induction fuel generalizing x allowRead with
  | zero => omega
  | succ fuel ih =>
    unfold advanceChunkedBody
    simp only
    cases found : x.compactInbound.frontBodyInput with
    | none =>
      have empty := frontBodyInput_eq_none found
      cases allowRead with
      | false =>
        refine .again _ waits.compactInbound (by simp) ?_
        rintro (never | ready)
        · cases never
        · exact absurd (by simpa using empty) ready
      | true =>
        obtain ⟨n, count, ready⟩ := waits.compactInbound.readMore_positive empty room
        have waits' := waits.compactInbound.readMore maxBytes
        have same := readMore_input x.compactInbound maxBytes
        have parser := readMore_bodyParser x.compactInbound maxBytes
        generalize x.compactInbound.readMore maxBytes = read at count ready waits' same parser
        obtain ⟨_, y⟩ := read
        subst count
        simp only [if_true] at enough ⊢
        simp only [compactInbound_input] at same
        refine .of_read same ready parser (ih _ waits' ?_)
        simp only [same, Bool.false_eq_true, if_false]
        omega
    | some front =>
      have ending := parseFront_decodes waits.compactInbound found (frontBodyInput_nonempty found)
      generalize result_eq : x.compactInbound.parseFront front = result at ending
      cases ending with
      | again after n waits' positive shorter =>
        simp only [compactInbound_input] at shorter
        simp only [result_eq, if_true, if_neg positive.ne']
        refine .behind shorter (ih _ waits' ?_)
        split at enough <;> simp_all <;> omega
      | ok after n waits' ready state size le lt =>
        simp only [compactInbound_input] at le lt
        simp only [result_eq, reduceCtorEq, if_false, true_or, if_true]
        exact .ok after waits' ready state size le lt
      | bodyDone after n trailers empty =>
        simp only [result_eq, reduceCtorEq, if_false, or_true, if_true]
        exact .bodyDone after trailers empty

theorem takePrefix_eq (fits : len ≤ x.buffered.length) :
    ∃ chain readBuf, chain.flatten ++ readBuf = x.buffered.drop len ∧
      x.takePrefix len = (.ok (x.buffered.take len), { x with
        inbound := chain, readBuf := readBuf, consumed := x.consumed ++ x.buffered.take len }) := by
  obtain ⟨taken, behind, missing⟩ := takeChain_eq x.inbound len
  simp only [buffered, length_append] at fits
  have data_eq : (takeChain x.inbound len).1 ++ x.readBuf.take (takeChain x.inbound len).2.2 =
      x.buffered.take len := by
    rw [taken, missing, buffered, take_append]
  refine ⟨(takeChain x.inbound len).2.1, x.readBuf.drop (takeChain x.inbound len).2.2, ?_, ?_⟩
  · rw [behind, missing, buffered, drop_append]
  · simp only [takePrefix, data_eq]
    rw [if_neg (by rw [missing]; omega)]

theorem awaitBodyInput_waits (waits : x.Awaits options payload tail) (room : 0 < limit) :
    (x.awaitBodyInput limit = (.ok false, x) ∧ x.readCallUsedIo = true) ∨
      ∃ y, x.awaitBodyInput limit = (.ok true, y) ∧ y.Awaits options payload tail ∧ y.buffered ≠ [] ∧
        y.input = x.input ∧ y.bodyParser = x.bodyParser := by
  unfold awaitBodyInput
  simp only [bodyInputReadable_eq, length_eq_zero_iff]
  split
  · rename_i empty
    split
    · rename_i used
      exact .inl ⟨rfl, used⟩
    obtain ⟨n, count, ready⟩ := waits.readMore_positive empty room
    have waits' := waits.readMore limit
    have same := readMore_input x limit
    have parser := readMore_bodyParser x limit
    generalize read_eq : x.readMore limit = read at count ready waits' same parser
    obtain ⟨_, y⟩ := read
    subst count
    exact .inr ⟨y, rfl, waits', ready, same, parser⟩
  · rename_i ready
    exact .inr ⟨x, rfl, waits, ready, rfl, rfl⟩

end Exchange

variable {size n : Nat} {tail input payload : List UInt8}

theorem Decodes.take (inside : n ≤ size) (run : Decodes .chunkData size input payload tail) :
    n ≤ input.length ∧ payload = input.take n ++ payload.drop n ∧
      Decodes .chunkData (size - n) (input.drop n) (payload.drop n) tail := by
  induction n generalizing size input payload with
  | zero => exact ⟨Nat.zero_le _, by simp, by simpa using run⟩
  | succ n ih =>
    cases run with
    | data run bound =>
      obtain ⟨fits, same, rest⟩ := ih (by omega) run
      refine ⟨by simpa using fits, by simpa using same, ?_⟩
      simpa using rest
    | dataEnd => omega
    | next outside | finish outside => exact absurd rfl outside

theorem Decodes.inData {state : ChunkState} (run : Decodes state size input payload tail) (positive : size ≠ 0)
    (outside : ¬InsideSizeLine state size) : state = .chunkData := by
  have coherent := run.coherent
  simp only [InsideSizeLine, positive, not_false_eq_true, true_and, not_or, ne_eq] at outside
  cases state <;> simp_all [Coherent]

namespace Exchange

variable {options : HttpServerOptions} {tail payload : List UInt8} {x between : Exchange} {budget : Nat}

theorem takeBody_waits (waits : x.Awaits options payload tail) (ready : x.buffered ≠ [])
    (inData : x.bodyParser.chunkedParser.state = .chunkData) (positive : x.bodyParser.chunkedParser.size ≠ 0)
    (room : 0 < budget) :
    ∃ data y, x.takeBody budget = (.ok data, y) ∧ data ≠ [] ∧ data.length ≤ budget ∧
      payload = data ++ payload.drop data.length ∧ y.Awaits options (payload.drop data.length) tail ∧
      y.bodyParser.chunkedParser.state = .chunkData ∧ y.input.length < x.input.length := by
  have remaining_eq := BodyParser.remaining_chunked waits.chunked
  have ready_length := length_pos_iff.mpr ready
  unfold takeBody
  rw [bodyInputReadable_eq, remaining_eq]
  generalize take_eq : min budget (min x.bodyParser.chunkedParser.size x.buffered.length) = take
  have fits : take ≤ x.buffered.length := by omega
  have inside : take ≤ x.bodyParser.chunkedParser.size := by omega
  obtain ⟨chain, readBuf, behind, run⟩ := takePrefix_eq fits
  have decodes := waits.decodes
  rw [inData] at decodes
  obtain ⟨-, split_eq, rest⟩ := decodes.take inside
  have data_eq : x.input.take take = x.buffered.take take := by
    rw [input_eq, take_append_of_le_length fits]
  have drop_eq : x.input.drop take = x.buffered.drop take ++ x.transport.bytes := by
    rw [input_eq, drop_append_of_le_length fits]
  have length_eq : (x.buffered.take take).length = take := by
    rw [length_take, Nat.min_eq_left fits]
  have after_input : ∀ parser : BodyParser, ({ x with
      inbound := chain, readBuf := readBuf, consumed := x.consumed ++ x.buffered.take take,
      bodyParser := parser } : Exchange).input = x.input.drop take := by
    intro parser
    simp only [input, behind]
    exact drop_eq.symm
  simp only [run, BodyParser.consume_chunked waits.chunked]
  refine ⟨_, _, rfl, ?_, by omega, ?_, ⟨waits.options_eq, waits.chunked, waits.opened, ?_⟩, ?_, ?_⟩
  · rw [← length_pos_iff]; omega
  · rw [length_eq, ← data_eq]; exact split_eq
  · rw [after_input, length_eq]
    simpa [inData] using rest
  · simpa using inData
  · have total : x.input.length = x.buffered.length + x.transport.bytes.length := by
      rw [input_eq, length_append]
    rw [after_input, length_drop]
    omega

inductive ReadEnd (options : HttpServerOptions) (payload tail out : List UInt8) (x : Exchange) :
    Except Fault BodyStep × Exchange → Prop
  | chunk (after : Exchange) (data rest : List UInt8) : payload = data ++ rest →
      after.Awaits options rest tail → after.input.length ≤ x.input.length →
      (x.readCallUsedIo = false → after.input.length < x.input.length) →
      ReadEnd options payload tail out x (.ok (.chunk ⟨false, out ++ data⟩), after)
  | trailers (after : Exchange) : after.AtTrailers options tail →
      ReadEnd options payload tail out x (.ok (.trailers (out ++ payload)), after)

variable {out : List UInt8}

theorem ReadEnd.behind (data : List UInt8) {result : Except Fault BodyStep × Exchange}
    (split_eq : payload = data ++ payload.drop data.length) (shorter : between.input.length < x.input.length)
    (ending : ReadEnd options (payload.drop data.length) tail (out ++ data) between result) :
    ReadEnd options payload tail out x result := by
  cases ending with
  | chunk after more rest split_more waits le lt =>
    rw [append_assoc]
    refine .chunk after _ rest ?_ waits (by omega) (fun _ => by omega)
    rw [split_eq, split_more, append_assoc]
  | trailers after at_trailers =>
    rw [append_assoc, ← split_eq]
    exact .trailers after at_trailers

theorem takeData_decodes {again : Exchange → Nat → List UInt8 → Except Fault BodyStep × Exchange}
    (waits : x.Awaits options payload tail) (inData : x.bodyParser.chunkedParser.state = .chunkData)
    (positive : x.bodyParser.chunkedParser.size ≠ 0) (room : 0 < budget)
    (continues : ∀ {y : Exchange} {rest out' : List UInt8} {budget' : Nat}, y.Awaits options rest tail → y.bodyParser.chunkedParser.size = 0 → 0 < budget' → y.input.length < x.input.length → ReadEnd options rest tail out' y (again y budget' out')) :
    ReadEnd options payload tail out x (takeData again x budget out) := by
  have remaining_eq := BodyParser.remaining_chunked waits.chunked
  have limit : 0 < min budget x.bodyParser.remaining := by omega
  unfold takeData
  rcases awaitBodyInput_waits waits limit with ⟨run, used⟩ | ⟨y, run, waits', ready, same, parser⟩
  · simp only [run]
    have ending : ReadEnd options payload tail out x (.ok (.chunk ⟨false, out ++ []⟩), x) :=
      .chunk x [] payload rfl waits le_rfl (by simp [used])
    simpa using ending
  rw [← parser] at inData positive
  obtain ⟨data, z, take_run, nonempty, length_le, split_eq, waits'', state, shorter⟩ :=
    takeBody_waits waits' ready inData positive room
  rw [same] at shorter
  simp only [run, take_run]
  split
  · exact .chunk z data _ split_eq waits'' shorter.le (fun _ => shorter)
  rename_i more
  simp only [BodyParser.remaining_chunked waits''.chunked, not_or, Nat.not_lt, gt_iff_lt] at more
  exact .behind data split_eq shorter (continues waits'' (by omega) (by omega) shorter)

theorem readChunked_decodes (fuel : Nat) (out : List UInt8) (waits : x.Awaits options payload tail)
    (outside : ¬InsideSizeLine x.bodyParser.chunkedParser.state x.bodyParser.chunkedParser.size)
    (room : 0 < budget) (enough : x.input.length < fuel) :
    ReadEnd options payload tail out x (readChunked fuel x budget out) := by
  induction fuel generalizing x budget out payload with
  | zero => omega
  | succ fuel ih =>
    unfold readChunked
    rw [BodyParser.remaining_chunked waits.chunked]
    split
    · rename_i zero
      have ending := advanceChunkedBody_decodes room x.advanceFuel (!x.readCallUsedIo) waits
        (by unfold advanceFuel; split <;> omega)
      generalize (advanceChunkedBody budget x.advanceFuel x !x.readCallUsedIo) = result at ending ⊢
      cases ending with
      | again after waits' le lt =>
        have ending : ReadEnd options payload tail out x (.ok (.chunk ⟨false, out ++ []⟩), after) :=
          .chunk after [] payload rfl waits' le (fun unused => lt (by simp [unused]))
        simpa using ending
      | ok after waits' ready state size le lt =>
        have shorter := lt zero
        have ending : ReadEnd options payload tail out after (takeData (readChunked fuel) after budget out) :=
          takeData_decodes waits' state size room fun waits'' zero' room' shorter' =>
            ih _ waits'' (by simp [InsideSizeLine, zero']) room' (by omega)
        simpa using ReadEnd.behind [] (by simp) shorter (by simpa using ending)
      | bodyDone after trailers empty =>
        have ending : ReadEnd options payload tail out x (.ok (.trailers (out ++ payload)), after) :=
          .trailers after trailers
        simpa [empty] using ending
    · rename_i positive
      exact takeData_decodes waits (waits.decodes.inData positive outside) positive room
        (fun waits'' zero' room' shorter' => ih _ waits'' (by simp [InsideSizeLine, zero']) room' (by omega))

end Exchange

end FiberGateway.Http1
