import FiberGateway.Http1.BodyDecoding
import FiberGateway.Http1.HeaderLine

namespace FiberGateway.Http1

open List

/-- The capacity a full parse buffer can be replaced with. -/
def growCapacity (options : HttpServerOptions) (capacity growthCount : Nat) : Option Nat :=
  let next := nextHeaderCapacity options capacity growthCount
  if next = 0 ∨ next > kMaxSize - IoBuf.controlBlockSize then none else some next

/-- A line of the given length, begun at an offset of a parse buffer, can be read to its end: the
buffer is not full at the line's first byte, and each time it fills up inside the line it can be
replaced with one that has room behind what the line has so far. The last three indices are the
capacity, the growth count and the offset behind the line. -/
inductive LineFits (options : HttpServerOptions) (length : Nat) :
    Nat → Nat → Nat → Nat → Nat → Nat → Prop
  | inside {capacity growth start : Nat} : start < capacity → start + length ≤ capacity →
      LineFits options length capacity growth start capacity growth (start + length)
  | grown {capacity growth start next capacity' growth' stop : Nat} : start < capacity →
      capacity < start + length → growCapacity options capacity growth = some next →
      capacity - start < next → LineFits options length next (growth + 1) 0 capacity' growth' stop →
      LineFits options length capacity growth start capacity' growth' stop

/-- `HttpHeaders` can store the field. -/
def TrailerLine.Storable (line : TrailerLine) : Prop :=
  line.name.length ≤ 2 ^ 32 - 1 ∧ (fieldValue line.value).length ≤ 2 ^ 32 - 1

/-- Every trailer field and the empty line behind them can be read. -/
def SectionFits (options : HttpServerOptions) : List TrailerLine → Nat → Nat → Nat → Prop
  | [], capacity, growth, start =>
    ∃ capacity' growth' stop, LineFits options 2 capacity growth start capacity' growth' stop
  | line :: lines, capacity, growth, start =>
    ∃ capacity' growth' stop,
      LineFits options line.encode.length capacity growth start capacity' growth' stop ∧
        line.Storable ∧ SectionFits options lines capacity' growth' stop

/-- The configured parse buffers can take the trailer section. -/
def TrailersFit (options : HttpServerOptions) (lines : List TrailerLine) : Prop :=
  options.headerInitSize ≤ kMaxSize - IoBuf.controlBlockSize ∧
    SectionFits options lines options.headerInitSize 0 0

def currentLine : List TrailerLine → List UInt8
  | [] => [cr, lf]
  | line :: _ => line.encode

def linesBehind : List TrailerLine → List UInt8
  | [] => []
  | _ :: lines => (lines.map TrailerLine.encode).flatten ++ [cr, lf]

theorem currentLine_append_linesBehind (lines : List TrailerLine) :
    currentLine lines ++ linesBehind lines = (lines.map TrailerLine.encode).flatten ++ [cr, lf] := by
  cases lines <;> simp [currentLine, linesBehind]

variable {options : HttpServerOptions} {stop start growth length growth' capacity capacity' p bytes : Nat}
  {lines : List TrailerLine} {buf : IoBuf}

theorem LineFits.start_lt (fits : LineFits options length capacity growth start capacity' growth' stop) :
    start < capacity := by
  cases fits with
  | inside below | grown below => exact below

theorem LineFits.inside_iff (below : start < capacity) (inside : start + length ≤ capacity) :
    LineFits options length capacity growth start capacity' growth' stop ↔
      capacity' = capacity ∧ growth' = growth ∧ stop = start + length := by
  constructor
  · intro fits
    cases fits with
    | inside => exact ⟨rfl, rfl, rfl⟩
    | grown _ outside => omega
  · rintro ⟨rfl, rfl, rfl⟩
    exact .inside below inside

theorem LineFits.grown_iff (below : start < capacity) (outside : capacity < start + length) :
    LineFits options length capacity growth start capacity' growth' stop ↔
      ∃ next, growCapacity options capacity growth = some next ∧ capacity - start < next ∧
        LineFits options length next (growth + 1) 0 capacity' growth' stop := by
  constructor
  · intro fits
    cases fits with
    | inside _ inside => omega
    | grown _ _ grow room rest => exact ⟨_, grow, room, rest⟩
  · rintro ⟨next, grow, room, rest⟩
    exact .grown below outside grow room rest

theorem SectionFits.start_lt (fits : SectionFits options lines capacity growth start) : start < capacity := by
  cases lines with
  | nil => obtain ⟨_, _, _, line⟩ := fits; exact line.start_lt
  | cons line lines => obtain ⟨_, _, _, line, _⟩ := fits; exact line.start_lt

theorem SectionFits.inside_iff (options : HttpServerOptions) {line : TrailerLine} (lines : List TrailerLine)
    (growth : Nat) (below : start < capacity) (inside : start + line.encode.length ≤ capacity) :
    SectionFits options (line :: lines) capacity growth start ↔
      line.Storable ∧ SectionFits options lines capacity growth (start + line.encode.length) := by
  simp only [SectionFits, LineFits.inside_iff below inside]
  constructor
  · rintro ⟨_, _, _, ⟨rfl, rfl, rfl⟩, rest⟩
    exact rest
  · intro rest
    exact ⟨_, _, _, ⟨rfl, rfl, rfl⟩, rest⟩

/-- Inside the current line, growing the buffer is all that can happen when it is full. -/
theorem SectionFits.grown_iff (options : HttpServerOptions) (growth : Nat) (below : start < capacity)
    (outside : capacity < start + (currentLine lines).length) :
    SectionFits options lines capacity growth start ↔
      ∃ next, growCapacity options capacity growth = some next ∧ capacity - start < next ∧
        SectionFits options lines next (growth + 1) 0 := by
  cases lines with
  | nil =>
    simp only [currentLine, length_cons, length_nil] at outside
    simp only [SectionFits, LineFits.grown_iff below outside]
    constructor
    · rintro ⟨_, _, _, next, grow, room, rest⟩
      exact ⟨next, grow, room, _, _, _, rest⟩
    · rintro ⟨next, grow, room, _, _, _, rest⟩
      exact ⟨_, _, _, next, grow, room, rest⟩
  | cons line lines =>
    simp only [currentLine] at outside
    simp only [SectionFits, LineFits.grown_iff below outside]
    constructor
    · rintro ⟨_, _, _, ⟨next, grow, room, rest⟩, behind⟩
      exact ⟨next, grow, room, _, _, _, rest, behind⟩
    · rintro ⟨next, grow, room, _, _, _, rest, behind⟩
      exact ⟨_, _, _, ⟨next, grow, room, rest⟩, behind⟩

namespace HeaderLineParser

theorem scan_append_of_end {state : HeaderState} {line : HeaderLineState} {bytes : List UInt8} {result : Scan}
    (run : scan state line p bytes = result) (ended : ∀ state line p, result ≠ .again state line p)
    (more : List UInt8) : scan state line p (bytes ++ more) = result := by
  induction bytes generalizing state line p with
  | nil => exact absurd run.symm (ended _ _ _)
  | cons ch rest ih =>
    simp only [scan, cons_append] at run ⊢
    split at run
    · exact ih run
    · exact run
    · exact run
    · exact run

theorem scan_currentLine (lines : List TrailerLine) (line : HeaderLineState) (p : Nat) :
    EndsLine (scan .start line p (currentLine lines)) (p + (currentLine lines).length) := by
  cases lines with
  | nil =>
    obtain ⟨line', run⟩ := scan_empty_line line p
    exact .inr ⟨line', run⟩
  | cons trailer lines =>
    obtain ⟨line', run, -⟩ := scan_line trailer line p
    exact .inl ⟨line', run⟩

end HeaderLineParser

open HeaderLineParser in
/-- The parser is inside the current line: it has consumed `before`, which the buffer still holds
from `start` on, and `todo` is to come. -/
structure LineProgress (lines : List TrailerLine) (start : Nat) (before todo : List UInt8) (buf : IoBuf)
    (parser : HeaderLineParser) : Prop where
  line_eq : currentLine lines = before ++ todo
  unfinished : todo ≠ []
  position : start + before.length = buf.pos
  kept : slice buf.data start buf.pos = before
  parsed : ∃ line, scan .start line start before = .again parser.state parser.line buf.pos

theorem IoBuf.consume_pos (inside : bytes ≤ buf.readable.length) :
    (buf.consume bytes).pos = buf.pos + bytes := by
  have := buf.pos_le
  rw [IoBuf.readable_length] at inside
  simp only [IoBuf.consume]
  omega

namespace LineProgress

open HeaderLineParser

variable {lines : List TrailerLine} {start growthCount : Nat} {rest todo before : List UInt8} {buf : IoBuf}
  {parser : HeaderLineParser} {options : HttpServerOptions}

section

variable (progress : LineProgress lines start before todo buf parser)

include progress

/-- All the buffer holds belongs to the current line, which goes on. -/
theorem execute_again (todo_eq : todo = buf.readable ++ rest) (more : rest ≠ []) :
    ∃ parser', parser.execute buf = (.again, parser', buf.consume buf.readable.length) ∧
      LineProgress lines start (before ++ buf.readable) rest (buf.consume buf.readable.length) parser' := by
  obtain ⟨line_eq, unfinished, position, kept, line, parsed⟩ := progress
  have more_length := length_pos_iff.mpr more
  have ends := scan_currentLine lines line start
  rw [line_eq, todo_eq, ← append_assoc] at ends
  obtain ⟨state', line', run⟩ := scan_unfinished ends (by simp; omega)
  have pos_eq : (buf.consume buf.readable.length).pos = buf.pos + buf.readable.length :=
    IoBuf.consume_pos le_rfl
  have run' : scan parser.state parser.line buf.pos buf.readable =
      .again state' line' (buf.pos + buf.readable.length) := by
    rw [← scan_append parsed, run, length_append, ← position, Nat.add_assoc]
  refine ⟨⟨state', line'⟩, ?_, ?_⟩
  · unfold execute
    split
    · rename_i empty
      rw [empty] at run'
      simp only [scan, Scan.again.injEq] at run'
      obtain ⟨rfl, rfl, -⟩ := run'
      have same : buf.consume 0 = buf := by
        obtain ⟨data, pos, viewSize, pos_le, data_le⟩ := buf
        simp only [IoBuf.consume, Nat.add_zero, Nat.min_eq_left pos_le]
      rw [empty, length_nil, same]
    · rw [run']
      simp
  · refine ⟨by rw [line_eq, todo_eq, append_assoc], more, ?_, ?_, line, ?_⟩
    · rw [pos_eq, length_append, ← position, Nat.add_assoc]
    · have below : start ≤ buf.pos := by omega
      have shape : buf.data.take buf.pos ++ buf.readable = buf.data := take_append_drop _ _
      have whole : buf.pos + buf.readable.length = buf.data.length := by
        have := buf.pos_le
        rw [IoBuf.readable_length]; omega
      rw [pos_eq, whole, IoBuf.consume_data, slice, take_length, ← kept, slice]
      conv_lhs => rw [← shape]
      rw [drop_append_of_le_length]
      rw [length_take, Nat.min_eq_left buf.pos_le]
      exact below
    · rw [pos_eq, run, length_append, ← position, Nat.add_assoc]

theorem scan_readable (readable_eq : buf.readable = todo ++ rest) :
    ∃ line, scan parser.state parser.line buf.pos buf.readable =
      scan .start line start (currentLine lines ++ rest) := by
  obtain ⟨line, parsed⟩ := progress.parsed
  exact ⟨line, by rw [← scan_append parsed, readable_eq, progress.line_eq, append_assoc]⟩

theorem stop_eq : start + (currentLine lines).length = buf.pos + todo.length := by
  rw [progress.line_eq, length_append, ← progress.position, Nat.add_assoc]

theorem readable_nonempty (readable_eq : buf.readable = todo ++ rest) : buf.readable ≠ [] := by
  rw [readable_eq]
  simp [progress.unfinished]

end

theorem execute_headerDone (progress : LineProgress [] start before todo buf parser)
    (readable_eq : buf.readable = todo ++ rest) :
    ∃ parser', parser.execute buf = (.headerDone, parser', buf.consume todo.length) := by
  obtain ⟨line, run⟩ := progress.scan_readable readable_eq
  obtain ⟨line', ended⟩ := scan_empty_line line start
  have stop := progress.stop_eq
  simp only [currentLine, length_cons, length_nil] at stop run
  rw [scan_append_of_end ended nofun] at run
  simp only [execute, if_neg (progress.readable_nonempty readable_eq), run]
  rw [show start + 2 - buf.pos = todo.length by omega]
  exact ⟨_, rfl⟩

theorem execute_ok {trailer : TrailerLine}
    (progress : LineProgress (trailer :: lines) start before todo buf parser)
    (readable_eq : buf.readable = todo ++ rest) :
    ∃ parser', parser.execute buf = (.ok, parser', buf.consume todo.length) ∧
      fieldOf parser'.line buf.data = some (trailer.name, fieldValue trailer.value) ∧
      LineProgress lines (start + trailer.encode.length) [] (currentLine lines) (buf.consume todo.length)
        parser' := by
  obtain ⟨line, run⟩ := progress.scan_readable readable_eq
  obtain ⟨line', ended, field⟩ := scan_line trailer line start
  have stop := progress.stop_eq
  simp only [currentLine] at stop run
  rw [scan_append_of_end ended nofun] at run
  have inside : todo.length ≤ buf.readable.length := by rw [readable_eq]; simp
  have pos_eq := IoBuf.consume_pos inside
  refine ⟨⟨.start, line'⟩, ?_, field buf.data ?_, rfl, ?_, ?_, ?_, line', ?_⟩
  · simp only [execute, if_neg (progress.readable_nonempty readable_eq), run]
    rw [show start + trailer.encode.length - buf.pos = todo.length by omega]
  · have below : start ≤ buf.pos := by have := progress.position; omega
    have data_eq : buf.data.drop start = before ++ buf.readable := by
      have shape : buf.data.take buf.pos ++ buf.readable = buf.data := take_append_drop _ _
      conv_lhs => rw [← shape]
      rw [drop_append_of_le_length]
      · exact congrArg (· ++ buf.readable) progress.kept
      · rw [length_take, Nat.min_eq_left buf.pos_le]
        exact below
    have encode_eq : trailer.encode = before ++ todo := progress.line_eq
    rw [data_eq, readable_eq, ← append_assoc, encode_eq, take_left]
  · cases lines <;> simp [currentLine, TrailerLine.encode]
  · rw [pos_eq, length_nil, Nat.add_zero, stop]
  · rw [pos_eq, ← stop, slice]
    apply drop_eq_nil_of_le
    rw [length_take]
    exact Nat.min_le_left _ _
  · rw [pos_eq, ← stop]
    rfl

/-- Growing at the first byte of a line fails: there is no line to move. -/
theorem grow_at_start (progress : LineProgress lines start [] todo buf parser) (options : HttpServerOptions)
    (growthCount : Nat) : ∃ fault, growBuffer replaceBufPtr options buf growthCount parser = .error fault := by
  obtain ⟨line, parsed⟩ := progress.parsed
  simp only [scan, Scan.again.injEq] at parsed
  have stuck : ∀ next : IoBuf, parser.replaceBufPtr buf next = .error .assertion := by
    intro next
    unfold replaceBufPtr
    split
    · rfl
    · rw [if_pos (.inl parsed.1.symm)]
  unfold growBuffer
  simp only [stuck]
  split
  · exact ⟨_, rfl⟩
  · split <;> exact ⟨_, rfl⟩

variable {next : Nat}

theorem allocate_of_growCapacity (grow : growCapacity options capacity growthCount = some next) :
    nextHeaderCapacity options capacity growthCount = next ∧ next ≠ 0 ∧
      ∃ buf, IoBuf.allocate next = some buf ∧ buf.data = [] ∧ buf.pos = 0 ∧ buf.viewSize = next := by
  simp only [growCapacity] at grow
  split at grow
  · cases grow
  rename_i sound
  cases grow
  simp only [not_or, gt_iff_lt, Nat.not_lt] at sound
  generalize nextHeaderCapacity options capacity growthCount = next at sound
  refine ⟨rfl, sound.1, ⟨[], 0, next, le_rfl, Nat.zero_le _⟩, ?_, rfl, rfl, rfl⟩
  simp only [IoBuf.allocate, if_neg sound.1, gt_iff_lt, if_neg (Nat.not_lt.mpr sound.2)]

theorem grow_refused (grow : growCapacity options buf.capacity growthCount = none) (parser : HeaderLineParser) :
    ∃ fault, growBuffer replaceBufPtr options buf growthCount parser = .error fault := by
  simp only [growCapacity, ite_eq_left_iff, reduceCtorEq, imp_false, not_not] at grow
  unfold growBuffer
  simp only
  split
  · exact ⟨_, rfl⟩
  rename_i positive
  have large := grow.resolve_left positive
  simp only [IoBuf.allocate, if_neg positive, if_pos large]
  exact ⟨_, rfl⟩

theorem scan_rebase {line line' : HeaderLineState} {state : HeaderState} (begun : before ≠ [])
    (position : start + before.length = stop) (parsed : scan .start line start before = .again state line' stop) :
    scan .start line 0 before = .again state (line'.rebase start 0) before.length := by
  have moved := scan_start_shift start line 0 begun
  rw [Nat.zero_add, parsed] at moved
  cases whole : scan .start line 0 before with
  | again state₀ line₀ p =>
    rw [whole] at moved
    simp only [Scan.shift, Scan.again.injEq] at moved
    obtain ⟨rfl, rfl, stop_eq⟩ := moved
    have back : ∀ pointer : Option Nat, (pointer.map (· + start)).map (· - start + 0) = pointer := by
      intro pointer
      cases pointer <;> simp
    simp only [HeaderLineState.rebase, HeaderLineState.shift, back]
    rw [show p = before.length by omega]
  | done line₀ p | headerDone line₀ p => rw [whole] at moved; cases moved
  | invalid line₀ => rw [whole] at moved; cases moved

/-- A line that has begun moves to the front of the new buffer, if there is room for it. -/
theorem grow_inside (progress : LineProgress lines start before todo buf parser) (begun : before ≠ [])
    (grow : growCapacity options buf.capacity growthCount = some next) :
    (next < before.length ∧ ∃ fault, growBuffer replaceBufPtr options buf growthCount parser = .error fault) ∨
      before.length ≤ next ∧ ∃ grown parser',
        growBuffer replaceBufPtr options buf growthCount parser = .ok (grown, parser') ∧
          grown.viewSize = next ∧ grown.data = before ∧ grown.pos = before.length ∧
          LineProgress lines 0 before todo grown parser' := by
  obtain ⟨capacity_eq, positive, empty, allocated, data_eq, pos_eq, view_eq⟩ := allocate_of_growCapacity grow
  obtain ⟨line_eq, unfinished, position, kept, line, parsed⟩ := progress
  obtain ⟨notStart, nameStart⟩ := scan_inside begun parsed
  have begun_length := length_pos_iff.mpr begun
  have writable_eq : empty.writable = next := by simp [IoBuf.writable, data_eq, view_eq]
  have length_eq : buf.pos - start = before.length := by omega
  have run : parser.replaceBufPtr buf empty =
      if next < before.length then .ok (.headerTooLarge, parser, empty)
      else .ok (.ok, { parser with line := parser.line.rebase start empty.data.length },
        (empty.fill ((buf.data.take buf.pos).drop start)).consume (buf.pos - start)) := by
    unfold replaceBufPtr
    simp only [nameStart]
    rw [if_neg (by rintro (atStart | early); exacts [notStart atStart, by omega]), writable_eq, length_eq]
  unfold growBuffer
  simp only [capacity_eq, if_neg positive, allocated]
  by_cases short : next < before.length
  · left
    rw [if_pos short] at run
    exact ⟨short, _, by rw [run]⟩
  right
  rw [if_neg short] at run
  have fits : ((buf.data.take buf.pos).drop start).length ≤ empty.writable := by
    rw [show (buf.data.take buf.pos).drop start = before from kept, writable_eq]; omega
  have grown_data : (empty.fill ((buf.data.take buf.pos).drop start)).data = before := by
    rw [IoBuf.fill_data fits, data_eq]; exact kept
  have grown_pos : ((empty.fill ((buf.data.take buf.pos).drop start)).consume (buf.pos - start)).pos =
      before.length := by
    simp only [IoBuf.consume, grown_data, length_eq]
    have := pos_eq
    omega
  refine ⟨by omega, (empty.fill ((buf.data.take buf.pos).drop start)).consume (buf.pos - start),
    { parser with line := parser.line.rebase start empty.data.length }, by rw [run], view_eq, grown_data,
    grown_pos, line_eq, unfinished, ?_, ?_, line, ?_⟩
  · rw [grown_pos, Nat.zero_add]
  · rw [grown_pos, IoBuf.consume_data, grown_data]
    simp [slice]
  · rw [grown_pos, data_eq]
    exact scan_rebase begun position parsed

end LineProgress

namespace Exchange

/-- Filling a parse buffer moves the next bytes of the input behind those it holds. -/
structure Refilled (x : Exchange) (buf : IoBuf) (bytes : List UInt8) (buf' : IoBuf) (x' : Exchange) : Prop where
  input_eq : x.input = bytes ++ x'.input
  fits : bytes.length ≤ buf.writable
  filled : buf' = buf.fill bytes
  options_eq : x'.options = x.options
  parser_eq : x'.bodyParser = x.bodyParser
  trailers_eq : x'.trailers = x.trailers
  consumed_eq : x'.consumed = x.consumed

theorem drainBodyInput_refilled (x : Exchange) (buf : IoBuf) :
    (x.drainBodyInput buf).1 = (x.buffered.take buf.writable).length ∧
      (x.drainBodyInput buf).2.1.buffered = x.buffered.drop buf.writable ∧
      (x.drainBodyInput buf).2.1.transport = x.transport ∧
      Refilled x buf (x.buffered.take buf.writable) (x.drainBodyInput buf).2.2 (x.drainBodyInput buf).2.1 := by
  obtain ⟨taken, behind, missing⟩ := takeChain_eq x.inbound buf.writable
  have bytes_eq : (takeChain x.inbound buf.writable).1 ++ x.readBuf.take (takeChain x.inbound buf.writable).2.2 =
      x.buffered.take buf.writable := by
    rw [taken, missing, buffered, take_append]
  have rest_eq : (x.drainBodyInput buf).2.1.buffered = x.buffered.drop buf.writable := by
    simp only [drainBodyInput, buffered, behind, missing, drop_append]
  refine ⟨by simp only [drainBodyInput, bytes_eq], rest_eq, rfl, ?_, by simp, ?_, rfl, rfl, rfl, rfl⟩
  · rw [input_eq, input_eq, rest_eq, ← append_assoc, take_append_drop]
    rfl
  · simp only [drainBodyInput, bytes_eq]

variable {x x' : Exchange}

variable {buf : IoBuf}

theorem fillParseBuf_refilled (room : 0 < buf.writable) (more : x.input ≠ []) :
    ∃ bytes buf' x', x.fillParseBuf buf = (.ok buf', x') ∧ bytes ≠ [] ∧ Refilled x buf bytes buf' x' := by
  obtain ⟨count, buffered_eq, transport_eq, refilled⟩ := drainBodyInput_refilled x buf
  unfold fillParseBuf
  generalize x.drainBodyInput buf = drain at count refilled buffered_eq transport_eq
  obtain ⟨n, y, buf'⟩ := drain
  simp only at count refilled buffered_eq transport_eq
  subst count
  cases bytes_eq : x.buffered.take buf.writable with
  | nil =>
    have empty : x.buffered = [] := by
      have := congrArg List.length bytes_eq
      simp only [length_take, length_nil] at this
      exact length_eq_zero_iff.mp (by omega)
    have same : buf' = buf := by
      rw [refilled.filled, bytes_eq]
      simp [IoBuf.fill]
    subst same
    rw [input_eq, empty, nil_append, ← transport_eq] at more
    have read_some : (y.transport.read buf'.writable).1 ≠ [] :=
      fun none_read => more (Transport.read_eq_nil room none_read)
    have read_fits := y.transport.read_length_le buf'.writable
    have read_bytes := y.transport.read_bytes buf'.writable
    generalize read_eq : y.transport.read buf'.writable = read at read_some read_fits read_bytes
    obtain ⟨bytes, transport⟩ := read
    obtain ⟨byte, bytes, rfl⟩ := exists_cons_of_ne_nil read_some
    refine ⟨byte :: bytes, buf'.fill (byte :: bytes), { y with transport := transport }, ?_, read_some, ?_,
      read_fits, rfl, refilled.options_eq, refilled.parser_eq, refilled.trailers_eq, refilled.consumed_eq⟩
    · simp [read_eq]
    · have after_empty : y.buffered = [] := by rw [buffered_eq, empty, drop_nil]
      have after_input : ({ y with transport := transport } : Exchange).input = transport.bytes := by
        rw [input_eq, show ({ y with transport := transport } : Exchange).buffered = y.buffered from rfl,
          after_empty, nil_append]
      rw [after_input, input_eq, empty, nil_append, ← transport_eq, ← read_bytes]
  | cons byte bytes =>
    rw [bytes_eq] at refilled
    exact ⟨byte :: bytes, buf', y, rfl, by simp, refilled⟩

theorem fillParseBuf_full (full : buf.writable = 0) : ∃ fault x', x.fillParseBuf buf = (.error fault, x') := by
  obtain ⟨count, buffered_eq, transport_eq, refilled⟩ := drainBodyInput_refilled x buf
  have view_eq : (x.drainBodyInput buf).2.2.writable = 0 := by
    rw [refilled.filled, IoBuf.fill_writable refilled.fits, full, Nat.zero_sub]
  unfold fillParseBuf
  generalize x.drainBodyInput buf = drain at count view_eq
  obtain ⟨n, y, buf'⟩ := drain
  simp only [full, take_zero, length_nil] at count view_eq
  subst count
  have read_none : (y.transport.read 0).1 = [] := by
    have := y.transport.read_length_le 0
    exact length_eq_zero_iff.mp (by omega)
  simp only [view_eq]
  generalize y.transport.read 0 = read at read_none
  obtain ⟨bytes, transport⟩ := read
  simp only at read_none
  subst read_none
  exact ⟨_, _, rfl⟩

/-- How reading the trailers can end, by whether they fit. -/
inductive TrailersEnd (fits : Prop) (lines : List TrailerLine) (following : List UInt8) (x : Exchange) :
    Except Fault IoBuf × Exchange → Prop
  | read (rest : IoBuf) (after : Exchange) : fits → rest.readable ++ after.input = following →
      after.trailers = x.trailers ++ lines.map (fun line => (line.name, fieldValue line.value)) →
      after.options = x.options → after.bodyParser = x.bodyParser →
      TrailersEnd fits lines following x (.ok rest, after)
  | refused (fault : Fault) (after : Exchange) : ¬fits →
      TrailersEnd fits lines following x (.error fault, after)

theorem TrailersEnd.of_iff {fits fits' : Prop} {following : List UInt8}
    {result : Except Fault IoBuf × Exchange} (same : fits ↔ fits') (options_eq : x'.options = x.options)
    (parser_eq : x'.bodyParser = x.bodyParser) (trailers_eq : x'.trailers = x.trailers)
    (ending : TrailersEnd fits lines following x' result) : TrailersEnd fits' lines following x result := by
  cases ending with
  | read rest after holds stream trailers options parser =>
    exact .read rest after (same.mp holds) stream (trailers_eq ▸ trailers) (options.trans options_eq)
      (parser.trans parser_eq)
  | refused fault after fails => exact .refused fault after (fun holds => fails (same.mpr holds))

end Exchange

variable {todo before : List UInt8} {parser : HeaderLineParser}

theorem LineProgress.fill (progress : LineProgress lines start before todo buf parser) {bytes : List UInt8}
    (fits : bytes.length ≤ buf.writable) : LineProgress lines start before todo (buf.fill bytes) parser := by
  obtain ⟨line_eq, unfinished, position, kept, parsed⟩ := progress
  refine ⟨line_eq, unfinished, position, ?_, parsed⟩
  rw [IoBuf.fill_data fits]
  simp only [slice]
  rw [show (buf.fill bytes).pos = buf.pos from rfl, take_append_of_le_length buf.pos_le]
  exact kept

namespace Exchange

end Exchange

/-- Making room inside a line either fails or leads to a buffer in which the section fits as before. -/
theorem LineProgress.ensureRoom_fits (progress : LineProgress lines start before todo buf parser)
    (parsedAll : buf.readable = []) (options : HttpServerOptions) (growthCount : Nat) :
    (∃ fault, ensureRoom HeaderLineParser.replaceBufPtr options buf growthCount parser = .error fault ∧
      ¬SectionFits options lines buf.viewSize growthCount start) ∨
    ∃ buf' growthCount' parser' start',
      ensureRoom HeaderLineParser.replaceBufPtr options buf growthCount parser = .ok (buf', growthCount', parser') ∧
      LineProgress lines start' before todo buf' parser' ∧ buf'.readable = [] ∧
      ((buf'.writable = 0 ∧ ¬SectionFits options lines buf.viewSize growthCount start) ∨
        0 < buf'.writable ∧ (SectionFits options lines buf'.viewSize growthCount' start' ↔
          SectionFits options lines buf.viewSize growthCount start)) := by
  have position := progress.position
  have pos_le := buf.pos_le
  have data_le := buf.data_le
  have parsed_length := congrArg List.length parsedAll
  rw [IoBuf.readable_length, length_nil] at parsed_length
  unfold ensureRoom
  by_cases full : buf.writable = 0
  · rw [if_pos full]
    have pos_eq : buf.pos = buf.viewSize := by
      unfold IoBuf.writable at full
      omega
    by_cases begun : before = []
    · subst begun
      obtain ⟨fault, run⟩ := progress.grow_at_start options growthCount
      refine .inl ⟨fault, by rw [run], fun fits => ?_⟩
      have := fits.start_lt
      simp only [length_nil] at position
      omega
    have begun_length := length_pos_iff.mpr begun
    have todo_length := length_pos_iff.mpr progress.unfinished
    have below : start < buf.viewSize := by omega
    have outside : buf.viewSize < start + (currentLine lines).length := by
      rw [progress.stop_eq]; omega
    have fits_iff := SectionFits.grown_iff options growthCount below outside
    have held : buf.viewSize - start = before.length := by omega
    rw [held] at fits_iff
    cases grow : growCapacity options buf.viewSize growthCount with
    | none =>
      obtain ⟨fault, run⟩ := LineProgress.grow_refused grow parser
      refine .inl ⟨fault, by rw [run], fun fits => ?_⟩
      obtain ⟨next, some_next, -⟩ := fits_iff.mp fits
      rw [grow] at some_next
      cases some_next
    | some next =>
      have fits_next : SectionFits options lines buf.viewSize growthCount start ↔
          before.length < next ∧ SectionFits options lines next (growthCount + 1) 0 := by
        rw [fits_iff, grow]
        simp
      rcases progress.grow_inside begun grow with
        ⟨short, fault, run⟩ | ⟨enough, grown, parser', run, view_eq, data_eq, grown_pos, progress'⟩
      · refine .inl ⟨fault, by rw [run], fun fits => ?_⟩
        have := (fits_next.mp fits).1
        omega
      have grown_readable : grown.readable = [] := by
        rw [IoBuf.readable, data_eq, grown_pos, drop_length]
      have grown_writable : grown.writable = next - before.length := by
        rw [IoBuf.writable, view_eq, data_eq]
      refine .inr ⟨grown, growthCount + 1, parser', 0, by rw [run], progress', grown_readable, ?_⟩
      rw [grown_writable, view_eq, fits_next]
      by_cases room : before.length < next
      · exact .inr ⟨by omega, by simp [room]⟩
      · exact .inl ⟨by omega, fun both => room both.1⟩
  · rw [if_neg full]
    exact .inr ⟨buf, growthCount, parser, start, rfl, progress, parsedAll, .inr ⟨by omega, Iff.rfl⟩⟩

namespace Exchange

variable {x : Exchange} {buf : IoBuf} {parser : HeaderLineParser} {lines : List TrailerLine} {start : Nat}
  {todo before following : List UInt8}

/-- What the end of the buffered input inside a line leads to. -/
theorem refill_fits (fuel growthCount : Nat) (progress : LineProgress lines start before todo buf parser)
    (parsedAll : buf.readable = []) (room : 0 < buf.writable)
    (stream : x.input = todo ++ (linesBehind lines ++ following))
    (continues : ∀ (y : Exchange) (buf' : IoBuf), LineProgress lines start before todo buf' parser → buf'.readable ++ y.input = todo ++ (linesBehind lines ++ following) → 2 * y.input.length + buf'.readable.length < 2 * x.input.length → TrailersEnd (SectionFits y.options lines buf'.viewSize growthCount start) lines following y (readTrailerLines fuel y buf' growthCount parser)) :
    TrailersEnd (SectionFits x.options lines buf.viewSize growthCount start) lines following x
      (match x.fillParseBuf buf with
        | (.error fault, x) => (.error fault, x.dropParseBuf buf)
        | (.ok parseBuf, x) => readTrailerLines fuel x parseBuf growthCount parser) := by
  have more : x.input ≠ [] := by
    rw [stream]
    simp [progress.unfinished]
  obtain ⟨bytes, buf', y, run, nonempty, refilled⟩ := fillParseBuf_refilled room more
  have bytes_length := length_pos_iff.mpr nonempty
  have input_length := congrArg List.length refilled.input_eq
  have readable_eq : buf'.readable = bytes := by
    rw [refilled.filled, IoBuf.fill_readable refilled.fits, parsedAll, nil_append]
  have view_eq : buf'.viewSize = buf.viewSize := by rw [refilled.filled]; rfl
  simp only [length_append] at input_length
  simp only [run]
  have ending := continues y buf' (refilled.filled ▸ progress.fill refilled.fits)
    (by rw [readable_eq, ← refilled.input_eq]; exact stream) (by rw [readable_eq]; omega)
  rw [refilled.options_eq, view_eq] at ending
  exact ending.of_iff Iff.rfl refilled.options_eq refilled.parser_eq refilled.trailers_eq

@[simp] theorem logParsed_input (x : Exchange) (buf rest : IoBuf) : (x.logParsed buf rest).input = x.input := rfl

@[simp] theorem logParsed_options (x : Exchange) (buf rest : IoBuf) :
    (x.logParsed buf rest).options = x.options := rfl

@[simp] theorem logParsed_bodyParser (x : Exchange) (buf rest : IoBuf) :
    (x.logParsed buf rest).bodyParser = x.bodyParser := rfl

@[simp] theorem logParsed_trailers (x : Exchange) (buf rest : IoBuf) :
    (x.logParsed buf rest).trailers = x.trailers := rfl

theorem readTrailerLines_fits (fuel growthCount : Nat)
    (progress : LineProgress lines start before todo buf parser)
    (stream : buf.readable ++ x.input = todo ++ (linesBehind lines ++ following))
    (enough : 2 * x.input.length + buf.readable.length < fuel) :
    TrailersEnd (SectionFits x.options lines buf.viewSize growthCount start) lines following x
      (readTrailerLines fuel x buf growthCount parser) := by
  induction fuel generalizing x buf growthCount parser lines start before todo with
  | zero => omega
  | succ fuel ih =>
    unfold readTrailerLines
    rcases Nat.lt_or_ge buf.readable.length todo.length with short | long
    · obtain ⟨rest, todo_eq⟩ : ∃ rest, todo = buf.readable ++ rest := by
        refine ⟨todo.drop buf.readable.length, ?_⟩
        have := congrArg (List.take buf.readable.length) stream
        rw [take_left, take_append_of_le_length short.le] at this
        conv_lhs => rw [← take_append_drop buf.readable.length todo]
        rw [← this]
      have more : rest ≠ [] := by
        rintro rfl
        rw [todo_eq] at short
        simp at short
      obtain ⟨parser', run, progress'⟩ := progress.execute_again todo_eq more
      rw [todo_eq, append_assoc, append_cancel_left_eq] at stream
      have parsedAll : (buf.consume buf.readable.length).readable = [] := by
        rw [IoBuf.consume_readable, drop_length]
      simp only [run]
      generalize log_eq : x.logParsed buf (buf.consume buf.readable.length) = y
      have y_input : y.input = x.input := by rw [← log_eq, logParsed_input]
      have y_options : y.options = x.options := by rw [← log_eq, logParsed_options]
      have y_body : y.bodyParser = x.bodyParser := by rw [← log_eq, logParsed_bodyParser]
      have y_trailers : y.trailers = x.trailers := by rw [← log_eq, logParsed_trailers]
      rw [← y_input] at stream enough
      refine TrailersEnd.of_iff
        (show SectionFits y.options lines buf.viewSize growthCount start ↔ _ by rw [y_options])
        y_options y_body y_trailers ?_
      rcases progress'.ensureRoom_fits parsedAll y.options growthCount with
        ⟨fault, room_run, fails⟩ | ⟨buf', growthCount', parser'', start', room_run, progress'', parsedAll', outcome⟩
      · simp only [room_run]
        exact .refused fault _ fails
      simp only [room_run]
      rcases outcome with ⟨full, fails⟩ | ⟨room, same⟩
      · obtain ⟨fault, z, fill_run⟩ := fillParseBuf_full (x := y) full
        simp only [fill_run]
        exact .refused fault _ fails
      · have ending := refill_fits fuel growthCount' progress'' parsedAll' room stream
          (fun y buf progress stream shorter => ih growthCount' progress stream (by omega))
        exact ending.of_iff same rfl rfl rfl
    · obtain ⟨rest, readable_eq⟩ : ∃ rest, buf.readable = todo ++ rest := by
        refine ⟨buf.readable.drop todo.length, ?_⟩
        have := congrArg (List.take todo.length) stream
        rw [take_left, take_append_of_le_length long] at this
        conv_lhs => rw [← take_append_drop todo.length buf.readable]
        rw [this]
      rw [readable_eq, append_assoc, append_cancel_left_eq] at stream
      have rest_eq : (buf.consume todo.length).readable = rest := by
        rw [IoBuf.consume_readable, readable_eq, drop_left]
      have todo_length := length_pos_iff.mpr progress.unfinished
      have current_length : 0 < (currentLine lines).length := by
        rw [progress.line_eq, length_append]; omega
      have inside : start + (currentLine lines).length ≤ buf.viewSize := by
        rw [progress.stop_eq]
        have := buf.data_le
        have := buf.pos_le
        rw [IoBuf.readable_length] at long
        omega
      cases lines with
      | nil =>
        obtain ⟨parser', run⟩ := progress.execute_headerDone readable_eq
        simp only [run]
        refine .read _ _ ⟨_, _, _, .inside (by omega) (by simpa [currentLine] using inside)⟩ ?_ (by simp) rfl rfl
        rw [rest_eq, logParsed_input]
        simpa [linesBehind] using stream
      | cons trailer lines =>
        simp only [currentLine] at inside current_length
        obtain ⟨parser', run, field, progress'⟩ := progress.execute_ok readable_eq
        simp only [run, IoBuf.consume_data, field]
        have fits_iff := SectionFits.inside_iff x.options lines growthCount (by omega) inside
        by_cases storable : trailer.Storable
        · have added : addField x.trailers trailer.name (fieldValue trailer.value) =
              some (x.trailers ++ [(trailer.name, fieldValue trailer.value)]) := by
            obtain ⟨name_short, value_short⟩ := storable
            rw [addField, if_neg (by omega)]
          simp only [added, logParsed_trailers]
          have behind_eq : linesBehind (trailer :: lines) = currentLine lines ++ linesBehind lines :=
            (currentLine_append_linesBehind lines).symm
          rw [behind_eq, append_assoc] at stream
          generalize next_eq : ({ x.logParsed buf (buf.consume todo.length) with
            trailers := x.trailers ++ [(trailer.name, fieldValue trailer.value)] } : Exchange) = y
          have y_input : y.input = x.input := by rw [← next_eq]; rfl
          have y_options : y.options = x.options := by rw [← next_eq]; rfl
          have y_body : y.bodyParser = x.bodyParser := by rw [← next_eq]; rfl
          have y_trailers : y.trailers = x.trailers ++ [(trailer.name, fieldValue trailer.value)] := by
            rw [← next_eq]
          have readable_length := congrArg List.length readable_eq
          rw [length_append] at readable_length
          have ending := ih (x := y) growthCount progress'
            (by rw [rest_eq, y_input]; exact stream) (by rw [rest_eq, y_input]; omega)
          rw [y_options, IoBuf.consume_viewSize] at ending
          generalize readTrailerLines fuel y (buf.consume todo.length) growthCount parser' = result at ending
          cases ending with
          | read rest' after holds stream' trailers options parser =>
            refine .read rest' after (fits_iff.mpr ⟨storable, holds⟩) stream' ?_ (options.trans y_options)
              (parser.trans y_body)
            rw [trailers, y_trailers, map_cons, append_assoc, singleton_append]
          | refused fault after fails =>
            exact .refused fault after (fun fits => fails (fits_iff.mp fits).2)
        · have refused : addField x.trailers trailer.name (fieldValue trailer.value) = none := by
            unfold TrailerLine.Storable at storable
            rw [addField, if_pos (by omega)]
          simp only [refused, logParsed_trailers]
          exact .refused _ _ (fun fits => storable (fits_iff.mp fits).1)

end Exchange

end FiberGateway.Http1
