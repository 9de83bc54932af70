import FiberGateway.Http1.ChunkedBodyParser

namespace FiberGateway.Http1

structure HttpServerOptions where
  headerInitSize : Nat := 8 * 1024
  headerLargeSize : Nat := 32 * 1024
  headerLargeNum : Nat := 4
  drainUnreadBody : Bool := false

/-- `detail::kLowcase`: letters in lower case, digits and the hyphen; zero for every other byte. -/
def kLowcase (ch : UInt8) : UInt8 :=
  if 65 ≤ ch ∧ ch ≤ 90 then ch + 32
  else if (97 ≤ ch ∧ ch ≤ 122) ∨ (48 ≤ ch ∧ ch ≤ 57) ∨ ch = 45 then ch
  else 0

inductive HeaderState
  | start | name | spaceBeforeValue | value | spaceAfterValue | ignoreLine | almostDone
  | headerAlmostDone
  deriving DecidableEq, Repr

def kLowcaseHeaderLen : Nat := 32

/-- Pointers into the parse buffer are offsets from its start, a null pointer is `none`. -/
structure HeaderLineState where
  lowcaseHeader : List UInt8 := List.replicate kLowcaseHeaderLen 0
  headerNameStart : Option Nat := none
  headerNameEnd : Option Nat := none
  headerStart : Option Nat := none
  headerEnd : Option Nat := none
  invalidHeader : Bool := false
  headerHash : UInt32 := 0
  lowcaseIndex : Nat := 0

/-- The pointers of a line that moves from one offset to another. -/
def HeaderLineState.rebase (line : HeaderLineState) (old new : Nat) : HeaderLineState :=
  let shift : Option Nat → Option Nat := Option.map (· - old + new)
  { line with
    headerNameStart := shift line.headerNameStart
    headerNameEnd := shift line.headerNameEnd
    headerStart := shift line.headerStart
    headerEnd := shift line.headerEnd }

structure HeaderLineParser where
  state : HeaderState := .start
  line : HeaderLineState := {}

namespace HeaderLineParser

inductive Jump
  | next (state : HeaderState) (line : HeaderLineState)
  | done (line : HeaderLineState)
  | headerDone (line : HeaderLineState)
  | invalid (line : HeaderLineState)

/-- Append one name byte to the hash and to the folded copy of the name, which wraps around. -/
def noteName (line : HeaderLineState) (c : UInt8) : HeaderLineState :=
  { line with
    headerHash := line.headerHash * 31 + c.toUInt32
    lowcaseHeader := line.lowcaseHeader.set line.lowcaseIndex c
    lowcaseIndex := (line.lowcaseIndex + 1) % kLowcaseHeaderLen }

/-- One byte of a header line, at offset `p` of the buffer. -/
def step (state : HeaderState) (line : HeaderLineState) (p : Nat) (ch : UInt8) : Jump :=
  match state with
  | .start =>
    let line := { line with
      headerHash := 0, lowcaseIndex := 0, headerNameStart := some p, headerNameEnd := none,
      headerStart := none, headerEnd := none, invalidHeader := false }
    if ch = cr then .next .headerAlmostDone { line with headerEnd := some p }
    else if ch = lf then .headerDone { line with headerEnd := some p }
    else if kLowcase ch ≠ 0 then .next .name (noteName line (kLowcase ch))
    else if ch = 95 then .next .name (noteName line ch)
    else if ch ≤ 0x20 ∨ ch = 0x7f ∨ ch = colon then .invalid { line with headerEnd := some p }
    else .next .name { line with invalidHeader := true }
  | .name =>
    if kLowcase ch ≠ 0 then .next .name (noteName line (kLowcase ch))
    else if ch = 95 then .next .name (noteName line ch)
    else if ch = colon then .next .spaceBeforeValue { line with headerNameEnd := some p }
    else if ch = cr then
      .next .almostDone { line with
        headerNameEnd := some p, headerStart := some p, headerEnd := some p }
    else if ch = lf then
      .done { line with headerNameEnd := some p, headerStart := some p, headerEnd := some p }
    else if ch ≤ 0x20 ∨ ch = 0x7f then .invalid { line with headerEnd := some p }
    else .next .name { line with invalidHeader := true }
  | .spaceBeforeValue =>
    if ch = space then .next .spaceBeforeValue line
    else if ch = cr then .next .almostDone { line with headerStart := some p, headerEnd := some p }
    else if ch = lf then .done { line with headerStart := some p, headerEnd := some p }
    else if ch = 0 then .invalid { line with headerEnd := some p }
    else .next .value { line with headerStart := some p }
  | .value =>
    if ch = space then .next .spaceAfterValue { line with headerEnd := some p }
    else if ch = cr then .next .almostDone { line with headerEnd := some p }
    else if ch = lf then .done { line with headerEnd := some p }
    else if ch = 0 then .invalid { line with headerEnd := some p }
    else .next .value line
  | .spaceAfterValue =>
    if ch = space then .next .spaceAfterValue line
    else if ch = cr then .next .almostDone line
    else if ch = lf then .done line
    else if ch = 0 then .invalid { line with headerEnd := some p }
    else .next .value line
  | .ignoreLine => if ch = lf then .next .start line else .next .ignoreLine line
  | .almostDone => if ch = lf then .done line else .invalid line
  | .headerAlmostDone => if ch = lf then .headerDone line else .invalid line

inductive Scan
  | again (state : HeaderState) (line : HeaderLineState) (p : Nat)
  | done (line : HeaderLineState) (p : Nat)
  | headerDone (line : HeaderLineState) (p : Nat)
  | invalid (line : HeaderLineState)

def scan (state : HeaderState) (line : HeaderLineState) (p : Nat) : List UInt8 → Scan
  | [] => .again state line p
  | ch :: rest =>
    match step state line p ch with
    | .next state' line' => scan state' line' (p + 1) rest
    | .done line' => .done line' (p + 1)
    | .headerDone line' => .headerDone line' (p + 1)
    | .invalid line' => .invalid line'

/-- Only the exits that store the running hash and index keep them. -/
def keepHash (old line : HeaderLineState) : HeaderLineState :=
  { line with headerHash := old.headerHash, lowcaseIndex := old.lowcaseIndex }

def execute (parser : HeaderLineParser) (buf : IoBuf) : ParseCode × HeaderLineParser × IoBuf :=
  if buf.readable = [] then (.again, parser, buf)
  else
    match scan parser.state parser.line buf.pos buf.readable with
    | .again state line p => (.again, ⟨state, line⟩, buf.consume (p - buf.pos))
    | .done line p => (.ok, ⟨.start, line⟩, buf.consume (p - buf.pos))
    | .headerDone line p =>
      (.headerDone, ⟨.start, keepHash parser.line line⟩, buf.consume (p - buf.pos))
    | .invalid line => (.invalidHeader, ⟨parser.state, keepHash parser.line line⟩, buf)

/-- The part of the old buffer from the current line on moves to the front of the new one, and
every pointer into the line moves with it. -/
def replaceBufPtr (parser : HeaderLineParser) (old new : IoBuf) :
    Except Fault (ParseCode × HeaderLineParser × IoBuf) :=
  match parser.line.headerNameStart with
  | none => .error .assertion
  | some start =>
    if parser.state = .start ∨ old.pos ≤ start then .error .assertion
    else if new.writable < old.pos - start then .ok (.headerTooLarge, parser, new)
    else
      .ok (.ok, { parser with line := parser.line.rebase start new.data.length },
        (new.fill ((old.data.take old.pos).drop start)).consume (old.pos - start))

end HeaderLineParser

def nextHeaderCapacity (options : HttpServerOptions) (currentCapacity growthCount : Nat) : Nat :=
  if currentCapacity = 0 then options.headerInitSize
  else if growthCount ≥ options.headerLargeNum then 0
  else if options.headerLargeSize > kMaxSize - currentCapacity then 0
  else currentCapacity + options.headerLargeSize

/-- The buffer that takes the place of a full one, and the parser whose pointers now lead into it.
`replace` is the parser's `replace_buf_ptr`. -/
def growBuffer {Parser : Type} (replace : Parser → IoBuf → IoBuf → Except Fault (ParseCode × Parser × IoBuf))
    (options : HttpServerOptions) (buffer : IoBuf) (growthCount : Nat) (parser : Parser) :
    Except Fault (IoBuf × Parser) :=
  let nextCapacity := nextHeaderCapacity options buffer.capacity growthCount
  if nextCapacity = 0 then .error (.io .noMem)
  else
    match IoBuf.allocate nextCapacity with
    | none => .error (.io .noMem)
    | some next =>
      match replace parser buffer next with
      | .error fault => .error fault
      | .ok (.ok, parser, next) => .ok (next, parser)
      | .ok (.headerTooLarge, _, _) => .error (.io .invalid)
      | .ok _ => .error (.io .noMem)

/-- A full buffer grows before more input is put into it. -/
def ensureRoom {Parser : Type} (replace : Parser → IoBuf → IoBuf → Except Fault (ParseCode × Parser × IoBuf))
    (options : HttpServerOptions) (buffer : IoBuf) (growthCount : Nat) (parser : Parser) :
    Except Fault (IoBuf × Nat × Parser) :=
  if buffer.writable = 0 then
    match growBuffer replace options buffer growthCount parser with
    | .error fault => .error fault
    | .ok (grown, parser) => .ok (grown, growthCount + 1, parser)
  else .ok (buffer, growthCount, parser)

end FiberGateway.Http1
