import FiberGateway.Http1.Connection
import FiberGateway.Http1.Trailers

namespace FiberGateway.Http1

open List

/-- What the parser has taken, followed by what it has left, is what the buffer held. -/
theorem IoBuf.take_consume_append (buf : IoBuf) (n : Nat) :
    buf.readable.take ((buf.consume n).pos - buf.pos) ++ (buf.consume n).readable = buf.readable := by
  have pos_le := buf.pos_le
  rw [IoBuf.consume_readable]
  have length_eq := IoBuf.readable_length buf
  have pos_eq : (buf.consume n).pos - buf.pos = min n buf.readable.length := by
    simp only [IoBuf.consume]
    omega
  rcases le_total n buf.readable.length with inside | outside
  · rw [pos_eq, Nat.min_eq_left inside, take_append_drop]
  · rw [pos_eq, Nat.min_eq_right outside, take_length, drop_of_length_le outside, append_nil]

/-- What the connection relies on in a line parser: it takes bytes from the front of the buffer, all of
them if it asks for more, and a buffer that replaces a used-up one holds nothing unread. -/
structure LineParser (Parser : Type) (execute : Parser → IoBuf → ParseCode × Parser × IoBuf)
    (replace : Parser → IoBuf → IoBuf → Except Fault (ParseCode × Parser × IoBuf)) : Prop where
  consumes : ∀ parser buf, ∃ n, (execute parser buf).2.2 = buf.consume n
  again_all : ∀ parser buf, (execute parser buf).1 = .again → (execute parser buf).2.2.readable = []
  replaced : ∀ parser old new parser' new', new.data = [] → replace parser old new = .ok (.ok, parser', new') →
    new'.readable = []

theorem replaced_readable {old new : IoBuf} {start : Nat} (fresh : new.data = [])
    (room : ¬new.writable < old.pos - start) :
    ((new.fill ((old.data.take old.pos).drop start)).consume (old.pos - start)).readable = [] := by
  have moved : ((old.data.take old.pos).drop start).length = old.pos - start := by
    rw [length_drop, length_take, Nat.min_eq_left old.pos_le]
  have pos_eq : new.pos = 0 := by
    have := new.pos_le
    rw [fresh] at this
    simpa using this
  have unread : new.readable = [] := by rw [IoBuf.readable, fresh, drop_nil]
  rw [IoBuf.consume_readable, IoBuf.fill_readable (by omega), unread, nil_append]
  exact drop_of_length_le (by omega)

variable {p stop n growthCount growthCount' fuel : Nat} {data bytes node : List UInt8} {state state' : RequestState} {line line' : RequestLineState}
  {chain rest : IoBufChain}

theorem HeaderLineParser.scan_again_stop {state state' : HeaderState} {line line' : HeaderLineState}
    (run : scan state line p bytes = .again state' line' stop) : stop = p + bytes.length := by
  induction bytes generalizing state line p with
  | nil =>
    simp only [scan, Scan.again.injEq] at run
    rw [← run.2.2]
    rfl
  | cons ch rest ih =>
    simp only [scan] at run
    split at run
    · rw [ih run, length_cons]
      omega
    · cases run
    · cases run
    · cases run

theorem RequestLineParser.scan_again_stop     (run : scan data state line p bytes = .again state' line' stop) : stop = p + bytes.length := by
  induction bytes generalizing state line p with
  | nil =>
    simp only [scan, Scan.again.injEq] at run
    rw [← run.2.2]
    rfl
  | cons ch rest ih =>
    simp only [scan] at run
    split at run
    · rw [ih run, length_cons]
      omega
    · cases run
    · cases run

/-- A failing byte never asks for more input. -/
def RequestLineParser.Jump.Proper : Jump → Prop
  | .fail code => code ≠ .again
  | _ => True

theorem RequestLineParser.proper_ite {condition : Prop} [Decidable condition] {yes no : Jump}
    (properYes : yes.Proper) (properNo : no.Proper) : (if condition then yes else no).Proper := by
  split
  · exact properYes
  · exact properNo

theorem RequestLineParser.step_proper (data : List UInt8) (state : RequestState) (line : RequestLineState) (p : Nat)
    (ch : UInt8) : (step data state line p ch).Proper := by
  cases state <;> simp [step, expect, stepHost, stepHostEnd, stepHostIpLiteral, afterAuthority, stepAfterSlashInUri, stepCheckUri, stepUri]
  all_goals
    repeat' apply proper_ite
    all_goals simp [Jump.Proper]

theorem RequestLineParser.scan_fail {code : ParseCode} (run : scan data state line p bytes = .fail code) :
    code ≠ .again := by
  induction bytes generalizing state line p with
  | nil => cases run
  | cons ch rest ih =>
    simp only [scan] at run
    split at run
    · exact ih run
    · cases run
    rename_i move
    cases run
    have proper := step_proper data state line p ch
    rwa [move] at proper

theorem consume_zero (buf : IoBuf) : buf.consume 0 = buf := by
  obtain ⟨data, pos, viewSize, pos_le, data_le⟩ := buf
  simp only [IoBuf.consume, Nat.add_zero, Nat.min_eq_left pos_le]

theorem consume_all_readable (buf : IoBuf) : (buf.consume buf.readable.length).readable = [] := by
  rw [IoBuf.consume_readable, drop_length]

theorem HeaderLineParser.lineParser : LineParser HeaderLineParser execute replaceBufPtr where
  consumes parser buf := by
    unfold execute
    split
    · exact ⟨0, (consume_zero buf).symm⟩
    split
    · exact ⟨_, rfl⟩
    · exact ⟨_, rfl⟩
    · exact ⟨_, rfl⟩
    · exact ⟨0, (consume_zero buf).symm⟩
  again_all parser buf code := by
    unfold execute at code ⊢
    split
    · assumption
    rename_i nonempty
    rw [if_neg nonempty] at code
    split
    · rename_i run
      have stop := scan_again_stop run
      rw [stop, Nat.add_sub_cancel_left]
      exact consume_all_readable buf
    all_goals
      rename_i run
      simp [run] at code
  replaced parser old new parser' new' fresh run := by
    unfold replaceBufPtr at run
    split at run
    · cases run
    split at run
    · cases run
    split at run
    · cases run
    rename_i room
    simp only [Except.ok.injEq, Prod.mk.injEq] at run
    rw [← run.2.2]
    exact replaced_readable fresh room

theorem RequestLineParser.lineParser : LineParser RequestLineParser execute replaceBufPtr where
  consumes parser buf := by
    unfold execute
    split
    · exact ⟨0, (consume_zero buf).symm⟩
    split
    · exact ⟨_, rfl⟩
    · exact ⟨_, rfl⟩
    · exact ⟨0, (consume_zero buf).symm⟩
  again_all parser buf code := by
    unfold execute at code ⊢
    split
    · assumption
    rename_i nonempty
    rw [if_neg nonempty] at code
    split
    · rename_i run
      have stop := scan_again_stop run
      rw [stop, Nat.add_sub_cancel_left]
      exact consume_all_readable buf
    · rename_i run
      simp only [run] at code
      unfold finishLine at code
      split at code
      · cases code
      · split at code <;> cases code
    · rename_i run
      simp only [run] at code
      exact absurd code (scan_fail run)
  replaced parser old new parser' new' fresh run := by
    unfold replaceBufPtr at run
    split at run
    · cases run
    split at run
    · cases run
    split at run
    · cases run
    rename_i room
    simp only [Except.ok.injEq, Prod.mk.injEq] at run
    rw [← run.2.2]
    exact replaced_readable fresh room

theorem drainChain_flatten (chain : IoBufChain) (room : Nat) :
    (drainChain chain room).1 ++ (drainChain chain room).2.flatten = chain.flatten := by
  fun_induction drainChain chain room with
  | case1 => rfl
  | case2 => rfl
  | case3 node rest room open_ inside =>
    simp [← append_assoc]
  | case4 node rest room open_ outside bytes chain eq ih =>
    simp only [eq] at ih
    rw [append_assoc, ih, flatten_cons]

theorem drainChain_length_le (chain : IoBufChain) (room : Nat) : (drainChain chain room).1.length ≤ room := by
  fun_induction drainChain chain room with
  | case1 => exact Nat.zero_le _
  | case2 => exact Nat.zero_le _
  | case3 node rest room open_ inside => simp
  | case4 node rest room open_ outside bytes chain eq ih =>
    simp only [eq] at ih
    simp only [length_append]
    omega

/-- A node of which a part is taken stays in the chain with the rest of its bytes. -/
theorem nonempty_drop (nonempty : [] ∉ node :: rest)
    (inside : n < node.length) : [] ∉ node.drop n :: rest := by
  simp only [mem_cons, not_or] at nonempty ⊢
  refine ⟨fun empty => ?_, nonempty.2⟩
  have := drop_eq_nil_iff.mp empty.symm
  omega

theorem drainChain_nonempty (nonempty : [] ∉ chain) (room : Nat) : [] ∉ (drainChain chain room).2 := by
  fun_induction drainChain chain room with
  | case1 => exact nonempty
  | case2 => exact nonempty
  | case3 node rest room open_ inside => exact nonempty_drop nonempty inside
  | case4 node rest room open_ outside bytes chain eq ih =>
    simp only [eq] at ih
    exact ih (fun member => nonempty (mem_cons_of_mem _ member))

theorem drainChain_eq_nil (room : Nat) (nonempty : [] ∉ chain) (positive : 0 < room)
    (none_moved : (drainChain chain room).1 = []) : chain = [] := by
  cases chain with
  | nil => rfl
  | cons node rest =>
    simp only [mem_cons, not_or] at nonempty
    simp only [drainChain, if_neg (show ¬(room = 0 ∨ node = []) by
      rintro (zero | empty)
      · omega
      · exact nonempty.1 empty.symm)] at none_moved
    split at none_moved
    · have := congrArg List.length none_moved
      simp only [length_take, length_nil] at this
      have := length_pos_iff.mpr (Ne.symm nonempty.1)
      omega
    · exact absurd (append_eq_nil_iff.mp none_moved).1 (Ne.symm nonempty.1)

namespace Connection

/-- Everything received and still to come, in order, with the unread bytes of a parse buffer in their
place between what has been consumed and what is still queued. -/
def stream (c : Connection) (unread : List UInt8) : List UInt8 :=
  c.consumed ++ unread ++ c.inbound.flatten ++ c.transport.bytes

@[simp] theorem dropParseBuf_stream (c : Connection) (buf : IoBuf) :
    (c.dropParseBuf buf).stream [] = c.stream buf.readable := by
  simp [stream, dropParseBuf]

theorem logParsed_stream (c : Connection) (buf : IoBuf) (n : Nat) :
    (c.logParsed buf (buf.consume n)).stream (buf.consume n).readable = c.stream buf.readable := by
  simp only [stream, logParsed]
  rw [append_assoc c.consumed, IoBuf.take_consume_append]

/-- The bytes that a connection and a parse buffer account for are those of another such pair. -/
structure Carries (c : Connection) (unread : List UInt8) (c' : Connection) (unread' : List UInt8) : Prop where
  stream_eq : c'.stream unread' = c.stream unread
  nonempty : [] ∉ c.inbound → [] ∉ c'.inbound

variable {c c' c'' : Connection} {unread unread' unread'' : List UInt8}

theorem Carries.trans (first : Carries c unread c' unread')
    (second : Carries c' unread' c'' unread'') : Carries c unread c'' unread'' :=
  ⟨second.stream_eq.trans first.stream_eq, fun nonempty => second.nonempty (first.nonempty nonempty)⟩

theorem Carries.drop (c : Connection) (buf : IoBuf) : Carries c buf.readable (c.dropParseBuf buf) [] :=
  ⟨dropParseBuf_stream c buf, id⟩

theorem Carries.log (c : Connection) (buf : IoBuf) (n : Nat) :
    Carries c buf.readable (c.logParsed buf (buf.consume n)) (buf.consume n).readable :=
  ⟨logParsed_stream c buf n, id⟩

/-- A parsing step keeps the bytes: with the buffer it yields, or with nothing unread if it stops. -/
def Keeps {α : Type} (c : Connection) (unread : List UInt8) : Except Stop (IoBuf × α) × Connection → Prop
  | (.ok (rest, _), c') => Carries c unread c' rest.readable
  | (.error _, c') => Carries c unread c' []

theorem Carries.keeps {α : Type} {result : Except Stop (IoBuf × α) × Connection}
    (first : Carries c unread c' unread') (second : c'.Keeps unread' result) : c.Keeps unread result := by
  obtain ⟨outcome, c''⟩ := result
  cases outcome with
  | error stop => exact first.trans second
  | ok value => exact first.trans second

theorem fillParseBuf_carries (nonempty : [] ∉ c.inbound) (buf : IoBuf) :
    match c.fillParseBuf buf with
    | (.ok filled, c') => Carries c buf.readable c' filled.readable
    | (.error _, c') => Carries c buf.readable c' buf.readable := by
  have drained := drainChain_flatten c.inbound buf.writable
  have fits := drainChain_length_le c.inbound buf.writable
  have kept := drainChain_nonempty nonempty buf.writable
  have none_left := drainChain_eq_nil buf.writable nonempty
  unfold fillParseBuf drainInbound
  generalize drainChain c.inbound buf.writable = drain at drained fits kept none_left
  obtain ⟨bytes, chain⟩ := drain
  simp only at drained fits kept none_left ⊢
  cases bytes with
  | nil =>
    have same : buf.fill [] = buf := by simp [IoBuf.fill]
    simp only [length_nil, same]
    simp only [nil_append] at drained
    have stays : Carries c buf.readable { c with inbound := chain } buf.readable :=
      ⟨by simp [stream, drained], fun _ => kept⟩
    have read_fits := c.transport.read_length_le buf.writable
    have read_bytes := c.transport.read_bytes buf.writable
    generalize c.transport.read buf.writable = read at read_fits read_bytes
    obtain ⟨bytes, transport⟩ := read
    cases bytes with
    | nil => exact stays
    | cons byte bytes =>
      simp only at read_fits read_bytes ⊢
      have room : 0 < buf.writable := lt_of_lt_of_le (by simp) read_fits
      have empty := none_left room rfl
      rw [empty, flatten_nil] at drained
      refine ⟨?_, fun _ => kept⟩
      rw [IoBuf.fill_readable read_fits]
      simp [stream, empty, drained, ← read_bytes]
  | cons byte bytes =>
    simp only [length_cons]
    refine ⟨?_, fun _ => kept⟩
    rw [IoBuf.fill_readable fits]
    simp [stream, ← drained]

end Connection

section Refill

variable {Parser : Type} {execute : Parser → IoBuf → ParseCode × Parser × IoBuf}
  {replace : Parser → IoBuf → IoBuf → Except Fault (ParseCode × Parser × IoBuf)}

variable {buf room : IoBuf}

theorem LineParser.ensureRoom_readable (lawful : LineParser Parser execute replace) {options : HttpServerOptions}
    {parser parser' : Parser} (parsedAll : buf.readable = [])
    (run : ensureRoom replace options buf growthCount parser = .ok (room, growthCount', parser')) :
    room.readable = [] := by
  unfold ensureRoom at run
  split at run
  · split at run
    · cases run
    · rename_i grown _ grow
      simp only [Except.ok.injEq, Prod.mk.injEq] at run
      rw [← run.1]
      unfold growBuffer at grow
      simp only at grow
      split at grow
      · cases grow
      split at grow
      · cases grow
      rename_i next allocated
      split at grow
      · cases grow
      · rename_i moved
        simp only [Except.ok.injEq, Prod.mk.injEq] at grow
        rw [← grow.1]
        exact lawful.replaced _ _ _ _ _ (IoBuf.allocate_eq_some allocated).1 moved
      · cases grow
      · cases grow
  · simp only [Except.ok.injEq, Prod.mk.injEq] at run
    rw [← run.1]
    exact parsedAll

theorem LineParser.refill_keeps (lawful : LineParser Parser execute replace) {c : Connection}
    (nonempty : [] ∉ c.inbound) (parsedAll : buf.readable = []) (growthCount : Nat) (parser : Parser) :
    c.Keeps buf.readable (c.refill replace buf growthCount parser) := by
  unfold Connection.refill
  cases room_eq : ensureRoom replace c.options buf growthCount parser with
  | error fault => exact .drop c buf
  | ok result =>
    obtain ⟨room, growthCount', parser'⟩ := result
    have same : buf.readable = room.readable := by
      rw [parsedAll, lawful.ensureRoom_readable parsedAll room_eq]
    have filled := Connection.fillParseBuf_carries nonempty room
    rw [same]
    simp only
    generalize c.fillParseBuf room = fill at filled
    obtain ⟨result, c'⟩ := fill
    cases result with
    | error fault => exact filled.trans (.drop c' room)
    | ok buf' => exact filled

end Refill

namespace Connection

variable {c : Connection}

theorem readRequestLine_keeps (fuel : Nat) (nonempty : [] ∉ c.inbound) (buf : IoBuf) (growthCount : Nat)
    (parser : RequestLineParser) : c.Keeps buf.readable (readRequestLine fuel c buf growthCount parser) := by
  induction fuel generalizing c buf growthCount parser with
  | zero => exact .drop c buf
  | succ fuel ih =>
    obtain ⟨n, consumed⟩ := RequestLineParser.lineParser.consumes parser buf
    have all := RequestLineParser.lineParser.again_all parser buf
    unfold readRequestLine
    generalize parser.execute buf = result at consumed all
    obtain ⟨code, parser', rest⟩ := result
    simp only at consumed all
    subst consumed
    have logged := Carries.log c buf n
    simp only
    split
    · refine logged.keeps ?_
      have refilled := RequestLineParser.lineParser.refill_keeps (c := c.logParsed buf (buf.consume n))
        nonempty (all rfl) growthCount parser'
      generalize (c.logParsed buf (buf.consume n)).refill RequestLineParser.replaceBufPtr (buf.consume n) growthCount
        parser' = refill at refilled
      obtain ⟨result, c'⟩ := refill
      cases result with
      | error stop => exact refilled
      | ok filled => exact Carries.keeps refilled (ih (refilled.nonempty nonempty) _ _ _)
    · exact logged
    · exact logged.trans (.drop _ _)

theorem readHeaders_keeps (nonempty : [] ∉ c.inbound) (buf : IoBuf) (growthCount : Nat)
    (parser : HeaderLineParser) (request : Request) :
    c.Keeps buf.readable (readHeaders fuel c buf growthCount parser request) := by
  induction fuel generalizing c buf growthCount parser request with
  | zero => exact .drop c buf
  | succ fuel ih =>
    obtain ⟨n, consumed⟩ := HeaderLineParser.lineParser.consumes parser buf
    have all := HeaderLineParser.lineParser.again_all parser buf
    unfold readHeaders
    generalize parser.execute buf = result at consumed all
    obtain ⟨code, parser', rest⟩ := result
    simp only at consumed all
    subst consumed
    have logged := Carries.log c buf n
    simp only
    split
    · refine logged.keeps ?_
      have refilled := HeaderLineParser.lineParser.refill_keeps (c := c.logParsed buf (buf.consume n))
        nonempty (all rfl) growthCount parser'
      generalize (c.logParsed buf (buf.consume n)).refill HeaderLineParser.replaceBufPtr (buf.consume n) growthCount
        parser' = refill at refilled
      obtain ⟨result, c'⟩ := refill
      cases result with
      | error stop => exact refilled
      | ok filled => exact Carries.keeps refilled (ih (refilled.nonempty nonempty) _ _ _ _)
    · split
      · exact logged.trans (.drop _ _)
      · exact logged.keeps (ih (c := c.logParsed buf (buf.consume n)) nonempty _ _ _ _)
    · exact logged
    · exact logged.trans (.drop _ _)

theorem parseHead_keeps (nonempty : [] ∉ c.inbound) : c.Keeps [] c.parseHead := by
  unfold parseHead
  cases allocated : IoBuf.allocate c.options.headerInitSize with
  | none => exact ⟨rfl, id⟩
  | some buf =>
    have unread : buf.readable = [] := by
      rw [IoBuf.readable, (IoBuf.allocate_eq_some allocated).1, drop_nil]
    have line := readRequestLine_keeps (c.parseFuel buf) nonempty buf 0 {}
    rw [unread] at line
    simp only
    generalize readRequestLine (c.parseFuel buf) c buf 0 {} = first at line
    obtain ⟨result, c'⟩ := first
    cases result with
    | error stop => exact line
    | ok value => exact Carries.keeps line (readHeaders_keeps (line.nonempty nonempty) _ _ _ _)

end Connection

end FiberGateway.Http1
