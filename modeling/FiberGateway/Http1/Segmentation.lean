import FiberGateway.Http1.Trailers

namespace FiberGateway.Http1

open List

namespace Exchange

variable {options : HttpServerOptions} {lines : List TrailerLine} {following : List UInt8} {x : Exchange}

theorem parseTrailers_fits
    (ahead : x.AtTrailers options ((lines.map TrailerLine.encode).flatten ++ [cr, lf] ++ following)) :
    (TrailersFit options lines ∧ ∃ rest after, x.parseTrailers = (.ok rest, after)) ∨
      ¬TrailersFit options lines ∧ ∃ fault after, x.parseTrailers = (.error fault, after) := by
  unfold parseTrailers
  rw [ahead.options_eq]
  cases allocated : IoBuf.allocate options.headerInitSize with
  | none =>
    refine .inr ⟨fun fits => ?_, _, _, rfl⟩
    have positive := fits.2.start_lt
    have bound := fits.1
    rw [IoBuf.allocate, if_neg (by omega), if_neg (by omega)] at allocated
    cases allocated
  | some buf =>
    have bounded : options.headerInitSize ≤ kMaxSize - IoBuf.controlBlockSize := by
      by_contra large
      simp only [IoBuf.allocate] at allocated
      split at allocated
      · cases allocated
      · rw [if_pos (by omega)] at allocated
        cases allocated
    obtain ⟨data_eq, pos_eq, view_eq, -⟩ := IoBuf.allocate_eq_some allocated
    have readable_eq : buf.readable = [] := by rw [IoBuf.readable, data_eq, drop_nil]
    have progress : LineProgress lines 0 [] (currentLine lines) buf {} := by
      refine ⟨rfl, ?_, by rw [pos_eq]; rfl, by rw [pos_eq, data_eq]; rfl, {}, by rw [pos_eq]; rfl⟩
      cases lines <;> simp [currentLine, TrailerLine.encode]
    have stream : buf.readable ++ x.input = currentLine lines ++ (linesBehind lines ++ following) := by
      rw [readable_eq, nil_append, ahead.input_eq, ← currentLine_append_linesBehind, append_assoc]
    have ending := readTrailerLines_fits x.trailerFuel 0 progress stream
      (by rw [readable_eq]; simp [trailerFuel])
    rw [view_eq, ahead.options_eq] at ending
    simp only
    generalize readTrailerLines x.trailerFuel x buf 0 {} = result at ending
    cases ending with
    | read rest after fits => exact .inl ⟨⟨bounded, fits⟩, rest, after, rfl⟩
    | refused fault after fails =>
      exact .inr ⟨fun fits => fails fits.2, fault, after, rfl⟩

/-- How a call in the middle of a valid body can end. -/
inductive CallEnd (options : HttpServerOptions) (payload : List UInt8) (lines : List TrailerLine)
    (following : List UInt8) (x : Exchange) : Except Fault BodyChunk × Exchange → Prop
  | chunk (after : Exchange) (data rest : List UInt8) : payload = data ++ rest →
      after.Awaits options rest ((lines.map TrailerLine.encode).flatten ++ [cr, lf] ++ following) →
      after.input.length < x.input.length →
      CallEnd options payload lines following x (.ok ⟨false, data⟩, after)
  | last (after : Exchange) : TrailersFit options lines →
      CallEnd options payload lines following x (.ok ⟨true, payload⟩, after)
  | refused (fault : Fault) (after : Exchange) : ¬TrailersFit options lines →
      CallEnd options payload lines following x (.error fault, after)

/-- The call starts between the digits and the line end of a chunk's size line. -/
def StartsInsideSizeLine (x : Exchange) : Prop :=
  InsideSizeLine x.bodyParser.chunkedParser.state x.bodyParser.chunkedParser.size

instance (x : Exchange) : Decidable x.StartsInsideSizeLine :=
  inferInstanceAs (Decidable (InsideSizeLine _ _))

variable {payload : List UInt8}

/-- A call that does not start inside a size line returns the next part of the body. -/
theorem readBody_decodes {maxBytes : Nat}
    (waits : x.Awaits options payload ((lines.map TrailerLine.encode).flatten ++ [cr, lf] ++ following))
    (outside : ¬x.StartsInsideSizeLine) (room : 0 < maxBytes) :
    CallEnd options payload lines following x (x.readBody maxBytes) := by
  unfold readBody readBodyStep
  rw [if_neg (by simp [waits.opened]), if_neg room.ne']
  simp only [waits.chunked, if_true]
  generalize fresh_eq : ({ x with readCallUsedIo := false } : Exchange) = y
  have input_same : y.input = x.input := by rw [← fresh_eq]; rfl
  have waits' : y.Awaits options payload ((lines.map TrailerLine.encode).flatten ++ [cr, lf] ++ following) := by
    subst fresh_eq
    exact ⟨waits.options_eq, waits.chunked, waits.opened, waits.decodes⟩
  have unused : y.readCallUsedIo = false := by rw [← fresh_eq]
  have outside' : ¬InsideSizeLine y.bodyParser.chunkedParser.state y.bodyParser.chunkedParser.size := by
    subst fresh_eq
    exact outside
  have ending := readChunked_decodes y.readFuel [] waits' outside' room
    (Nat.lt_succ_self _)
  generalize readChunked y.readFuel y maxBytes [] = result at ending
  cases ending with
  | chunk after data rest split_eq waits'' le lt =>
    exact .chunk after data rest split_eq waits'' (input_same ▸ lt unused)
  | trailers after ahead =>
    rcases parseTrailers_fits ahead with ⟨fits, rest, after', run⟩ | ⟨fails, fault, after', run⟩
    · simp only [run, nil_append]
      exact .last _ fits
    · simp only [run]
      exact .refused fault after' fails

/-- Up to `n` successive calls, up to the one with `last`: the data they return, and whether the last
one was among them. -/
def readBodies : Nat → (Nat → Nat) → Exchange → Except Fault (List UInt8 × Bool)
  | 0, _, _ => .ok ([], false)
  | n + 1, budgets, x =>
    match x.readBody (budgets 0) with
    | (.error fault, _) => .error fault
    | (.ok chunk, x) =>
      if chunk.last then .ok (chunk.data, true)
      else
        match readBodies n (fun i => budgets (i + 1)) x with
        | .error fault => .error fault
        | .ok (data, last) => .ok (chunk.data ++ data, last)

/-- The exchange as call number `k` finds it, if the calls come that far. -/
def beforeCall : Nat → (Nat → Nat) → Exchange → Option Exchange
  | 0, _, x => some x
  | k + 1, budgets, x =>
    match x.readBody (budgets 0) with
    | (.ok chunk, x) => if chunk.last then none else beforeCall k (fun i => budgets (i + 1)) x
    | (.error _, _) => none

/-- The calls end with `last`, without an error, and return exactly the payload. -/
def ReadsBody (x : Exchange) (budgets : Nat → Nat) (payload : List UInt8) : Prop :=
  ∃ n, x.readBodies n budgets = .ok (payload, true)

/-- The exchange is in front of a chunked body, however much of it has been received. -/
structure AtBody (options : HttpServerOptions) (body : ChunkedBody) (following : List UInt8) (x : Exchange) :
    Prop where
  options_eq : x.options = options
  parser_eq : x.bodyParser = .setChunked
  input_eq : x.input = body.encode ++ following

theorem AtBody.awaits {body : ChunkedBody} (ahead : x.AtBody options body following) :
    x.Awaits options body.payload (body.trailerSection ++ following) := by
  refine ⟨ahead.options_eq, by rw [ahead.parser_eq]; rfl, by rw [ahead.parser_eq]; rfl, ?_⟩
  rw [ahead.parser_eq, ahead.input_eq]
  exact body.decodes following

/-- Calls that never start inside a size line read the body if the trailers fit. -/
theorem Awaits.readsBody_iff {budgets : Nat → Nat}
    (waits : x.Awaits options payload ((lines.map TrailerLine.encode).flatten ++ [cr, lf] ++ following))
    (room : ∀ k, 0 < budgets k) (outside : ∀ k y, x.beforeCall k budgets = some y → ¬y.StartsInsideSizeLine) :
    x.ReadsBody budgets payload ↔ TrailersFit options lines := by
  induction length_eq : x.input.length using Nat.strong_induction_on generalizing x payload budgets with
  | _ length ih =>
    have ending := readBody_decodes waits (outside 0 x rfl) (room 0)
    have step : ∀ k, x.beforeCall (k + 1) budgets =
        match x.readBody (budgets 0) with
        | (.ok chunk, x) => if chunk.last then none else beforeCall k (fun i => budgets (i + 1)) x
        | (.error _, _) => none := fun k => rfl
    have unfold_reads : ∀ n, x.readBodies (n + 1) budgets =
        match x.readBody (budgets 0) with
        | (.error fault, _) => .error fault
        | (.ok chunk, x) =>
          if chunk.last then .ok (chunk.data, true)
          else
            match readBodies n (fun i => budgets (i + 1)) x with
            | .error fault => .error fault
            | .ok (data, last) => .ok (chunk.data ++ data, last) := fun n => rfl
    generalize x.readBody (budgets 0) = result at ending step unfold_reads
    have positive : ∀ {n}, x.readBodies n budgets = .ok (payload, true) → ∃ m, n = m + 1 := by
      intro n run
      cases n with
      | zero => simp [readBodies] at run
      | succ m => exact ⟨m, rfl⟩
    cases ending with
    | chunk after data rest split_eq waits' shorter =>
      simp only [Bool.false_eq_true, if_false] at step unfold_reads
      have rest_iff := ih after.input.length (length_eq ▸ shorter) waits' (fun k => room (k + 1))
        (fun k y found => outside (k + 1) y ((step k).trans found)) rfl
      rw [← rest_iff, split_eq]
      constructor
      · rintro ⟨n, run⟩
        obtain ⟨m, rfl⟩ := positive (split_eq ▸ run)
        rw [unfold_reads] at run
        refine ⟨m, ?_⟩
        split at run
        · cases run
        rename_i more last more_run
        simp only [Except.ok.injEq, Prod.mk.injEq, append_cancel_left_eq] at run
        rw [more_run, run.1, run.2]
      · rintro ⟨m, run⟩
        exact ⟨m + 1, by rw [unfold_reads, run]⟩
    | last after fits => exact ⟨fun _ => fits, fun _ => ⟨1, unfold_reads 0⟩⟩
    | refused fault after fails =>
      refine ⟨fun ⟨n, run⟩ => ?_, fun fits => absurd fits fails⟩
      obtain ⟨m, rfl⟩ := positive run
      rw [unfold_reads] at run
      cases run

end Exchange

variable {size digit k : Nat}

theorem appendHexDigit_zero (run : appendHexDigit size digit = some 0) : size = 0 := by
  unfold appendHexDigit at run
  split at run
  · cases run
  · simp only [Option.some.injEq] at run
    omega

variable {state state' : ChunkState}

theorem ChunkedBodyParser.step_zero {ch : UInt8} (coherent : Coherent state size)
    (outside : state ≠ .chunkData) (move : step state size ch = .next state' 0) : size = 0 := by
  cases state <;> simp only [step, Coherent, ne_eq] at move coherent outside
  case chunkSize =>
    split at move
    · split at move
      · rename_i appended
        cases move
        exact appendHexDigit_zero appended
      · cases move
    · by_contra positive
      simp only [positive, if_false] at move
      repeat' split at move
      all_goals simp_all
  all_goals
    repeat' split at move
    all_goals simp_all

theorem Decodes.size_eq_zero {input tail : List UInt8} (run : Decodes state size input [] tail) : size = 0 := by
  generalize payload_eq : ([] : List UInt8) = payload at run
  induction run with
  | data => cases payload_eq
  | dataEnd | finish => rfl
  | next outside coherent bound move run ih =>
    have zero := ih payload_eq
    subst zero
    exact ChunkedBodyParser.step_zero coherent outside move

namespace Exchange

/-- Without data ahead no call can start inside the size line of a chunk. -/
theorem Awaits.outside_of_no_data {options : HttpServerOptions} {lines : List TrailerLine}
    {following : List UInt8} {x : Exchange} {budgets : Nat → Nat}
    (waits : x.Awaits options [] ((lines.map TrailerLine.encode).flatten ++ [cr, lf] ++ following))
    (room : ∀ k, 0 < budgets k) {y : Exchange} (found : x.beforeCall k budgets = some y) :
    ¬y.StartsInsideSizeLine := by
  have outside : ¬x.StartsInsideSizeLine := fun inside => inside.1 waits.decodes.size_eq_zero
  induction k generalizing x budgets with
  | zero =>
    cases found
    exact outside
  | succ k ih =>
    have ending := readBody_decodes waits outside (room 0)
    simp only [beforeCall] at found
    generalize x.readBody (budgets 0) = result at ending found
    cases ending with
    | chunk after data rest split_eq waits' shorter =>
      simp only [Bool.false_eq_true, if_false] at found
      obtain ⟨rfl, rfl⟩ := append_eq_nil_iff.mp split_eq.symm
      exact ih waits' (fun k => room (k + 1)) found (fun inside => inside.1 waits'.decodes.size_eq_zero)
    | last | refused => simp at found

end Exchange

namespace ChunkedBodyParser

variable {start acc value size' stop : Nat}

theorem scan_digits {digits : List UInt8} (run : hexValue acc digits = some value)
    (bound : value ≤ kMaxSize) (more : List UInt8) :
    scan .chunkSize acc start (digits ++ more) = scan .chunkSize value (start + digits.length) more := by
  induction digits generalizing acc start with
  | nil =>
    cases run
    rfl
  | cons ch digits ih =>
    simp only [hexValue] at run
    split at run
    · rename_i digit atDigit
      have upper := hexValue_ge run
      have append : appendHexDigit acc digit = some (acc * 16 + digit) := appendHexDigit_eq_some (by omega)
      simp only [cons_append, scan, step, atDigit, append, ih run, length_cons]
      congr 1
      omega
    · cases run

/-- Behind digits and extension the parser holds the size, still inside the line. -/
theorem scan_sizeLine {line : SizeLine} (positive : line.size ≠ 0) :
    ∃ state, (state = .chunkSize ∨ state = .chunkExtension) ∧ ∀ more, scan .chunkStart 0 0
      (line.digits ++ line.ext ++ more) = scan state line.size (line.digits ++ line.ext).length more := by
  have bound := line.representable.trans (Nat.sub_le _ _)
  have extension : ∃ state, (state = .chunkSize ∨ state = .chunkExtension) ∧ ∀ start more,
      scan .chunkSize line.size start (line.ext ++ more) = scan state line.size (start + line.ext.length) more := by
    have valid := line.extension
    generalize line.ext = ext at valid
    cases ext with
    | nil => exact ⟨.chunkSize, .inl rfl, fun start more => rfl⟩
    | cons first rest =>
      obtain ⟨begins, noCr, noLf⟩ := valid
      obtain ⟨noDigit, notCr, notLf⟩ := isExtensionStart_other begins
      have inside : ∀ start more, scan .chunkExtension line.size start (rest ++ more) =
          scan .chunkExtension line.size (start + rest.length) more := by
        clear begins noDigit notCr notLf
        induction rest with
        | nil => exact fun start more => rfl
        | cons ch rest ih =>
          intro start more
          simp only [mem_cons, not_or] at noCr noLf
          simp only [cons_append, scan, step, Ne.symm noCr.1, Ne.symm noLf.1, if_false,
            ih noCr.2 noLf.2, length_cons]
          congr 1
          omega
      refine ⟨.chunkExtension, .inr rfl, fun start more => ?_⟩
      simp only [cons_append, scan, step, noDigit, positive, notCr, notLf, begins, if_true, if_false, inside,
        length_cons]
      congr 1
      omega
  obtain ⟨state, inLine, ext_scan⟩ := extension
  refine ⟨state, inLine, fun more => ?_⟩
  obtain ⟨first, digits, shape⟩ := exists_cons_of_ne_nil line.digits_nonempty
  have value := line.value
  rw [shape] at value ⊢
  simp only [hexValue] at value
  split at value
  · rename_i digit atDigit
    simp only [Nat.zero_mul, Nat.zero_add] at value
    simp only [cons_append, append_assoc, scan, step, atDigit, scan_digits value bound, ext_scan,
      length_cons, length_append]
    congr 1
    omega
  · cases value

theorem scan_again_append {bytes more : List UInt8}
    (run : scan state size start (bytes ++ more) = .data .again state' size' stop) :
    ∃ state₁ size₁, scan state size start bytes = .data .again state₁ size₁ (start + bytes.length) ∧
      scan state₁ size₁ (start + bytes.length) more = .data .again state' size' stop := by
  induction bytes generalizing state size start with
  | nil => exact ⟨state, size, rfl, run⟩
  | cons ch bytes ih =>
    simp only [cons_append, scan] at run
    cases move : step state size ch with
    | next state₁ size₁ =>
      rw [move] at run
      obtain ⟨state₂, size₂, first, second⟩ := ih run
      refine ⟨state₂, size₂, ?_, ?_⟩
      · simp only [scan, move, first, length_cons]
        congr 1
        omega
      · rw [length_cons, ← second]
        congr 1
        omega
    | data rc state₁ size₁ skip =>
      rw [move] at run
      cases state <;> simp only [step] at move
      all_goals
        repeat' split at move
        all_goals simp_all
    | invalid size₁ =>
      rw [move] at run
      cases run

end ChunkedBodyParser

namespace Exchange

variable {x y : Exchange} {state : ChunkState} {size maxBytes fuel n : Nat} {byte next : UInt8} {rest tail payload : List UInt8}

theorem advanceChunkedBody_parse (front : List UInt8) {allowRead : Bool}
    (found : x.compactInbound.frontBodyInput = some front)
    (run : x.compactInbound.parseFront front = (.again, y, n + 1)) :
    advanceChunkedBody maxBytes (fuel + 1) x allowRead = advanceChunkedBody maxBytes fuel y allowRead := by
  simp [advanceChunkedBody, found, run]

variable {bytes input front : List UInt8} {stop size' start : Nat}

theorem execute_again_of_scan (parser : ChunkedBodyParser)
    (run : ChunkedBodyParser.scan parser.resumeState parser.size 0 bytes = .data .again state size bytes.length)
    (bound : size ≤ kMaxSize - 5) :
    parser.execute bytes =
      (.again, ⟨state, size, ChunkedBodyParser.lengthHint state size⟩, bytes.length) := by
  simp only [ChunkedBodyParser.execute, run, gt_iff_lt, if_neg (Nat.not_lt.mpr bound)]

/-- A call that finds nothing buffered and reads one byte inside a size line returns no data. -/
theorem advanceChunkedBody_one_byte {reads : List (List UInt8)} (fuel : Nat) {after : ChunkedBodyParser}
    (noInbound : x.inbound = [] ∨ x.inbound = [[]]) (noReadBuf : x.readBuf = [])
    (incoming : x.transport.reads = [byte] :: reads) (chunked : x.bodyParser.type = .chunked)
    (opened : x.bodyParser.done = false) (run : x.bodyParser.chunkedParser.execute [byte] = (.again, after, 1)) :
    ∃ y, advanceChunkedBody 1 (fuel + 3) x true = (.ok .again, y) ∧ y.inbound = [] ∧ y.readBuf = [] ∧
      y.transport.reads = reads ∧ y.bodyParser = { x.bodyParser with chunkedParser := after } := by
  obtain ⟨options, ⟨pending, nonempty⟩, inbound, readBuf, bodyParser, used, trailers, complete, consumed⟩ := x
  simp only at noInbound noReadBuf incoming chunked opened run
  subst noReadBuf incoming
  have compact : IoBufChain.dropEmptyFront inbound = [] := by
    rcases noInbound with rfl | rfl <;> rfl
  have rest_nonempty : [] ∉ reads := fun member => nonempty (mem_cons_of_mem _ member)
  have reading : advanceChunkedBody 1 (fuel + 3)
      ⟨options, ⟨[byte] :: reads, nonempty⟩, inbound, [], bodyParser, used, trailers, complete, consumed⟩ true =
      advanceChunkedBody 1 (fuel + 2)
        ⟨options, ⟨reads, rest_nonempty⟩, [], [byte], bodyParser, true, trailers, complete, consumed⟩ false := by
    rw [advanceChunkedBody]
    simp [compactInbound, compact, frontBodyInput, readMore, kMaxDirectBodyRead, Transport.read]
  have parsing : advanceChunkedBody 1 (fuel + 2)
      ⟨options, ⟨reads, rest_nonempty⟩, [], [byte], bodyParser, true, trailers, complete, consumed⟩ false =
      advanceChunkedBody 1 (fuel + 1)
        ⟨options, ⟨reads, rest_nonempty⟩, [], [], { bodyParser with chunkedParser := after }, true, trailers,
          complete, consumed ++ [byte]⟩ false := by
    apply advanceChunkedBody_parse [byte] (n := 0)
    · simp [compactInbound, IoBufChain.dropEmptyFront, frontBodyInput]
    · simp [parseFront, BodyParser.execute_chunked chunked opened, run, compactInbound,
        IoBufChain.dropEmptyFront, consumeFront, opened]
  rw [reading, parsing, advanceChunkedBody]
  exact ⟨_, rfl, rfl, rfl, rfl, rfl⟩

/-- A body whose first size line is cut in front of `rest`, the byte before the cut being the last
one that a call reads. -/
def cutAt (options : HttpServerOptions) (front : List UInt8) (byte : UInt8) (rest : List UInt8)
    (nonempty : rest ≠ []) : Exchange where
  options := options
  transport := ⟨[[byte], rest], by simp [Ne.symm nonempty]⟩
  inbound := [front]
  bodyParser := .setChunked

theorem step_of_scan_singleton     (run : ChunkedBodyParser.scan state size start [byte] = .data .again state' size' stop) :
    ChunkedBodyParser.step state size byte = .next state' size' ∧ state ≠ .chunkData := by
  simp only [ChunkedBodyParser.scan] at run
  split at run
  · rename_i move
    cases run
    refine ⟨move, ?_⟩
    rintro rfl
    simp [ChunkedBodyParser.step] at move
  · rename_i move
    cases state <;> simp only [ChunkedBodyParser.step] at move
    all_goals
      repeat' split at move
      all_goals simp_all
  · cases run

theorem size_le_of_scan_again (decodes : Decodes .chunkStart 0 (input ++ rest) payload tail)
    (run : ChunkedBodyParser.scan .chunkStart 0 0 input = .data .again state size stop) : size ≤ kMaxSize - 5 := by
  have ending := ChunkedBodyParser.scan_decodes 0 decodes (by simp)
  generalize ChunkedBodyParser.scan .chunkStart 0 0 input = result at ending run
  cases ending with
  | again _ _ after =>
    cases run
    exact after.size_le
  | ok | bodyDone => cases run

theorem readBody_cutAt (options : HttpServerOptions) (nonempty : rest ≠ [])
    (decodes : Decodes .chunkStart 0 (front ++ [byte] ++ rest) payload tail)
    (run : ChunkedBodyParser.scan .chunkStart 0 0 (front ++ [byte]) = .data .again state size (front ++ [byte]).length) :
    ∃ y, (cutAt options front byte rest nonempty).readBody 1 = (.ok ⟨false, []⟩, y) ∧ y.inbound = [] ∧
      y.readBuf = [] ∧ y.transport.reads = [rest] ∧ y.bodyParser.type = .chunked ∧ y.bodyParser.done = false ∧
      y.bodyParser.chunkedParser.size = size := by
  have bound := size_le_of_scan_again decodes run
  obtain ⟨state₁, size₁, first, second⟩ := ChunkedBodyParser.scan_again_append run
  rw [append_assoc] at decodes
  have bound₁ := size_le_of_scan_again decodes first
  obtain ⟨move, notData⟩ := step_of_scan_singleton second
  have last : ∀ length, (⟨state₁, size₁, length⟩ : ChunkedBodyParser).execute [byte] =
      (.again, ⟨state, size, ChunkedBodyParser.lengthHint state size⟩, 1) := by
    intro length
    apply execute_again_of_scan _ _ bound
    simp [ChunkedBodyParser.resumeState, notData, ChunkedBodyParser.scan, move]
  have advanced : ∀ fuel, ∃ y, advanceChunkedBody 1 (fuel + 4) (cutAt options front byte rest nonempty) true =
      (.ok .again, y) ∧ y.inbound = [] ∧ y.readBuf = [] ∧ y.transport.reads = [rest] ∧
      y.bodyParser.type = .chunked ∧ y.bodyParser.done = false ∧ y.bodyParser.chunkedParser.size = size := by
    intro fuel
    by_cases empty : front = []
    · subst empty
      simp only [ChunkedBodyParser.scan, length_nil, ChunkedBodyParser.Scan.data.injEq, true_and] at first
      obtain ⟨rfl, rfl, -⟩ := first
      obtain ⟨y, adv, noInbound, noReadBuf, reads, parser⟩ := advanceChunkedBody_one_byte (fuel + 1)
        (x := cutAt options [] byte rest nonempty) (.inr rfl) rfl rfl rfl rfl (last 0)
      exact ⟨y, adv, noInbound, noReadBuf, reads, by rw [parser]; rfl, by rw [parser]; rfl, by rw [parser]⟩
    obtain ⟨head, tail', rfl⟩ := exists_cons_of_ne_nil empty
    have parsed := execute_again_of_scan {} (by rw [Nat.zero_add] at first; exact first)
      bound₁
    obtain ⟨y, adv, noInbound, noReadBuf, reads, parser⟩ := advanceChunkedBody_one_byte fuel
      (x := { cutAt options (head :: tail') byte rest nonempty with
        inbound := []
        bodyParser := { BodyParser.setChunked with
          chunkedParser := ⟨state₁, size₁, ChunkedBodyParser.lengthHint state₁ size₁⟩ }
        consumed := head :: tail' }) (.inl rfl) rfl rfl rfl rfl (last _)
    refine ⟨y, ?_, noInbound, noReadBuf, reads, by rw [parser]; rfl, by rw [parser]; rfl, by rw [parser]⟩
    rw [← adv]
    apply advanceChunkedBody_parse (head :: tail') (n := tail'.length)
    · rfl
    · have parse := @BodyParser.execute_chunked .setChunked rfl rfl (head :: tail')
      simp only [show BodyParser.setChunked.chunkedParser = {} from rfl, parsed] at parse
      simp [parseFront, compactInbound, cutAt, parse, consumeFront, IoBufChain.dropEmptyFront,
        IoBufChain.consumeAndCompact]
      rfl
  have fuel_eq : ∃ fuel, ({ cutAt options front byte rest nonempty with
      readCallUsedIo := false } : Exchange).advanceFuel = fuel + 4 := by
    refine ⟨front.length + rest.length, ?_⟩
    simp [advanceFuel, input, cutAt, Transport.bytes]
    omega
  obtain ⟨fuel, fuel_eq⟩ := fuel_eq
  obtain ⟨y, adv, facts⟩ := advanced fuel
  refine ⟨y, ?_, facts⟩
  have chunk : readChunked (cutAt options front byte rest nonempty).readFuel
      (cutAt options front byte rest nonempty) 1 [] = (.ok (.chunk ⟨false, []⟩), y) := by
    rw [readFuel, readChunked]
    rw [if_pos (by rfl)]
    simp only [show (!(cutAt options front byte rest nonempty).readCallUsedIo) = true from rfl]
    rw [show (cutAt options front byte rest nonempty).advanceFuel = fuel + 4 from fuel_eq, adv]
  rw [readBody, readBodyStep, if_neg (by simp [cutAt, BodyParser.setChunked]), if_neg (by omega)]
  rw [show ({ cutAt options front byte rest nonempty with readCallUsedIo := false } : Exchange) =
    cutAt options front byte rest nonempty from rfl]
  simp only [chunk]
  rfl

/-- With a size in the parser, the next call takes the next byte for data. -/
theorem readBody_takes_byte (noInbound : x.inbound = []) (noReadBuf : x.readBuf = [])
    (incoming : x.transport.reads = [byte :: bytes]) (chunked : x.bodyParser.type = .chunked)
    (opened : x.bodyParser.done = false) (positive : x.bodyParser.chunkedParser.size ≠ 0) :
    ∃ y, x.readBody 1 = (.ok ⟨false, [byte]⟩, y) := by
  obtain ⟨options, ⟨pending, nonempty⟩, inbound, readBuf, bodyParser, used, trailers, complete, consumed⟩ := x
  simp only at noInbound noReadBuf incoming chunked opened positive
  subst noInbound noReadBuf incoming
  have remaining_eq := BodyParser.remaining_chunked chunked
  have limit : min 1 bodyParser.remaining = 1 := by omega
  have read_one : ∃ transport, Transport.read ⟨[byte :: bytes], nonempty⟩ 1 = ([byte], transport) := by
    cases bytes with
    | nil => exact ⟨_, rfl⟩
    | cons next bytes => exact ⟨_, rfl⟩
  obtain ⟨transport, read_eq⟩ := read_one
  have taken : ∀ again, ∃ y, takeData again
      ⟨options, ⟨[byte :: bytes], nonempty⟩, [], [], bodyParser, false, trailers, complete, consumed⟩ 1 [] =
      (.ok (.chunk ⟨false, [byte]⟩), y) := by
    intro again
    have await : awaitBodyInput
        ⟨options, ⟨[byte :: bytes], nonempty⟩, [], [], bodyParser, false, trailers, complete, consumed⟩ 1 =
        (.ok true, ⟨options, transport, [], [byte], bodyParser, true, trailers, complete, consumed⟩) := by
      simp [awaitBodyInput, bodyInputReadable, readMore, kMaxDirectBodyRead, read_eq]
    have at_least : 1 ≤ bodyParser.remaining := by omega
    have take : takeBody ⟨options, transport, [], [byte], bodyParser, true, trailers, complete, consumed⟩ 1 =
        (.ok [byte], ⟨options, transport, [], [], bodyParser.consume 1, true, trailers, complete,
          consumed ++ [byte]⟩) := by
      simp [takeBody, bodyInputReadable, takePrefix, takeChain, at_least]
    simp only [takeData, limit, await, take, length_cons, length_nil, Nat.zero_add, Nat.sub_self,
      true_or, if_true, nil_append]
    exact ⟨_, rfl⟩
  rw [readBody, readBodyStep, if_neg (by simp [opened]), if_neg (by omega)]
  simp only [chunked, if_true, readFuel, readChunked]
  rw [if_neg (by omega)]
  rw [(taken _).choose_spec]
  exact ⟨_, rfl⟩

/-- Where a size line is cut behind its size, the byte behind the cut is taken for data. -/
theorem ReadsBody.starts_with_cut {options : HttpServerOptions} (front : List UInt8) (byte : UInt8)
    (state : ChunkState) (decodes : Decodes .chunkStart 0 (front ++ [byte] ++ next :: rest) payload tail)
    (run : ChunkedBodyParser.scan .chunkStart 0 0 (front ++ [byte]) = .data .again state size (front ++ [byte]).length)
    (positive : size ≠ 0)
    (reads : (cutAt options front byte (next :: rest) (cons_ne_nil _ _)).ReadsBody (fun _ => 1) payload) :
    ∃ data, payload = next :: data := by
  obtain ⟨y, first, noInbound, noReadBuf, incoming, chunked, opened, size_eq⟩ :=
    readBody_cutAt options (cons_ne_nil next rest) decodes run
  obtain ⟨z, second⟩ :=
    readBody_takes_byte noInbound noReadBuf incoming chunked opened (size_eq ▸ positive)
  obtain ⟨n, whole⟩ := reads
  match n with
  | 0 => simp [readBodies] at whole
  | 1 => simp [readBodies, first] at whole
  | n + 2 =>
    simp only [readBodies, first, second, Bool.false_eq_true, if_false] at whole
    generalize z.readBodies n (fun _ => 1) = more at whole
    cases more with
    | error fault => simp at whole
    | ok result =>
      simp only [nil_append, Except.ok.injEq, Prod.mk.injEq] at whole
      exact ⟨result.1, whole.1.symm⟩

end Exchange

/-- The body `4 CRLF Wiki CRLF 0 CRLF CRLF`. -/
def wikiBody : ChunkedBody where
  chunks := [⟨⟨[52], [], 4, by simp, rfl, trivial, by decide⟩, [87, 105, 107, 105], rfl, by simp⟩]
  last := ⟨[48], [], 0, by simp, rfl, trivial, by decide⟩
  last_zero := rfl
  trailers := []

/-- `wikiBody` received in two reads, the first of which ends behind the chunk size. -/
def wikiCut : Exchange where
  options := {}
  transport := ⟨[[52], [cr, lf, 87, 105, 107, 105, cr, lf, 48, cr, lf, cr, lf]], by decide⟩
  bodyParser := .setChunked

/-- The line end and the first two bytes come out as data, and the next call fails. -/
theorem wikiCut_misread : wikiCut.AtBody {} wikiBody [] ∧
    wikiCut.readBodies 2 (fun _ => 16) = .ok ([cr, lf, 87, 105], false) ∧
    wikiCut.readBodies 3 (fun _ => 16) = .error (.io .invalid) :=
  ⟨⟨rfl, rfl, rfl⟩, by decide +kernel, by decide +kernel⟩

/-- Chunked bodies that every segmentation and every sequence of budgets reads correctly are those
without data whose trailers fit; and any body with fitting trailers is read correctly by calls that
never start inside the size line of a chunk. -/
theorem readBody_segmentation (options : HttpServerOptions) (body : ChunkedBody) :
    ((∀ (following : List UInt8) (x : Exchange) (budgets : Nat → Nat), x.AtBody options body following →
        (∀ k, 1 ≤ budgets k) → x.ReadsBody budgets body.payload) ↔
      body.chunks = [] ∧ TrailersFit options body.trailers) ∧
    ∀ (following : List UInt8) (x : Exchange) (budgets : Nat → Nat), x.AtBody options body following →
      (∀ k, 1 ≤ budgets k) →
      (∀ k y, x.beforeCall k budgets = some y → ¬y.StartsInsideSizeLine) →
      (x.ReadsBody budgets body.payload ↔ TrailersFit options body.trailers) := by
  have outside_reads : ∀ (following : List UInt8) (x : Exchange) (budgets : Nat → Nat),
      x.AtBody options body following → (∀ k, 1 ≤ budgets k) →
      (∀ k y, x.beforeCall k budgets = some y → ¬y.StartsInsideSizeLine) →
      (x.ReadsBody budgets body.payload ↔ TrailersFit options body.trailers) :=
    fun following x budgets ahead room outside => ahead.awaits.readsBody_iff room outside
  have empty_reads : body.chunks = [] → ∀ (following : List UInt8) (x : Exchange) (budgets : Nat → Nat),
      x.AtBody options body following → (∀ k, 1 ≤ budgets k) →
      (x.ReadsBody budgets body.payload ↔ TrailersFit options body.trailers) := by
    intro noChunks following x budgets ahead room
    have waits := ahead.awaits
    rw [show body.payload = [] by simp [ChunkedBody.payload, noChunks]] at waits
    exact outside_reads following x budgets ahead room (fun k y found => waits.outside_of_no_data room found)
  refine ⟨⟨fun reads => ?_, fun both following x budgets ahead room =>
    (empty_reads both.1 following x budgets ahead room).mpr both.2⟩, outside_reads⟩
  have noChunks : body.chunks = [] := by
    cases shape : body.chunks with
    | nil => rfl
    | cons chunk chunks =>
      exfalso
      have positive : chunk.line.size ≠ 0 := by
        rw [chunk.size_eq]
        exact fun zero => chunk.nonempty (length_eq_zero_iff.mp zero)
      obtain ⟨state, inLine, scanned⟩ := ChunkedBodyParser.scan_sizeLine positive
      obtain ⟨behind, encode_eq⟩ : ∃ behind, body.encode =
          chunk.line.digits ++ chunk.line.ext ++ cr :: lf :: behind := by
        simp only [ChunkedBody.encode, shape, map_cons, flatten_cons, Chunk.encode, SizeLine.encode,
          append_assoc, cons_append, nil_append]
        exact ⟨_, rfl⟩
      have decodes := body.decodes []
      rw [append_nil, encode_eq] at decodes
      -- cut in front of the LF of the first size line
      have starts_lf : ∃ data, body.payload = lf :: data := by
        refine Exchange.ReadsBody.starts_with_cut (chunk.line.digits ++ chunk.line.ext) cr
          .chunkExtensionAlmostDone (by simpa using decodes) ?_ positive
          (reads [] _ _ ⟨rfl, rfl, ?_⟩ (fun _ => le_rfl))
        · rw [scanned]
          rcases inLine with rfl | rfl <;>
            simp [ChunkedBodyParser.scan, ChunkedBodyParser.step, hexDigit_cr, positive, Nat.add_assoc]
        · simp [Exchange.cutAt, Exchange.input, Transport.bytes, encode_eq]
      -- and in front of its CR
      have starts_cr : ∃ data, body.payload = cr :: data := by
        obtain ⟨front, byte, split_eq⟩ : ∃ front byte, chunk.line.digits ++ chunk.line.ext = front ++ [byte] := by
          rcases eq_nil_or_concat (chunk.line.digits ++ chunk.line.ext) with none | ⟨front, byte, eq⟩
          · exact absurd (append_eq_nil_iff.mp none).1 chunk.line.digits_nonempty
          · exact ⟨front, byte, by simpa using eq⟩
        refine Exchange.ReadsBody.starts_with_cut front byte state (by rw [← split_eq]; exact decodes) ?_ positive
          (reads [] _ _ ⟨rfl, rfl, ?_⟩ (fun _ => le_rfl))
        · have here := scanned []
          rw [append_nil, split_eq] at here
          exact here
        · rw [encode_eq, split_eq]
          simp [Exchange.cutAt, Exchange.input, Transport.bytes]
      obtain ⟨data, starts⟩ := starts_lf
      obtain ⟨data', starts'⟩ := starts_cr
      rw [starts] at starts'
      exact absurd (List.cons.inj starts').1 (by decide)
  refine ⟨noChunks, ?_⟩
  have nonempty : body.encode ≠ [] := by simp [ChunkedBody.encode, SizeLine.encode]
  have ahead : Exchange.AtBody options body [] (x := ⟨options, ⟨[body.encode], by simp [Ne.symm nonempty]⟩, [], [],
      .setChunked, false, [], false, []⟩) :=
    ⟨rfl, rfl, by simp [Exchange.input, Transport.bytes]⟩
  exact (empty_reads noChunks [] _ (fun _ => 1) ahead (fun _ => le_rfl)).mp
    (reads [] _ _ ahead (fun _ => le_rfl))

end FiberGateway.Http1
