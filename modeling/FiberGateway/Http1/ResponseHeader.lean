import FiberGateway.Http1.ResponseFraming

namespace FiberGateway.Http1

open List

/-- `std::memcpy` behind what has been stored; none when it would leave the buffer. -/
def store (capacity : Nat) (out bytes : List UInt8) : Option (List UInt8) :=
  if out.length + bytes.length ≤ capacity then some (out ++ bytes) else none

namespace Response

/-- What `build_response_header` copies for a field, a name of length zero being passed over. -/
def fieldCopies (field : List UInt8 × List UInt8) : List (List UInt8) :=
  if field.1.length = 0 then [] else [field.1, [colon], [space], field.2, crLf]

/-- The copies of `build_response_header`, in order. -/
def headerCopies (r : Response) (closeConn : Bool) : List (List UInt8) :=
  [text (if r.version = 1000 then "HTTP/1.0 " else "HTTP/1.1 "), toChars 10 r.statusCode, [space], r.reasonPhrase, crLf] ++
  (if r.bodyMode = .contentLength ∧ ¬r.containsHeader "Content-Length" then
    [text "Content-Length: ", toChars 10 r.contentLength.toNat, crLf] else []) ++
  (if r.bodyMode = .chunked ∧ ¬r.containsHeader "Transfer-Encoding" then [text "Transfer-Encoding: chunked\r\n"] else []) ++
  (if closeConn ∧ ¬r.containsHeader "Connection" then [text "Connection: close\r\n"] else []) ++
  r.headers.flatMap fieldCopies ++ [crLf]

/-- The bytes in the buffer of `header_len` bytes when `build_response_header` commits. -/
def storeHeader (r : Response) (closeConn : Bool) : Option (List UInt8) :=
  (r.headerCopies closeConn).foldlM (store (r.headerLen closeConn)) []

end Response

theorem store_all {capacity : Nat} (copies : List (List UInt8)) (out : List UInt8) :
    copies.foldlM (store capacity) out =
      if copies = [] ∨ out.length + copies.flatten.length ≤ capacity then some (out ++ copies.flatten) else none := by
  induction copies generalizing out with
  | nil => simp
  | cons bytes copies ih =>
    rw [foldlM_cons, store]
    by_cases inside : out.length + bytes.length ≤ capacity
    · rw [if_pos inside]
      refine (ih _).trans ?_
      cases copies with
      | nil => simp [inside]
      | cons next copies => simp [Nat.add_assoc]
    · rw [if_neg inside, if_neg]
      · rfl
      · rintro (empty | fits)
        · cases empty
        · rw [flatten_cons, length_append] at fits
          omega

variable {base fuel value digits start : Nat}

theorem toCharsLoop_length (small : value < base ^ (digits + 1)) :
    (toCharsLoop base fuel value).length ≤ digits + 1 := by
  induction digits generalizing fuel value with
  | zero =>
    cases fuel with
    | zero => simp [toCharsLoop]
    | succ fuel => rw [toCharsLoop, if_pos (by simpa using small)]; rfl
  | succ digits ih =>
    cases fuel with
    | zero => simp [toCharsLoop]
    | succ fuel =>
      rw [toCharsLoop]
      split_ifs
      · simp
      · rw [length_append]
        exact Nat.succ_le_succ (ih (Nat.div_lt_of_lt_mul (by rwa [← Nat.pow_succ'])))

theorem toCharsLoop_digits (positive : 0 < base) :
    ∀ ch ∈ toCharsLoop base fuel value, ∃ digit < base, ch = digitChar digit := by
  induction fuel generalizing value with
  | zero => exact fun ch member => absurd member not_mem_nil
  | succ fuel ih =>
    intro ch member
    rw [toCharsLoop] at member
    split at member
    · rename_i small
      exact ⟨value, small, mem_singleton.mp member⟩
    · rcases mem_append.mp member with member | member
      · exact ih ch member
      · exact ⟨_, Nat.mod_lt _ positive, mem_singleton.mp member⟩

namespace Response

variable {r : Response} {closeConn : Bool}

theorem fieldCopies_flatten (field : List UInt8 × List UInt8) : (fieldCopies field).flatten = encodeField field := by
  have separator : text ": " = [colon, space] := by decide
  unfold fieldCopies encodeField
  by_cases unnamed : field.1 = []
  · rw [if_pos (by rw [unnamed]; rfl), if_pos unnamed]
    rfl
  · rw [if_neg (by rwa [length_eq_zero_iff]), if_neg unnamed, separator]
    simp

theorem headerCopies_flatten : (r.headerCopies closeConn).flatten = r.headerBlock closeConn := by
  have fields : (r.headers.flatMap fieldCopies).flatten = r.headers.flatMap encodeField := by
    induction r.headers with
    | nil => rfl
    | cons field headers ih => rw [flatMap_cons, flatMap_cons, flatten_append, fieldCopies_flatten, ih]
  unfold headerCopies headerBlock statusLine framingFields
  simp only [flatten_append, fields]
  split_ifs <;> simp

theorem headerBlock_length (status : r.statusCode ≤ 999) :
    (r.headerBlock closeConn).length ≤ r.headerLen closeConn := by
  have code : (toChars 10 r.statusCode).length ≤ 2 + 1 := toCharsLoop_length (by omega)
  have length : (toChars 10 r.contentLength.toNat).length ≤ 19 + 1 :=
    toCharsLoop_length (r.contentLength.toNat_lt.trans (by decide))
  have version : (text (if r.version = 1000 then "HTTP/1.0 " else "HTTP/1.1 ")).length = (text "HTTP/1.1 ").length := by
    split
    · decide +kernel
    · rfl
  unfold headerBlock statusLine framingFields headerLen
  generalize text (if r.version = 1000 then "HTTP/1.0 " else "HTTP/1.1 ") = leading at version ⊢
  generalize text "HTTP/1.1 " = reserved, text "Content-Length: " = contentLength,
    text "Transfer-Encoding: chunked\r\n" = transferEncoding, text "Connection: close\r\n" = connection at version ⊢
  simp only [length_append, length_flatMap, apply_ite List.length, length_nil, length_singleton,
    kHttpStatusDigits, kMaxContentLengthDigits]
  split_ifs <;> omega

/-- `build_response_header` stores what `write_response_header` sends, within the bytes it has allocated. -/
theorem header_writers_agree (r : Response) (bodyEnd : Bool) (firstBodyLen : Nat) (infer closeConn : Bool)
    (status : 100 ≤ r.statusCode ∧ r.statusCode ≤ 999) :
    (r.inferBodyMode bodyEnd firstBodyLen infer).storeHeader closeConn =
        some ((r.inferBodyMode bodyEnd firstBodyLen infer).headerBlock closeConn) ∧
      ((r.inferBodyMode bodyEnd firstBodyLen infer).headerBlock closeConn).length ≤
        (r.inferBodyMode bodyEnd firstBodyLen infer).headerLen closeConn := by
  have same : (r.inferBodyMode bodyEnd firstBodyLen infer).statusCode = r.statusCode := by
    unfold inferBodyMode
    split_ifs <;> rfl
  have fits := @headerBlock_length _ closeConn (same ▸ status.2)
  refine ⟨?_, fits⟩
  rw [storeHeader, store_all, headerCopies_flatten, if_pos (.inr (by rwa [length_nil, Nat.zero_add])), nil_append]

/-- A redirect with a long reason, a status of three digits and a field of its own. -/
theorem redirect_writers_agree :
    let r : Response := { statusCode := 302, reason := text "Found elsewhere", headers := [(text "Location", text "/a")] }
    (r.inferBodyMode true 5 true).storeHeader true = some ((r.inferBodyMode true 5 true).headerBlock true) :=
  (header_writers_agree _ true 5 true true ⟨by decide, by decide⟩).1

/-- The fields the server adds to those of the exchange, as `framingFields` writes them. -/
def generatedFields (r : Response) (closeConn : Bool) : List (List UInt8 × List UInt8) :=
  (if r.bodyMode = .contentLength ∧ ¬r.containsHeader "Content-Length" then
    [(text "Content-Length", toChars 10 r.contentLength.toNat)] else []) ++
  (if r.bodyMode = .chunked ∧ ¬r.containsHeader "Transfer-Encoding" then [(text "Transfer-Encoding", text "chunked")]
    else []) ++
  (if closeConn ∧ ¬r.containsHeader "Connection" then [(text "Connection", text "close")] else [])

theorem encodeField_named {name : List UInt8} (named : name ≠ []) (value : List UInt8) :
    encodeField (name, value) = name ++ text ": " ++ value ++ crLf := if_neg named

theorem generatedFields_encode : (r.generatedFields closeConn).flatMap encodeField = r.framingFields closeConn := by
  have separated : text "Content-Length" ++ text ": " = text "Content-Length: " := by decide +kernel
  have contentLength (value : List UInt8) :
      encodeField (text "Content-Length", value) = text "Content-Length: " ++ value ++ crLf := by
    rw [← separated]
    exact encodeField_named (by decide +kernel) value
  have transferEncoding : encodeField (text "Transfer-Encoding", text "chunked") = text "Transfer-Encoding: chunked\r\n" := by
    decide +kernel
  have connection : encodeField (text "Connection", text "close") = text "Connection: close\r\n" := by decide +kernel
  unfold generatedFields framingFields
  simp [apply_ite (List.flatMap encodeField), contentLength, transferEncoding, connection]

theorem generatedFields_text : ∀ field ∈ r.generatedFields closeConn, field.1 ≠ [] ∧ FieldText field := by
  have plain : ∀ digit < 10, digitChar digit ≠ 0 ∧ digitChar digit ≠ cr ∧ digitChar digit ≠ lf ∧ digitChar digit ≠ space := by
    decide
  have digits : ∀ ch ∈ toChars 10 r.contentLength.toNat, ch ≠ 0 ∧ ch ≠ cr ∧ ch ≠ lf ∧ ch ≠ space := by
    intro ch member
    obtain ⟨digit, small, rfl⟩ := toCharsLoop_digits (by decide) ch member
    exact plain digit small
  have named : text "Content-Length" ≠ [] ∧ ∀ ch ∈ text "Content-Length", 0x20 < ch ∧ ch ≠ 0x7f ∧ ch ≠ colon := by
    decide +kernel
  have transferEncoding : text "Transfer-Encoding" ≠ [] ∧ FieldText (text "Transfer-Encoding", text "chunked") := by
    decide +kernel
  have connection : text "Connection" ≠ [] ∧ FieldText (text "Connection", text "close") := by decide +kernel
  intro field member
  rw [generatedFields, mem_append, mem_append, mem_ite_nil_right, mem_ite_nil_right,
    mem_ite_nil_right, mem_singleton, mem_singleton, mem_singleton] at member
  rcases member with (⟨-, rfl⟩ | ⟨-, rfl⟩) | ⟨-, rfl⟩
  · refine ⟨named.1, named.2, fun ch member => ?_, fun front => ?_, fun back => ?_⟩
    · have := digits ch member
      exact ⟨this.1, this.2.1, this.2.2.1⟩
    · exact (digits _ (mem_of_mem_head? front)).2.2.2 rfl
    · exact (digits _ (mem_of_mem_getLast? back)).2.2.2 rfl
  · exact transferEncoding
  · exact connection

end Response

/-- The fields up to the empty line, read from one buffer that is filled piece by piece, with what is left over. -/
def decodePieces : Nat → HeaderLineParser → IoBuf → List (List UInt8) → Option (List (List UInt8 × List UInt8) × List UInt8)
  | 0, _, _, _ => none
  | fuel + 1, parser, buf, pieces =>
    match parser.execute buf with
    | (.ok, parser, rest) => do
      let field ← fieldOf parser.line rest.data
      let (fields, behind) ← decodePieces fuel parser rest pieces
      return (field :: fields, behind)
    | (.headerDone, _, rest) => some ([], rest.readable ++ pieces.flatten)
    | (.again, parser, rest) =>
      match pieces with
      | [] => none
      | piece :: pieces => decodePieces fuel parser (rest.fill piece) pieces
    | _ => none

theorem decodePieces_lines {lines : List TrailerLine} {before todo : List UInt8}
    {pieces : List (List UInt8)} {parser : HeaderLineParser} {buf : IoBuf} (behind : List UInt8)
    (progress : LineProgress lines start before todo buf parser)
    (input : buf.readable ++ pieces.flatten = todo ++ (linesBehind lines ++ behind))
    (room : pieces.flatten.length ≤ buf.writable) (enough : lines.length + pieces.length < fuel) :
    decodePieces fuel parser buf pieces = some (lines.map fun line => (line.name, fieldValue line.value), behind) := by
  induction fuel generalizing lines start before todo pieces parser buf with
  | zero => omega
  | succ fuel ih =>
    rw [decodePieces]
    by_cases held : todo.length ≤ buf.readable.length
    · obtain ⟨rest, readable_eq⟩ := prefix_of_prefix_length_le ⟨_, input.symm⟩ ⟨_, rfl⟩ held
      have left : (buf.consume todo.length).readable = rest := by
        rw [IoBuf.consume_readable, ← readable_eq, drop_left]
      rw [← readable_eq, append_assoc] at input
      have input := append_cancel_left input
      cases lines with
      | nil =>
        obtain ⟨parser', done⟩ := progress.execute_headerDone readable_eq.symm
        rw [done]
        simp only [left, input]
        rfl
      | cons line lines =>
        obtain ⟨parser', done, field, next⟩ := progress.execute_ok readable_eq.symm
        rw [done]
        dsimp only
        rw [IoBuf.consume_data, field, ih next (by rw [left, input, ← append_assoc, currentLine_append_linesBehind]; rfl)
          room (by simp only [length_cons] at enough; omega)]
        rfl
    · obtain ⟨more, todo_eq⟩ := prefix_of_prefix_length_le ⟨_, rfl⟩ ⟨_, input.symm⟩ (by omega)
      have unfinished : more ≠ [] := by
        rintro rfl
        rw [← todo_eq, append_nil] at held
        exact held le_rfl
      rw [← todo_eq, append_assoc] at input
      have input := append_cancel_left input
      obtain ⟨parser', again, progress⟩ := progress.execute_again todo_eq.symm unfinished
      rw [again]
      cases pieces with
      | nil => exact absurd (append_eq_nil_iff.mp input.symm).1 unfinished
      | cons piece pieces =>
        rw [flatten_cons, length_append] at room
        have fits : piece.length ≤ (buf.consume buf.readable.length).writable := by
          rw [IoBuf.consume_writable]
          omega
        refine ih (progress.fill fits) ?_ ?_ (by simp only [length_cons] at enough; omega)
        · rw [IoBuf.fill_readable fits, IoBuf.consume_readable, drop_length, nil_append, ← input, flatten_cons]
        · rw [IoBuf.fill_writable fits, IoBuf.consume_writable]
          omega

namespace Response

/-- A header block read back by `HeaderLineParser`, however its bytes arrive in the buffer. -/
theorem headerBlock_fields (r : Response) (closeConn : Bool) (block : List UInt8) (pieces : List (List UInt8))
    (capacity : Nat) (plain : ∀ field ∈ r.headers, field.1 ≠ [] ∧ FieldText field)
    (written : block = r.headerBlock closeConn ∨ r.storeHeader closeConn = some block)
    (cut : block = r.statusLine ++ pieces.flatten) (room : pieces.flatten.length ≤ capacity) :
    decodePieces (pieces.flatten.length + pieces.length) {} ⟨[], 0, capacity, le_rfl, Nat.zero_le _⟩ pieces =
      some (r.generatedFields closeConn ++ r.headers, []) := by
  have block_eq : block = r.headerBlock closeConn := by
    rcases written with same | stored
    · exact same
    · rw [storeHeader, store_all] at stored
      split at stored
      · rw [← Option.some.inj stored, headerCopies_flatten, nil_append]
      · cases stored
  have named : ∀ field ∈ r.generatedFields closeConn ++ r.headers, field.1 ≠ [] ∧ FieldText field := by
    intro field member
    rcases mem_append.mp member with generated | given
    · exact generatedFields_text field generated
    · exact plain field given
  obtain ⟨lines, encoded, values⟩ := lines_of_fields fun field member _ => (named field member).2
  rw [filter_eq_self.mpr fun field member => by simp [(named field member).1]] at values
  rw [flatMap_append, generatedFields_encode] at encoded
  have bytes : pieces.flatten = (lines.map TrailerLine.encode).flatten ++ crLf := by
    rw [block_eq, headerBlock, append_assoc, append_assoc, ← append_assoc (framingFields _ _), ← encoded] at cut
    exact (append_cancel_left cut).symm
  have enough : lines.length + pieces.length < pieces.flatten.length + pieces.length := by
    have := lines_length_le lines
    rw [bytes, length_append]
    have : crLf.length = 2 := rfl
    omega
  have begins : LineProgress lines 0 [] (currentLine lines) ⟨[], 0, capacity, le_rfl, Nat.zero_le _⟩ {} :=
    ⟨rfl, by cases lines <;> simp [currentLine, TrailerLine.encode], rfl, rfl, {}, rfl⟩
  rw [decodePieces_lines [] begins ?_ room enough, values]
  rw [append_nil, currentLine_append_linesBehind, bytes]
  rfl

/-- A block cut inside a name and inside a value. -/
theorem cutBlock_fields :
    let r : Response := { bodyMode := .chunked, headers := [(text "X-A", []), (text "X-B", text "one two")] }
    let pieces := [text "Transfer-Enco", text "ding: chunked\r\nX-A: \r\nX-B: one ", [], text "two\r\n\r\n"]
    decodePieces (pieces.flatten.length + pieces.length) {} ⟨[], 0, 64, le_rfl, Nat.zero_le _⟩ pieces =
      some (r.generatedFields false ++ r.headers, []) :=
  headerBlock_fields { bodyMode := .chunked, headers := [(text "X-A", []), (text "X-B", text "one two")] } false _ _ 64
    (by decide +kernel) (.inl rfl) (by decide +kernel) (by decide +kernel)

end Response

end FiberGateway.Http1
