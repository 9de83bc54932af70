import FiberGateway.Http1.ChunkedBody
import FiberGateway.Http1.ExchangeIo

namespace FiberGateway.Http1

open List

/-- The line's pointers moved by `offset` bytes. -/
def HeaderLineState.shift (offset : Nat) (line : HeaderLineState) : HeaderLineState :=
  { line with
    headerNameStart := line.headerNameStart.map (· + offset)
    headerNameEnd := line.headerNameEnd.map (· + offset)
    headerStart := line.headerStart.map (· + offset)
    headerEnd := line.headerEnd.map (· + offset) }

namespace HeaderLineParser

def Jump.shift (offset : Nat) : Jump → Jump
  | .next state line => .next state (line.shift offset)
  | .done line => .done (line.shift offset)
  | .headerDone line => .headerDone (line.shift offset)
  | .invalid line => .invalid (line.shift offset)

def Scan.shift (offset : Nat) : Scan → Scan
  | .again state line p => .again state (line.shift offset) (p + offset)
  | .done line p => .done (line.shift offset) (p + offset)
  | .headerDone line p => .headerDone (line.shift offset) (p + offset)
  | .invalid line => .invalid (line.shift offset)

theorem step_shift (offset : Nat) (state : HeaderState) (line : HeaderLineState) (p : Nat) (ch : UInt8) :
    step state (line.shift offset) (p + offset) ch = (step state line p ch).shift offset := by
  cases state <;> simp only [step]
  all_goals
    repeat' split
    all_goals rfl

theorem scan_shift (offset : Nat) (state : HeaderState) (line : HeaderLineState) (p : Nat)
    (bytes : List UInt8) :
    scan state (line.shift offset) (p + offset) bytes = (scan state line p bytes).shift offset := by
  induction bytes generalizing state line p with
  | nil => rfl
  | cons ch rest ih =>
    simp only [scan, step_shift]
    cases step state line p ch with
    | next state' line' =>
      simp only [Jump.shift, Nat.add_right_comm p offset 1]
      exact ih state' line' (p + 1)
    | done line' | headerDone line' => simp only [Jump.shift, Scan.shift, Nat.add_right_comm p offset 1]
    | invalid line' => rfl

variable {bytes more : List UInt8} {state state' : HeaderState} {line line' : HeaderLineState} {p p' stop : Nat}

/-- The first byte of a line overwrites every pointer, so those of an earlier line do not matter. -/
theorem scan_start_shift (offset : Nat) (line : HeaderLineState) (p : Nat) (nonempty : bytes ≠ []) :
    scan .start line (p + offset) bytes = (scan .start line p bytes).shift offset := by
  rw [← scan_shift]
  obtain ⟨ch, rest, rfl⟩ := exists_cons_of_ne_nil nonempty
  rfl

theorem scan_append (run : scan state line p bytes = .again state' line' p') (more : List UInt8) :
    scan state line p (bytes ++ more) = scan state' line' p' more := by
  induction bytes generalizing state line p with
  | nil =>
    simp only [scan] at run
    cases run
    rfl
  | cons ch rest ih =>
    simp only [scan, cons_append] at run ⊢
    split at run
    · exact ih run
    · cases run
    · cases run
    · cases run

/-- A line that ends with the given bytes, and not before. -/
def EndsLine (result : Scan) (stop : Nat) : Prop :=
  (∃ line, result = .done line stop) ∨ ∃ line, result = .headerDone line stop

/-- Up to the last byte of a line the parser asks for more. -/
theorem scan_unfinished     (ends : EndsLine (scan state line p (bytes ++ more)) stop) (behind : p + bytes.length < stop) :
    ∃ state' line', scan state line p bytes = .again state' line' (p + bytes.length) := by
  induction bytes generalizing state line p with
  | nil => exact ⟨state, line, rfl⟩
  | cons ch rest ih =>
    simp only [scan, cons_append, length_cons] at ends behind ⊢
    split at ends
    · obtain ⟨state', line', run⟩ := ih ends (by omega)
      exact ⟨state', line', by rw [run]; congr 1; omega⟩
    · rcases ends with ⟨_, same⟩ | ⟨_, same⟩ <;> cases same
      omega
    · rcases ends with ⟨_, same⟩ | ⟨_, same⟩ <;> cases same
      omega
    · rcases ends with ⟨_, same⟩ | ⟨_, same⟩ <;> cases same

theorem step_inside {ch : UInt8} (run : step state line p ch = .next state' line') (regular : state ≠ .ignoreLine) :
    state' ≠ .start ∧ state' ≠ .ignoreLine ∧
      line'.headerNameStart = if state = .start then some p else line.headerNameStart := by
  cases state <;> simp only [step, noteName] at run
  all_goals
    repeat' split at run
    all_goals cases run
    all_goals simp_all

/-- Inside a line the parser is past `start` and knows where the line began. -/
theorem scan_inside (nonempty : bytes ≠ []) (run : scan .start line p bytes = .again state line' p') :
    state ≠ .start ∧ line'.headerNameStart = some p := by
  have kept : ∀ (bytes : List UInt8) (before : HeaderState) (line : HeaderLineState) (q : Nat),
      before ≠ .start → before ≠ .ignoreLine → line.headerNameStart = some p →
      scan before line q bytes = .again state line' p' →
      state ≠ .start ∧ line'.headerNameStart = some p := by
    intro bytes
    induction bytes with
    | nil =>
      intro before line q notStart _ name run
      cases run
      exact ⟨notStart, name⟩
    | cons ch rest ih =>
      intro before line q notStart regular name run
      simp only [scan] at run
      split at run
      · rename_i move
        obtain ⟨notStart', regular', name'⟩ := step_inside move regular
        rw [if_neg notStart] at name'
        exact ih _ _ _ notStart' regular' (name'.trans name) run
      · cases run
      · cases run
      · cases run
  obtain ⟨ch, rest, rfl⟩ := exists_cons_of_ne_nil nonempty
  simp only [scan] at run
  split at run
  · rename_i move
    obtain ⟨notStart, regular, name⟩ := step_inside move (by simp)
    exact kept rest _ _ _ notStart regular (by simpa using name) run
  · cases run
  · cases run
  · cases run

theorem scan_empty_line (line : HeaderLineState) (p : Nat) :
    ∃ line', scan .start line p [cr, lf] = .headerDone line' (p + 2) :=
  ⟨_, rfl⟩

end HeaderLineParser

def trimRight : List UInt8 → List UInt8
  | [] => []
  | ch :: rest => if ch = space ∧ trimRight rest = [] then [] else ch :: trimRight rest

/-- A field value without the blanks around it. -/
def fieldValue (value : List UInt8) : List UInt8 := trimRight (value.dropWhile (· = space))

theorem trimRight_eq_take (value : List UInt8) : trimRight value = value.take (trimRight value).length := by
  induction value with
  | nil => rfl
  | cons ch rest ih =>
    simp only [trimRight]
    split
    · rfl
    · rw [length_cons, take_succ_cons, ← ih]

theorem trimRight_length_le (value : List UInt8) : (trimRight value).length ≤ value.length := by
  rw [trimRight_eq_take]
  simp

namespace HeaderLineParser

variable {ch : UInt8} {value name data encoded : List UInt8}

theorem kLowcase_cases (visible : 0x20 < ch ∧ ch ≠ 0x7f ∧ ch ≠ colon) :
    ch ≠ cr ∧ ch ≠ lf ∧ ¬(ch ≤ 0x20 ∨ ch = 0x7f) := by
  obtain ⟨above, notDel, -⟩ := visible
  refine ⟨?_, ?_, ?_⟩
  · rintro rfl
    exact absurd above (by decide)
  · rintro rfl
    exact absurd above (by decide)
  · rintro (low | del)
    · exact absurd above (UInt8.not_lt.mpr low)
    · exact notDel del

theorem step_name {state : HeaderState} (inName : state = .start ∨ state = .name) (line : HeaderLineState)
    (p : Nat) (visible : 0x20 < ch ∧ ch ≠ 0x7f ∧ ch ≠ colon) :
    ∃ line', step state line p ch = .next .name line' ∧
      line'.headerNameStart = if state = .start then some p else line.headerNameStart := by
  obtain ⟨notCr, notLf, notControl⟩ := kLowcase_cases visible
  have notColon := visible.2.2
  rcases inName with rfl | rfl
  · simp only [step, notCr, notLf, if_false, noteName]
    split
    · exact ⟨_, rfl, rfl⟩
    split
    · exact ⟨_, rfl, rfl⟩
    · rw [if_neg (by tauto)]
      exact ⟨_, rfl, rfl⟩
  · simp only [step, notCr, notLf, notColon, notControl, if_false, noteName]
    split
    · exact ⟨_, rfl, by simp⟩
    split
    · exact ⟨_, rfl, by simp⟩
    · exact ⟨_, rfl, by simp⟩

theorem scan_name (line : HeaderLineState) (p : Nat)
    (visible : ∀ ch ∈ name, 0x20 < ch ∧ ch ≠ 0x7f ∧ ch ≠ colon) (rest : List UInt8) :
    ∃ line', scan .name line p (name ++ colon :: rest) = scan .spaceBeforeValue line' (p + name.length + 1) rest ∧
      line'.headerNameStart = line.headerNameStart ∧ line'.headerNameEnd = some (p + name.length) := by
  induction name generalizing line p with
  | nil => exact ⟨{ line with headerNameEnd := some p }, rfl, rfl, rfl⟩
  | cons ch name ih =>
    obtain ⟨line', move, nameStart⟩ := step_name (.inr rfl) line p (visible ch (by simp))
    obtain ⟨line'', run, nameStart', nameEnd⟩ :=
      ih line' (p + 1) (fun other member => visible other (mem_cons_of_mem _ member))
    refine ⟨line'', ?_, nameStart'.trans (by simpa using nameStart), ?_⟩
    · simp only [cons_append, scan, move, run, length_cons]
      congr 1
      omega
    · rw [nameEnd, length_cons]
      congr 1
      omega

/-- What the value states leave alone. -/
def SameName (line line' : HeaderLineState) : Prop :=
  line'.headerNameStart = line.headerNameStart ∧ line'.headerNameEnd = line.headerNameEnd

/-- From inside a value, where the end noted in front of blanks is the value's if only blanks follow. -/
theorem scan_value (text : ∀ ch ∈ value, ch ≠ 0 ∧ ch ≠ cr ∧ ch ≠ lf) (line : HeaderLineState) (p : Nat) :
    (∃ line', scan .value line p (value ++ [cr, lf]) = .done line' (p + value.length + 2) ∧
      SameName line line' ∧ line'.headerStart = line.headerStart ∧
      line'.headerEnd = some (p + (trimRight value).length)) ∧
    (∃ line', scan .spaceAfterValue line p (value ++ [cr, lf]) = .done line' (p + value.length + 2) ∧
      SameName line line' ∧ line'.headerStart = line.headerStart ∧
      line'.headerEnd =
        if trimRight value = [] then line.headerEnd else some (p + (trimRight value).length)) := by
  induction value generalizing line p with
  | nil => exact ⟨⟨_, rfl, ⟨rfl, rfl⟩, rfl, rfl⟩, ⟨_, rfl, ⟨rfl, rfl⟩, rfl, rfl⟩⟩
  | cons ch value ih =>
    obtain ⟨notZero, notCr, notLf⟩ := text ch (by simp)
    have text' : ∀ other ∈ value, other ≠ 0 ∧ other ≠ cr ∧ other ≠ lf :=
      fun other member => text other (mem_cons_of_mem _ member)
    have position : p + 1 + value.length + 2 = p + (value.length + 1) + 2 := by omega
    by_cases blank : ch = space
    · subst blank
      obtain ⟨line₁, run₁, name₁, start₁, end₁⟩ := (ih text' { line with headerEnd := some p } (p + 1)).2
      obtain ⟨line₂, run₂, name₂, start₂, end₂⟩ := (ih text' line (p + 1)).2
      refine ⟨⟨line₁, ?_, name₁, start₁, ?_⟩, ⟨line₂, ?_, name₂, start₂, ?_⟩⟩
      · simpa [scan, step, position] using run₁
      · rw [end₁]
        by_cases blanks : trimRight value = []
        · simp [trimRight, blanks]
        simp only [trimRight, blanks, and_false, if_false, length_cons]
        congr 1
        omega
      · simpa [scan, step, position] using run₂
      · rw [end₂]
        by_cases blanks : trimRight value = []
        · simp [trimRight, blanks]
        simp only [trimRight, blanks, and_false, if_false, length_cons, reduceCtorEq]
        congr 1
        omega
    · obtain ⟨line₁, run₁, name₁, start₁, end₁⟩ := (ih text' line (p + 1)).1
      have length_eq : (trimRight (ch :: value)).length = (trimRight value).length + 1 := by
        simp [trimRight, blank]
      have nonempty : trimRight (ch :: value) ≠ [] := by simp [trimRight, blank]
      rw [length_eq, if_neg nonempty]
      refine ⟨⟨line₁, ?_, name₁, start₁, ?_⟩, ⟨line₁, ?_, name₁, start₁, ?_⟩⟩
      · simpa [scan, step, position, blank, notZero, notCr, notLf] using run₁
      · rw [end₁]; congr 1; omega
      · simpa [scan, step, position, blank, notZero, notCr, notLf] using run₁
      · rw [end₁]; congr 1; omega

theorem scan_before_value (text : ∀ ch ∈ value, ch ≠ 0 ∧ ch ≠ cr ∧ ch ≠ lf) (line : HeaderLineState) (p : Nat) :
    ∃ line' first last, scan .spaceBeforeValue line p (value ++ [cr, lf]) = .done line' (p + value.length + 2) ∧
      SameName line line' ∧ line'.headerStart = some (p + first) ∧ line'.headerEnd = some (p + last) ∧
      first ≤ last ∧ last ≤ value.length ∧ slice value first last = fieldValue value := by
  induction value generalizing line p with
  | nil => exact ⟨_, 0, 0, rfl, ⟨rfl, rfl⟩, rfl, rfl, le_rfl, le_rfl, rfl⟩
  | cons ch value ih =>
    obtain ⟨notZero, notCr, notLf⟩ := text ch (by simp)
    have text' : ∀ other ∈ value, other ≠ 0 ∧ other ≠ cr ∧ other ≠ lf :=
      fun other member => text other (mem_cons_of_mem _ member)
    have position : p + 1 + value.length + 2 = p + (value.length + 1) + 2 := by omega
    by_cases blank : ch = space
    · subst blank
      obtain ⟨line', first, last, run, name, start, stop, le, inside, content⟩ := ih text' line (p + 1)
      refine ⟨line', first + 1, last + 1, ?_, name, ?_, ?_, by omega, by simpa using inside, ?_⟩
      · simpa [scan, step, position] using run
      · rw [start]; congr 1; omega
      · rw [stop]; congr 1; omega
      · simpa [slice, fieldValue] using content
    · obtain ⟨line', run, name, start, stop⟩ := (scan_value text' { line with headerStart := some p } (p + 1)).1
      have whole : fieldValue (ch :: value) = ch :: trimRight value := by
        simp [fieldValue, blank, trimRight]
      refine ⟨line', 0, (trimRight value).length + 1, ?_, name, start, ?_, by omega, ?_, ?_⟩
      · simpa [scan, step, position, blank, notZero, notCr, notLf] using run
      · rw [stop]; congr 1; omega
      · simpa using trimRight_length_le value
      · rw [whole, slice, drop_zero, take_succ_cons, ← trimRight_eq_take]

theorem slice_within (first : Nat) {p last : Nat}
    (here : (data.drop p).take encoded.length = encoded) (inside : last ≤ encoded.length) :
    slice data (p + first) (p + last) = slice encoded first last := by
  rw [← here]
  simp only [slice, take_take, drop_take, drop_drop]
  rw [Nat.min_eq_left inside]
  congr 1
  omega

/-- A whole trailer line is accepted, and its field is found where the parser points to. -/
theorem scan_line (trailer : TrailerLine) (line : HeaderLineState) (p : Nat) :
    ∃ line', scan .start line p trailer.encode = .done line' (p + trailer.encode.length) ∧
      ∀ data : List UInt8, (data.drop p).take trailer.encode.length = trailer.encode →
        fieldOf line' data = some (trailer.name, fieldValue trailer.value) := by
  obtain ⟨ch, name, shape⟩ := exists_cons_of_ne_nil trailer.name_nonempty
  have visible := trailer.name_visible
  rw [shape] at visible
  obtain ⟨line₁, move, nameStart₁⟩ := step_name (.inl rfl) line p (visible ch (by simp))
  obtain ⟨line₂, run₂, nameStart₂, nameEnd₂⟩ := scan_name line₁ (p + 1)
    (fun other member => visible other (mem_cons_of_mem _ member)) (trailer.value ++ [cr, lf])
  obtain ⟨line₃, first, last, run₃, name₃, start₃, stop₃, le, inside, content⟩ :=
    scan_before_value trailer.value_text line₂ (p + 1 + name.length + 1)
  have encode_eq : trailer.encode = ch :: (name ++ colon :: (trailer.value ++ [cr, lf])) := by
    simp [TrailerLine.encode, shape]
  have encode_length : trailer.encode.length = name.length + trailer.value.length + 4 := by
    simp [encode_eq]
    omega
  refine ⟨line₃, ?_, fun data here => ?_⟩
  · rw [encode_length, encode_eq]
    simp only [scan, move, run₂, run₃]
    congr 1
    omega
  · have nameStart₃ : line₃.headerNameStart = some p := by
      rw [name₃.1, nameStart₂, nameStart₁]; simp
    have nameEnd₃ : line₃.headerNameEnd = some (p + (name.length + 1)) := by
      rw [name₃.2, nameEnd₂]; congr 1; omega
    have start₃' : line₃.headerStart = some (p + (name.length + 2 + first)) := by
      rw [start₃]; congr 1; omega
    have stop₃' : line₃.headerEnd = some (p + (name.length + 2 + last)) := by
      rw [stop₃]; congr 1; omega
    have name_slice : slice data p (p + (name.length + 1)) = trailer.name := by
      have := slice_within 0 here (show name.length + 1 ≤ trailer.encode.length by omega)
      rw [Nat.add_zero] at this
      rw [this, encode_eq, shape]
      simp [slice]
    have value_slice : slice data (p + (name.length + 2 + first)) (p + (name.length + 2 + last)) =
        fieldValue trailer.value := by
      rw [slice_within _ here (by omega), ← content, encode_eq]
      have split_eq : ch :: (name ++ colon :: (trailer.value ++ [cr, lf])) =
          (ch :: name ++ [colon]) ++ (trailer.value ++ [cr, lf]) := by simp
      have prefix_length : (ch :: name ++ [colon]).length = name.length + 2 := by simp
      rw [split_eq, ← prefix_length]
      simp only [slice, take_length_add_append, drop_length_add_append]
      rw [take_append_of_le_length inside]
    simp only [fieldOf, nameStart₃, nameEnd₃, start₃', stop₃', name_slice, value_slice]
    rw [if_neg (by omega), if_pos (by omega)]

end HeaderLineParser

end FiberGateway.Http1
