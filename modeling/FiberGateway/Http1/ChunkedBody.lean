import FiberGateway.Http1.ChunkedBodyParser

namespace FiberGateway.Http1

/-- Value of a digit string read on from `acc`. -/
def hexValue (acc : Nat) : List UInt8 → Option Nat
  | [] => some acc
  | ch :: rest =>
    match hexDigit ch with
    | some digit => hexValue (acc * 16 + digit) rest
    | none => none

def IsExtension (ext : List UInt8) : Prop :=
  match ext with
  | [] => True
  | first :: rest => isExtensionStart first = true ∧ cr ∉ rest ∧ lf ∉ rest

/-- A chunk-size line without its line end. -/
structure SizeLine where
  digits : List UInt8
  ext : List UInt8
  size : Nat
  digits_nonempty : digits ≠ []
  value : hexValue 0 digits = some size
  extension : IsExtension ext
  -- `length_` adds five to the size and has to stay representable
  representable : size ≤ kMaxSize - 5

def SizeLine.encode (line : SizeLine) : List UInt8 := line.digits ++ line.ext ++ [cr, lf]

structure Chunk where
  line : SizeLine
  data : List UInt8
  size_eq : line.size = data.length
  nonempty : data ≠ []

def Chunk.encode (chunk : Chunk) : List UInt8 := chunk.line.encode ++ chunk.data ++ [cr, lf]

/-- A trailer field: a name of visible bytes, the colon, and a value up to the line end. -/
structure TrailerLine where
  name : List UInt8
  value : List UInt8
  name_nonempty : name ≠ []
  name_visible : ∀ ch ∈ name, 0x20 < ch ∧ ch ≠ 0x7f ∧ ch ≠ colon
  value_text : ∀ ch ∈ value, ch ≠ 0 ∧ ch ≠ cr ∧ ch ≠ lf

def TrailerLine.encode (line : TrailerLine) : List UInt8 := line.name ++ colon :: line.value ++ [cr, lf]

/-- A valid chunked body: chunks, the last chunk, trailer fields and the empty line. -/
structure ChunkedBody where
  chunks : List Chunk
  last : SizeLine
  last_zero : last.size = 0
  trailers : List TrailerLine

namespace ChunkedBody

def trailerSection (body : ChunkedBody) : List UInt8 :=
  (body.trailers.map TrailerLine.encode).flatten ++ [cr, lf]

def encode (body : ChunkedBody) : List UInt8 :=
  (body.chunks.map Chunk.encode).flatten ++ body.last.encode ++ body.trailerSection

def payload (body : ChunkedBody) : List UInt8 := (body.chunks.map Chunk.data).flatten

end ChunkedBody

/-- Which sizes a parser that has been fed a valid body can hold in a state. -/
def Coherent (state : ChunkState) (size : Nat) : Prop :=
  match state with
  | .chunkSize | .chunkData => True
  | .chunkExtension | .chunkExtensionAlmostDone => size ≠ 0
  | _ => size = 0

/-- The parser is inside the size line of a non-empty chunk, behind a non-zero digit. -/
def InsideSizeLine (state : ChunkState) (size : Nat) : Prop :=
  size ≠ 0 ∧ (state = .chunkSize ∨ state = .chunkExtension ∨ state = .chunkExtensionAlmostDone)

instance (state : ChunkState) (size : Nat) : Decidable (InsideSizeLine state size) := by
  unfold InsideSizeLine; infer_instance

open ChunkedBodyParser in
/-- Reading the input byte by byte from a parser state yields the payload and stops in front of the
trailer section. Data bytes are counted down in the data state; everything else is the parser's. -/
inductive Decodes : ChunkState → Nat → List UInt8 → List UInt8 → List UInt8 → Prop
  | data {size byte input payload tail} : Decodes .chunkData size input payload tail →
      size + 1 ≤ kMaxSize - 5 →
      Decodes .chunkData (size + 1) (byte :: input) (byte :: payload) tail
  | dataEnd {input payload tail} : Decodes .afterData 0 input payload tail →
      Decodes .chunkData 0 input payload tail
  | next {state size ch state' size' input payload tail} : state ≠ .chunkData → Coherent state size →
      size ≤ kMaxSize - 5 → step state size ch = .next state' size' →
      Decodes state' size' input payload tail → Decodes state size (ch :: input) payload tail
  | finish {state ch tail} : state ≠ .chunkData → Coherent state 0 →
      step state 0 ch = .data .bodyDone .trailer 0 true → Decodes state 0 (ch :: tail) [] tail

namespace Decodes

variable {state : ChunkState} {size : Nat} {tail input : List UInt8}

section

variable (run : Decodes state size input payload tail)

include run

theorem coherent : Coherent state size := by
  cases run with
  | data | dataEnd => trivial
  | next _ coherent _ _ _ => exact coherent
  | finish _ coherent _ => exact coherent

theorem size_le : size ≤ kMaxSize - 5 := by
  cases run with
  | data _ bound => exact bound
  | dataEnd | finish => exact Nat.zero_le _
  | next _ _ bound _ _ => exact bound

theorem input_nonempty : input ≠ [] := by
  induction run with
  | dataEnd _ ih => exact ih
  | _ => simp

end

end Decodes

theorem appendHexDigit_eq_some {size digit : Nat} (bound : size * 16 + digit ≤ kMaxSize) :
    appendHexDigit size digit = some (size * 16 + digit) := by
  unfold appendHexDigit
  rw [if_neg]
  unfold kMaxSize at *
  omega

theorem hexValue_ge {acc value : Nat} {digits : List UInt8} (run : hexValue acc digits = some value) :
    acc ≤ value := by
  induction digits generalizing acc with
  | nil => simp only [hexValue, Option.some.injEq] at run; omega
  | cons ch rest ih =>
    simp only [hexValue] at run
    split at run
    · have := ih run; omega
    · simp at run

theorem hexDigit_cr : hexDigit cr = none := by decide

theorem isExtensionStart_other {ch : UInt8} (start : isExtensionStart ch = true) :
    hexDigit ch = none ∧ ch ≠ cr ∧ ch ≠ lf := by
  have cases : ch = semicolon ∨ ch = space ∨ ch = tab := by simpa [isExtensionStart] using start
  rcases cases with rfl | rfl | rfl <;> decide

variable {tail input ext payload data : List UInt8}

/-- The rest of a size line after its digits, up to and including the line end. -/
theorem Decodes.line_end {size : Nat} (extension : IsExtension ext)
    (positive : size ≠ 0) (bound : size ≤ kMaxSize - 5) (data : Decodes .chunkData size input payload tail) :
    Decodes .chunkSize size (ext ++ cr :: lf :: input) payload tail := by
  have almost : Decodes .chunkExtensionAlmostDone size (lf :: input) payload tail :=
    .next (by simp) positive bound (by simp [ChunkedBodyParser.step]) data
  cases ext with
  | nil =>
    exact .next (by simp) trivial bound (by simp [ChunkedBodyParser.step, hexDigit_cr, positive]) almost
  | cons first rest =>
    obtain ⟨start, noCr, noLf⟩ := extension
    have inside : Decodes .chunkExtension size (rest ++ cr :: lf :: input) payload tail := by
      induction rest with
      | nil => exact .next (by simp) positive bound (by simp [ChunkedBodyParser.step]) almost
      | cons ch rest ih =>
        simp only [List.mem_cons, not_or] at noCr noLf
        have other : ChunkedBodyParser.step .chunkExtension size ch = .next .chunkExtension size := by
          simp [ChunkedBodyParser.step, Ne.symm noCr.1, Ne.symm noLf.1]
        exact .next (by simp) positive bound other (ih noCr.2 noLf.2)
    have first_step : ChunkedBodyParser.step .chunkSize size first = .next .chunkExtension size := by
      obtain ⟨noDigit, notCr, notLf⟩ := isExtensionStart_other start
      simp [ChunkedBodyParser.step, noDigit, positive, notCr, notLf, start]
    exact .next (by simp) trivial bound first_step inside

theorem Decodes.digits {acc value : Nat} {digits payload : List UInt8} (run : hexValue acc digits = some value)
    (bound : value ≤ kMaxSize - 5) (rest : Decodes .chunkSize value input payload tail) :
    Decodes .chunkSize acc (digits ++ input) payload tail := by
  induction digits generalizing acc with
  | nil =>
    simp only [hexValue, Option.some.injEq] at run
    subst run
    exact rest
  | cons ch digits ih =>
    simp only [hexValue] at run
    split at run
    · rename_i digit atDigit
      have upper := hexValue_ge run
      have append : appendHexDigit acc digit = some (acc * 16 + digit) :=
        appendHexDigit_eq_some (by omega)
      exact .next (by simp) trivial (by omega) (by simp [ChunkedBodyParser.step, atDigit, append]) (ih run)
    · simp at run

/-- A whole size line leads from the start of a chunk to its data. -/
theorem Decodes.sizeLine {line : SizeLine} {payload : List UInt8} (positive : line.size ≠ 0)
    (data : Decodes .chunkData line.size input payload tail) :
    Decodes .chunkStart 0 (line.encode ++ input) payload tail := by
  have ending := Decodes.line_end line.extension positive line.representable data
  obtain ⟨first, digits, shape⟩ := List.exists_cons_of_ne_nil line.digits_nonempty
  have value := line.value
  rw [shape] at value
  simp only [hexValue] at value
  split at value
  · rename_i digit atDigit
    have more := Decodes.digits value line.representable ending
    simp only [Nat.zero_mul, Nat.zero_add] at more
    have whole : Decodes .chunkStart 0 (first :: (digits ++ (line.ext ++ cr :: lf :: input))) payload tail :=
      .next (by simp) rfl (Nat.zero_le _) (by simp [ChunkedBodyParser.step, atDigit]) more
    simpa [SizeLine.encode, shape, List.append_assoc] using whole
  · simp at value

theorem Decodes.data_append (bound : data.length ≤ kMaxSize - 5)
    (rest : Decodes .afterData 0 input payload tail) :
    Decodes .chunkData data.length (data ++ input) (data ++ payload) tail := by
  induction data with
  | nil => exact .dataEnd rest
  | cons byte data ih =>
    simp only [List.length_cons] at bound
    exact .data (ih (by omega)) bound

theorem Decodes.chunk (chunk : Chunk) (rest : Decodes .chunkStart 0 input payload tail) :
    Decodes .chunkStart 0 (chunk.encode ++ input) (chunk.data ++ payload) tail := by
  have afterCr : Decodes .afterDataAlmostDone 0 (lf :: input) payload tail :=
    .next (by simp) rfl (Nat.zero_le _) (by simp [ChunkedBodyParser.step]) rest
  have after : Decodes .afterData 0 (cr :: lf :: input) payload tail :=
    .next (by simp) rfl (Nat.zero_le _) (by simp [ChunkedBodyParser.step]) afterCr
  have bound := chunk.line.representable
  rw [chunk.size_eq] at bound
  have data := Decodes.data_append bound after
  rw [← chunk.size_eq] at data
  have positive : chunk.line.size ≠ 0 := by
    rw [chunk.size_eq]
    exact fun zero => chunk.nonempty (List.length_eq_zero_iff.mp zero)
  have whole := Decodes.sizeLine positive data
  simpa [Chunk.encode, List.append_assoc] using whole

/-- The line of the last chunk, from behind its first digit. -/
theorem Decodes.last_line {digits ext : List UInt8} (value : hexValue 0 digits = some 0)
    (extension : IsExtension ext) : Decodes .chunkSize 0 (digits ++ (ext ++ cr :: lf :: tail)) [] tail := by
  refine Decodes.digits value (by simp) ?_
  have almost : Decodes .lastChunkExtensionAlmostDone 0 (lf :: tail) [] tail :=
    .finish (by simp) rfl (by simp [ChunkedBodyParser.step])
  cases ext with
  | nil =>
    exact .next (by simp) trivial (Nat.zero_le _) (by simp [ChunkedBodyParser.step, hexDigit_cr]) almost
  | cons first rest =>
    obtain ⟨start, noCr, noLf⟩ := extension
    have inside : Decodes .lastChunkExtension 0 (rest ++ cr :: lf :: tail) [] tail := by
      induction rest with
      | nil => exact .next (by simp) rfl (Nat.zero_le _) (by simp [ChunkedBodyParser.step]) almost
      | cons ch rest ih =>
        simp only [List.mem_cons, not_or] at noCr noLf
        have other : ChunkedBodyParser.step .lastChunkExtension 0 ch = .next .lastChunkExtension 0 := by
          simp [ChunkedBodyParser.step, Ne.symm noCr.1, Ne.symm noLf.1]
        exact .next (by simp) rfl (Nat.zero_le _) other (ih noCr.2 noLf.2)
    have first_step : ChunkedBodyParser.step .chunkSize 0 first = .next .lastChunkExtension 0 := by
      obtain ⟨noDigit, notCr, notLf⟩ := isExtensionStart_other start
      simp [ChunkedBodyParser.step, noDigit, notCr, notLf, start]
    exact .next (by simp) trivial (Nat.zero_le _) first_step inside

theorem Decodes.last {line : SizeLine} (zero : line.size = 0) (tail : List UInt8) :
    Decodes .chunkStart 0 (line.encode ++ tail) [] tail := by
  obtain ⟨first, digits, shape⟩ := List.exists_cons_of_ne_nil line.digits_nonempty
  have value := line.value
  rw [shape, zero] at value
  simp only [hexValue] at value
  split at value
  · rename_i digit atDigit
    have digitZero : digit = 0 := by
      have := hexValue_ge value
      omega
    subst digitZero
    have more := @Decodes.last_line tail digits line.ext value line.extension
    have whole : Decodes .chunkStart 0 (first :: (digits ++ (line.ext ++ cr :: lf :: tail))) [] tail :=
      .next (by simp) rfl (Nat.zero_le _) (by simp [ChunkedBodyParser.step, atDigit]) more
    simpa [SizeLine.encode, shape, List.append_assoc] using whole
  · simp at value

/-- Every valid body decodes to its payload, up to its trailer section and whatever follows. -/
theorem ChunkedBody.decodes (body : ChunkedBody) (following : List UInt8) :
    Decodes .chunkStart 0 (body.encode ++ following) body.payload (body.trailerSection ++ following) := by
  have chunks : ∀ list : List Chunk,
      Decodes .chunkStart 0
        ((list.map Chunk.encode).flatten ++ (body.last.encode ++ (body.trailerSection ++ following)))
        (list.map Chunk.data).flatten (body.trailerSection ++ following) := by
    intro list
    induction list with
    | nil => exact Decodes.last body.last_zero _
    | cons chunk list ih =>
      have one := Decodes.chunk chunk ih
      simpa [List.append_assoc] using one
  simpa [ChunkedBody.encode, ChunkedBody.payload, List.append_assoc] using chunks body.chunks

end FiberGateway.Http1
