import FiberGateway.Json.DecodedString

namespace FiberGateway.Json

open List Unicode Option

def utf8NextCodepoint : List UInt8 → Option (Nat × List UInt8)
  | [] => none
  | ch :: rest =>
    if ch < 0x80 then some (ch.toNat, rest)
    else
      match leadByte ch with
      | none => none
      | some (needed, code, minValue) =>
        if rest.length < needed then none
        else
          match continueCode code 1 (rest.take needed) with
          | .error _ => none
          | .ok code =>
            if code < minValue ∨ code > 0x10FFFF ∨ (code ≥ 0xD800 ∧ code ≤ 0xDFFF) then none
            else some (code, rest.drop needed)

/-- One round of a loop over `decode_utf8_codepoint` with `final` set. -/
def decodeNext (data : List UInt8) : Option (Nat × List UInt8) :=
  match decodeUtf8Codepoint true data with
  | .ok codepoint consumed => some (codepoint, data.drop consumed)
  | _ => none

structure Utf8ScanResult where
  utf16Len : Nat := 0
  allByte : Bool := true
  deriving DecidableEq, Repr

def utf8Scan (data : List UInt8) : Option Utf8ScanResult :=
  foldCodes utf8NextCodepoint (fun out codepoint => some
    { utf16Len := out.utf16Len + if codepoint ≤ 0xFFFF then 1 else 2
      allByte := if codepoint > 0xFF then false else out.allByte }) data.length data {}

def utf8Validate (data : List UInt8) : Bool := (utf8Scan data).isSome

/-- A round of `utf8_write_bytes`, to a destination of `dstLen` bytes. -/
def writeByte (dstLen : Nat) (out : List UInt8) (codepoint : Nat) : Option (List UInt8) :=
  if codepoint > 0xFF then none
  else if dstLen ≤ out.length then none
  else some (out ++ [.ofNat codepoint])

def utf8WriteBytes (data : List UInt8) (dstLen : Nat) : Option (List UInt8) :=
  if data = [] then some []
  else do
    let out ← foldCodes utf8NextCodepoint (writeByte dstLen) data.length data []
    if out.length = dstLen then some out else none

def writeUnits (dstLen : Nat) (out : List UInt16) (codepoint : Nat) : Option (List UInt16) :=
  if codepoint ≤ 0xFFFF then if dstLen ≤ out.length then none else some (out ++ [.ofNat codepoint])
  else
    let value := codepoint - 0x10000
    if dstLen ≤ out.length + 1 then none
    else some (out ++ [.ofNat (0xD800 + (value >>> 10)), .ofNat (0xDC00 + (value &&& 0x3FF))])

def utf8WriteUtf16 (data : List UInt8) (dstLen : Nat) : Option (List UInt16) :=
  if data = [] then some []
  else do
    let out ← foldCodes utf8NextCodepoint (writeUnits dstLen) data.length data []
    if out.length = dstLen then some out else none

/-- The loop of `decode_utf8` of the collector's strings. -/
def decodeUtf8Loop : Nat → List UInt8 → DecodedString → Option DecodedString
  | _, [], out => some out
  | 0, _ :: _, _ => none
  | fuel + 1, ch :: rest, out =>
    if ch < 0x80 then decodeUtf8Loop fuel rest (out.appendCodeUnit ch.toUInt16)
    else
      match leadByte ch with
      | none => none
      | some (needed, code, minValue) =>
        if rest.length < needed then none
        else
          match continueCode code 1 (rest.take needed) with
          | .error _ => none
          | .ok code =>
            if code < minValue ∨ code > 0x10FFFF ∨ (code ≥ 0xD800 ∧ code ≤ 0xDFFF) then none
            else decodeUtf8Loop fuel (rest.drop needed) (out.appendCodepoint code)

def decodeUtf8 (data : List UInt8) : Option DecodedString := decodeUtf8Loop data.length data {}

/-- A round of `is_valid_utf8` of the JSON generator. -/
def validNext : List UInt8 → Option (List UInt8)
  | [] => none
  | c :: rest =>
    if c < 0x80 then some rest
    else if c &&& 0xE0 = 0xC0 then
      match rest with
      | c1 :: rest =>
        if c1 &&& 0xC0 ≠ 0x80 then none
        else if (c &&& 0x1F).toNat <<< 6 ||| (c1 &&& 0x3F).toNat < 0x80 then none
        else some rest
      | _ => none
    else if c &&& 0xF0 = 0xE0 then
      match rest with
      | c1 :: c2 :: rest =>
        let code := (c &&& 0x0F).toNat <<< 12 ||| (c1 &&& 0x3F).toNat <<< 6 ||| (c2 &&& 0x3F).toNat
        if c1 &&& 0xC0 ≠ 0x80 ∨ c2 &&& 0xC0 ≠ 0x80 then none
        else if code < 0x800 then none
        else if 0xD800 ≤ code ∧ code ≤ 0xDFFF then none
        else some rest
      | _ => none
    else if c &&& 0xF8 = 0xF0 then
      match rest with
      | c1 :: c2 :: c3 :: rest =>
        let code := (c &&& 0x07).toNat <<< 18 ||| (c1 &&& 0x3F).toNat <<< 12 ||| (c2 &&& 0x3F).toNat <<< 6 |||
          (c3 &&& 0x3F).toNat
        if c1 &&& 0xC0 ≠ 0x80 ∨ c2 &&& 0xC0 ≠ 0x80 ∨ c3 &&& 0xC0 ≠ 0x80 then none
        else if code < 0x10000 ∨ code > 0x10FFFF then none
        else some rest
      | _ => none
    else none

def validLoop : Nat → List UInt8 → Bool
  | _, [] => true
  | 0, _ :: _ => false
  | fuel + 1, c :: rest => (validNext (c :: rest)).any (validLoop fuel)

def isValidUtf8 (data : List UInt8) : Bool := validLoop data.length data

/-- The string of a text, when the heap has room for it. -/
def gcNewString (data : List UInt8) : Option GcString := (decodeUtf8 data).map makeGcString

/-- `append_utf8`: the bytes of one code point. -/
def appendUtf8 (codepoint : Nat) : List UInt8 :=
  if codepoint ≤ 0x7F then [.ofNat codepoint]
  else if codepoint ≤ 0x7FF then [.ofNat (0xC0 ||| codepoint >>> 6), .ofNat (0x80 ||| (codepoint &&& 0x3F))]
  else if codepoint ≤ 0xFFFF then
    [.ofNat (0xE0 ||| codepoint >>> 12), .ofNat (0x80 ||| (codepoint >>> 6 &&& 0x3F)), .ofNat (0x80 ||| (codepoint &&& 0x3F))]
  else
    [.ofNat (0xF0 ||| codepoint >>> 18), .ofNat (0x80 ||| (codepoint >>> 12 &&& 0x3F)),
      .ofNat (0x80 ||| (codepoint >>> 6 &&& 0x3F)), .ofNat (0x80 ||| (codepoint &&& 0x3F))]

/-- Both passes of `gc_string_to_utf8` over the code units: a surrogate stands with its partner or stops it. -/
def eachUnit {α : Type} (pair : UInt16 → UInt16 → α) (single : UInt16 → α) : List UInt16 → Option (List α)
  | [] => some []
  | unit :: rest =>
    if 0xD800 ≤ unit ∧ unit ≤ 0xDBFF then
      match rest with
      | [] => none
      | low :: rest =>
        if low < 0xDC00 ∨ low > 0xDFFF then none else (eachUnit pair single rest).map (pair unit low :: ·)
    else if 0xDC00 ≤ unit ∧ unit ≤ 0xDFFF then none
    else (eachUnit pair single rest).map (single unit :: ·)

def utf8Length (units : List UInt16) : Option Nat :=
  (eachUnit (fun _ _ => 4) (fun unit => if unit < 0x80 then 1 else if unit < 0x800 then 2 else 3) units).map List.sum

def utf16ToUtf8 (units : List UInt16) : Option (List UInt8) :=
  (eachUnit (fun unit low => appendUtf8 (0x10000 + ((unit.toNat - 0xD800) <<< 10) + (low.toNat - 0xDC00)))
    (fun unit => appendUtf8 unit.toNat) units).map List.flatten

/-- A buffer of this size after the bytes were written to it; there is no buffer when they do not fit. -/
def fill (size : Nat) (bytes : List UInt8) : Option (List UInt8) :=
  if bytes.length ≤ size then some (bytes ++ List.replicate (size - bytes.length) 0) else none

def gcStringToUtf8 (str : GcString) : Option (List UInt8) :=
  match str.encoding with
  | .byte =>
    let data8 := str.units.map (·.toUInt8)
    let extra := data8.countP (0x80 ≤ ·)
    if extra = 0 then some data8 else fill (data8.length + extra) (data8.flatMap fun byte => appendUtf8 byte.toNat)
  | .utf16 => do
    let outLen ← utf8Length str.units
    fill outLen (← utf16ToUtf8 str.units)

theorem utf8NextCodepoint_eq : utf8NextCodepoint = decodeNext := by
  funext data
  cases data with
  | nil => rfl
  | cons ch rest =>
    unfold utf8NextCodepoint decodeNext decodeUtf8Codepoint
    by_cases ascii : ch < 0x80
    · simp only [if_pos ascii, drop_one, tail_cons]
    simp only [if_neg ascii, if_true]
    cases leadByte ch with
    | none => rfl
    | some lead =>
      obtain ⟨needed, code, minValue⟩ := lead
      dsimp only
      split
      · rfl
      cases continueCode code 1 (rest.take needed) with
      | error idx => rfl
      | ok code =>
        dsimp only
        split <;> rfl

theorem isDecoder_decodeNext : IsDecoder decodeNext := by
  intro data code rest
  constructor
  · intro taken
    unfold decodeNext at taken
    split at taken
    · rename_i found consumed decoded
      cases taken
      obtain ⟨scalar, length, rest, rfl⟩ := decodeUtf8Codepoint_ok decoded
      rw [length, drop_left]
      exact ⟨scalar, rfl⟩
    · cases taken
  · rintro ⟨scalar, rfl⟩
    simp [decodeNext, decodeUtf8Codepoint_utf8 scalar]

theorem isDecoder_utf8NextCodepoint : IsDecoder utf8NextCodepoint := utf8NextCodepoint_eq ▸ isDecoder_decodeNext

theorem decodeUtf8Loop_eq (fuel : Nat) (data : List UInt8) (out : DecodedString) :
    decodeUtf8Loop fuel data out = foldCodes utf8NextCodepoint (fun out code => some (out.appendCodepoint code)) fuel data out := by
  induction fuel generalizing data out with
  | zero => cases data <;> rfl
  | succ fuel ih =>
    cases data with
    | nil => rfl
    | cons ch rest =>
      rw [decodeUtf8Loop, foldCodes, utf8NextCodepoint]
      by_cases ascii : ch < 0x80
      · have small := lt_iff_toNat.mp ascii
        have same : UInt16.ofNat ch.toNat = ch.toUInt16 := UInt16.toNat_inj.mp (by simp)
        have unit : out.appendCodepoint ch.toNat = out.appendCodeUnit ch.toUInt16 := by
          rw [DecodedString.appendCodepoint, if_pos (by omega), same]
        rw [if_pos ascii, if_pos ascii, ih, ← unit]
        rfl
      simp only [if_neg ascii]
      cases leadByte ch with
      | none => rfl
      | some lead =>
        obtain ⟨needed, code, minValue⟩ := lead
        dsimp only
        split
        · rfl
        cases continueCode code 1 (rest.take needed) with
        | error idx => rfl
        | ok code =>
          dsimp only
          split
          · rfl
          · exact ih _ _

theorem toNat_and_le (c mask : UInt8) : (c &&& mask).toNat ≤ mask.toNat := by
  rw [UInt8.toNat_and]
  exact Nat.and_le_right

theorem validNext_eq (data : List UInt8) : validNext data = (utf8NextCodepoint data).map Prod.snd := by
  have six (a b : Nat) : (a <<< 6 ||| b) <<< 6 = a <<< 12 ||| b <<< 6 := by
    rw [Nat.shiftLeft_or_distrib, ← Nat.shiftLeft_add]
  have twelve (a b : Nat) : (a <<< 12 ||| b) <<< 6 = a <<< 18 ||| b <<< 6 := by
    rw [Nat.shiftLeft_or_distrib, ← Nat.shiftLeft_add]
  rcases data with _ | ⟨c, rest⟩
  · rfl
  unfold validNext utf8NextCodepoint leadByte
  by_cases ascii : c < 0x80
  · simp only [if_pos ascii, map_some]
  simp only [if_neg ascii]
  by_cases two : c &&& 0xE0 = 0xC0
  · simp only [if_pos two]
    rcases rest with _ | ⟨c1, rest⟩
    · rfl
    have code := shift_or (c &&& 0x1F).toNat c1
    have bound : (c &&& 0x1F).toNat ≤ 31 := toNat_and_le ..
    simp only [continueCode, take_succ_cons, take_zero, length_cons]
    split_ifs <;> simp_all
    omega
  by_cases three : c &&& 0xF0 = 0xE0
  · simp only [if_neg two, if_pos three]
    rcases rest with _ | ⟨c1, _ | ⟨c2, rest⟩⟩
    · rfl
    · rfl
    have inner := shift_or (c &&& 0x0F).toNat c1
    have code := shift_or ((c &&& 0x0F).toNat * 64 + c1.toNat % 64) c2
    have bound : (c &&& 0x0F).toNat ≤ 15 := toNat_and_le ..
    rw [← shift_or, six] at code
    simp only [continueCode, take_succ_cons, take_zero, length_cons, six]
    split_ifs <;> simp_all
    omega
  by_cases four : c &&& 0xF8 = 0xF0
  · simp only [if_neg two, if_neg three, if_pos four]
    rcases rest with _ | ⟨c1, _ | ⟨c2, _ | ⟨c3, rest⟩⟩⟩
    · rfl
    · rfl
    · rfl
    simp only [continueCode, take_succ_cons, take_zero, length_cons, six, twelve, Nat.shiftLeft_or_distrib,
      ← Nat.shiftLeft_add]
    split_ifs <;> simp_all <;> omega
  · simp only [if_neg two, if_neg three, if_neg four, map_none]

/-- The code points of a text, taken one after the other with `next`. -/
def codepoints (next : List UInt8 → Option (Nat × List UInt8)) (data : List UInt8) : Option (List Nat) :=
  foldCodes next (fun codes code => some (codes ++ [code])) data.length data []

theorem foldlM_snoc (codes front : List Nat) :
    codes.foldlM (fun codes code => some (codes ++ [code])) front = some (front ++ codes) := by
  induction codes generalizing front with
  | nil => simp
  | cons code codes ih => simpa using ih (front ++ [code])

variable {data : List UInt8} {codes codes' : List Nat}

theorem codepoints_iff {next : List UInt8 → Option (Nat × List UInt8)} (decoder : IsDecoder next) :
    codepoints next data = some codes ↔ Decodes data codes := by
  simp [codepoints, foldCodes_iff decoder le_rfl, foldlM_snoc]

theorem decodes_unique (first : Decodes data codes) (second : Decodes data codes') :
    codes = codes' := by
  rw [← codepoints_iff isDecoder_decodeNext] at first second
  exact Option.some.inj (first.symm.trans second)

/-- A loop that never stops on its own ends for exactly the well-formed texts. -/
theorem foldCodes_pure {σ : Type} {f : σ → Nat → σ} {s s' : σ} :
    foldCodes utf8NextCodepoint (fun s code => some (f s code)) data.length data s = some s' ↔
      ∃ codes, Decodes data codes ∧ codes.foldl f s = s' := by
  have plain (codes : List Nat) : codes.foldlM (fun s code => some (f s code)) s = some (codes.foldl f s) := foldlM_pure
  simp [foldCodes_iff isDecoder_utf8NextCodepoint le_rfl, plain]

theorem validLoop_eq {fuel : Nat} (enough : data.length ≤ fuel) :
    validLoop fuel data = (foldCodes utf8NextCodepoint (fun _ _ => some ()) fuel data ()).isSome := by
  induction fuel generalizing data with
  | zero => rw [length_eq_zero_iff.mp (Nat.le_zero.mp enough)]; rfl
  | succ fuel ih =>
    rcases data with _ | ⟨c, rest⟩
    · rfl
    rw [validLoop, foldCodes, validNext_eq]
    cases taken : utf8NextCodepoint (c :: rest) with
    | none => rfl
    | some next =>
      obtain ⟨code, later⟩ := next
      have bytes := ((isDecoder_utf8NextCodepoint ..).mp taken).2
      have shorter := congrArg List.length bytes
      have := utf8_length_pos code
      rw [length_append, length_cons] at shorter
      rw [length_cons] at enough
      exact ih (show later.length ≤ fuel by omega)

theorem isValidUtf8_iff : isValidUtf8 data = true ↔ ∃ codes, Decodes data codes := by
  rw [isValidUtf8, validLoop_eq le_rfl, isSome_iff_exists]
  simp [foldCodes_pure]

theorem utf8Scan_iff {scan : Utf8ScanResult} : utf8Scan data = some scan ↔
    ∃ codes, Decodes data codes ∧ scan = ⟨(codes.flatMap utf16).length, codes.all (· ≤ 0xFF)⟩ := by
  have total (codes : List Nat) (out : Utf8ScanResult) : codes.foldl (fun out codepoint =>
      { utf16Len := out.utf16Len + if codepoint ≤ 0xFFFF then 1 else 2
        allByte := if codepoint > 0xFF then false else out.allByte }) out =
      ⟨out.utf16Len + (codes.flatMap utf16).length, out.allByte && codes.all (· ≤ 0xFF)⟩ := by
    induction codes generalizing out with
    | nil => simp
    | cons code codes ih =>
      have units : (utf16 code).length = if code ≤ 0xFFFF then 1 else 2 := by
        rw [utf16_eq]
        split <;> rfl
      rw [foldl_cons, ih, flatMap_cons, length_append, units, all_cons, Nat.add_assoc]
      by_cases wide : code > 0xFF
      · simp [wide]
      · simp [wide, Nat.not_lt.mp wide]
  rw [utf8Scan, foldCodes_pure]
  simp only [total, Nat.zero_add, Bool.true_and, @eq_comm _ _ scan]

/-- A loop that appends what a code point stands for, as long as there is room. -/
theorem foldlM_append {α : Type} {f : List α → Nat → Option (List α)} {g : Nat → List α} {size : Nat}
    (step : ∀ code ∈ codes, ∀ out, out.length + (g code).length ≤ size → f out code = some (out ++ g code))
    (out : List α) (fits : out.length + (codes.flatMap g).length ≤ size) :
    codes.foldlM f out = some (out ++ codes.flatMap g) := by
  induction codes generalizing out with
  | nil => simp
  | cons code codes ih =>
    rw [forall_mem_cons] at step
    rw [flatMap_cons, length_append] at fits
    rw [foldlM_cons, step.1 out (by omega), bind_eq_bind, bind_some,
      ih step.2 _ (by rw [length_append]; omega), flatMap_cons, append_assoc]

theorem decodes_nil (decodes : Decodes [] codes) : codes = [] :=
  decodes_unique decodes ⟨nofun, rfl⟩

theorem utf8WriteUtf16_eq (decodes : Decodes data codes) :
    utf8WriteUtf16 data (codes.flatMap utf16).length = some (codes.flatMap utf16) := by
  have step (code : Nat) (out : List UInt16) (room : out.length + (utf16 code).length ≤ (codes.flatMap utf16).length) :
      writeUnits (codes.flatMap utf16).length out code = some (out ++ utf16 code) := by
    rw [utf16_eq] at room ⊢
    unfold writeUnits
    split at room
    · rename_i one
      rw [length_singleton] at room
      rw [if_pos one, if_neg (by omega), if_pos one]
    · rename_i two
      rw [length_cons, length_singleton] at room
      rw [if_neg two, if_neg (by omega), if_neg two]
  unfold utf8WriteUtf16
  split
  · rename_i empty
    subst empty
    rw [decodes_nil decodes]
    rfl
  · have loop := (foldCodes_iff isDecoder_utf8NextCodepoint le_rfl).mpr
      ⟨codes, decodes, foldlM_append (fun code _ => step code) [] (by simp)⟩
    rw [loop]
    simp

theorem utf8WriteBytes_eq (decodes : Decodes data codes) (narrow : ∀ code ∈ codes, code ≤ 0xFF) :
    utf8WriteBytes data codes.length = some (codes.map .ofNat) := by
  have step (code : Nat) (member : code ∈ codes) (out : List UInt8) (room : out.length + [UInt8.ofNat code].length ≤ codes.length) :
      writeByte codes.length out code = some (out ++ [.ofNat code]) := by
    have := narrow code member
    rw [length_singleton] at room
    rw [writeByte, if_neg (by omega), if_neg (by omega)]
  unfold utf8WriteBytes
  split
  · rename_i empty
    subst empty
    rw [decodes_nil decodes]
    rfl
  · have loop := (foldCodes_iff isDecoder_utf8NextCodepoint le_rfl).mpr
      ⟨codes, decodes, foldlM_append step [] (by simp)⟩
    rw [loop, ← map_eq_flatMap]
    simp

variable {out : DecodedString} {code n high low : Nat}

theorem decodeUtf8_iff :
    decodeUtf8 data = some out ↔ ∃ codes, Decodes data codes ∧ codes.foldl .appendCodepoint {} = out := by
  rw [decodeUtf8, decodeUtf8Loop_eq, foldCodes_pure]

theorem units_foldl (codes : List Nat) (canonical : out.Canonical) :
    (codes.foldl .appendCodepoint out).units = out.units ++ codes.flatMap utf16 ∧
      (codes.foldl .appendCodepoint out).Canonical := by
  induction codes generalizing out with
  | nil => simpa using canonical
  | cons code codes ih =>
    obtain ⟨units, canonical'⟩ := DecodedString.units_appendCodepoint canonical code
    obtain ⟨later, canonical''⟩ := ih canonical'
    rw [foldl_cons, later, units, flatMap_cons, append_assoc]
    exact ⟨rfl, canonical''⟩

theorem gcNewString_eq (decodes : Decodes data codes) : gcNewString data = some (.ofUnits (codes.flatMap utf16)) := by
  obtain ⟨units, canonical⟩ := units_foldl codes (show ({} : DecodedString).Canonical from rfl)
  rw [gcNewString, decodeUtf8_iff.mpr ⟨codes, decodes, rfl⟩, map_some, DecodedString.makeGcString_eq canonical, units]
  rfl

theorem appendUtf8_eq (bound : code ≤ 0x10FFFF) : appendUtf8 code = utf8 code := by
  have low (n : Nat) : 0x80 ||| (n &&& 0x3F) = 0x80 + n % 64 := by
    rw [show n &&& 0x3F = n % 64 from Nat.and_two_pow_sub_one_eq_mod n 6]
    exact (Nat.two_pow_add_eq_or_of_lt (i := 6) (Nat.mod_lt _ (by decide)) 2).symm
  have lead (i a n : Nat) (small : n < 2 ^ i) := (Nat.two_pow_add_eq_or_of_lt small a).symm
  have shift (n k : Nat) := Nat.shiftRight_eq_div_pow n k
  unfold appendUtf8 utf8
  simp only [low, shift, Nat.reducePow]
  by_cases one : code ≤ 0x7F
  · rw [if_pos one, if_pos (by omega)]
  rw [if_neg one, if_neg (show ¬ code < 0x80 by omega)]
  by_cases two : code ≤ 0x7FF
  · rw [if_pos two, if_pos (by omega), show 0xC0 ||| code / 64 = 0xC0 + code / 64 from lead 6 3 _ (by omega)]
  rw [if_neg two, if_neg (show ¬ code < 0x800 by omega)]
  by_cases three : code ≤ 0xFFFF
  · rw [if_pos three, if_pos (by omega), show 0xE0 ||| code / 4096 = 0xE0 + code / 4096 from lead 4 14 _ (by omega)]
  · rw [if_neg three, if_neg (by omega), show 0xF0 ||| code / 262144 = 0xF0 + code / 262144 from lead 3 30 _ (by omega)]

theorem toNat_ofNat16 (small : n < 0x10000) : (UInt16.ofNat n).toNat = n := UInt16.toNat_ofNat_of_lt' small

section

variable {α : Type} {pair : UInt16 → UInt16 → α} {single : UInt16 → α} {rest : List UInt16}

theorem eachUnit_single (small : code < 0x10000) (scalar : IsScalar code) :
    eachUnit pair single (.ofNat code :: rest) = (eachUnit pair single rest).map (single (.ofNat code) :: ·) := by
  have unit := toNat_ofNat16 small
  unfold IsScalar at scalar
  have high : ¬ (0xD800 ≤ UInt16.ofNat code ∧ UInt16.ofNat code ≤ 0xDBFF) := by
    simp only [UInt16.le_iff_toNat_le, unit, UInt16.reduceToNat]
    omega
  have low : ¬ (0xDC00 ≤ UInt16.ofNat code ∧ UInt16.ofNat code ≤ 0xDFFF) := by
    simp only [UInt16.le_iff_toNat_le, unit, UInt16.reduceToNat]
    omega
  cases rest <;> rw [eachUnit.eq_def] <;> simp only [if_neg high, if_neg low]

theorem eachUnit_pair (isHigh : high < 1024) (isLow : low < 1024) :
    eachUnit pair single (.ofNat (0xD800 + high) :: .ofNat (0xDC00 + low) :: rest) =
      (eachUnit pair single rest).map (pair (.ofNat (0xD800 + high)) (.ofNat (0xDC00 + low)) :: ·) := by
  have first : 0xD800 ≤ UInt16.ofNat (0xD800 + high) ∧ UInt16.ofNat (0xD800 + high) ≤ 0xDBFF := by
    simp only [UInt16.le_iff_toNat_le, toNat_ofNat16 (show 0xD800 + high < 0x10000 by omega), UInt16.reduceToNat]
    omega
  have second : ¬ (UInt16.ofNat (0xDC00 + low) < 0xDC00 ∨ UInt16.ofNat (0xDC00 + low) > 0xDFFF) := by
    simp only [gt_iff_lt, UInt16.lt_iff_toNat_lt, toNat_ofNat16 (show 0xDC00 + low < 0x10000 by omega), UInt16.reduceToNat]
    omega
  rw [eachUnit.eq_def]
  simp only [if_pos first, if_neg second]

/-- A pass over the code units of a text meets its code points. -/
theorem eachUnit_utf16 {g : Nat → α} (scalars : ∀ code ∈ codes, IsScalar code)
    (one : ∀ code, code < 0x10000 → single (.ofNat code) = g code)
    (two : ∀ high low, high < 1024 → low < 1024 →
      pair (.ofNat (0xD800 + high)) (.ofNat (0xDC00 + low)) = g (0x10000 + high * 1024 + low)) :
    eachUnit pair single (codes.flatMap utf16) = some (codes.map g) := by
  induction codes with
  | nil => rfl
  | cons code codes ih =>
    rw [forall_mem_cons] at scalars
    have scalar := scalars.1
    rw [flatMap_cons, utf16]
    split
    · rename_i small
      rw [singleton_append, eachUnit_single small scalar, ih scalars.2, one code small]
      rfl
    · have bound : code ≤ 0x10FFFF := by
        unfold IsScalar at scalar
        omega
      have value : 0x10000 + (code - 0x10000) / 1024 * 1024 + (code - 0x10000) % 1024 = code := by omega
      rw [cons_append, singleton_append, eachUnit_pair (by omega) (by omega), ih scalars.2,
        two _ _ (by omega) (by omega), value]
      rfl

end

theorem utf16ToUtf8_utf16 (scalars : ∀ code ∈ codes, IsScalar code) :
    utf16ToUtf8 (codes.flatMap utf16) = some (codes.flatMap utf8) := by
  rw [utf16ToUtf8, eachUnit_utf16 (g := appendUtf8) scalars]
  · have same : codes.map appendUtf8 = codes.map utf8 := map_congr_left fun code member => by
      have scalar := scalars code member
      unfold IsScalar at scalar
      exact appendUtf8_eq (by omega)
    rw [map_some, same, List.flatMap]
  · intro code small
    rw [toNat_ofNat16 small]
  · intro high low isHigh isLow
    rw [toNat_ofNat16 (by omega), toNat_ofNat16 (by omega), Nat.shiftLeft_eq]
    refine congrArg appendUtf8 ?_
    omega

theorem utf8Length_utf16 (scalars : ∀ code ∈ codes, IsScalar code) :
    utf8Length (codes.flatMap utf16) = some (codes.flatMap utf8).length := by
  rw [utf8Length, eachUnit_utf16 (g := fun code => (utf8 code).length) scalars, map_some, length_flatMap]
  · intro code small
    simp only [UInt16.lt_iff_toNat_lt, toNat_ofNat16 small, UInt16.reduceToNat, utf8]
    split_ifs <;> rfl
  · intro high low isHigh isLow
    rw [utf8, if_neg (by omega), if_neg (by omega), if_neg (by omega)]
    rfl

theorem fill_exact (bytes : List UInt8) : fill bytes.length bytes = some bytes := by simp [fill]

theorem gcStringToUtf8_byte (units : List UInt16) :
    gcStringToUtf8 ⟨.byte, units⟩ = some ((units.map (·.toUInt8)).flatMap fun byte => appendUtf8 byte.toNat) := by
  rw [gcStringToUtf8]
  dsimp only
  generalize units.map (·.toUInt8) = data8
  have length : (data8.flatMap fun byte => appendUtf8 byte.toNat).length = data8.length + data8.countP (0x80 ≤ ·) := by
    induction data8 with
    | nil => rfl
    | cons byte data8 ih =>
      have bound := byte.toNat_lt
      have two : (appendUtf8 byte.toNat).length = 1 + if 0x80 ≤ byte then 1 else 0 := by
        simp only [appendUtf8, UInt8.le_iff_toNat_le, UInt8.reduceToNat]
        split_ifs <;> first | rfl | omega
      rw [flatMap_cons, length_append, two, ih, countP_cons, length_cons]
      simp only [decide_eq_true_eq]
      omega
  split
  · rename_i ascii
    have single : ∀ byte ∈ data8, appendUtf8 byte.toNat = [byte] := fun byte member => by
      have small : ¬ 0x80 ≤ byte := by simpa using countP_eq_zero.mp ascii byte member
      simp only [UInt8.le_iff_toNat_le, UInt8.reduceToNat] at small
      rw [appendUtf8, if_pos (by omega), UInt8.ofNat_toNat]
    rw [flatMap_congr single, flatMap_singleton']
  · rw [← length, fill_exact]

theorem le_of_utf16_le (scalars : ∀ code ∈ codes, IsScalar code)
    (narrow : ∀ unit ∈ codes.flatMap utf16, unit ≤ 0xFF) (member : code ∈ codes) : code ≤ 0xFF := by
  have scalar := scalars code member
  have units (unit : UInt16) (inside : unit ∈ utf16 code) : unit.toNat ≤ 0xFF :=
    UInt16.le_iff_toNat_le.mp (narrow unit (mem_flatMap.mpr ⟨code, member, inside⟩))
  unfold IsScalar at scalar
  by_cases small : code < 0x10000
  · have unit := units (.ofNat code) (by simp [utf16, small])
    rwa [toNat_ofNat16 small] at unit
  · have unit := units (.ofNat (0xD800 + (code - 0x10000) / 1024)) (by simp [utf16, small])
    rw [toNat_ofNat16 (by omega)] at unit
    omega

theorem gcStringToUtf8_ofUnits (scalars : ∀ code ∈ codes, IsScalar code) :
    gcStringToUtf8 (.ofUnits (codes.flatMap utf16)) = some (codes.flatMap utf8) := by
  unfold GcString.ofUnits
  split
  · rename_i narrow
    have small (code : Nat) (member : code ∈ codes) :=
      le_of_utf16_le scalars (fun unit inside => of_decide_eq_true (all_eq_true.mp narrow unit inside)) member
    have bytes : ∀ code ∈ codes, ((utf16 code).map (·.toUInt8)).flatMap (fun byte => appendUtf8 byte.toNat) = utf8 code := by
      intro code member
      have bound := small code member
      rw [utf16_of_lt (by omega)]
      simp [Nat.mod_eq_of_lt (show code < 256 by omega), appendUtf8_eq (show code ≤ 0x10FFFF by omega)]
    rw [gcStringToUtf8_byte, map_flatMap, flatMap_assoc, flatMap_congr bytes]
  · simp only [gcStringToUtf8, utf8Length_utf16 scalars, utf16ToUtf8_utf16 scalars, bind_eq_bind, bind_some,
      fill_exact]

/-- All decoders accept the well-formed texts and find the same code points in them, the two passes agree, and a string
turns back into the text it was made of. -/
theorem decoders_agree (data : List UInt8) :
    (∀ codes, codepoints utf8NextCodepoint data = some codes ↔ Decodes data codes) ∧
      (∀ codes, codepoints decodeNext data = some codes ↔ Decodes data codes) ∧
      (∀ out, decodeUtf8 data = some out ↔ ∃ codes, Decodes data codes ∧ codes.foldl .appendCodepoint {} = out) ∧
      (isValidUtf8 data = true ↔ ∃ codes, Decodes data codes) ∧
      ((utf8Scan data).isSome ↔ ∃ codes, Decodes data codes) ∧
      (∀ scan, utf8Scan data = some scan →
        (∃ units, utf8WriteUtf16 data scan.utf16Len = some units ∧ units.length = scan.utf16Len) ∧
        (scan.allByte → ∃ bytes, utf8WriteBytes data scan.utf16Len = some bytes ∧ bytes.length = scan.utf16Len)) ∧
      ((∃ codes, Decodes data codes) → (gcNewString data).bind gcStringToUtf8 = some data) := by
  refine ⟨fun codes => codepoints_iff isDecoder_utf8NextCodepoint, fun codes => codepoints_iff isDecoder_decodeNext,
    fun out => decodeUtf8_iff, isValidUtf8_iff, ?_, fun scan scanned => ?_, fun ⟨codes, decodes⟩ => ?_⟩
  · simp [isSome_iff_exists, utf8Scan_iff]
  · obtain ⟨codes, decodes, rfl⟩ := utf8Scan_iff.mp scanned
    refine ⟨⟨_, utf8WriteUtf16_eq decodes, rfl⟩, fun narrow => ?_⟩
    have small : ∀ code ∈ codes, code ≤ 0xFF := by simpa using narrow
    have units : (codes.flatMap utf16).length = codes.length := by
      have single : ∀ code ∈ codes, utf16 code = [.ofNat code] := fun code member => by
        have := small code member
        exact utf16_of_lt (by omega)
      rw [flatMap_congr single, ← map_eq_flatMap, length_map]
    dsimp only
    rw [units]
    exact ⟨_, utf8WriteBytes_eq decodes small, length_map _⟩
  · rw [gcNewString_eq decodes, bind_some, gcStringToUtf8_ofUnits decodes.1, ← decodes.2]

end FiberGateway.Json
