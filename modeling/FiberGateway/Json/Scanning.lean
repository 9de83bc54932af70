import FiberGateway.Json.Grammar

/-!
Blanks, strings and numbers: what the scanner reads is what the grammar derives, in both directions.
-/

namespace FiberGateway.Json

open List Unicode

theorem bind_ok {ε α β : Type} {x : Except ε α} {f : α → Except ε β} {result : β} :
    (x >>= f) = .ok result ↔ ∃ a, x = .ok a ∧ f a = .ok result := by
  cases x with
  | error e => exact ⟨nofun, fun ⟨_, failed, _⟩ => nomatch failed⟩
  | ok a => exact ⟨fun run => ⟨a, rfl, run⟩, fun ⟨_, same, run⟩ => by cases same; exact run⟩

theorem bind_of_ok {ε α β : Type} {x : Except ε α} {f : α → Except ε β} {a : α} (done : x = .ok a) : (x >>= f) = f a := by
  rw [done]
  rfl

/-- The cursor passes over this text. -/
structure Cursor.Reads (c : Cursor) (text : List UInt8) (c' : Cursor) : Prop where
  rest : c.rest = text ++ c'.rest
  pos : c'.pos = c.pos + text.length

/-- The next byte, if there is one, is not of this kind. -/
def Cursor.Stops (c : Cursor) (p : UInt8 → Bool) : Prop := c.at p = false

namespace Cursor

variable {c c₁ c₂ : Cursor} {text text' rest : List UInt8}

theorem Reads.nil : c.Reads [] c := ⟨rfl, rfl⟩

theorem Reads.trans (first : c.Reads text c₁) (second : c₁.Reads text' c₂) : c.Reads (text ++ text') c₂ :=
  ⟨by rw [first.rest, second.rest, append_assoc], by rw [second.pos, first.pos, length_append, Nat.add_assoc]⟩

theorem Reads.advance (reads : c.Reads text c₁) : c.advance text.length = c₁ := by
  obtain ⟨rest, pos⟩ := reads
  rw [Cursor.advance, rest, drop_left, ← pos]

variable {ch : UInt8} {p : UInt8 → Bool}

theorem Reads.advance_one (reads : c.Reads [ch] c₁) : c.advance 1 = c₁ := Reads.advance reads

theorem advance_reads (n : Nat) (enough : n ≤ c.rest.length) : c.Reads (c.rest.take n) (c.advance n) :=
  ⟨(take_append_drop n c.rest).symm, by rw [length_take_of_le enough, Cursor.advance]⟩

theorem reads_cons (here : c.rest = ch :: rest) : c.Reads [ch] (c.advance 1) :=
  ⟨by rw [here, Cursor.advance, here]; rfl, rfl⟩

theorem Reads.split (reads : c.Reads (text ++ text') c₂) : ∃ c₁, c.Reads text c₁ ∧ c₁.Reads text' c₂ :=
  ⟨⟨c.pos + text.length, text' ++ c₂.rest⟩, ⟨by rw [reads.rest, append_assoc], rfl⟩, rfl, by
    rw [reads.pos, length_append, Nat.add_assoc]⟩

theorem Reads.uncons (reads : c.Reads (ch :: text) c₂) : ∃ c₁, c.Reads [ch] c₁ ∧ c₁.Reads text c₂ :=
  Reads.split (show c.Reads ([ch] ++ text) c₂ from reads)

theorem Reads.at_cons (reads : c.Reads (ch :: text) c₁) (p : UInt8 → Bool) : c.at p = p ch := by
  rw [Cursor.at, reads.rest]
  rfl

theorem at_cases (found : c.at p = true) : ∃ ch rest, c.rest = ch :: rest ∧ p ch = true := by
  unfold Cursor.at at found
  cases here : c.rest with
  | nil => simp [here] at found
  | cons ch rest => exact ⟨ch, rest, rfl, by simpa [here] using found⟩

theorem Reads.stops (reads : c.Reads text c₁) (stops : c₁.Stops p) (other : text.head?.any p = false) :
    c.Stops p := by
  unfold Stops Cursor.at at *
  rw [reads.rest]
  cases text with
  | nil => exact stops
  | cons ch rest => exact other

theorem Reads.rest_cons (reads : c.Reads (ch :: text) c₁) : ∃ rest, c.rest = ch :: rest :=
  ⟨_, reads.rest⟩

theorem takeWhile_split (p : UInt8 → Bool) (text : List UInt8) :
    text = text.takeWhile p ++ text.drop (text.takeWhile p).length ∧
      (text.drop (text.takeWhile p).length).head?.any p = false := by
  induction text with
  | nil => exact ⟨rfl, rfl⟩
  | cons ch rest ih =>
    by_cases here : p ch
    · rw [takeWhile_cons_of_pos here]
      exact ⟨congrArg (ch :: ·) ih.1, ih.2⟩
    · rw [takeWhile_cons_of_neg here]
      exact ⟨rfl, by simpa using here⟩

theorem reads_takeWhile (c : Cursor) (p : UInt8 → Bool) :
    c.Reads (c.rest.takeWhile p) (c.advance (c.rest.takeWhile p).length) ∧
      (c.advance (c.rest.takeWhile p).length).Stops p :=
  ⟨⟨(takeWhile_split p c.rest).1, rfl⟩, (takeWhile_split p c.rest).2⟩

theorem Reads.takeWhile (reads : c.Reads text c₁) (all : ∀ ch ∈ text, p ch = true) (stops : c₁.Stops p) :
    c.advance (c.rest.takeWhile p).length = c₁ := by
  have run : c.rest.takeWhile p = text := by
    rw [reads.rest, takeWhile_append_of_pos all]
    unfold Stops Cursor.at at stops
    cases rest : c₁.rest with
    | nil => simp
    | cons ch rest' =>
      rw [rest, List.head?_cons, Option.any_some] at stops
      simp [stops]
  rw [run]
  exact reads.advance

end Cursor

theorem isWs_iff (ch : UInt8) : isWs ch = true ↔ ch ∈ [0x20, 0x09, 0x0A, 0x0D] := by
  simp [isWs, or_assoc]

theorem isDigit_iff (ch : UInt8) : isDigit ch = true ↔ 0x30 ≤ ch ∧ ch ≤ 0x39 := by
  simp [isDigit]

variable {text blank digits : List UInt8} {code digit value i : Nat}

theorem blank_iff : Blank text ↔ ∀ ch ∈ text, isWs ch = true := by
  simp only [Blank, isWs_iff]

theorem Cursor.skipWs_reads (c : Cursor) : ∃ blank, Blank blank ∧ c.Reads blank c.skipWs ∧ c.skipWs.Stops isWs := by
  obtain ⟨reads, stops⟩ := c.reads_takeWhile isWs
  exact ⟨_, blank_iff.mpr (all_eq_true.mp all_takeWhile), reads, stops⟩

theorem Cursor.Reads.skipWs {c c₁ : Cursor} (reads : c.Reads blank c₁) (isBlank : Blank blank)
    (stops : c₁.Stops isWs) : c.skipWs = c₁ :=
  reads.takeWhile (blank_iff.mp isBlank) stops

namespace ParserImpl

theorem hexValue_lt {ch : UInt8} (hex : hexValue ch = some digit) : digit < 16 := by
  have all : ∀ ch digit, hexValue ch = some digit → digit < 16 := by
    intro ch
    refine forall_byte (P := fun ch => ∀ digit, hexValue ch = some digit → digit < 16) ?_ ch
    intro n bound digit hex
    have small := toNat_ofNat bound
    simp only [hexValue, UInt8.le_iff_toNat_le, small] at hex
    simp only [UInt8.reduceToNat] at hex
    split at hex
    · cases hex; omega
    split at hex
    · cases hex; omega
    split at hex
    · cases hex; omega
    · cases hex
  exact all ch digit hex

theorem hexLoop_ok : hexLoop value i text = .ok code ↔
    text.foldlM (fun value ch => (hexValue ch).map (16 * value + ·)) value = some code := by
  induction text generalizing value i with
  | nil => simp [hexLoop]
  | cons ch rest ih =>
    rw [hexLoop, foldlM_cons]
    cases hex : hexValue ch with
    | none => simp
    | some digit =>
      have shift : value <<< 4 ||| digit = 16 * value + digit := by
        rw [← Nat.shiftLeft_add_eq_or_of_lt (hexValue_lt hex), Nat.shiftLeft_eq, Nat.mul_comm]
      simp [shift, ih]

end ParserImpl

theorem hex_bound
    (folded : text.foldlM (fun value ch => (hexValue ch).map (16 * value + ·)) value = some code) :
    code < 16 ^ text.length * (value + 1) := by
  induction text generalizing value with
  | nil =>
    cases folded
    simp
  | cons ch rest ih =>
    rw [foldlM_cons] at folded
    obtain ⟨next, mapped, later⟩ := Option.bind_eq_some_iff.mp folded
    obtain ⟨digit, hex, rfl⟩ := Option.map_eq_some_iff.mp mapped
    have small := ParserImpl.hexValue_lt hex
    calc code < 16 ^ rest.length * (16 * value + digit + 1) := ih later
      _ ≤ 16 ^ rest.length * (16 * (value + 1)) := Nat.mul_le_mul_left _ (by omega)
      _ = 16 ^ (ch :: rest).length * (value + 1) := by rw [length_cons, pow_succ, Nat.mul_assoc]

theorem Hex.lt (hex : Hex digits code) : code < 0x10000 := by
  have bound := hex_bound hex.2
  rw [hex.1] at bound
  omega

namespace ParserImpl

variable {c c' : Cursor}

variable {code : Nat} {out out' : DecodedString}

theorem parseHex_ok (run : parseHex c = .ok (code, c')) : ∃ digits, Hex digits code ∧ c.Reads digits c' := by
  unfold parseHex at run
  split at run
  · cases run
  rename_i enough
  split at run
  · cases run
  rename_i value loop
  cases run
  refine ⟨c.rest.take 4, ⟨length_take_of_le (by omega), hexLoop_ok.mp loop⟩, c.advance_reads 4 (by omega)⟩

variable {body rest digits first second : List UInt8} {low fuel high : Nat} {units : List UInt16}

theorem parseHex_of_hex (hex : Hex digits code) (reads : c.Reads digits c') : parseHex c = .ok (code, c') := by
  have enough : ¬ c.rest.length < 4 := by
    rw [reads.rest, length_append, hex.1]
    omega
  have taken : c.rest.take 4 = digits := by rw [reads.rest, ← hex.1, take_left]
  have moved : c.advance 4 = c' := by rw [← hex.1, reads.advance]
  simp only [parseHex, if_neg enough, taken, hexLoop_ok.mpr hex.2, moved]

theorem simpleEscape_iff (ch : UInt8) (unit : UInt16) : simpleEscape ch = some unit ↔ (ch, unit) ∈ escapes := by
  unfold simpleEscape
  split <;> simp_all [escapes, eq_comm]

/-- The code point of a surrogate pair has the two halves as its code units. -/
theorem utf16_pair (isHigh : 0xD800 ≤ high ∧ high ≤ 0xDBFF) (isLow : 0xDC00 ≤ low ∧ low ≤ 0xDFFF)
    (value : code = 0x10000 + ((high - 0xD800) <<< 10) + (low - 0xDC00)) :
    utf16 code = [.ofNat high, .ofNat low] ∧ code ≤ 0x10FFFF := by
  have shift : (high - 0xD800) <<< 10 = (high - 0xD800) * 1024 := Nat.shiftLeft_eq ..
  have first : 0xD800 + (code - 0x10000) / 1024 = high := by omega
  have second : 0xDC00 + (code - 0x10000) % 1024 = low := by omega
  exact ⟨by rw [utf16, if_neg (by omega), first, second], by omega⟩

/-- A text behind a backslash, with the code units it stands for. -/
def Escape (text : List UInt8) (units : List UInt16) : Prop :=
  ∀ ⦃rest : List UInt8⦄ ⦃more : List UInt16⦄, StringBody rest more → StringBody (0x5C :: text ++ rest) (units ++ more)

theorem parseUnicodeEscape_ok (run : parseUnicodeEscape c = .ok (code, c')) :
    ∃ text, c.Reads text c' ∧ Escape (0x75 :: text) (utf16 code) ∧ code ≤ 0x10FFFF := by
  unfold parseUnicodeEscape at run
  rw [bind_ok] at run
  obtain ⟨⟨high, c₁⟩, parsed, run⟩ := run
  obtain ⟨digits, hex, reads⟩ := parseHex_ok parsed
  have small := hex.lt
  dsimp only at run
  split at run
  · rename_i isHigh
    unfold parseLowSurrogate at run
    split at run
    · cases run
    rename_i marked
    rw [bind_ok] at run
    obtain ⟨⟨low, c₂⟩, parsed', run⟩ := run
    obtain ⟨digits', hex', reads'⟩ := parseHex_ok parsed'
    dsimp only at run
    split at run
    · cases run
    rename_i isLow
    obtain ⟨value, rfl⟩ := Prod.mk.inj (Except.ok.inj run)
    have isLow : 0xDC00 ≤ low ∧ low ≤ 0xDFFF := by omega
    have mark : c₁.Reads [0x5C, 0x75] (c₁.advance 2) := by
      have taken := not_not.mp marked
      have enough := congrArg List.length taken
      rw [length_take] at enough
      have reads := c₁.advance_reads 2 (by simp at enough; omega)
      rwa [taken] at reads
    obtain ⟨units, bound⟩ := utf16_pair isHigh isLow value.symm
    refine ⟨digits ++ ([0x5C, 0x75] ++ digits'), reads.trans (mark.trans reads'), fun rest more later => ?_, bound⟩
    rw [units]
    simpa using StringBody.pair hex hex' isHigh isLow later
  · split at run
    · cases run
    rename_i notHigh notLow
    cases run
    refine ⟨digits, reads, fun rest more later => ?_, by omega⟩
    rw [utf16_of_lt small]
    exact StringBody.unicode hex (by unfold IsScalar; omega) later

theorem parseEscape_ok (canonical : out.Canonical) (run : parseEscape c out = .ok (out', c')) :
    ∃ text units, c.Reads text c' ∧ Escape text units ∧ out'.units = out.units ++ units ∧ out'.Canonical := by
  unfold parseEscape at run
  split at run
  · cases run
  rename_i esc rest here
  have reads := Cursor.reads_cons here
  split at run
  · rename_i unit known
    cases run
    obtain ⟨appended, canonical'⟩ := DecodedString.units_appendCodeUnit canonical unit
    exact ⟨[esc], [unit], reads, fun rest more later => .escape ((simpleEscape_iff _ _).mp known) later, appended,
      canonical'⟩
  split at run
  · rename_i isU
    subst isU
    rw [bind_ok] at run
    obtain ⟨⟨code, c₁⟩, parsed, run⟩ := run
    dsimp only at run
    split at run
    · cases run
    cases run
    obtain ⟨text, reads', escape, -⟩ := parseUnicodeEscape_ok parsed
    obtain ⟨appended, canonical'⟩ := DecodedString.units_appendCodepoint canonical code
    exact ⟨_, _, reads.trans reads', escape, appended, canonical'⟩
  · cases run

theorem parseStringLoop_ok (canonical : out.Canonical) (run : parseStringLoop fuel c out = .ok (out', c')) :
    ∃ body units, StringBody body units ∧ c.Reads (body ++ [0x22]) c' ∧ out'.units = out.units ++ units ∧
      out'.Canonical := by
  induction fuel generalizing c out with
  | zero => cases run
  | succ fuel ih =>
    unfold parseStringLoop at run
    split at run
    · cases run
    rename_i ch rest here
    split at run
    · rename_i quote
      subst quote
      cases run
      exact ⟨[], [], .done, Cursor.reads_cons here, (append_nil _).symm, canonical⟩
    rename_i notQuote
    split at run
    · rename_i backslash
      subst backslash
      rw [bind_ok] at run
      obtain ⟨⟨out₁, c₁⟩, escaped, run⟩ := run
      obtain ⟨text, units, reads, escape, appended, canonical'⟩ := parseEscape_ok canonical escaped
      obtain ⟨body, more, later, reads', appended', canonical''⟩ := ih canonical' run
      refine ⟨0x5C :: text ++ body, units ++ more, escape later, ?_, ?_, canonical''⟩
      · have whole := ((Cursor.reads_cons here).trans reads).trans reads'
        simpa using whole
      · rw [appended', appended, append_assoc]
    rename_i notBackslash
    split at run
    · cases run
    rename_i printable
    split at run
    · cases run
    · cases run
    rename_i code consumed decoded
    split at run
    · cases run
    rename_i printable'
    obtain ⟨scalar, rfl, rest', bytes⟩ := decodeUtf8Codepoint_ok decoded
    obtain ⟨appended, canonical'⟩ := DecodedString.units_appendCodepoint canonical code
    obtain ⟨body, more, later, reads', appended', canonical''⟩ := ih canonical' run
    have reads : c.Reads (utf8 code) (c.advance (utf8 code).length) := by
      have reads := c.advance_reads (utf8 code).length (by rw [bytes, length_append]; omega)
      rwa [bytes, take_left] at reads
    refine ⟨utf8 code ++ body, utf16 code ++ more, ?_, ?_, by rw [appended', appended, append_assoc], canonical''⟩
    · have first {ascii : UInt8} (small : ascii < 0x80) (other : ch ≠ ascii) : code ≠ ascii.toNat := by
        rintro rfl
        rw [utf8, if_pos (lt_iff_toNat.mp small), UInt8.ofNat_toNat, here] at bytes
        exact other (List.cons.inj bytes).1
      exact .plain scalar (by omega) (first (by decide) notQuote) (first (by decide) notBackslash) later
    · rw [append_assoc]
      exact reads.trans reads'

theorem parseString_ok (run : parseString c = .ok (out, c')) :
    ∃ body units, StringBody body units ∧ c.Reads (0x22 :: body ++ [0x22]) c' ∧ makeGcString out = .ofUnits units := by
  unfold parseString at run
  split at run
  · cases run
  rename_i quoted
  obtain ⟨ch, rest, here, equal⟩ := Cursor.at_cases (not_not.mp quoted)
  cases of_decide_eq_true equal
  obtain ⟨body, units, valid, reads, appended, canonical⟩ := parseStringLoop_ok (by rfl) run
  refine ⟨body, units, valid, ?_, ?_⟩
  · simpa using (Cursor.reads_cons here).trans reads
  · rw [DecodedString.makeGcString_eq canonical, appended]
    rfl

/-! The converse: what the grammar derives is read. -/

theorem parseUnicodeEscape_of_hex (hex : Hex digits code) (scalar : IsScalar code) (reads : c.Reads digits c') :
    parseUnicodeEscape c = .ok (code, c') := by
  unfold IsScalar at scalar
  rw [parseUnicodeEscape, bind_of_ok (parseHex_of_hex hex reads)]
  dsimp only
  rw [if_neg (by omega), if_neg (by omega)]
  rfl

theorem parseUnicodeEscape_of_pair (hex : Hex first high) (hex' : Hex second low)
    (isHigh : 0xD800 ≤ high ∧ high ≤ 0xDBFF) (isLow : 0xDC00 ≤ low ∧ low ≤ 0xDFFF)
    (value : code = 0x10000 + ((high - 0xD800) <<< 10) + (low - 0xDC00))
    (reads : c.Reads (first ++ 0x5C :: 0x75 :: second) c') : parseUnicodeEscape c = .ok (code, c') := by
  obtain ⟨c₁, reads₁, later⟩ := reads.split
  obtain ⟨c₂, reads₂, reads₃⟩ := Cursor.Reads.split (show c₁.Reads ([0x5C, 0x75] ++ second) c' from later)
  have marked : c₁.rest.take 2 = [0x5C, 0x75] := by rw [reads₂.rest]; rfl
  have moved : c₁.advance 2 = c₂ := Cursor.Reads.advance reads₂
  rw [parseUnicodeEscape, bind_of_ok (parseHex_of_hex hex reads₁)]
  dsimp only
  rw [if_pos isHigh, parseLowSurrogate, if_neg (not_not.mpr marked), moved, bind_of_ok (parseHex_of_hex hex' reads₃), value]
  dsimp only
  rw [if_neg (by omega)]
  rfl

theorem parseEscape_of_simple {ch : UInt8} {unit : UInt16} (known : (ch, unit) ∈ escapes) (reads : c.Reads [ch] c')
    (out : DecodedString) : parseEscape c out = .ok (out.appendCodeUnit unit, c') := by
  obtain ⟨rest, here⟩ := reads.rest_cons
  simp only [parseEscape, here, (simpleEscape_iff ch unit).mpr known, reads.advance_one]

theorem parseEscape_of_unicode (reads : c.Reads (0x75 :: text) c')
    (parsed : ∀ c₁, c₁.Reads text c' → parseUnicodeEscape c₁ = .ok (code, c')) (bound : code ≤ 0x10FFFF)
    (out : DecodedString) : parseEscape c out = .ok (out.appendCodepoint code, c') := by
  obtain ⟨rest, here⟩ := reads.rest_cons
  obtain ⟨c₁, reads₁, reads₂⟩ := reads.uncons
  have other : simpleEscape 0x75 = none := rfl
  simp only [parseEscape, here, other, if_true, reads₁.advance_one]
  rw [bind_of_ok (parsed c₁ reads₂)]
  dsimp only
  rw [if_neg (by omega)]
  rfl

theorem parseStringLoop_escape (fuel : Nat) (text : List UInt8)
    (reads : c.Reads (0x5C :: text ++ rest ++ [0x22]) c')
    (parsed : ∀ c₁ c₂ : Cursor, c₁.Reads text c₂ → parseEscape c₁ out = .ok (out', c₂)) :
    ∃ c₂, c₂.Reads (rest ++ [0x22]) c' ∧ parseStringLoop (fuel + 1) c out = parseStringLoop fuel c₂ out' := by
  rw [append_assoc] at reads
  obtain ⟨c₁, reads₁, later⟩ := Cursor.Reads.uncons (show c.Reads (0x5C :: (text ++ (rest ++ [0x22]))) c' from reads)
  obtain ⟨c₂, reads₂, reads₃⟩ := later.split
  obtain ⟨rest', here⟩ := reads₁.rest_cons
  refine ⟨c₂, reads₃, ?_⟩
  rw [parseStringLoop]
  simp only [here, if_true, reads₁.advance_one, show ¬ ((0x5C : UInt8) = 0x22) by decide, if_false]
  exact bind_of_ok (parsed c₁ c₂ reads₂)

/-- One code point is read, and the loop goes on behind it. -/
theorem parseStringLoop_plain (fuel : Nat) (out : DecodedString) (scalar : IsScalar code)
    (printable : 0x20 ≤ code) (noQuote : code ≠ 0x22) (noBackslash : code ≠ 0x5C)
    (reads : c.Reads (utf8 code ++ rest ++ [0x22]) c') :
    ∃ c₁, c₁.Reads (rest ++ [0x22]) c' ∧
      parseStringLoop (fuel + 1) c out = parseStringLoop fuel c₁ (out.appendCodepoint code) := by
  rw [append_assoc] at reads
  obtain ⟨c₁, reads₁, reads₂⟩ := reads.split
  have decoded : decodeUtf8Codepoint true c.rest = .ok code (utf8 code).length := by
    rw [reads₁.rest, decodeUtf8Codepoint_utf8 scalar]
  refine ⟨c₁, reads₂, ?_⟩
  obtain ⟨ch, tail, bytes⟩ := exists_cons_of_length_pos (utf8_length_pos code)
  have here : c.rest = ch :: (tail ++ c₁.rest) := by rw [reads₁.rest, bytes]; rfl
  have first := utf8_head bytes (by unfold IsScalar at scalar; omega)
  have notQuote : ch ≠ 0x22 := by
    rintro rfl
    rcases first with first | first
    · exact noQuote first.symm
    · exact absurd first (by decide)
  have notBackslash : ch ≠ 0x5C := by
    rintro rfl
    rcases first with first | first
    · exact noBackslash first.symm
    · exact absurd first (by decide)
  have notControl : ¬ ch < 0x20 := by
    rw [UInt8.lt_iff_toNat_lt]
    change ¬ ch.toNat < 0x20
    omega
  rw [parseStringLoop]
  split
  · rename_i nothing
    rw [here] at nothing
    cases nothing
  rename_i ch' rest' here'
  rw [here] at here'
  cases here'
  rw [if_neg notQuote, if_neg notBackslash, if_neg notControl, decoded]
  dsimp only
  rw [if_neg (by omega), reads₁.advance]

theorem parseStringLoop_of_body (valid : StringBody body units) (canonical : out.Canonical)
    (reads : c.Reads (body ++ [0x22]) c') (enough : body.length < fuel) :
    ∃ out', parseStringLoop fuel c out = .ok (out', c') ∧ out'.units = out.units ++ units ∧ out'.Canonical := by
  induction valid generalizing fuel c out with
  | done =>
    obtain ⟨rest, here⟩ := reads.rest_cons
    obtain _ | fuel := fuel
    · cases enough
    · exact ⟨out, by simp [parseStringLoop, here, Cursor.Reads.advance_one reads], (append_nil _).symm,
        canonical⟩
  | @plain code rest units scalar printable noQuote noBackslash later ih =>
    obtain _ | fuel := fuel
    · cases enough
    obtain ⟨c₁, reads', step⟩ := parseStringLoop_plain fuel out scalar printable noQuote noBackslash reads
    obtain ⟨appended, canonical'⟩ := DecodedString.units_appendCodepoint canonical code
    have positive := utf8_length_pos code
    rw [length_append] at enough
    have room : rest.length < fuel := by omega
    obtain ⟨out', run, appended', canonical''⟩ := ih canonical' reads' room
    exact ⟨out', step.trans run, by rw [appended', appended, append_assoc], canonical''⟩
  | @escape ch unit rest units known later ih =>
    obtain _ | fuel := fuel
    · cases enough
    obtain ⟨c₁, reads', step⟩ := parseStringLoop_escape fuel [ch] reads
      fun c₁ c₂ reads => parseEscape_of_simple known reads out
    obtain ⟨appended, canonical'⟩ := DecodedString.units_appendCodeUnit canonical unit
    simp only [length_cons] at enough
    have room : rest.length < fuel := by omega
    obtain ⟨out', run, appended', canonical''⟩ := ih canonical' reads' room
    exact ⟨out', step.trans run, by rw [appended', appended, append_assoc]; rfl, canonical''⟩
  | @unicode digits code rest units hex scalar later ih =>
    obtain _ | fuel := fuel
    · cases enough
    have small := hex.lt
    obtain ⟨c₁, reads', step⟩ := parseStringLoop_escape fuel (0x75 :: digits) reads
      fun c₁ c₂ reads => parseEscape_of_unicode reads (fun _ reads => parseUnicodeEscape_of_hex hex scalar reads)
        (by omega) out
    obtain ⟨appended, canonical'⟩ := DecodedString.units_appendCodepoint canonical code
    rw [length_append] at enough
    simp only [length_cons] at enough
    have room : rest.length < fuel := by omega
    obtain ⟨out', run, appended', canonical''⟩ := ih canonical' reads' room
    refine ⟨out', step.trans run, ?_, canonical''⟩
    rw [appended', appended, utf16_of_lt small, append_assoc]
    rfl
  | @pair first second high low rest units hex hex' isHigh isLow later ih =>
    obtain _ | fuel := fuel
    · cases enough
    obtain ⟨code, value⟩ : ∃ code, code = 0x10000 + ((high - 0xD800) <<< 10) + (low - 0xDC00) := ⟨_, rfl⟩
    obtain ⟨encoded, bound⟩ := utf16_pair isHigh isLow value
    obtain ⟨c₁, reads', step⟩ := parseStringLoop_escape fuel (0x75 :: first ++ 0x5C :: 0x75 :: second) reads
      fun c₁ c₂ reads => parseEscape_of_unicode reads
        (fun _ reads => parseUnicodeEscape_of_pair hex hex' isHigh isLow value reads) bound out
    obtain ⟨appended, canonical'⟩ := DecodedString.units_appendCodepoint canonical code
    simp only [length_append, length_cons] at enough
    have room : rest.length < fuel := by omega
    obtain ⟨out', run, appended', canonical''⟩ := ih canonical' reads' room
    refine ⟨out', step.trans run, ?_, canonical''⟩
    rw [appended', appended, encoded, append_assoc]
    rfl

theorem parseString_of_body (valid : StringBody body units) (reads : c.Reads (0x22 :: body ++ [0x22]) c') :
    ∃ out, parseString c = .ok (out, c') ∧ makeGcString out = .ofUnits units := by
  obtain ⟨c₁, reads₁, reads₂⟩ := Cursor.Reads.uncons (show c.Reads (0x22 :: (body ++ [0x22])) c' from reads)
  have length : body.length < c.rest.length + 1 := by
    rw [reads.rest]
    simp only [length_append, length_cons]
    omega
  have empty : ({} : DecodedString).Canonical := rfl
  obtain ⟨out, run, appended, canonical⟩ := parseStringLoop_of_body valid empty reads₂ length
  refine ⟨out, ?_, ?_⟩
  · have quoted : c.at (· = 0x22) = true := by
      rw [reads₁.at_cons]
      rfl
    rw [parseString, if_neg (not_not.mpr quoted), reads₁.advance_one, run]
  · rw [DecodedString.makeGcString_eq canonical, appended]
    rfl

end ParserImpl

end FiberGateway.Json
