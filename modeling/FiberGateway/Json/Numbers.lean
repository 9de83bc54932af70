import FiberGateway.Json.Scanning

namespace FiberGateway.Json

open List

theorem digits_iff {text : List UInt8} : Digits text ↔ text ≠ [] ∧ ∀ ch ∈ text, isDigit ch = true := by
  simp only [Digits, isDigit_iff]

variable {c c' : Cursor}

theorem Cursor.skipDigits_reads (digit : c.at isDigit = true) :
    ∃ digits, Digits digits ∧ c.Reads digits c.skipDigits ∧ c.skipDigits.Stops isDigit ∧ digits.head? = c.rest.head? := by
  obtain ⟨reads, stops⟩ := c.reads_takeWhile isDigit
  cases here : c.rest with
  | nil => simp [Cursor.at, here] at digit
  | cons ch rest =>
    have first : isDigit ch = true := by simpa [Cursor.at, here] using digit
    refine ⟨c.rest.takeWhile isDigit, digits_iff.mpr ⟨?_, all_eq_true.mp all_takeWhile⟩, reads, stops, ?_⟩ <;>
      rw [here, takeWhile_cons_of_pos first]
    · exact cons_ne_nil _ _
    · rfl

theorem Cursor.Reads.skipDigits {digits : List UInt8} (reads : c.Reads digits c')
    (valid : Digits digits) (stops : c'.Stops isDigit) : c.at isDigit = true ∧ c.skipDigits = c' := by
  obtain ⟨nonempty, all⟩ := digits_iff.mp valid
  refine ⟨?_, reads.takeWhile all stops⟩
  cases digits with
  | nil => exact absurd rfl nonempty
  | cons ch rest => exact (reads.at_cons isDigit).trans (all ch mem_cons_self)

namespace ParserImpl

variable {c c' : Cursor} {start : Nat}

def signBytes (negative : Bool) : List UInt8 := if negative then [0x2D] else []

theorem parseWhole_ok (run : parseWhole start c = .ok c') :
    ∃ negative whole, Digits whole ∧ (whole.head? = some 0x30 → whole = [0x30]) ∧
      c.Reads (signBytes negative ++ whole) c' := by
  unfold parseWhole at run
  obtain ⟨negative, c₁, eq, sign⟩ : ∃ negative c₁, (if c.at (· = 0x2D) then c.advance 1 else c) = c₁ ∧
      c.Reads (signBytes negative) c₁ := by
    by_cases minus : c.at (· = 0x2D) = true
    · obtain ⟨ch, rest, here, equal⟩ := Cursor.at_cases minus
      cases of_decide_eq_true equal
      exact ⟨true, _, if_pos minus, Cursor.reads_cons here⟩
    · exact ⟨false, _, if_neg minus, .nil⟩
  simp only [eq] at run
  split at run
  · cases run
  rename_i ch rest here
  split at run
  · rename_i zero
    subst zero
    split at run
    · cases run
    cases run
    refine ⟨negative, [0x30], digits_iff.mpr ⟨cons_ne_nil _ _, by simp; rfl⟩, fun _ => rfl, ?_⟩
    exact sign.trans (Cursor.reads_cons here)
  · rename_i nonzero
    split at run
    · rename_i digit
      cases run
      have found : c₁.at isDigit = true := by
        rw [Cursor.at, here]
        simp only [List.head?_cons, Option.any_some, isDigit_iff]
        exact ⟨UInt8.le_trans (by decide) digit.1, digit.2⟩
      obtain ⟨whole, valid, reads, -, first⟩ := Cursor.skipDigits_reads found
      refine ⟨negative, whole, valid, fun zero => ?_, sign.trans reads⟩
      rw [first, here] at zero
      exact absurd (Option.some.inj zero) nonzero
    · cases run

theorem parseDigits_ok (run : parseDigits start c = .ok c') : ∃ digits, Digits digits ∧ c.Reads digits c' := by
  unfold parseDigits at run
  split at run
  · rename_i digit
    cases run
    obtain ⟨digits, valid, reads, -⟩ := Cursor.skipDigits_reads digit
    exact ⟨digits, valid, reads⟩
  · cases run

variable {has : Bool}

theorem parseFraction_ok (run : parseFraction start c = .ok (has, c')) :
    ∃ fraction : Option (List UInt8), (∀ digits ∈ fraction, Digits digits) ∧ has = fraction.isSome ∧
      c.Reads (fraction.elim [] (0x2E :: ·)) c' := by
  unfold parseFraction at run
  split at run
  · rename_i point
    obtain ⟨ch, rest, here, equal⟩ := Cursor.at_cases point
    cases of_decide_eq_true equal
    rw [bind_ok] at run
    obtain ⟨c₁, parsed, run⟩ := run
    cases run
    obtain ⟨digits, valid, reads⟩ := parseDigits_ok parsed
    exact ⟨some digits, by simpa using valid, rfl, (Cursor.reads_cons here).trans reads⟩
  · cases run
    exact ⟨none, nofun, rfl, .nil⟩

theorem parseExponent_ok (run : parseExponent start c = .ok (has, c')) :
    ∃ exponent : Option Exponent, has = exponent.isSome ∧ c.Reads (exponent.elim [] Exponent.bytes) c' := by
  unfold parseExponent at run
  split at run
  · rename_i found
    obtain ⟨marker, rest, here, isMarker⟩ := Cursor.at_cases found
    obtain ⟨sign, c₁, eq, signed, reads⟩ : ∃ (sign : Option UInt8) (c₁ : Cursor),
        (if (c.advance 1).at (fun ch => ch = 0x2B || ch = 0x2D) then (c.advance 1).advance 1 else c.advance 1) = c₁ ∧
          (∀ ch ∈ sign, ch = 0x2B ∨ ch = 0x2D) ∧ (c.advance 1).Reads sign.toList c₁ := by
      by_cases signed : (c.advance 1).at (fun ch => ch = 0x2B || ch = 0x2D) = true
      · obtain ⟨sign, rest, here, isSign⟩ := Cursor.at_cases signed
        exact ⟨some sign, _, if_pos signed, by simpa using isSign, Cursor.reads_cons here⟩
      · exact ⟨none, _, if_neg signed, nofun, .nil⟩
    simp only [eq] at run
    rw [bind_ok] at run
    obtain ⟨c₂, parsed, run⟩ := run
    cases run
    obtain ⟨digits, valid, reads'⟩ := parseDigits_ok parsed
    exact ⟨some ⟨marker, sign, digits, by simpa using isMarker, signed, valid⟩, rfl,
      (Cursor.reads_cons here).trans (reads.trans reads')⟩
  · cases run
    exact ⟨none, rfl, .nil⟩

end ParserImpl

namespace NumberText

/-- A literal without fraction and exponent is converted exactly, or reported when it does not fit. -/
theorem fromChars_bytes {number : NumberText} (plain : number.isFloat = false) : fromChars number.bytes =
    if number.toInt < - 2 ^ 63 ∨ 2 ^ 63 ≤ number.toInt then .outOfRange else .ok number.toInt := by
  obtain ⟨negative, whole, fraction, exponent, wholeValid, noLeadingZero, fractionValid⟩ := number
  obtain ⟨rfl, rfl⟩ : fraction = none ∧ exponent = none := by
    cases fraction <;> cases exponent <;> simp_all [isFloat]
  obtain ⟨nonempty, all⟩ := digits_iff.mp wholeValid
  have run : whole.takeWhile isDigit = whole := by
    have taken : (whole ++ []).takeWhile isDigit = whole ++ [].takeWhile isDigit := takeWhile_append_of_pos all
    simpa using taken
  cases negative with
  | true =>
    simp [fromChars, bytes, toInt, if_true, Option.elim_none, append_nil, singleton_append, List.head?_cons, tail_cons, run, if_neg nonempty]
  | false =>
    have unsigned : whole.head? ≠ some 0x2D := by
      cases whole with
      | nil => exact absurd rfl nonempty
      | cons ch rest =>
        rintro same
        cases same
        exact absurd (all 0x2D mem_cons_self) (by decide)
    simp [fromChars, bytes, toInt, Bool.false_eq_true, if_false, Option.elim_none, append_nil, nil_append, unsigned, run, if_neg nonempty]

end NumberText

namespace ParserImpl

variable {F : Type} {strtod : List UInt8 → StrtodResult F} {c c' : Cursor} {start : Nat}

variable {number : NumberText} {value : Tree F}

theorem convertNumber_ok :
    convertNumber strtod start number.isFloat number.bytes = .ok value ↔
      (number.isFloat = true ∧ (strtod number.bytes).erange = false ∧
        (strtod number.bytes).consumed = number.bytes.length ∧ value = .float (strtod number.bytes).value) ∨
      (number.isFloat = false ∧ - 2 ^ 63 ≤ number.toInt ∧ number.toInt < 2 ^ 63 ∧ value = .integer number.toInt) := by
  cases isFloat : number.isFloat with
  | true =>
    simp only [convertNumber, if_true, true_and, Bool.true_eq_false, false_and, or_false]
    cases erange : (strtod number.bytes).erange with
    | true => simp [setError]
    | false =>
      by_cases accepted : (strtod number.bytes).consumed = number.bytes.length
      · simp [accepted, eq_comm]
      · simp [accepted, setError]
  | false =>
    simp only [convertNumber, Bool.false_eq_true, if_false, false_and, false_or, true_and,
      NumberText.fromChars_bytes isFloat]
    by_cases outside : number.toInt < - 2 ^ 63 ∨ 2 ^ 63 ≤ number.toInt
    · rw [if_pos outside]
      exact ⟨nofun, fun inside => by omega⟩
    · rw [if_neg outside]
      constructor
      · rintro same
        cases same
        exact ⟨by omega, by omega, rfl⟩
      · rintro ⟨-, -, rfl⟩
        rfl

theorem parseNumber_ok (run : parseNumber strtod c = .ok (value, c')) :
    ∃ text, Value strtod text value ∧ c.Reads text c' := by
  unfold parseNumber at run
  rw [bind_ok] at run
  obtain ⟨c₁, parsedWhole, run⟩ := run
  rw [bind_ok] at run
  obtain ⟨⟨hasFraction, c₂⟩, parsedFraction, run⟩ := run
  dsimp only at run
  rw [bind_ok] at run
  obtain ⟨⟨hasExponent, c₃⟩, parsedExponent, run⟩ := run
  dsimp only at run
  rw [bind_ok] at run
  obtain ⟨value', converted, run⟩ := run
  cases run
  obtain ⟨negative, whole, wholeValid, noLeadingZero, reads₁⟩ := parseWhole_ok parsedWhole
  obtain ⟨fraction, fractionValid, rfl, reads₂⟩ := parseFraction_ok parsedFraction
  obtain ⟨exponent, rfl, reads₃⟩ := parseExponent_ok parsedExponent
  let number : NumberText := ⟨negative, whole, fraction, exponent, wholeValid, noLeadingZero, fractionValid⟩
  have reads : c.Reads number.bytes c' := (reads₁.trans reads₂).trans reads₃
  have text : c.rest.take (c'.pos - c.pos) = number.bytes := by
    rw [reads.pos, Nat.add_sub_cancel_left, reads.rest, take_left]
  rw [text] at converted
  replace converted : convertNumber strtod c.pos number.isFloat number.bytes = .ok value := converted
  refine ⟨number.bytes, ?_, reads⟩
  rcases convertNumber_ok.mp converted with ⟨isFloat, inRange, accepted, rfl⟩ | ⟨plain, lower, upper, rfl⟩
  · exact .float number isFloat inRange accepted
  · exact .integer number plain ⟨lower, upper⟩

/-! The converse. -/

theorem parseWhole_of_digits {negative : Bool} {whole : List UInt8} (valid : Digits whole)
    (noLeadingZero : whole.head? = some 0x30 → whole = [0x30]) (reads : c.Reads (signBytes negative ++ whole) c')
    (stops : c'.Stops isDigit) : parseWhole start c = .ok c' := by
  obtain ⟨c₁, sign, reads⟩ := reads.split
  obtain ⟨ch, rest, rfl⟩ := exists_cons_of_ne_nil valid.1
  obtain ⟨rest', here⟩ := reads.rest_cons
  obtain ⟨digit, digit'⟩ := valid.2 ch mem_cons_self
  have eq : (if c.at (· = 0x2D) then c.advance 1 else c) = c₁ := by
    cases negative with
    | true =>
      have minus : c.at (· = 0x2D) = true := (Cursor.Reads.at_cons sign _).trans rfl
      rw [if_pos minus]
      exact Cursor.Reads.advance sign
    | false =>
      obtain rfl : c = c₁ := Cursor.Reads.advance sign
      have unsigned : ¬ c.at (· = 0x2D) = true := by
        rw [reads.at_cons, decide_eq_true_eq]
        rintro rfl
        exact absurd digit (by decide)
      rw [if_neg unsigned]
  simp only [parseWhole, eq]
  split
  · rename_i nothing
    rw [here] at nothing
    cases nothing
  rename_i ch' rest'' here'
  rw [here] at here'
  cases here'
  by_cases zero : ch = 0x30
  · subst zero
    obtain ⟨-, rfl⟩ := List.cons.inj (noLeadingZero rfl)
    have moved := reads.advance_one
    have last : ¬ (c₁.advance 1).at isDigit = true := by
      rw [moved, stops]
      exact Bool.false_ne_true
    rw [if_pos rfl, if_neg last, moved]
  · have nonzero : 0x31 ≤ ch ∧ ch ≤ 0x39 := by
      refine ⟨?_, digit'⟩
      rw [UInt8.le_iff_toNat_le] at digit ⊢
      have apart : ch.toNat ≠ 0x30 := fun same => zero (UInt8.toNat_inj.mp same)
      change 0x30 ≤ ch.toNat at digit
      change 0x31 ≤ ch.toNat
      omega
    rw [if_neg zero, if_pos nonzero, (reads.skipDigits valid stops).2]

theorem parseDigits_of_digits {digits : List UInt8} (valid : Digits digits) (reads : c.Reads digits c')
    (stops : c'.Stops isDigit) : parseDigits start c = .ok c' := by
  obtain ⟨found, moved⟩ := reads.skipDigits valid stops
  rw [parseDigits, if_pos found, moved]

theorem parseFraction_of_digits {fraction : Option (List UInt8)} (valid : ∀ digits ∈ fraction, Digits digits)
    (reads : c.Reads (fraction.elim [] (0x2E :: ·)) c') (stops : c'.Stops isDigit) (noPoint : c'.Stops (· = 0x2E)) :
    parseFraction start c = .ok (fraction.isSome, c') := by
  cases fraction with
  | none =>
    obtain rfl : c = c' := Cursor.Reads.advance reads
    rw [parseFraction, noPoint, if_neg Bool.false_ne_true]
    rfl
  | some digits =>
    have point : c.at (· = 0x2E) = true := (Cursor.Reads.at_cons reads _).trans rfl
    obtain ⟨c₁, reads₁, reads₂⟩ := Cursor.Reads.uncons reads
    rw [parseFraction, if_pos point, reads₁.advance_one, bind_of_ok (parseDigits_of_digits (valid digits rfl) reads₂ stops)]
    rfl

theorem parseExponent_of_exponent {exponent : Option Exponent} (reads : c.Reads (exponent.elim [] Exponent.bytes) c')
    (stops : c'.Stops isDigit) (noMarker : c'.Stops fun ch => ch = 0x65 || ch = 0x45) :
    parseExponent start c = .ok (exponent.isSome, c') := by
  cases exponent with
  | none =>
    obtain rfl : c = c' := Cursor.Reads.advance reads
    rw [parseExponent, noMarker, if_neg Bool.false_ne_true]
    rfl
  | some exponent =>
    obtain ⟨marker, sign, digits, marked, signed, valid⟩ := exponent
    have found : c.at (fun ch => ch = 0x65 || ch = 0x45) = true := by
      rw [Cursor.Reads.at_cons reads]
      simpa using marked
    obtain ⟨c₁, reads₁, later⟩ := Cursor.Reads.uncons reads
    obtain ⟨c₂, reads₂, reads₃⟩ := Cursor.Reads.split later
    have eq : (if c₁.at (fun ch => ch = 0x2B || ch = 0x2D) then c₁.advance 1 else c₁) = c₂ := by
      cases sign with
      | none =>
        obtain rfl : c₁ = c₂ := Cursor.Reads.advance reads₂
        obtain ⟨ch, rest, rfl⟩ := exists_cons_of_ne_nil valid.1
        have unsigned : ¬ c₁.at (fun ch => ch = 0x2B || ch = 0x2D) = true := by
          rw [reads₃.at_cons, Bool.or_eq_true, decide_eq_true_eq, decide_eq_true_eq]
          have digit := (valid.2 ch mem_cons_self).1
          rintro (rfl | rfl) <;> exact absurd digit (by decide)
        rw [if_neg unsigned]
      | some ch =>
        have isSign : c₁.at (fun ch => ch = 0x2B || ch = 0x2D) = true := by
          rw [Cursor.Reads.at_cons reads₂]
          simpa using signed ch rfl
        rw [if_pos isSign]
        exact Cursor.Reads.advance reads₂
    rw [parseExponent, if_pos found, reads₁.advance_one]
    simp only [eq]
    rw [bind_of_ok (parseDigits_of_digits valid reads₃ stops)]
    rfl

/-- A value is followed by a blank, a comma, a closing bracket or nothing. -/
def delimits (ch : UInt8) : Bool := isWs ch || ch = 0x2C || ch = 0x5D || ch = 0x7D

def Delimited (c : Cursor) : Prop := c.rest.head?.all delimits = true

theorem Delimited.stops (delimited : Delimited c) {p : UInt8 → Bool} (other : ∀ ch, delimits ch = true → p ch = false) :
    c.Stops p := by
  unfold Delimited at delimited
  unfold Cursor.Stops Cursor.at
  cases here : c.rest.head? with
  | none => rfl
  | some ch =>
    rw [here, Option.all_some] at delimited
    exact other ch delimited

theorem delimits_cases {ch : UInt8} (found : delimits ch = true) :
    ch = 0x20 ∨ ch = 0x09 ∨ ch = 0x0A ∨ ch = 0x0D ∨ ch = 0x2C ∨ ch = 0x5D ∨ ch = 0x7D := by
  simpa [delimits, isWs, or_assoc] using found

theorem parseNumber_of_number (reads : c.Reads number.bytes c') (delimited : Delimited c')
    (converted : convertNumber strtod c.pos number.isFloat number.bytes = .ok value) :
    parseNumber strtod c = .ok (value, c') := by
  have text : c.rest.take (c'.pos - c.pos) = number.bytes := by
    rw [reads.pos, Nat.add_sub_cancel_left, reads.rest, take_left]
  obtain ⟨negative, whole, fraction, exponent, wholeValid, noLeadingZero, fractionValid⟩ := number
  have noDigit : c'.Stops isDigit := delimited.stops fun ch found => by
    rcases delimits_cases found with rfl | rfl | rfl | rfl | rfl | rfl | rfl <;> rfl
  have noPoint : c'.Stops (· = 0x2E) := delimited.stops fun ch found => by
    rcases delimits_cases found with rfl | rfl | rfl | rfl | rfl | rfl | rfl <;> rfl
  have noMarker : c'.Stops fun ch => ch = 0x65 || ch = 0x45 := delimited.stops fun ch found => by
    rcases delimits_cases found with rfl | rfl | rfl | rfl | rfl | rfl | rfl <;> rfl
  obtain ⟨c₂, reads₁₂, reads₃⟩ := Cursor.Reads.split reads
  obtain ⟨c₁, reads₁, reads₂⟩ := reads₁₂.split
  have marker : exponent.elim true (fun exponent => ! isDigit exponent.marker && exponent.marker != 0x2E) = true := by
    cases exponent with
    | none => rfl
    | some exponent => rcases exponent.marked with marked | marked <;> simp only [Option.elim_some, marked] <;> rfl
  have noDigit₂ := Cursor.Reads.stops reads₃ noDigit (by
    cases exponent <;> simp_all [Exponent.bytes])
  have noPoint₂ := Cursor.Reads.stops reads₃ noPoint (by
    cases exponent <;> simp_all [Exponent.bytes])
  have noDigit₁ := Cursor.Reads.stops reads₂ noDigit₂ (by
    cases fraction <;> rfl)
  rw [parseNumber, bind_of_ok (parseWhole_of_digits wholeValid noLeadingZero reads₁ noDigit₁),
    bind_of_ok (parseFraction_of_digits fractionValid reads₂ noDigit₂ noPoint₂)]
  dsimp only
  rw [bind_of_ok (parseExponent_of_exponent reads₃ noDigit noMarker)]
  dsimp only
  rw [text]
  exact bind_of_ok converted

end ParserImpl

end FiberGateway.Json
