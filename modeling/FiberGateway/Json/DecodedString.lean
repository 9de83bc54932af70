import FiberGateway.Json.JsGc
import FiberGateway.Lib.Unicode

namespace FiberGateway.Json

open List Unicode

structure ParseError where
  message : String
  offset : Nat
  deriving DecidableEq, Repr

def hexValue (ch : UInt8) : Option Nat :=
  if 0x30 ≤ ch ∧ ch ≤ 0x39 then some (ch.toNat - 0x30)
  else if 0x61 ≤ ch ∧ ch ≤ 0x66 then some (10 + (ch.toNat - 0x61))
  else if 0x41 ≤ ch ∧ ch ≤ 0x46 then some (10 + (ch.toNat - 0x41))
  else none

/-- A string under construction: bytes as long as every code unit fits into one. -/
structure DecodedString where
  isByte : Bool := true
  bytes : List UInt8 := []
  u16 : List UInt16 := []
  deriving DecidableEq, Repr

namespace DecodedString

def appendCodeUnit (out : DecodedString) (unit : UInt16) : DecodedString :=
  if out.isByte ∧ unit ≤ 0xFF then { out with bytes := out.bytes ++ [unit.toUInt8] }
  else if out.isByte then { isByte := false, bytes := [], u16 := out.u16 ++ out.bytes.map (·.toUInt16) ++ [unit] }
  else { out with u16 := out.u16 ++ [unit] }

def appendCodepoint (out : DecodedString) (codepoint : Nat) : DecodedString :=
  if codepoint ≤ 0xFFFF then out.appendCodeUnit (.ofNat codepoint)
  else
    let value := codepoint - 0x10000
    (out.appendCodeUnit (.ofNat (0xD800 + (value >>> 10)))).appendCodeUnit (.ofNat (0xDC00 + (value &&& 0x3FF)))

end DecodedString

def makeGcString (decoded : DecodedString) : GcString :=
  if decoded.isByte then ⟨.byte, decoded.bytes.map (·.toUInt16)⟩ else ⟨.utf16, decoded.u16⟩

/-- `ok` comes with the bytes consumed, `error` with the offset from the first byte. -/
inductive Utf8DecodeResult
  | ok (codepoint consumed : Nat)
  | needMore
  | error (offset : Nat)
  deriving DecidableEq, Repr

/-- The bytes after the first, or the index of one that does not continue the code point. -/
def continueCode : Nat → Nat → List UInt8 → Except Nat Nat
  | code, _, [] => .ok code
  | code, idx, next :: rest =>
    if next &&& 0xC0 ≠ 0x80 then .error idx
    else continueCode (code <<< 6 ||| (next &&& 0x3F).toNat) (idx + 1) rest

def decodeUtf8Codepoint (final : Bool) : List UInt8 → Utf8DecodeResult
  | [] => if final then .error 0 else .needMore
  | ch :: rest =>
    if ch < 0x80 then .ok ch.toNat 1
    else
      match leadByte ch with
      | none => .error 0
      | some (needed, code, minValue) =>
        if rest.length < needed then if final then .error 0 else .needMore
        else
          match continueCode code 1 (rest.take needed) with
          | .error idx => .error idx
          | .ok code =>
            if code < minValue ∨ code > 0x10FFFF ∨ (code ≥ 0xD800 ∧ code ≤ 0xDFFF) then .error 0
            else .ok code (needed + 1)

/-- The string of these code units, in the encoding the decoder gives it. -/
def GcString.ofUnits (units : List UInt16) : GcString :=
  ⟨if units.all (· ≤ 0xFF) then .byte else .utf16, units⟩

namespace DecodedString

def units (decoded : DecodedString) : List UInt16 :=
  if decoded.isByte then decoded.bytes.map (·.toUInt16) else decoded.u16

/-- The code units are held as bytes exactly when they fit. -/
def Canonical (decoded : DecodedString) : Prop :=
  if decoded.isByte then decoded.u16 = [] else ∃ unit ∈ decoded.u16, 0xFF < unit

theorem toUInt16_le (byte : UInt8) : byte.toUInt16 ≤ 0xFF := by
  have bound := byte.toNat_lt
  rw [UInt16.le_iff_toNat_le, UInt8.toNat_toUInt16]
  exact Nat.le_of_lt_succ bound

theorem toUInt16_toUInt8 {unit : UInt16} (small : unit ≤ 0xFF) : unit.toUInt8.toUInt16 = unit := by
  have bound : unit.toNat ≤ 255 := UInt16.le_iff_toNat_le.mp small
  apply UInt16.toNat_inj.mp
  rw [UInt8.toNat_toUInt16, UInt16.toNat_toUInt8]
  omega

variable {out decoded : DecodedString}

theorem units_appendCodeUnit (canonical : out.Canonical) (unit : UInt16) :
    (out.appendCodeUnit unit).units = out.units ++ [unit] ∧ (out.appendCodeUnit unit).Canonical := by
  obtain ⟨isByte, bytes, u16⟩ := out
  cases isByte with
  | false =>
    obtain ⟨wide, member, above⟩ := canonical
    exact ⟨by simp [appendCodeUnit, units], wide, by simp [appendCodeUnit, member], above⟩
  | true =>
    cases (canonical : u16 = [])
    by_cases small : unit ≤ 0xFF
    · have back := toUInt16_toUInt8 small
      simp [appendCodeUnit, units, Canonical, small, back]
    · refine ⟨by simp [appendCodeUnit, units, small], ?_⟩
      simp only [appendCodeUnit, Canonical, small, and_false, if_false, if_true, Bool.false_eq_true]
      exact ⟨unit, mem_append_right _ mem_cons_self, UInt16.not_le.mp small⟩

theorem units_appendCodepoint (canonical : out.Canonical) (code : Nat) :
    (out.appendCodepoint code).units = out.units ++ utf16 code ∧ (out.appendCodepoint code).Canonical := by
  rw [utf16_eq, appendCodepoint]
  split
  · exact units_appendCodeUnit canonical _
  obtain ⟨first, canonical'⟩ := units_appendCodeUnit canonical (.ofNat (0xD800 + ((code - 0x10000) >>> 10)))
  obtain ⟨second, canonical''⟩ := units_appendCodeUnit canonical' (.ofNat (0xDC00 + ((code - 0x10000) &&& 0x3FF)))
  exact ⟨by rw [second, first, append_assoc]; rfl, canonical''⟩

theorem makeGcString_eq (canonical : decoded.Canonical) :
    makeGcString decoded = GcString.ofUnits decoded.units := by
  obtain ⟨isByte, bytes, u16⟩ := decoded
  cases isByte with
  | false =>
    obtain ⟨wide, member, above⟩ := canonical
    have large : ¬ (u16.all (· ≤ 0xFF)) = true := fun all =>
      UInt16.not_lt.mpr (of_decide_eq_true (all_eq_true.mp all wide member)) above
    simp only [makeGcString, GcString.ofUnits, units, Bool.false_eq_true, if_false, if_neg large]
  | true =>
    have small : ((bytes.map (·.toUInt16)).all (· ≤ 0xFF)) = true := by
      simp only [all_map, all_eq_true, Function.comp_apply, decide_eq_true_eq]
      exact fun byte _ => toUInt16_le byte
    simp only [makeGcString, GcString.ofUnits, units, if_true, if_pos small]

end DecodedString

variable {n idx code needed result bits minValue consumed : Nat} {ch next : UInt8} {rest tail data : List UInt8} {final : Bool}

theorem toNat_ofNat (small : n < 256) : (UInt8.ofNat n).toNat = n := UInt8.toNat_ofNat_of_lt' small

theorem eq_ofNat (equal : ch.toNat = n) : ch = .ofNat n := by
  rw [← equal, UInt8.ofNat_toNat]

theorem continueCode_cons :
    continueCode code idx (next :: rest) =
      if 0x80 ≤ next.toNat ∧ next.toNat < 0xC0 then continueCode (code * 64 + next.toNat % 64) (idx + 1) rest
      else .error idx := by
  rw [continueCode, shift_or]
  simp only [ne_eq, continues, ite_not]

theorem lt_iff_toNat : ch < 0x80 ↔ ch.toNat < 0x80 := UInt8.lt_iff_toNat_lt

theorem decodeUtf8Codepoint_of_lead (bits minValue : Nat) (notAscii : 0x80 ≤ ch.toNat)
    (leads : leadByte ch = some (needed, bits, minValue)) (length : tail.length = needed)
    (follow : continueCode bits 1 tail = .ok code) (least : minValue ≤ code) (scalar : IsScalar code) :
    decodeUtf8Codepoint final (ch :: (tail ++ rest)) = .ok code (needed + 1) := by
  have bound : code ≤ 0x10FFFF := by unfold IsScalar at scalar; omega
  have inside : ¬ (code < minValue ∨ code > 0x10FFFF ∨ (code ≥ 0xD800 ∧ code ≤ 0xDFFF)) := by
    unfold IsScalar at scalar
    omega
  have taken : (tail ++ rest).take needed = tail := by rw [← length, take_left]
  have enough : ¬ (tail ++ rest).length < needed := by
    rw [length_append]
    omega
  rw [decodeUtf8Codepoint, if_neg (fun ascii => by have := lt_iff_toNat.mp ascii; omega)]
  simp only [leads, if_neg enough, taken, follow, if_neg inside]

theorem decodeUtf8Codepoint_utf8 (scalar : IsScalar code) (rest : List UInt8) (final : Bool) :
    decodeUtf8Codepoint final (utf8 code ++ rest) = .ok code (utf8 code).length := by
  have bound : code ≤ 0x10FFFF := by unfold IsScalar at scalar; omega
  have last := toNat_ofNat (n := 0x80 + code % 64) (by omega)
  have middle := toNat_ofNat (n := 0x80 + code / 64 % 64) (by omega)
  have high := toNat_ofNat (n := 0x80 + code / 4096 % 64) (by omega)
  unfold utf8
  split
  · rename_i one
    have first := toNat_ofNat (n := code) (by omega)
    have ascii : UInt8.ofNat code < 0x80 := lt_iff_toNat.mpr (by omega)
    simp only [singleton_append, decodeUtf8Codepoint, if_pos ascii, first, length_singleton]
  split
  · rename_i above two
    have first := toNat_ofNat (n := 0xC0 + code / 64) (by omega)
    refine decodeUtf8Codepoint_of_lead (code / 64) 0x80 (by omega) ?_ rfl ?_ (by omega) scalar
    · rw [leadByte_eq, if_pos (by omega), first]
      congr 3
      omega
    · rw [continueCode_cons, last, if_pos (by omega), continueCode]
      congr 1
      omega
  split
  · rename_i above two three
    have first := toNat_ofNat (n := 0xE0 + code / 4096) (by omega)
    refine decodeUtf8Codepoint_of_lead (code / 4096) 0x800 (by omega) ?_ rfl ?_ (by omega) scalar
    · rw [leadByte_eq, if_neg (by omega), if_pos (by omega), first]
      congr 3
      omega
    · rw [continueCode_cons, middle, if_pos (by omega), continueCode_cons, last, if_pos (by omega), continueCode]
      congr 1
      omega
  · rename_i above two three
    have first := toNat_ofNat (n := 0xF0 + code / 262144) (by omega)
    refine decodeUtf8Codepoint_of_lead (code / 262144) 0x10000 (by omega) ?_ rfl ?_ (by omega) scalar
    · rw [leadByte_eq, if_neg (by omega), if_neg (by omega), if_pos (by omega), first]
      congr 3
      omega
    · rw [continueCode_cons, high, if_pos (by omega), continueCode_cons, middle, if_pos (by omega), continueCode_cons, last,
        if_pos (by omega), continueCode]
      congr 1
      omega

theorem continueCode_one (follow : continueCode code idx tail = .ok result) (length : tail.length = 1) :
    ∃ b, tail = [b] ∧ result = code * 64 + b.toNat % 64 ∧ 0x80 ≤ b.toNat ∧ b.toNat < 0xC0 := by
  obtain ⟨b, rfl⟩ := length_eq_one_iff.mp length
  rw [continueCode_cons] at follow
  split at follow
  · rename_i here
    cases follow
    exact ⟨b, rfl, rfl, here⟩
  · cases follow

theorem continueCode_more (follow : continueCode code idx tail = .ok result) (length : tail.length = n + 1) :
    ∃ b rest, tail = b :: rest ∧ rest.length = n ∧ continueCode (code * 64 + b.toNat % 64) (idx + 1) rest = .ok result ∧
      0x80 ≤ b.toNat ∧ b.toNat < 0xC0 := by
  obtain ⟨b, rest, rfl⟩ := exists_cons_of_length_eq_add_one length
  rw [continueCode_cons] at follow
  split at follow
  · rename_i here
    exact ⟨b, rest, rfl, Nat.succ.inj length, follow, here⟩
  · cases follow

theorem utf8_of_lead (leads : leadByte ch = some (needed, bits, minValue))
    (length : tail.length = needed) (follow : continueCode bits 1 tail = .ok code) (least : minValue ≤ code) :
    utf8 code = ch :: tail := by
  rw [leadByte_eq] at leads
  split at leads
  · cases leads
    obtain ⟨b, rfl, value, here⟩ := continueCode_one follow length
    have first : ch.toNat = 0xC0 + code / 64 := by omega
    have second : b.toNat = 0x80 + code % 64 := by omega
    rw [utf8, if_neg (by omega), if_pos (by omega), ← eq_ofNat first, ← eq_ofNat second]
  split at leads
  · cases leads
    obtain ⟨b, rest, rfl, length', follow', here⟩ := continueCode_more follow length
    obtain ⟨c, rfl, value, here'⟩ := continueCode_one follow' length'
    have first : ch.toNat = 0xE0 + code / 4096 := by omega
    have second : b.toNat = 0x80 + code / 64 % 64 := by omega
    have third : c.toNat = 0x80 + code % 64 := by omega
    rw [utf8, if_neg (by omega), if_neg (by omega), if_pos (by omega), ← eq_ofNat first, ← eq_ofNat second,
      ← eq_ofNat third]
  split at leads
  · cases leads
    obtain ⟨b, rest, rfl, length', follow', here⟩ := continueCode_more follow length
    obtain ⟨c, rest, rfl, length'', follow'', here'⟩ := continueCode_more follow' length'
    obtain ⟨d, rfl, value, here''⟩ := continueCode_one follow'' length''
    have first : ch.toNat = 0xF0 + code / 262144 := by omega
    have second : b.toNat = 0x80 + code / 4096 % 64 := by omega
    have third : c.toNat = 0x80 + code / 64 % 64 := by omega
    have fourth : d.toNat = 0x80 + code % 64 := by omega
    rw [utf8, if_neg (by omega), if_neg (by omega), if_neg (by omega), ← eq_ofNat first, ← eq_ofNat second,
      ← eq_ofNat third, ← eq_ofNat fourth]
  · cases leads

theorem decodeUtf8Codepoint_ok     (decoded : decodeUtf8Codepoint final data = .ok code consumed) :
    IsScalar code ∧ consumed = (utf8 code).length ∧ ∃ rest, data = utf8 code ++ rest := by
  cases data with
  | nil =>
    rw [decodeUtf8Codepoint] at decoded
    split at decoded <;> cases decoded
  | cons ch rest =>
    rw [decodeUtf8Codepoint] at decoded
    split at decoded
    · rename_i ascii
      have small := lt_iff_toNat.mp ascii
      cases decoded
      refine ⟨.inl (by omega), ?_, rest, ?_⟩
      · rw [utf8, if_pos small]
        rfl
      · rw [utf8, if_pos small, UInt8.ofNat_toNat]
        rfl
    split at decoded
    · cases decoded
    rename_i needed bits minValue leads
    split at decoded
    · split at decoded <;> cases decoded
    rename_i enough
    split at decoded
    · cases decoded
    rename_i code' follow
    split at decoded
    · cases decoded
    rename_i inside
    cases decoded
    have scalar : IsScalar code := by unfold IsScalar; omega
    have length := length_take_of_le (Nat.le_of_not_lt enough)
    have bytes := utf8_of_lead leads length follow (by omega)
    refine ⟨scalar, by rw [bytes, length_cons, length], rest.drop needed, ?_⟩
    rw [bytes, cons_append, take_append_drop]

end FiberGateway.Json
