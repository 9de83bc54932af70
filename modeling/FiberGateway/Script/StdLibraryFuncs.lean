import Mathlib

/-!
The codecs of the script library. A decoder that returns false is `none`, whatever it has put out before.
-/

namespace FiberGateway.Script

open Option

abbrev char (c : Char) : UInt8 := c.toNat.toUInt8

/-- `table[index]` of a table of characters. -/
def entry (table : String) (index : Nat) : UInt8 := (table.toList.map char).getD index 0

def hexEncode (data : List UInt8) : List UInt8 :=
  data.flatMap fun b => [entry "0123456789abcdef" (b.toNat >>> 4 &&& 0xF), entry "0123456789abcdef" (b.toNat &&& 0xF)]

def hexDigit (ch : UInt8) : Option Nat :=
  if char '0' ≤ ch ∧ ch ≤ char '9' then some (ch - char '0').toNat
  else if char 'a' ≤ ch ∧ ch ≤ char 'f' then some ((ch - char 'a').toNat + 10)
  else if char 'A' ≤ ch ∧ ch ≤ char 'F' then some ((ch - char 'A').toNat + 10)
  else none

/-- The byte of two digits. -/
def hexByte (hi lo : UInt8) : Option UInt8 := do
  let hi ← hexDigit hi
  let lo ← hexDigit lo
  return (hi <<< 4 ||| lo).toUInt8

/-- A last digit without a second one is passed over. -/
def hexDecode : List UInt8 → Option (List UInt8)
  | hi :: lo :: rest => do
    let b ← hexByte hi lo
    let out ← hexDecode rest
    return b :: out
  | _ => some []

def kTable : String := "ABCDEFGHIJKLMNOPQRSTUVWXYZabcdefghijklmnopqrstuvwxyz0123456789+/"

/-- The four characters of up to three bytes. -/
def base64Chunk (a : UInt8) (b c : Option UInt8) : List UInt8 :=
  let chunk := a.toNat <<< 16 ||| (b.getD 0).toNat <<< 8 ||| (c.getD 0).toNat
  let symbol (shift : Nat) := entry kTable (chunk >>> shift &&& 0x3F)
  [symbol 18, symbol 12, if b.isSome then symbol 6 else char '=', if c.isSome then symbol 0 else char '=']

def base64Encode : List UInt8 → List UInt8
  | [] => []
  | [a] => base64Chunk a none none
  | [a, b] => base64Chunk a (some b) none
  | a :: b :: c :: rest => base64Chunk a (some b) (some c) ++ base64Encode rest

def base64Value (ch : UInt8) : Option Nat :=
  if char 'A' ≤ ch ∧ ch ≤ char 'Z' then some (ch - char 'A').toNat
  else if char 'a' ≤ ch ∧ ch ≤ char 'z' then some ((ch - char 'a').toNat + 26)
  else if char '0' ≤ ch ∧ ch ≤ char '9' then some ((ch - char '0').toNat + 52)
  else if ch = char '+' then some 62
  else if ch = char '/' then some 63
  else none

/-- `std::isspace`. -/
def isSpace (ch : UInt8) : Bool := ch = 32 || 9 ≤ ch && ch ≤ 13

/-- The value of an `int` after a shift to the left. -/
def wrap (i : Int) : Int := (i + 2 ^ 31) % 2 ^ 32 - 2 ^ 31

def base64DecodeLoop (val valb : Int) : List UInt8 → Option (List UInt8)
  | [] => some []
  | ch :: rest =>
    if isSpace ch then base64DecodeLoop val valb rest
    else if ch = char '=' then some []
    else do
      let decoded ← base64Value ch
      let val := wrap (val * 2 ^ 6) + decoded
      let valb := valb + 6
      if 0 ≤ valb then do
        let out ← base64DecodeLoop val (valb - 8) rest
        return (val / 2 ^ valb.toNat % 256).toNat.toUInt8 :: out
      else base64DecodeLoop val valb rest

def base64Decode (input : List UInt8) : Option (List UInt8) := base64DecodeLoop 0 (-8) input

/-- The bytes that stand for themselves in a URL. -/
def isUrlSafe (ch : UInt8) : Bool :=
  (char 'a' ≤ ch && ch ≤ char 'z') || (char 'A' ≤ ch && ch ≤ char 'Z') || (char '0' ≤ ch && ch ≤ char '9') ||
    ch = char '-' || ch = char '_' || ch = char '.' || ch = char '*'

def urlEncode (input : List UInt8) : List UInt8 :=
  input.flatMap fun ch =>
    if isUrlSafe ch then [ch]
    else if ch = char ' ' then [char '+']
    else [char '%', entry "0123456789ABCDEF" (ch.toNat >>> 4 &&& 0xF), entry "0123456789ABCDEF" (ch.toNat &&& 0xF)]

def urlDecode : List UInt8 → Option (List UInt8)
  | [] => some []
  | ch :: rest =>
    if ch = char '+' then (urlDecode rest).map (char ' ' :: ·)
    else if ch = char '%' then
      match rest with
      | hi :: lo :: rest => do
        let b ← hexByte hi lo
        let out ← urlDecode rest
        return b :: out
      | _ => none
    else (urlDecode rest).map (ch :: ·)

theorem hexDigit_lower : ∀ i < 16, hexDigit (entry "0123456789abcdef" i) = some i := by decide

theorem hexDigit_upper : ∀ i < 16, hexDigit (entry "0123456789ABCDEF" i) = some i := by decide

/-- Two digits that stand for the halves of a byte stand for the byte. -/
theorem hexByte_halves (table : String) (digits : ∀ i < 16, hexDigit (entry table i) = some i) (b : UInt8) :
    hexByte (entry table (b.toNat >>> 4 &&& 0xF)) (entry table (b.toNat &&& 0xF)) = some b := by
  have high : b.toNat >>> 4 &&& 0xF = b.toNat / 16 := by
    rw [Nat.and_two_pow_sub_one_eq_mod _ 4, Nat.shiftRight_eq_div_pow]
    have := b.toNat_lt
    omega
  have low : b.toNat &&& 0xF = b.toNat % 16 := Nat.and_two_pow_sub_one_eq_mod _ 4
  have bound : b.toNat / 16 < 16 := by
    have := b.toNat_lt
    omega
  have inside : b.toNat % 16 < 2 ^ 4 := Nat.mod_lt _ (by decide)
  have value : (b.toNat / 16) <<< 4 ||| b.toNat % 16 = b.toNat := by
    rw [← Nat.shiftLeft_add_eq_or_of_lt inside, Nat.shiftLeft_eq]
    omega
  rw [high, low, hexByte, digits _ bound, digits _ inside]
  simp only [bind_eq_bind, bind_some, value]
  simp

theorem hexDecode_encode (data : List UInt8) : hexDecode (hexEncode data) = some data := by
  induction data with
  | nil => rfl
  | cons b data ih =>
    rw [hexEncode, List.flatMap_cons, ← hexEncode]
    simp only [List.cons_append, List.nil_append, hexDecode, hexByte_halves _ hexDigit_lower, ih, bind_eq_bind,
      bind_some]
    rfl

theorem urlDecode_encode (data : List UInt8) : urlDecode (urlEncode data) = some data := by
  induction data with
  | nil => rfl
  | cons b data ih =>
    rw [urlEncode, List.flatMap_cons, ← urlEncode]
    split
    · rename_i safe
      have plus : b ≠ char '+' := fun same => by rw [same] at safe; exact absurd safe (by decide)
      have percent : b ≠ char '%' := fun same => by rw [same] at safe; exact absurd safe (by decide)
      rw [List.singleton_append]
      unfold urlDecode
      rw [if_neg plus, if_neg percent, ih]
      rfl
    · split
      · rename_i blank
        rw [List.singleton_append, blank]
        unfold urlDecode
        rw [if_pos rfl, ih]
        rfl
      · simp only [List.cons_append, List.nil_append]
        rw [urlDecode, if_neg (by decide), if_pos rfl]
        simp only [hexByte_halves _ hexDigit_upper, ih, bind_eq_bind, bind_some]
        rfl

/-- What a symbol is to the decoder: neither a space nor the end. -/
theorem symbol_read : ∀ i < 64,
    isSpace (entry kTable i) = false ∧ entry kTable i ≠ char '=' ∧ base64Value (entry kTable i) = some i := by
  decide +kernel

variable {i chunk shift : Nat}

theorem base64DecodeLoop_symbol (inside : i < 64) (val valb : Int) (rest : List UInt8) :
    base64DecodeLoop val valb (entry kTable i :: rest) =
      if 0 ≤ valb + 6 then (base64DecodeLoop (wrap (val * 2 ^ 6) + i) (valb + 6 - 8) rest).map
        (((wrap (val * 2 ^ 6) + i) / 2 ^ (valb + 6).toNat % 256).toNat.toUInt8 :: ·)
      else base64DecodeLoop (wrap (val * 2 ^ 6) + i) (valb + 6) rest := by
  obtain ⟨dark, more, value⟩ := symbol_read i inside
  rw [base64DecodeLoop, if_neg (by simp [dark]), if_neg more, value]
  simp only [bind_eq_bind, bind_some]
  split
  · cases base64DecodeLoop (wrap (val * 2 ^ 6) + i) (valb + 6 - 8) rest <;> rfl
  · rfl

theorem chunk_eq (a b c : UInt8) :
    a.toNat <<< 16 ||| b.toNat <<< 8 ||| c.toNat = a.toNat * 65536 + b.toNat * 256 + c.toNat := by
  have below : b.toNat <<< 8 < 2 ^ 16 := by
    rw [Nat.shiftLeft_eq]
    have := b.toNat_lt
    omega
  have joined : a.toNat <<< 16 + b.toNat <<< 8 = (a.toNat * 256 + b.toNat) <<< 8 := by
    simp only [Nat.shiftLeft_eq]
    omega
  rw [← Nat.shiftLeft_add_eq_or_of_lt below, joined, ← Nat.shiftLeft_add_eq_or_of_lt c.toNat_lt, Nat.shiftLeft_eq]
  omega

theorem base64DecodeLoop_byte {val : Int} {b : UInt8} (inside : i < 64) (shifts : shift ≤ 4)
    (whole : (val * 2 ^ 6 + i) / 2 ^ shift % 256 = b.toNat) (rest : List UInt8) :
    base64DecodeLoop val (shift - 6) (entry kTable i :: rest) =
      (base64DecodeLoop (wrap (val * 2 ^ 6) + i) (shift - 8) rest).map (b :: ·) := by
  rw [base64DecodeLoop_symbol inside, if_pos (by omega)]
  have place : ((shift : Int) - 6 + 6).toNat = shift := by omega
  have same : (wrap (val * 2 ^ 6) + i) / 2 ^ shift % 256 = b.toNat := by
    rw [← whole]
    interval_cases shift <;> simp only [wrap] <;> omega
  rw [place, same, Int.toNat_natCast, show (shift : Int) - 6 + 6 - 8 = shift - 8 by omega]
  simp

/-- The symbols of a chunk put out its bytes one after the other, whatever is left of the chunks before. -/
theorem base64DecodeLoop_chunk (a b c : UInt8) (val : Int)
    (bytes : chunk = a.toNat * 65536 + b.toNat * 256 + c.toNat) :
    ∃ val₁ val₂ val₃ : Int,
      (∀ rest, base64DecodeLoop val (-8) (entry kTable (chunk / 2 ^ 18 % 64) :: entry kTable (chunk / 2 ^ 12 % 64) :: rest) =
        (base64DecodeLoop val₁ (-4) rest).map (a :: ·)) ∧
      (∀ rest, base64DecodeLoop val₁ (-4) (entry kTable (chunk / 2 ^ 6 % 64) :: rest) =
        (base64DecodeLoop val₂ (-6) rest).map (b :: ·)) ∧
      (∀ rest, base64DecodeLoop val₂ (-6) (entry kTable (chunk / 2 ^ 0 % 64) :: rest) =
        (base64DecodeLoop val₃ (-8) rest).map (c :: ·)) := by
  have := a.toNat_lt
  have := b.toNat_lt
  have := c.toNat_lt
  have first := @base64DecodeLoop_byte (chunk / 2 ^ 12 % 64) 4 (wrap (val * 2 ^ 6) + (chunk / 2 ^ 18 % 64 : Nat)) a
    (by omega) (by decide) (by simp only [wrap]; omega)
  generalize shifted : wrap ((wrap (val * 2 ^ 6) + (chunk / 2 ^ 18 % 64 : Nat)) * 2 ^ 6) = high at first
  have aligned : high % 64 = 0 := by
    rw [← shifted, wrap]
    omega
  have second := @base64DecodeLoop_byte (chunk / 2 ^ 6 % 64) 2 (high + (chunk / 2 ^ 12 % 64 : Nat)) b
    (by omega) (by decide) (by omega)
  have third := @base64DecodeLoop_byte (chunk / 2 ^ 0 % 64) 0
    (wrap ((high + (chunk / 2 ^ 12 % 64 : Nat)) * 2 ^ 6) + (chunk / 2 ^ 6 % 64 : Nat)) c
    (by omega) (by decide) (by simp only [wrap]; omega)
  refine ⟨_, _, _, fun rest => ?_, second, third⟩
  rw [base64DecodeLoop_symbol (by omega), if_neg (by decide)]
  exact first rest

theorem base64Chunk_eq (a : UInt8) (b c : Option UInt8)
    (bytes : chunk = a.toNat * 65536 + (b.getD 0).toNat * 256 + (c.getD 0).toNat) :
    base64Chunk a b c = [entry kTable (chunk / 2 ^ 18 % 64), entry kTable (chunk / 2 ^ 12 % 64),
      if b.isSome then entry kTable (chunk / 2 ^ 6 % 64) else char '=',
      if c.isSome then entry kTable (chunk / 2 ^ 0 % 64) else char '='] := by
  have low (n : Nat) := Nat.and_two_pow_sub_one_eq_mod n 6
  simp only [base64Chunk, chunk_eq, ← bytes, low, Nat.shiftRight_eq_div_pow]

theorem base64Decode_encode (data : List UInt8) (val : Int) : base64DecodeLoop val (-8) (base64Encode data) = some data := by
  fun_induction base64Encode data generalizing val with
  | case1 => rfl
  | case2 a =>
    obtain ⟨val₁, -, -, first, -, -⟩ := base64DecodeLoop_chunk a 0 0 val rfl
    rw [base64Chunk_eq a none none rfl]
    exact first _
  | case3 a b =>
    obtain ⟨val₁, val₂, -, first, second, -⟩ := base64DecodeLoop_chunk a b 0 val rfl
    rw [base64Chunk_eq a (some b) none rfl]
    refine (first _).trans ?_
    exact congrArg _ (second _)
  | case4 a b c rest ih =>
    obtain ⟨val₁, val₂, val₃, first, second, third⟩ := base64DecodeLoop_chunk a b c val rfl
    rw [base64Chunk_eq a (some b) (some c) rfl]
    refine (first _).trans ?_
    refine Eq.trans (congrArg _ (second _)) ?_
    refine Eq.trans (congrArg _ (congrArg _ (third _))) ?_
    exact congrArg (Option.map _ <| Option.map _ <| Option.map _ ·) (ih val₃)

/-- What was encoded is decoded to itself by all three codecs. -/
theorem codecs_inverse (b : List UInt8) : hexDecode (hexEncode b) = some b ∧
    base64Decode (base64Encode b) = some b ∧ urlDecode (urlEncode b) = some b :=
  ⟨hexDecode_encode b, base64Decode_encode b 0, urlDecode_encode b⟩

end FiberGateway.Script
