import Mathlib

/-!
Code points and their two encodings, as bytes and as 16-bit code units.
-/

namespace Unicode

open Option

/-- A code point that is not a surrogate. -/
def IsScalar (code : Nat) : Prop := code < 0xD800 ∨ 0xDFFF < code ∧ code ≤ 0x10FFFF

instance : DecidablePred IsScalar := fun code => inferInstanceAs (Decidable (code < 0xD800 ∨ _))

def utf8 (code : Nat) : List UInt8 :=
  if code < 0x80 then [.ofNat code]
  else if code < 0x800 then [.ofNat (0xC0 + code / 64), .ofNat (0x80 + code % 64)]
  else if code < 0x10000 then
    [.ofNat (0xE0 + code / 4096), .ofNat (0x80 + code / 64 % 64), .ofNat (0x80 + code % 64)]
  else
    [.ofNat (0xF0 + code / 262144), .ofNat (0x80 + code / 4096 % 64), .ofNat (0x80 + code / 64 % 64),
      .ofNat (0x80 + code % 64)]

def utf16 (code : Nat) : List UInt16 :=
  if code < 0x10000 then [.ofNat code]
  else [.ofNat (0xD800 + (code - 0x10000) / 1024), .ofNat (0xDC00 + (code - 0x10000) % 1024)]

/-- What the first byte of a code point says: how many bytes follow, its own bits, and the least code point that needs
so many. -/
def leadByte (ch : UInt8) : Option (Nat × Nat × Nat) :=
  if ch &&& 0xE0 = 0xC0 then some (1, (ch &&& 0x1F).toNat, 0x80)
  else if ch &&& 0xF0 = 0xE0 then some (2, (ch &&& 0x0F).toNat, 0x800)
  else if ch &&& 0xF8 = 0xF0 then some (3, (ch &&& 0x07).toNat, 0x10000)
  else none

theorem forall_byte {P : UInt8 → Prop} (all : ∀ n < 256, P (UInt8.ofNat n)) (ch : UInt8) : P ch := by
  have here := all ch.toNat ch.toNat_lt
  rwa [UInt8.ofNat_toNat] at here

theorem lead_two (ch : UInt8) : ch &&& 0xE0 = 0xC0 ↔ 0xC0 ≤ ch.toNat ∧ ch.toNat < 0xE0 :=
  forall_byte (P := fun ch => ch &&& 0xE0 = 0xC0 ↔ 0xC0 ≤ ch.toNat ∧ ch.toNat < 0xE0) (by decide +kernel) ch

theorem lead_three (ch : UInt8) : ch &&& 0xF0 = 0xE0 ↔ 0xE0 ≤ ch.toNat ∧ ch.toNat < 0xF0 :=
  forall_byte (P := fun ch => ch &&& 0xF0 = 0xE0 ↔ 0xE0 ≤ ch.toNat ∧ ch.toNat < 0xF0) (by decide +kernel) ch

theorem lead_four (ch : UInt8) : ch &&& 0xF8 = 0xF0 ↔ 0xF0 ≤ ch.toNat ∧ ch.toNat < 0xF8 :=
  forall_byte (P := fun ch => ch &&& 0xF8 = 0xF0 ↔ 0xF0 ≤ ch.toNat ∧ ch.toNat < 0xF8) (by decide +kernel) ch

theorem continues (ch : UInt8) : ch &&& 0xC0 = 0x80 ↔ 0x80 ≤ ch.toNat ∧ ch.toNat < 0xC0 :=
  forall_byte (P := fun ch => ch &&& 0xC0 = 0x80 ↔ 0x80 ≤ ch.toNat ∧ ch.toNat < 0xC0) (by decide +kernel) ch

theorem shift_or (code : Nat) (ch : UInt8) : code <<< 6 ||| (ch &&& 0x3F).toNat = code * 64 + ch.toNat % 64 := by
  have low : (ch &&& 0x3F).toNat = ch.toNat % 64 := by
    rw [UInt8.toNat_and]
    exact Nat.and_two_pow_sub_one_eq_mod ch.toNat 6
  rw [low, ← Nat.shiftLeft_add_eq_or_of_lt (Nat.mod_lt _ (by decide)), Nat.shiftLeft_eq]

theorem leadByte_eq (ch : UInt8) : leadByte ch =
    if 0xC0 ≤ ch.toNat ∧ ch.toNat < 0xE0 then some (1, ch.toNat % 32, 0x80)
    else if 0xE0 ≤ ch.toNat ∧ ch.toNat < 0xF0 then some (2, ch.toNat % 16, 0x800)
    else if 0xF0 ≤ ch.toNat ∧ ch.toNat < 0xF8 then some (3, ch.toNat % 8, 0x10000)
    else none := by
  have five : (ch &&& 0x1F).toNat = ch.toNat % 32 := by
    rw [UInt8.toNat_and]
    exact Nat.and_two_pow_sub_one_eq_mod ch.toNat 5
  have four : (ch &&& 0x0F).toNat = ch.toNat % 16 := by
    rw [UInt8.toNat_and]
    exact Nat.and_two_pow_sub_one_eq_mod ch.toNat 4
  have three : (ch &&& 0x07).toNat = ch.toNat % 8 := by
    rw [UInt8.toNat_and]
    exact Nat.and_two_pow_sub_one_eq_mod ch.toNat 3
  simp only [leadByte, lead_two, lead_three, lead_four, five, four, three]

theorem utf8_length_pos (code : Nat) : 0 < (utf8 code).length := by
  unfold utf8
  split_ifs <;> simp

/-- The bytes of a code point begin with the code point itself or with a byte that is none. -/
theorem utf8_head {code : Nat} {ch : UInt8} {tail : List UInt8} (bytes : utf8 code = ch :: tail)
    (bound : code ≤ 0x10FFFF) : ch.toNat = code ∨ 0x80 ≤ ch.toNat := by
  have toNat {n : Nat} (small : n < 256) := UInt8.toNat_ofNat_of_lt' small
  unfold utf8 at bytes
  split at bytes
  · left
    rw [← (List.cons.inj bytes).1, toNat (by omega)]
  right
  split at bytes
  · rw [← (List.cons.inj bytes).1, toNat (by omega)]
    omega
  split at bytes
  · rw [← (List.cons.inj bytes).1, toNat (by omega)]
    omega
  · rw [← (List.cons.inj bytes).1, toNat (by omega)]
    omega

theorem utf16_of_lt {code : Nat} (small : code < 0x10000) : utf16 code = [.ofNat code] := if_pos small

theorem utf16_eq (code : Nat) : utf16 code = if code ≤ 0xFFFF then [.ofNat code]
    else [.ofNat (0xD800 + ((code - 0x10000) >>> 10)), .ofNat (0xDC00 + ((code - 0x10000) &&& 0x3FF))] := by
  have low : (code - 0x10000) &&& 0x3FF = (code - 0x10000) % 1024 := Nat.and_two_pow_sub_one_eq_mod _ 10
  have high : (code - 0x10000) >>> 10 = (code - 0x10000) / 1024 := Nat.shiftRight_eq_div_pow ..
  simp only [utf16, low, high, Nat.lt_succ_iff]

/-- The bytes are those of the code points, one behind the other. -/
def Decodes (bytes : List UInt8) (codes : List Nat) : Prop := (∀ code ∈ codes, IsScalar code) ∧ bytes = codes.flatMap utf8

/-- What takes one code point off the front of a text. -/
def IsDecoder (next : List UInt8 → Option (Nat × List UInt8)) : Prop :=
  ∀ data code rest, next data = some (code, rest) ↔ IsScalar code ∧ data = utf8 code ++ rest

/-- The loop over the code points of a text; `f` may stop it. -/
def foldCodes {σ : Type} (next : List UInt8 → Option (Nat × List UInt8)) (f : σ → Nat → Option σ) :
    Nat → List UInt8 → σ → Option σ
  | _, [], s => some s
  | 0, _ :: _, _ => none
  | fuel + 1, ch :: tail, s => do
    let (code, rest) ← next (ch :: tail)
    foldCodes next f fuel rest (← f s code)

theorem foldCodes_iff {σ : Type} {next : List UInt8 → Option (Nat × List UInt8)} (decoder : IsDecoder next)
    {f : σ → Nat → Option σ} {fuel : Nat} {data : List UInt8} {s s' : σ} (enough : data.length ≤ fuel) :
    foldCodes next f fuel data s = some s' ↔ ∃ codes, Decodes data codes ∧ codes.foldlM f s = some s' := by
  induction fuel generalizing data s with
  | zero =>
    obtain rfl := List.length_eq_zero_iff.mp (Nat.le_zero.mp enough)
    refine ⟨fun done => ⟨[], ⟨nofun, rfl⟩, done⟩, fun ⟨codes, ⟨_, bytes⟩, done⟩ => ?_⟩
    cases codes with
    | nil => exact done
    | cons code codes =>
      have longer := congrArg List.length bytes
      have := utf8_length_pos code
      simp only [List.length_nil, List.flatMap_cons, List.length_append] at longer
      omega
  | succ fuel ih =>
    have shorter {code : Nat} {rest : List UInt8} (bytes : data = utf8 code ++ rest) : rest.length ≤ fuel := by
      have := utf8_length_pos code
      rw [bytes, List.length_append] at enough
      omega
    constructor
    · intro done
      cases data with
      | nil => exact ⟨[], ⟨nofun, rfl⟩, done⟩
      | cons ch tail =>
        simp only [foldCodes, bind_eq_bind, bind_eq_some_iff] at done
        obtain ⟨⟨code, rest⟩, taken, s₁, kept, later⟩ := done
        obtain ⟨scalar, bytes⟩ := (decoder ..).mp taken
        obtain ⟨codes, ⟨scalars, rfl⟩, folded⟩ := (ih (shorter bytes)).mp later
        exact ⟨code :: codes, ⟨List.forall_mem_cons.mpr ⟨scalar, scalars⟩, bytes⟩, by simp [kept, folded]⟩
    · rintro ⟨codes, ⟨scalars, bytes⟩, folded⟩
      cases codes with
      | nil =>
        cases bytes
        exact folded
      | cons code codes =>
        rw [List.forall_mem_cons] at scalars
        rw [List.flatMap_cons] at bytes
        have taken := (decoder data code _).mpr ⟨scalars.1, bytes⟩
        rw [List.foldlM_cons, bind_eq_bind, bind_eq_some_iff] at folded
        obtain ⟨s₁, kept, later⟩ := folded
        have rest := (ih (shorter bytes)).mpr ⟨codes, ⟨scalars.2, rfl⟩, later⟩
        cases data with
        | nil => cases (List.append_eq_nil_iff.mp bytes.symm).1 ▸ utf8_length_pos code
        | cons ch tail => simp [foldCodes, taken, kept, rest]

end Unicode
