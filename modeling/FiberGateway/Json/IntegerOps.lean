import FiberGateway.Json.JsValueOps

namespace FiberGateway.Json

theorem roundShift_bounds (n shift : Nat) : n / 2 ^ shift ≤ roundShift n shift ∧ roundShift n shift ≤ n / 2 ^ shift + 1 := by
  unfold roundShift
  split <;> omega

variable {m n shift : Nat}

theorem roundShift_mono (le : n ≤ m) : roundShift n shift ≤ roundShift m shift := by
  rcases (Nat.div_le_div_right le : n / 2 ^ shift ≤ m / 2 ^ shift).lt_or_eq with less | same
  · have low := (roundShift_bounds n shift).2
    have high := (roundShift_bounds m shift).1
    omega
  have rest : n % 2 ^ shift ≤ m % 2 ^ shift := by
    have first := Nat.div_add_mod n (2 ^ shift)
    have second := Nat.div_add_mod m (2 ^ shift)
    rw [same] at first
    omega
  unfold roundShift
  rw [same]
  split_ifs <;> omega

/-- The significant bits of a number, rounded to 53. -/
def significand (n : Nat) : Nat := if n.log2 ≤ 52 then n * 2 ^ (52 - n.log2) else roundShift n (n.log2 - 52)

theorem magnitude_eq (positive : n ≠ 0) : magnitude n = (n.log2 + 1022) * 2 ^ 52 + significand n := if_neg positive

theorem significand_bounds (positive : n ≠ 0) : 2 ^ 52 ≤ significand n ∧ significand n ≤ 2 ^ 53 := by
  have least := Nat.log2_self_le positive
  have above := (Nat.lt_log2_self (n := n)).le
  unfold significand
  split
  · rename_i small
    have low : 2 ^ n.log2 * 2 ^ (52 - n.log2) = 2 ^ 52 := by rw [← Nat.pow_add, Nat.add_sub_of_le small]
    have high : 2 ^ (n.log2 + 1) * 2 ^ (52 - n.log2) = 2 ^ 53 := by rw [Nat.pow_succ, Nat.mul_right_comm, low]; rfl
    exact ⟨low ▸ Nat.mul_le_mul_right _ least, high ▸ Nat.mul_le_mul_right _ above⟩
  rename_i large
  have low : 2 ^ 52 * 2 ^ (n.log2 - 52) = 2 ^ n.log2 := by rw [← Nat.pow_add, Nat.add_sub_of_le (by omega)]
  have quotient := (Nat.le_div_iff_mul_le (by positivity)).mpr (low ▸ least)
  have bound : n / 2 ^ (n.log2 - 52) < 2 ^ 53 := by
    rw [Nat.div_lt_iff_lt_mul (by positivity), show 2 ^ 53 = 2 * 2 ^ 52 by rfl, Nat.mul_assoc, low, ← Nat.pow_succ']
    exact Nat.lt_log2_self
  have rounded := roundShift_bounds n (n.log2 - 52)
  omega

theorem magnitude_mono (le : n ≤ m) : magnitude n ≤ magnitude m := by
  by_cases zero : n = 0
  · rw [zero]
    exact Nat.zero_le _
  have positive : m ≠ 0 := by omega
  have exponent := (Nat.le_log2 positive).mpr ((Nat.log2_self_le zero).trans le)
  rw [magnitude_eq zero, magnitude_eq positive]
  rcases exponent.lt_or_eq with less | same
  · have first := significand_bounds zero
    have second := significand_bounds positive
    omega
  · rw [same]
    refine Nat.add_le_add_left ?_ _
    unfold significand
    rw [same]
    split
    · exact Nat.mul_le_mul_right _ le
    · exact roundShift_mono le

theorem magnitude_pos (positive : n ≠ 0) : 0 < magnitude n := by
  have bound := (significand_bounds positive).1
  rw [magnitude_eq positive]
  omega

theorem magnitude_lt (fits : n ≤ 2 ^ 63) : magnitude n < 0x7FF0000000000000 := by
  have top : magnitude (2 ^ 63) = (63 + 1022) * 2 ^ 52 + 2 ^ 52 := by decide +kernel
  have le := magnitude_mono fits
  omega

section

variable {i j : Int}

section

variable (fits : i.natAbs ≤ 2 ^ 63)

include fits

theorem toNat_toDouble : (toDouble i).toNat = magnitude i.natAbs + if i < 0 then 2 ^ 63 else 0 := by
  have bound := magnitude_lt fits
  refine UInt64.toNat_ofNat_of_lt' ?_
  rw [UInt64.size]
  split <;> omega

theorem isNan_toDouble : isNan (toDouble i) = false := by
  have bound := magnitude_lt fits
  rw [isNan, toNat_toDouble fits, decide_eq_false_iff_not]
  split <;> omega

theorem orderKey_toDouble :
    orderKey (toDouble i) = if i < 0 then - (magnitude i.natAbs : Int) else magnitude i.natAbs := by
  have bound := magnitude_lt fits
  rw [orderKey, toNat_toDouble fits]
  split_ifs <;> omega

theorem orderKey_mono (fits' : j.natAbs ≤ 2 ^ 63) (le : i ≤ j) : orderKey (toDouble i) ≤ orderKey (toDouble j) := by
  rw [orderKey_toDouble fits, orderKey_toDouble fits']
  split_ifs
  · have lower := magnitude_mono (show j.natAbs ≤ i.natAbs by omega)
    omega
  · omega
  · omega
  · have lower := magnitude_mono (show i.natAbs ≤ j.natAbs by omega)
    omega

theorem toDouble_inj (fits' : j.natAbs ≤ 2 ^ 63) :
    orderKey (toDouble i) = orderKey (toDouble j) ↔ toDouble i = toDouble j := by
  refine ⟨fun same => UInt64.toNat_inj.mp ?_, congrArg orderKey⟩
  rw [orderKey_toDouble fits, orderKey_toDouble fits'] at same
  rw [toNat_toDouble fits, toNat_toDouble fits']
  split_ifs at same ⊢
  · omega
  · have := magnitude_pos (show i.natAbs ≠ 0 by omega)
    omega
  · have := magnitude_pos (show j.natAbs ≠ 0 by omega)
    omega
  · omega

end

end

theorem natAbs_toInt_le (a : Int64) : a.toInt.natAbs ≤ 2 ^ 63 := by
  have low := a.le_toInt
  have high := a.toInt_lt
  omega

/-- The answer of a comparison of integers. -/
def JsBinaryOp.compares (op : JsBinaryOp) (a b : Int) : Option Bool :=
  match op with
  | eq | strictEq => some (a = b)
  | ne | strictNe => some (a ≠ b)
  | lt => some (a < b)
  | le => some (a ≤ b)
  | gt => some (b < a)
  | ge => some (b ≤ a)
  | _ => none

theorem jsBinaryOp_integers (machine : Machine) (heap : GcHeap) {a b : Int} (fits : a.natAbs ≤ 2 ^ 63)
    (fits' : b.natAbs ≤ 2 ^ 63) {op : JsBinaryOp} {answer : Bool}
    (compares : op.compares (orderKey (toDouble a)) (orderKey (toDouble b)) = some answer) :
    jsBinaryOp machine heap true op (.integer a) (.integer b) = .value (.boolean answer) := by
  have known := isNan_toDouble fits
  have known' := isNan_toDouble fits'
  have equal : numbersEqual (toDouble a) (toDouble b) = decide (orderKey (toDouble a) = orderKey (toDouble b)) := by
    simp [numbersEqual, known, known']
  have orders (op : JsBinaryOp) : orderOp heap op (.integer a) (.integer b) =
      .value (.boolean (op.orders (orderKey (toDouble a) - orderKey (toDouble b)))) := by
    have unordered : (isNan (toDouble a) || isNan (toDouble b)) = false := by rw [known, known']; rfl
    rw [orderOp, if_neg (by exact Bool.false_ne_true), if_neg (by exact Bool.false_ne_true)]
    exact if_neg (by rw [unordered]; exact Bool.false_ne_true)
  have loose : looseEqual machine heap (.integer a) (.integer b) = .ok (numbersEqual (toDouble a) (toDouble b)) := rfl
  have strict : strictEqual machine heap (.integer a) (.integer b) = .ok (numbersEqual (toDouble a) (toDouble b)) := rfl
  cases op <;> cases compares <;> simp [jsBinaryOp, equalityOp, loose, strict, equal, orders, JsBinaryOp.orders]

/-- Integers are compared exactly unless two different ones are rounded to the same double. -/
theorem integer_comparison_iff (machine : Machine) (heap : GcHeap) (a b : Int64) :
    (∀ op answer, JsBinaryOp.compares op a.toInt b.toInt = some answer →
      jsBinaryOp machine heap true op (.integer a.toInt) (.integer b.toInt) = .value (.boolean answer)) ↔
      (toDouble a.toInt = toDouble b.toInt → a = b) := by
  have fits := natAbs_toInt_le a
  have fits' := natAbs_toInt_le b
  have up := orderKey_mono fits fits'
  have down := orderKey_mono fits' fits
  have inj := toDouble_inj fits fits'
  rw [← Int64.toInt_inj]
  constructor
  · intro exact same
    have right := exact .eq _ rfl
    rw [jsBinaryOp_integers machine heap fits fits' rfl, same] at right
    simpa using right
  · intro apart op answer compares
    have less : a.toInt < b.toInt ↔ orderKey (toDouble a.toInt) < orderKey (toDouble b.toInt) := by grind
    have more : b.toInt < a.toInt ↔ orderKey (toDouble b.toInt) < orderKey (toDouble a.toInt) := by grind
    have equal : a.toInt = b.toInt ↔ orderKey (toDouble a.toInt) = orderKey (toDouble b.toInt) := by omega
    refine jsBinaryOp_integers machine heap fits fits' ?_
    rw [← compares]
    cases op <;> simp only [JsBinaryOp.compares, ← Int.not_lt, less, more, equal, ne_eq]

/-- 2^53 and the next integer are found equal. -/
theorem neighbours_equal : JsBinaryOp.compares .eq 9007199254740992 9007199254740993 = some false ∧
    ∀ machine, jsBinaryOp machine {} true .eq (.integer 9007199254740992) (.integer 9007199254740993) =
      .value (.boolean true) := by
  have same : toDouble 9007199254740992 = toDouble 9007199254740993 := by decide +kernel
  refine ⟨by decide, fun machine => jsBinaryOp_integers machine {} (by decide) (by decide) ?_⟩
  rw [same]
  simp [JsBinaryOp.compares]

/-- The operands that are taken for integers. -/
inductive IntOperand
  | integer (i : Int64)
  | boolean (b : Bool)
  | null

namespace IntOperand

def value : IntOperand → JsValue
  | integer i => .integer i.toInt
  | boolean b => .boolean b
  | null => .null

def toInt : IntOperand → Int
  | integer i => i.toInt
  | boolean b => b.toNat
  | null => 0

theorem isNumericLike (v : IntOperand) : v.value.isNumericLike = true := by
  cases v <;> rfl

theorem isFloat (v : IntOperand) : v.value.isFloat = false := by
  cases v <;> rfl

theorem toInt64 (v : IntOperand) (machine : Machine) : v.value.toInt64 machine = some v.toInt := by
  cases v <;> rfl

theorem fits (v : IntOperand) : - 2 ^ 63 ≤ v.toInt ∧ v.toInt < 2 ^ 63 := by
  cases v with
  | integer i => exact ⟨i.le_toInt, i.toInt_lt⟩
  | boolean b => cases b <;> decide
  | null => decide

end IntOperand

inductive IntegerCall
  | add (lhs rhs : IntOperand)
  | sub (lhs rhs : IntOperand)
  | mul (lhs rhs : IntOperand)
  | mod (lhs rhs : IntOperand)
  | negate (value : IntOperand)
  | abs (value : IntOperand)

namespace IntegerCall

def run (machine : Machine) (heap : GcHeap) : IntegerCall → Except String JsOpResult
  | add lhs rhs => .ok (jsBinaryOp machine heap true .add lhs.value rhs.value)
  | sub lhs rhs => .ok (jsBinaryOp machine heap true .sub lhs.value rhs.value)
  | mul lhs rhs => .ok (jsBinaryOp machine heap true .mul lhs.value rhs.value)
  | mod lhs rhs => .ok (jsBinaryOp machine heap true .mod lhs.value rhs.value)
  | negate value => .ok (jsUnaryOp machine heap .negate value.value)
  | abs value => mathAbs machine [value.value]

/-- The result on integers. There is none of a division by zero, and `math.abs` is for numbers only. -/
def exact : IntegerCall → Option Int
  | add lhs rhs => some (lhs.toInt + rhs.toInt)
  | sub lhs rhs => some (lhs.toInt - rhs.toInt)
  | mul lhs rhs => some (lhs.toInt * rhs.toInt)
  | mod lhs rhs => if rhs.toInt = 0 then none else some (lhs.toInt.tmod rhs.toInt)
  | negate value => some (- value.toInt)
  | abs (.integer i) => some i.toInt.natAbs
  | abs _ => none

def Overflows : IntegerCall → Prop
  | mod lhs rhs => lhs.toInt = - 2 ^ 63 ∧ rhs.toInt = -1
  | abs value => value.toInt = - 2 ^ 63
  | _ => False

end IntegerCall

/-- The exact integer where it fits, a float where it does not, an error where there is none. -/
def Exact (exact : Option Int) (result : Except String JsOpResult) : Prop :=
  match exact with
  | none => (∃ message, result = .error message) ∨ ∃ error, result = .ok (.error error)
  | some i => if fitsInt64 i then result = .ok (.value (.integer i)) else ∃ f, result = .ok (.value (.float f))

theorem exact_numeric (machine : Machine) (onFloats : UInt64 → UInt64 → UInt64) (exact : Int → Int → Int)
    (lhs rhs : IntOperand) :
    Exact (some (exact lhs.toInt rhs.toInt)) (.ok (numeric machine onFloats exact lhs.value rhs.value)) := by
  simp only [numeric, IntOperand.isNumericLike, IntOperand.isFloat, IntOperand.toInt64, Bool.not_true, Bool.or_self,
    Bool.false_eq_true, if_false, Exact]
  split
  · rfl
  · exact ⟨_, rfl⟩

theorem fitsInt64_iff {i : Int} : fitsInt64 i = true ↔ - 2 ^ 63 ≤ i ∧ i < 2 ^ 63 := by simp [fitsInt64]

theorem exact_mod_iff (machine : Machine) (lhs rhs : IntOperand) :
    Exact (if rhs.toInt = 0 then none else some (lhs.toInt.tmod rhs.toInt)) (.ok (modNumeric machine lhs.value rhs.value)) ↔
      ¬ (lhs.toInt = - 2 ^ 63 ∧ rhs.toInt = -1) := by
  simp only [modNumeric, IntOperand.isNumericLike, IntOperand.isFloat, IntOperand.toInt64, Bool.not_true, Bool.or_self,
    Bool.false_eq_true, if_false]
  have bound := lhs.fits
  have bound' := rhs.fits
  by_cases zero : rhs.toInt = 0
  · rw [if_pos zero, if_pos zero]
    exact ⟨fun _ => by omega, fun _ => .inr ⟨_, rfl⟩⟩
  rw [if_neg zero, if_neg zero]
  by_cases edge : lhs.toInt = - 2 ^ 63 ∧ rhs.toInt = -1
  · rw [if_pos edge]
    obtain ⟨least, minus⟩ := edge
    rw [least, minus]
    simp [Exact]
  rw [if_neg edge]
  have small : fitsInt64 (lhs.toInt.tmod rhs.toInt) = true := by
    have less : (lhs.toInt.tmod rhs.toInt).natAbs < rhs.toInt.natAbs := by
      rw [Int.natAbs_tmod]
      exact Nat.mod_lt _ (Int.natAbs_pos.mpr zero)
    rw [fitsInt64_iff]
    omega
  exact ⟨fun _ => edge, fun _ => by simp [Exact, small]⟩

/-- Integer arithmetic is exact or turns to floats, except for the remainder and the absolute value that overflow. -/
theorem integer_arithmetic_iff (machine : Machine) (heap : GcHeap) (call : IntegerCall) :
    Exact call.exact (call.run machine heap) ↔ ¬ call.Overflows := by
  cases call with
  | add lhs rhs =>
    have text (v : IntOperand) : v.value.isStringType = false := by cases v <;> rfl
    refine ⟨fun _ => id, fun _ => ?_⟩
    rw [IntegerCall.run, jsBinaryOp, addOp, text, text]
    exact exact_numeric machine machine.add _ lhs rhs
  | sub lhs rhs => exact ⟨fun _ => id, fun _ => exact_numeric machine machine.sub _ lhs rhs⟩
  | mul lhs rhs => exact ⟨fun _ => id, fun _ => exact_numeric machine machine.mul _ lhs rhs⟩
  | mod lhs rhs => exact exact_mod_iff machine lhs rhs
  | negate value =>
    refine ⟨fun _ => id, fun _ => ?_⟩
    have bound := value.fits
    have negated : jsUnaryOp machine heap .negate value.value = if value.toInt = - 2 ^ 63 then
        .value (.float (machine.negate (toDouble value.toInt))) else .value (.integer (- value.toInt)) := by
      cases value <;> rfl
    rw [IntegerCall.run, IntegerCall.exact, negated, Exact]
    by_cases least : value.toInt = - 2 ^ 63
    · rw [if_neg (by rw [fitsInt64_iff]; omega), if_pos least]
      exact ⟨_, rfl⟩
    · rw [if_pos (by rw [fitsInt64_iff]; omega), if_neg least]
  | abs value =>
    cases value with
    | integer i =>
      have bound := (IntOperand.integer i).fits
      change - 2 ^ 63 ≤ i.toInt ∧ i.toInt < 2 ^ 63 at bound
      change Exact (some i.toInt.natAbs) (.ok (if i.toInt = - 2 ^ 63 then _ else _)) ↔ ¬ i.toInt = - 2 ^ 63
      rw [Exact]
      by_cases least : i.toInt = - 2 ^ 63
      · rw [if_pos least, if_neg (by rw [fitsInt64_iff]; omega)]
        simp [least]
      · rw [if_neg least, if_pos (by rw [fitsInt64_iff]; omega)]
        exact ⟨fun _ => least, fun _ => rfl⟩
    | boolean b =>
      have other : ¬ (b.toNat : Int) = - 2 ^ 63 := by cases b <;> decide
      exact ⟨fun _ => other, fun _ => .inl ⟨_, rfl⟩⟩
    | null => exact ⟨fun _ => show ¬ (0 : Int) = - 2 ^ 63 by decide, fun _ => .inl ⟨_, rfl⟩⟩

/-- The least integer has no remainder by -1 in C++, though it is 0. -/
theorem leastInteger_mod : IntegerCall.exact (.mod (.integer Int64.minValue) (.integer (-1))) = some 0 ∧
    ∀ machine heap, IntegerCall.run machine heap (.mod (.integer Int64.minValue) (.integer (-1))) = .ok .undefined := by
  exact ⟨by decide, fun machine heap => rfl⟩

end FiberGateway.Json
