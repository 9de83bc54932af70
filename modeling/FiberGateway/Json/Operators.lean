import FiberGateway.Json.JsValueOps

namespace FiberGateway.Json

open List Unicode

/-- The code units of a string value, however it is represented. -/
inductive CodeUnits (heap : GcHeap) : JsValue → List UInt16 → Prop
  | heap {gc : Addr} {str : GcString} (there : heap.stringAt gc = some str) : CodeUnits heap (.heapString gc) str.units
  | native {data : List UInt8} {codes : List Nat} (decodes : Decodes data codes) :
      CodeUnits heap (.nativeString data) (codes.flatMap utf16)

namespace CodeUnits

variable {heap : GcHeap} {value lhs rhs : JsValue} {a b : List UInt16}

theorem isStringType (units : CodeUnits heap value a) : value.isStringType = true := by
  cases units <;> rfl

theorem flatMap_utf16_narrow {codes : List Nat} (narrow : ∀ code ∈ codes, code ≤ 0xFF) :
    codes.flatMap utf16 = codes.map .ofNat := by
  have single : ∀ code ∈ codes, utf16 code = [.ofNat code] := fun code member => by
    have := narrow code member
    exact utf16_of_lt (by omega)
  rw [flatMap_congr single, ← map_eq_flatMap]

/-- A source knows its length, and either way of copying it yields its code units. -/
theorem source (units : CodeUnits heap value a) : ∃ source, buildStringSource heap value = .ok source ∧
    source.totalLen = a.length ∧ source.appendUtf16 = some a ∧ (source.allByte = true → source.appendBytes = some a) := by
  cases units with
  | @heap gc str there =>
    obtain ⟨encoding, units⟩ := str
    cases encoding with
    | byte => exact ⟨.heapByte units, by simp [buildStringSource, there], rfl, rfl, fun _ => rfl⟩
    | utf16 => exact ⟨.heapUtf16 units, by simp [buildStringSource, there], rfl, rfl, nofun⟩
  | @native data codes decodes =>
    have scanned := utf8Scan_iff.mpr ⟨codes, decodes, rfl⟩
    refine ⟨.nativeUtf8 data ⟨_, _⟩, by rw [buildStringSource, scanned], rfl, utf8WriteUtf16_eq decodes, fun narrow => ?_⟩
    have small : ∀ code ∈ codes, code ≤ 0xFF := by simpa [StringSource.allByte] using narrow
    rw [flatMap_utf16_narrow small]
    simp only [StringSource.appendBytes, length_map, utf8WriteBytes_eq decodes small, Option.map_some, List.map_map]
    refine congrArg some (map_congr_left fun code member => ?_)
    have bound := small code member
    apply UInt16.toNat_inj.mp
    rw [toNat_ofNat16 (by omega), Function.comp_apply, UInt8.toNat_toUInt16, toNat_ofNat (by omega)]

theorem concat (left : CodeUnits heap lhs a) (right : CodeUnits heap rhs b) (machine : Machine) :
    ∃ str, addOp machine heap true lhs rhs = .newString str ∧ str.units = a ++ b := by
  obtain ⟨first, built, length, wide, narrow⟩ := left.source
  obtain ⟨second, built', length', wide', narrow'⟩ := right.source
  have joined : ∃ str, concatStrings true first second = .ok str ∧ str.units = a ++ b := by
    unfold concatStrings
    split
    · rename_i empty
      obtain rfl : a = [] := length_eq_zero_iff.mp (by omega)
      obtain rfl : b = [] := length_eq_zero_iff.mp (by omega)
      exact ⟨_, rfl, rfl⟩
    split
    · rename_i bytes
      rw [Bool.and_eq_true] at bytes
      exact ⟨_, by rw [narrow bytes.1, narrow' bytes.2]; rfl, rfl⟩
    · exact ⟨_, by rw [wide, wide']; rfl, rfl⟩
  obtain ⟨str, done, units⟩ := joined
  refine ⟨str, ?_, units⟩
  simp only [addOp, left.isStringType, right.isStringType, built, built']
  simp [bind, Except.bind, done]

/-- The sign of the lexicographic comparison. -/
def lexSign : List UInt16 → List UInt16 → Int
  | [], [] => 0
  | [], _ :: _ => -1
  | _ :: _, [] => 1
  | l :: lhs, r :: rhs => if l < r then -1 else if r < l then 1 else lexSign lhs rhs

theorem lexSign_spec (a b : List UInt16) :
    (lexSign a b < 0 ↔ a < b) ∧ (0 < lexSign a b ↔ b < a) ∧ (lexSign a b = 0 ↔ a = b) := by
  induction a generalizing b with
  | nil => cases b <;> simp [lexSign]
  | cons l a ih =>
    cases b with
    | nil => simp [lexSign]
    | cons r b =>
      rw [lexSign, cons_lt_cons_iff, cons_lt_cons_iff, List.cons.injEq]
      split
      · rename_i less
        have other : l ≠ r := fun same => UInt16.lt_irrefl r (same ▸ less)
        have back : ¬ r < l := UInt16.lt_asymm less
        simp [less, back, other, other.symm]
      split
      · rename_i notLess more
        have other : l ≠ r := fun same => UInt16.lt_irrefl r (same ▸ more)
        simp [notLess, more, other, other.symm]
      · rename_i notLess notMore
        have same : l = r := UInt16.le_antisymm (UInt16.not_lt.mp notMore) (UInt16.not_lt.mp notLess)
        subst same
        simpa using ih b

theorem compareSameEncoding_eq (a b : List UInt16) : compareSameEncoding a b = lexSign a b := by
  induction a generalizing b with
  | nil => cases b <;> simp [compareSameEncoding, compareUnits, lexSign]
  | cons l a ih =>
    cases b with
    | nil => simp [compareSameEncoding, compareUnits, lexSign]
    | cons r b =>
      rw [lexSign, ← ih]
      simp only [compareSameEncoding, compareUnits, length_cons, Nat.add_lt_add_iff_right]
      split_ifs <;> simp_all

end CodeUnits

/-- What a cursor has still to yield. -/
inductive StringCursor.Yields : StringCursor → List UInt16 → Prop
  | heap (rest : List UInt16) : Yields (.heap rest) rest
  | native {rest : List UInt8} {codes : List Nat} (pending : Option UInt16) (decodes : Decodes rest codes) :
      Yields (.native rest pending) (pending.toList ++ codes.flatMap utf16)

namespace StringCursor

theorem Yields.next {cursor : StringCursor} {units : List UInt16} (yields : cursor.Yields units) :
    ∃ cursor', cursorNext cursor = .ok (units.head?.map (·, cursor')) ∧ cursor'.Yields units.tail := by
  cases yields with
  | heap =>
    cases units with
    | nil => exact ⟨.heap [], rfl, .heap []⟩
    | cons unit rest => exact ⟨_, rfl, .heap rest⟩
  | @native rest codes pending decodes =>
    cases pending with
    | some unit => exact ⟨_, rfl, .native none decodes⟩
    | none =>
      cases codes with
      | nil =>
        obtain rfl : rest = [] := decodes.2
        exact ⟨.heap [], rfl, .heap []⟩
      | cons code codes =>
        obtain ⟨scalars, bytes⟩ := decodes
        rw [forall_mem_cons] at scalars
        have taken := (isDecoder_utf8NextCodepoint ..).mpr ⟨scalars.1, bytes⟩
        rcases rest with _ | ⟨ch, rest⟩
        · cases taken
        have later : Decodes (codes.flatMap utf8) codes := ⟨scalars.2, rfl⟩
        rw [Option.toList_none, nil_append, flatMap_cons, utf16_eq, cursorNext, taken]
        dsimp only
        split
        · exact ⟨_, rfl, .native none later⟩
        · exact ⟨_, rfl, .native (some _) later⟩

theorem Yields.compare {left right : StringCursor} {a b : List UInt16} (first : left.Yields a) (second : right.Yields b)
    {fuel : Nat} (enough : a.length < fuel) : compareCursors fuel left right = .ok (CodeUnits.lexSign a b) := by
  induction fuel generalizing left right a b with
  | zero => omega
  | succ fuel ih =>
    obtain ⟨left', taken, later⟩ := first.next
    obtain ⟨right', taken', later'⟩ := second.next
    rw [compareCursors, taken, taken']
    rcases a with _ | ⟨l, a⟩ <;> rcases b with _ | ⟨r, b⟩
    · rfl
    · rfl
    · rfl
    have rest := ih later later' (Nat.lt_of_succ_lt_succ enough)
    rw [tail_cons, tail_cons] at rest
    rw [CodeUnits.lexSign]
    simp only [List.head?_cons, Option.map_some, bind, Except.bind, rest]
    split_ifs <;> rfl

end StringCursor

namespace CodeUnits

variable {heap : GcHeap} {lhs rhs : JsValue} {a b : List UInt16}

theorem length_utf16_le (codes : List Nat) : (codes.flatMap utf16).length ≤ (codes.flatMap utf8).length := by
  induction codes with
  | nil => exact le_rfl
  | cons code codes ih =>
    have one : (utf16 code).length ≤ (utf8 code).length := by
      unfold utf16 utf8
      split_ifs <;> first | omega | simp
    rw [flatMap_cons, flatMap_cons, length_append, length_append]
    omega

theorem cursor (units : CodeUnits heap lhs a) :
    ∃ cursor, initStringCursor heap lhs = .ok cursor ∧ cursor.Yields a ∧ a.length ≤ cursor.size := by
  cases units with
  | heap there => exact ⟨_, by rw [initStringCursor, there], .heap _, le_rfl⟩
  | @native data codes decodes =>
    refine ⟨_, rfl, .native none decodes, ?_⟩
    have shorter := length_utf16_le codes
    rw [← decodes.2] at shorter
    exact shorter

theorem compare (left : CodeUnits heap lhs a) (right : CodeUnits heap rhs b) :
    compareStrings heap lhs rhs = .ok (lexSign a b) := by
  have cursors : compareByCursors heap lhs rhs = .ok (lexSign a b) := by
    obtain ⟨first, made, yields, size⟩ := left.cursor
    obtain ⟨second, made', yields', -⟩ := right.cursor
    rw [compareByCursors, made, made']
    exact yields.compare yields' (Nat.lt_succ_of_le size)
  cases left with
  | native decodes => exact cursors
  | heap there =>
    cases right with
    | native decodes => exact cursors
    | heap there' =>
      simp only [compareStrings, there, there']
      split
      · rw [compareSameEncoding_eq]
      · exact cursors

theorem equality (left : CodeUnits heap lhs a) (right : CodeUnits heap rhs b) (machine : Machine) :
    looseEqual machine heap lhs rhs = .ok (decide (a = b)) ∧ strictEqual machine heap lhs rhs = .ok (decide (a = b)) := by
  have same : decide (lexSign a b = 0) = decide (a = b) := decide_eq_decide.mpr (lexSign_spec a b).2.2
  simp [looseEqual, strictEqual, left.isStringType, right.isStringType, Bool.and_self, if_true, left.compare right, Except.map, same, and_self]

theorem order (left : CodeUnits heap lhs a) (right : CodeUnits heap rhs b) (op : JsBinaryOp) :
    orderOp heap op lhs rhs = .value (.boolean (op.orders (lexSign a b))) := by
  simp [orderOp, left.isStringType, right.isStringType, left.compare right]

end CodeUnits

/-- The operators on strings see the code units only: `+` joins them, and the comparisons are those of the lexicographic
order. -/
theorem string_operators (machine : Machine) (heap : GcHeap) {lhs rhs : JsValue} {a b : List UInt16}
    (left : CodeUnits heap lhs a) (right : CodeUnits heap rhs b) :
    (∃ str, jsBinaryOp machine heap true .add lhs rhs = .newString str ∧ str.units = a ++ b) ∧
      jsBinaryOp machine heap true .lt lhs rhs = .value (.boolean (a < b)) ∧
      jsBinaryOp machine heap true .le lhs rhs = .value (.boolean (a ≤ b)) ∧
      jsBinaryOp machine heap true .gt lhs rhs = .value (.boolean (b < a)) ∧
      jsBinaryOp machine heap true .ge lhs rhs = .value (.boolean (b ≤ a)) ∧
      jsBinaryOp machine heap true .eq lhs rhs = .value (.boolean (a = b)) ∧
      jsBinaryOp machine heap true .ne lhs rhs = .value (.boolean (a ≠ b)) ∧
      jsBinaryOp machine heap true .strictEq lhs rhs = .value (.boolean (a = b)) ∧
      jsBinaryOp machine heap true .strictNe lhs rhs = .value (.boolean (a ≠ b)) := by
  obtain ⟨less, more, -⟩ := CodeUnits.lexSign_spec a b
  obtain ⟨loose, strict⟩ := left.equality right machine
  have atMost : (CodeUnits.lexSign a b ≤ 0) = (a ≤ b) := by
    rw [← Int.not_lt, more]
    rfl
  have atLeast : (0 ≤ CodeUnits.lexSign a b) = (b ≤ a) := by
    rw [← Int.not_lt, less]
    rfl
  refine ⟨left.concat right machine, ?_⟩
  simp only [jsBinaryOp, left.order right, loose, strict, equalityOp, JsBinaryOp.orders, less, more, atMost, atLeast]
  simp

/-- A native "a" and a heap "b" of either encoding. -/
theorem mixed_strings : ∃ heap : GcHeap, CodeUnits heap (.nativeString [0x61]) [0x61] ∧ CodeUnits heap (.heapString 1) [0x62] ∧
    ∀ machine, jsBinaryOp machine heap true .lt (.nativeString [0x61]) (.heapString 1) = .value (.boolean true) := by
  let heap : GcHeap := ({} : GcHeap).alloc 1 (.string ⟨.utf16, [0x62]⟩)
  have decodes : Decodes [0x61] [0x61] := ⟨by decide, by decide⟩
  have there : heap.stringAt 1 = some ⟨.utf16, [0x62]⟩ := by decide
  have left : CodeUnits heap (.nativeString [0x61]) [0x61] := .native decodes
  have right : CodeUnits heap (.heapString 1) [0x62] := .heap there
  exact ⟨heap, left, right, fun machine => (string_operators machine heap left right).2.1⟩

end FiberGateway.Json
