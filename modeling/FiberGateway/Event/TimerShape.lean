import FiberGateway.Event.TimerQueue
import FiberGateway.Lib.BinaryHeap

/-!
The pointers of a `TimerQueue` against the positions of a complete binary tree: position 1 is the root, and `i / 2` is the
position over `i`.
-/

namespace FiberGateway.Event

open Function Function

namespace TimerQueue

variable {α : Type} [DecidableEq α] {T : Type} [LinearOrder T] {q : TimerQueue α} {view : Nat → α} {n i j k : Nat}

/-- The pointer to a position of a tree of `n` nodes: null outside of it. -/
def spot (n : Nat) (view : Nat → α) (i : Nat) : Option α := if i ≤ n then some (view i) else none

/-- The node that belongs at a position. -/
def nodeAt (n : Nat) (view : Nat → α) (i : Nat) : Node α where
  left := spot n view (2 * i)
  right := spot n view (2 * i + 1)
  parent := if i = 1 then none else some (view (i / 2))

/-- Different positions have different nodes. -/
def Distinct (n : Nat) (view : Nat → α) : Prop :=
  ∀ i j, 1 ≤ i → i ≤ n → 1 ≤ j → j ≤ n → view i = view j → i = j

/-- A complete binary tree of `count_` nodes, with all its pointers. -/
structure Shape (q : TimerQueue α) (view : Nat → α) : Prop where
  distinct : Distinct q.count view
  root : q.min = spot q.count view 1
  nodes : ∀ i, 1 ≤ i → i ≤ q.count → q.nodes (view i) = nodeAt q.count view i

/-- The nodes at the positions 1 to `n`, whatever they point to. -/
structure Holds (q : TimerQueue α) (n : Nat) (view : Nat → α) (links : Nat → Option α × Option α)
    (parents : Nat → Option α) : Prop where
  distinct : Distinct n view
  nodes : ∀ k, 1 ≤ k → k ≤ n → q.nodes (view k) = ⟨(links k).1, (links k).2, parents k⟩

/-- The pointers downwards that belong at a position. -/
def linksAt (n : Nat) (view : Nat → α) (i : Nat) : Option α × Option α :=
  (spot n view (2 * i), spot n view (2 * i + 1))

def parentAt (view : Nat → α) (i : Nat) : Option α := if i = 1 then none else some (view (i / 2))

variable {links links' : Nat → Option α × Option α} {parents parents' : Nat → Option α}

omit [DecidableEq α] in
theorem spot_of_le (within : i ≤ n) : spot n view i = some (view i) := if_pos within

omit [DecidableEq α] in
theorem spot_of_gt (outside : n < i) : spot n view i = none := if_neg (Nat.not_le.mpr outside)

omit [DecidableEq α] in
theorem Distinct.spot_eq (distinct : Distinct n view) (first : 1 ≤ i) (first' : 1 ≤ j) (last : j ≤ n) :
    spot n view i = some (view j) ↔ i = j := by
  constructor
  · intro same
    by_cases within : i ≤ n
    · rw [spot_of_le within] at same
      exact distinct i j first within first' last (Option.some.inj same)
    · rw [spot_of_gt (by omega)] at same
      cases same
  · rintro rfl
    exact spot_of_le last

/-- The variable that has the pointer to a position. -/
def slotOf (view : Nat → α) (i : Nat) : Slot α :=
  if i ≤ 1 then .min else if i % 2 = 0 then .left (view (i / 2)) else .right (view (i / 2))

omit [DecidableEq α] in
theorem slotOf_of_two (two : 2 ≤ i) :
    slotOf view i = if i % 2 = 1 then .right (view (i / 2)) else .left (view (i / 2)) := by
  rw [slotOf, if_neg (by omega)]
  by_cases even : i % 2 = 0
  · rw [if_pos even, if_neg (by omega)]
  · rw [if_neg even, if_pos (by omega)]

theorem relink_eq_write (first : 1 ≤ i) (node next : α)
    (left : 2 ≤ i → ((q.nodes (view (i / 2))).left = some node ↔ i % 2 = 0)) :
    q.relink (parentAt view i) node next = q.write (slotOf view i) (some next) := by
  by_cases root : i = 1
  · simp only [parentAt, slotOf, root, le_refl, if_true]
    rfl
  · have two : 2 ≤ i := by omega
    rw [parentAt, if_neg root, relink, slotOf_of_two two]
    by_cases even : i % 2 = 0
    · rw [if_pos ((left two).mpr even), if_neg (by omega)]
      rfl
    · rw [if_neg (fun same => even ((left two).mp same)), if_pos (by omega)]
      rfl

namespace Holds

section

variable (holds : q.Holds n view links parents)

include holds

theorem setNode (first : 1 ≤ i) (last : i ≤ n) (node : Node α) :
    (q.setNode (view i) node).Holds n view (update links i (node.left, node.right))
      (update parents i node.parent) := by
  refine ⟨holds.distinct, fun k first' last' => ?_⟩
  by_cases here : k = i
  · subst here
    simp [TimerQueue.setNode]
  · have apart : view k ≠ view i := fun same => here (holds.distinct k i first' last' first last same)
    simp [TimerQueue.setNode, update_of_ne apart, update_of_ne here, holds.nodes k first' last']

theorem setParentOf (first : 1 ≤ i) (parent : α) :
    (q.setParentOf (spot n view i) parent).Holds n view links (update parents i (some parent)) := by
  by_cases within : i ≤ n
  · rw [spot_of_le within]
    have set := holds.setNode first within { q.nodes (view i) with parent := some parent }
    have same : update links i ((q.nodes (view i)).left, (q.nodes (view i)).right) = links := by
      rw [holds.nodes i first within]
      exact update_eq_self i links
    rw [same] at set
    exact set
  · rw [spot_of_gt (by omega)]
    refine ⟨holds.distinct, fun k first' last' => ?_⟩
    rw [update_of_ne (by omega : k ≠ i)]
    exact holds.nodes k first' last'

theorem write (first : 1 ≤ i) (above : i / 2 ≤ n) (value : Option α) : (q.write (slotOf view i) value).Holds n view
        (if i = 1 then links else update links (i / 2)
          (if i % 2 = 0 then (value, (links (i / 2)).2) else ((links (i / 2)).1, value))) parents ∧
      (q.write (slotOf view i) value).count = q.count ∧
      (q.write (slotOf view i) value).min = if i = 1 then value else q.min := by
  by_cases root : i = 1
  · simp only [slotOf, root, le_refl, if_true]
    exact ⟨⟨holds.distinct, holds.nodes⟩, rfl, rfl⟩
  have node := holds.nodes (i / 2) (by omega) above
  have same : update parents (i / 2) (parents (i / 2)) = parents := update_eq_self _ _
  rw [slotOf_of_two (by omega)]
  simp only [root, if_false]
  by_cases even : i % 2 = 0
  · have set := holds.setNode (by omega) above ⟨value, (links (i / 2)).2, parents (i / 2)⟩
    rw [same] at set
    simp only [even, if_true, zero_ne_one, if_false, TimerQueue.write, setLeft, node]
    exact ⟨set, rfl, rfl⟩
  · have set := holds.setNode (by omega) above ⟨(links (i / 2)).1, value, parents (i / 2)⟩
    rw [same] at set
    simp only [show i % 2 = 1 by omega, if_true, one_ne_zero, if_false, TimerQueue.write, setRight, node]
    exact ⟨set, rfl, rfl⟩

end

end Holds

theorem setParentOf_rest (q : TimerQueue α) (a : Option α) (parent : α) :
    (q.setParentOf a parent).count = q.count ∧ (q.setParentOf a parent).min = q.min := by
  cases a <;> exact ⟨rfl, rfl⟩

omit [DecidableEq α] in
theorem Shape.holds (shape : Shape q view) :
    q.Holds q.count view (linksAt q.count view) (parentAt view) :=
  ⟨shape.distinct, shape.nodes⟩

/-- The position beside `j`. -/
def beside (j : Nat) : Nat := if j % 2 = 0 then j + 1 else j - 1

theorem beside_facts (two : 2 ≤ j) : beside j / 2 = j / 2 ∧ beside j ≠ j ∧ 2 ≤ beside j := by
  unfold beside
  split <;> omega

namespace Holds

section

variable (holds : q.Holds n view links parents)

include holds

omit [DecidableEq α] in
theorem congr     (same : ∀ k, 1 ≤ k → k ≤ n → links' k = links k ∧ parents' k = parents k) : q.Holds n view links' parents' := by
  refine ⟨holds.distinct, fun k first last => ?_⟩
  rw [holds.nodes k first last, (same k first last).1, (same k first last).2]

theorem exchange (first : 1 ≤ i) (last : i ≤ n) (first' : 1 ≤ j) (last' : j ≤ n)
    (apart : i ≠ j) : (q.exchange (view i) (view j)).Holds n view (links ∘ Equiv.swap i j)
      (update (parents ∘ Equiv.swap i j) i (some (view j))) := by
  have parent := holds.setNode first last (q.nodes (view j))
  have child := parent.setNode first' last' (q.nodes (view i))
  have above := child.setNode first last { q.nodes (view j) with parent := some (view j) }
  have here := child.nodes i first last
  rw [update_of_ne apart, update_of_ne apart, update_self, update_self] at here
  unfold TimerQueue.exchange setParent
  dsimp only
  rw [here]
  refine above.congr fun k first last => ?_
  rw [holds.nodes i (by omega) (by omega), holds.nodes j (by omega) (by omega)]
  by_cases parent : k = i
  · simp [parent]
  by_cases child : k = j
  · simp [child, apart.symm]
  · simp [parent, child, Equiv.swap_apply_of_ne_of_ne]

theorem turn (two : 2 ≤ j) (last : j ≤ n) (here : links j = linksAt n view (j / 2)) :
    (q.turn (view (j / 2)) (view j)).1.Holds n view (update links j
        (if j % 2 = 0 then (some (view (j / 2)), (links j).2) else ((links j).1, some (view (j / 2))))) parents ∧
      (q.turn (view (j / 2)) (view j)).2 = spot n view (beside j) ∧
      (q.turn (view (j / 2)) (view j)).1.count = q.count ∧ (q.turn (view (j / 2)) (view j)).1.min = q.min := by
  have child := holds.nodes j (by omega) last
  have same : update parents j (parents j) = parents := update_eq_self _ _
  unfold TimerQueue.turn beside
  rw [child, here]
  by_cases even : j % 2 = 0
  · have left : 2 * (j / 2) = j := by omega
    have set := holds.setNode (by omega) last ⟨some (view (j / 2)), (links j).2, parents j⟩
    rw [same, here] at set
    simp only [linksAt, left, spot_of_le last, if_true, even, setLeft, child, here] at set ⊢
    exact ⟨set, trivial, rfl, rfl⟩
  have odd : spot n view (2 * (j / 2)) ≠ some (view j) := by
    rw [ne_eq, holds.distinct.spot_eq (by omega) (by omega) last]
    omega
  have set := holds.setNode (by omega) last ⟨(links j).1, some (view (j / 2)), parents j⟩
  rw [same, here] at set
  have left : 2 * (j / 2) = j - 1 := by omega
  rw [left] at odd
  simp only [linksAt, if_neg even, setRight, child, here, left] at set ⊢
  rw [if_neg odd]
  exact ⟨set, rfl, rfl, rfl⟩

end

end Holds

omit [DecidableEq α] in
theorem Distinct.swap (distinct : Distinct n view) (first : 1 ≤ i) (last : i ≤ n) (first' : 1 ≤ j) (last' : j ≤ n) :
    Distinct n (view ∘ Equiv.swap i j) := by
  have within {k : Nat} (first'' : 1 ≤ k) (last'' : k ≤ n) : 1 ≤ Equiv.swap i j k ∧ Equiv.swap i j k ≤ n := by
    rw [Equiv.swap_apply_def]
    split_ifs <;> omega
  intro k m first last first' last' same
  have both := distinct _ _ (within first last).1 (within first last).2 (within first' last').1 (within first' last').2 same
  exact (Equiv.swap i j).injective both

omit [DecidableEq α] in
theorem spot_swap (last : i ≤ n) (last' : j ≤ n) (k : Nat) : spot n (view ∘ Equiv.swap i j) k =
    if k = i then some (view j) else if k = j then some (view i) else spot n view k := by
  by_cases here : k = i
  · simp [spot, here, last]
  by_cases there : k = j
  · subst there
    simp [spot, here, last']
  · simp [spot, here, there, Equiv.swap_apply_of_ne_of_ne]

/-- The pointers downwards that `swap_nodes` leaves, by the old positions. -/
def swappedLinks (n : Nat) (view : Nat → α) (j : Nat) : Nat → Option α × Option α :=
  let turned := update (linksAt n view ∘ Equiv.swap (j / 2) j) j
    (if j % 2 = 0 then (some (view (j / 2)), ((linksAt n view ∘ Equiv.swap (j / 2) j) j).2)
      else (((linksAt n view ∘ Equiv.swap (j / 2) j) j).1, some (view (j / 2))))
  if j / 2 = 1 then turned
  else update turned (j / 2 / 2)
    (if j / 2 % 2 = 0 then (some (view j), (turned (j / 2 / 2)).2) else ((turned (j / 2 / 2)).1, some (view j)))

/-- The pointers upwards that `swap_nodes` leaves, by the old positions. -/
def swappedParents (view : Nat → α) (j : Nat) : Nat → Option α :=
  update (update (update
    (update (parentAt view ∘ Equiv.swap (j / 2) j) (j / 2) (some (view j))) (beside j) (some (view j)))
      (2 * j) (some (view (j / 2)))) (2 * j + 1) (some (view (j / 2)))

theorem beside_of_half (two : 2 ≤ k) (same : k / 2 = j / 2) (apart : k ≠ j) : k = beside j := by
  unfold beside
  split <;> omega

omit [DecidableEq α] in
theorem swappedLinks_eq (two : 2 ≤ j) (last : j ≤ n) (first : 1 ≤ k) :
    swappedLinks n view j (Equiv.swap (j / 2) j k) = linksAt n (view ∘ Equiv.swap (j / 2) j) k := by
  have half : j / 2 ≠ j := by omega
  unfold swappedLinks
  by_cases parent : k = j / 2
  · subst parent
    rw [Equiv.swap_apply_left]
    have turned : ∀ f : Nat → Option α × Option α, ∀ x, (if j / 2 = 1 then f else
        update f (j / 2 / 2) x) j = f j := by
      intro f x
      split
      · rfl
      · rw [update_of_ne (by omega)]
    rw [turned, update_self, comp_apply, Equiv.swap_apply_right, linksAt, linksAt,
      spot_swap (by omega) last, spot_swap (by omega) last, if_neg (by omega : 2 * (j / 2) ≠ j / 2),
      if_neg (by omega : 2 * (j / 2) + 1 ≠ j / 2)]
    by_cases even : j % 2 = 0
    · rw [if_pos even, if_pos (by omega : 2 * (j / 2) = j), if_neg (by omega : 2 * (j / 2) + 1 ≠ j)]
    · rw [if_neg even, if_neg (by omega : 2 * (j / 2) ≠ j), if_pos (by omega : 2 * (j / 2) + 1 = j)]
  by_cases child : k = j
  · subst child
    rw [Equiv.swap_apply_right]
    have turned : ∀ f : Nat → Option α × Option α, ∀ x, (if k / 2 = 1 then f else
        update f (k / 2 / 2) x) (k / 2) = f (k / 2) := by
      intro f x
      split
      · rfl
      · rw [update_of_ne (by omega)]
    rw [turned, update_of_ne half, comp_apply, Equiv.swap_apply_left, linksAt, linksAt,
      spot_swap (by omega) last, spot_swap (by omega) last, if_neg (by omega), if_neg (by omega), if_neg (by omega),
      if_neg (by omega)]
  rw [Equiv.swap_apply_of_ne_of_ne parent child]
  have kept : update (linksAt n view ∘ Equiv.swap (j / 2) j) j
      (if j % 2 = 0 then (some (view (j / 2)), ((linksAt n view ∘ Equiv.swap (j / 2) j) j).2)
        else (((linksAt n view ∘ Equiv.swap (j / 2) j) j).1, some (view (j / 2)))) k = linksAt n view k := by
    rw [update_of_ne child, comp_apply, Equiv.swap_apply_of_ne_of_ne parent child]
  generalize update (linksAt n view ∘ Equiv.swap (j / 2) j) j _ = f at kept
  have right : linksAt n (view ∘ Equiv.swap (j / 2) j) k = (if 2 * k = j / 2 then some (view j) else spot n view (2 * k),
      if 2 * k + 1 = j / 2 then some (view j) else spot n view (2 * k + 1)) := by
    rw [linksAt, spot_swap (by omega) last, spot_swap (by omega) last, if_neg (by omega : 2 * k ≠ j),
      if_neg (by omega : 2 * k + 1 ≠ j)]
  rw [right]
  by_cases above : k = j / 2 / 2
  · rw [if_neg (by omega), ← above, update_self, kept]
    by_cases even : j / 2 % 2 = 0
    · rw [if_pos even, if_pos (by omega : 2 * k = j / 2), if_neg (by omega : 2 * k + 1 ≠ j / 2)]
      rfl
    · rw [if_neg even, if_neg (by omega : 2 * k ≠ j / 2), if_pos (by omega : 2 * k + 1 = j / 2)]
      rfl
  · rw [if_neg (by omega : 2 * k ≠ j / 2), if_neg (by omega : 2 * k + 1 ≠ j / 2)]
    split
    · exact kept
    · rw [update_of_ne above]
      exact kept

omit [DecidableEq α] in
theorem swappedParents_eq (two : 2 ≤ j) (first : 1 ≤ k) :
    swappedParents view j (Equiv.swap (j / 2) j k) = parentAt (view ∘ Equiv.swap (j / 2) j) k := by
  obtain ⟨over_beside, beside_ne, two_beside⟩ := beside_facts two
  have half : j / 2 ≠ j := by omega
  unfold swappedParents
  by_cases parent : k = j / 2
  · subst parent
    have above : j / 2 ≠ 1 → Equiv.swap (j / 2) j (j / 2 / 2) = j / 2 / 2 := fun _ =>
      Equiv.swap_apply_of_ne_of_ne (by omega) (by omega)
    rw [Equiv.swap_apply_left, update_of_ne (by omega), update_of_ne (by omega),
      update_of_ne beside_ne.symm, update_of_ne half.symm, comp_apply,
      Equiv.swap_apply_right]
    unfold parentAt
    split
    · rfl
    · rename_i below
      rw [comp_apply, above below]
  by_cases child : k = j
  · subst child
    rw [Equiv.swap_apply_right, update_of_ne (by omega), update_of_ne (by omega),
      update_of_ne (by omega), update_self, parentAt, if_neg (by omega), comp_apply,
      Equiv.swap_apply_left]
  rw [Equiv.swap_apply_of_ne_of_ne parent child]
  by_cases below : k / 2 = j
  · have pointer : parentAt (view ∘ Equiv.swap (j / 2) j) k = some (view (j / 2)) := by
      rw [parentAt, if_neg (by omega), below, comp_apply, Equiv.swap_apply_right]
    rw [pointer]
    by_cases odd : k = 2 * j + 1
    · rw [odd, update_self]
    · rw [update_of_ne odd, show k = 2 * j by omega, update_self]
  rw [update_of_ne (by omega), update_of_ne (by omega)]
  by_cases sibling : k = beside j
  · rw [sibling, update_self, parentAt, if_neg (by omega), over_beside, comp_apply,
      Equiv.swap_apply_left]
  rw [update_of_ne sibling, update_of_ne parent, comp_apply,
    Equiv.swap_apply_of_ne_of_ne parent child]
  unfold parentAt
  split
  · rfl
  rename_i below'
  have apart : k / 2 ≠ j / 2 := fun same => sibling (beside_of_half (by omega) same child)
  rw [comp_apply, Equiv.swap_apply_of_ne_of_ne apart below]

/-- Exchanging a node with its parent exchanges their positions, and nothing else. -/
theorem Shape.swap (shape : Shape q view) (two : 2 ≤ j) (last : j ≤ q.count) :
    Shape (q.swapNodes (view (j / 2)) (view j)) (view ∘ Equiv.swap (j / 2) j) ∧
      (q.swapNodes (view (j / 2)) (view j)).count = q.count := by
  obtain ⟨over_beside, beside_ne, two_beside⟩ := beside_facts two
  have half_ne : j / 2 ≠ j := by omega
  have a := shape.holds.exchange (by omega) (by omega : j / 2 ≤ q.count) (by omega) last half_ne
  have a_min : (q.exchange (view (j / 2)) (view j)).min = q.min := rfl
  have a_count : (q.exchange (view (j / 2)) (view j)).count = q.count := rfl
  obtain ⟨b, sibling, b_count, b_min⟩ := a.turn two last (by simp)
  unfold swapNodes
  generalize (q.exchange (view (j / 2)) (view j)) = qa at *
  simp only [sibling]
  generalize (qa.turn (view (j / 2)) (view j)).1 = qb at *
  have c := b.setParentOf (by omega : 1 ≤ beside j) (view j)
  have c_rest := setParentOf_rest qb (spot q.count view (beside j)) (view j)
  generalize qb.setParentOf (spot q.count view (beside j)) (view j) = qc at *
  have left : (qc.nodes (view (j / 2))).left = spot q.count view (2 * j) := by
    rw [c.nodes (j / 2) (by omega) (by omega), update_of_ne half_ne]
    simp [linksAt]
  rw [left]
  have d := c.setParentOf (by omega : 1 ≤ 2 * j) (view (j / 2))
  have d_rest := setParentOf_rest qc (spot q.count view (2 * j)) (view (j / 2))
  generalize qc.setParentOf (spot q.count view (2 * j)) (view (j / 2)) = qd at *
  have right : (qd.nodes (view (j / 2))).right = spot q.count view (2 * j + 1) := by
    rw [d.nodes (j / 2) (by omega) (by omega), update_of_ne half_ne]
    simp [linksAt]
  rw [right]
  have e := d.setParentOf (by omega : 1 ≤ 2 * j + 1) (view (j / 2))
  have e_rest := setParentOf_rest qd (spot q.count view (2 * j + 1)) (view (j / 2))
  generalize qd.setParentOf (spot q.count view (2 * j + 1)) (view (j / 2)) = qe at *
  have above : (qe.nodes (view j)).parent = parentAt view (j / 2) := by
    rw [e.nodes j (by omega) last]
    simp [half_ne.symm, beside_ne.symm, show j ≠ 2 * j by omega, show j ≠ 2 * j + 1 by omega]
  rw [above]
  have relinked : qe.relink (parentAt view (j / 2)) (view (j / 2)) (view j) = _ :=
    relink_eq_write (by omega) (view (j / 2)) (view j) (by
      intro two'
      rw [e.nodes (j / 2 / 2) (by omega) (by omega), update_of_ne (by omega : j / 2 / 2 ≠ j), comp_apply,
        Equiv.swap_apply_of_ne_of_ne (by omega : j / 2 / 2 ≠ j / 2) (by omega)]
      rw [linksAt, shape.distinct.spot_eq (by omega) (by omega) (by omega)]
      omega)
  obtain ⟨f, f_count, f_min⟩ := e.write (by omega) (by omega : j / 2 / 2 ≤ q.count) (some (view j))
  rw [relinked]
  generalize qe.write (slotOf view (j / 2)) (some (view j)) = qf at *
  have count : qf.count = q.count := by omega
  refine ⟨⟨?_, ?_, ?_⟩, count⟩
  · rw [count]
    exact shape.distinct.swap (by omega) (by omega) (by omega) last
  · rw [count, f_min, spot_swap (by omega) last, if_neg (by omega : (1 : Nat) ≠ j)]
    by_cases top : j / 2 = 1
    · rw [if_pos top, if_pos top.symm]
    · rw [if_neg top, if_neg (Ne.symm top), e_rest.2, d_rest.2, c_rest.2, b_min, a_min, shape.root]
  · intro k first' last'
    rw [count] at last' ⊢
    have within : 1 ≤ Equiv.swap (j / 2) j k ∧ Equiv.swap (j / 2) j k ≤ q.count := by
      rw [Equiv.swap_apply_def]
      split_ifs <;> omega
    have links : swappedLinks q.count view j _ = _ := swappedLinks_eq two last first'
    have parents : swappedParents view j _ = _ := swappedParents_eq two first'
    rw [comp_apply, f.nodes _ within.1 within.2]
    change (⟨(swappedLinks q.count view j _).1, (swappedLinks q.count view j _).2, swappedParents view j _⟩ : Node α) = _
    rw [links, parents]
    rfl

end TimerQueue

end FiberGateway.Event
