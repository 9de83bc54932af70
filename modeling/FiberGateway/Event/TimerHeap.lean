import FiberGateway.Event.TimerShape

/-!
`insert` and `remove` keep a complete tree in heap order.
-/

namespace FiberGateway.Event

open Function Function

namespace TimerQueue

open BinaryHeap

variable {α : Type} [DecidableEq α] {T : Type} [LinearOrder T] {q q₁ q₂ q₃ q₄ : TimerQueue α} {view view' : Nat → α} {n i j k : Nat}
  {deadline deadline' : α → T}

omit [DecidableEq α] in
theorem Shape.read_slotOf (shape : Shape q view) (first : 1 ≤ i) (above : i / 2 ≤ q.count) :
    q.read (slotOf view i) = spot q.count view i := by
  unfold slotOf
  by_cases root : i ≤ 1
  · rw [if_pos root, show i = 1 by omega]
    exact shape.root
  · have node := shape.nodes (i / 2) (by omega) above
    rw [if_neg root]
    by_cases even : i % 2 = 0
    · rw [if_pos even, read, node, nodeAt, show 2 * (i / 2) = i by omega]
    · rw [if_neg even, read, node, nodeAt, show 2 * (i / 2) + 1 = i by omega]

theorem path_shift (path n : Nat) : ((path <<< 1) ||| (n &&& 1)) >>> 1 = path := by
  have low : (n &&& 1) >>> 1 = 0 := by
    rw [Nat.and_one_is_mod, Nat.shiftRight_one]
    omega
  rw [Nat.shiftRight_or_distrib, Nat.shiftLeft_shiftRight, low, Nat.or_zero]

theorem path_low (path n : Nat) : ((path <<< 1) ||| (n &&& 1)) &&& 1 = n % 2 := by
  have low : (path <<< 1) &&& 1 = 0 := by
    rw [Nat.and_one_is_mod, Nat.shiftLeft_eq]
    omega
  rw [Nat.and_or_distrib_right, low, Nat.zero_or, Nat.and_assoc, Nat.and_self, Nat.and_one_is_mod]

variable {fuel path : Nat} {node child b parent : α}

omit [DecidableEq α] in
/-- The path that the loop makes leads from the root to where the loop began. -/
theorem Shape.descend_pathLoop (shape : Shape q view) (first : 1 ≤ n) (above : n / 2 ≤ q.count)
    (enough : n ≤ fuel) :
    q.descend (pathLoop fuel path k n).2 (pathLoop fuel path k n).1 (.min, .min) =
      q.descend k path (slotOf view (n / 2), slotOf view n) := by
  induction fuel generalizing path k n with
  | zero => omega
  | succ fuel ih =>
    rw [pathLoop]
    by_cases two : 2 ≤ n
    · have room : n / 2 ≤ fuel := by omega
      rw [if_pos two, ih (by omega) (by omega) room, descend, shape.read_slotOf (by omega) (by omega), spot_of_le above]
      dsimp only
      rw [path_shift, path_low]
      rw [← slotOf_of_two two]
    · have root : n = 1 := by omega
      rw [if_neg two, root]
      rfl

omit [DecidableEq α] in
theorem Shape.descend_pathTo (shape : Shape q view) (first : 1 ≤ n) (above : n / 2 ≤ q.count) :
    q.descend (pathTo n).2 (pathTo n).1 (.min, .min) = some (slotOf view (n / 2), slotOf view n) := by
  rw [pathTo, shape.descend_pathLoop first above (Nat.le_refl n)]
  rfl

/-- The nodes of the tree. -/
def Member (n : Nat) (view : Nat → α) (a : α) : Prop := ∃ i, 1 ≤ i ∧ i ≤ n ∧ view i = a

omit [DecidableEq α] in
theorem member_swap (first : 1 ≤ i) (last : i ≤ n) (first' : 1 ≤ j) (last' : j ≤ n) (a : α) :
    Member n (view ∘ Equiv.swap i j) a ↔ Member n view a := by
  have within {k : Nat} (first'' : 1 ≤ k) (last'' : k ≤ n) : 1 ≤ Equiv.swap i j k ∧ Equiv.swap i j k ≤ n := by
    rw [Equiv.swap_apply_def]
    split_ifs <;> omega
  constructor
  · rintro ⟨k, first'', last'', rfl⟩
    exact ⟨Equiv.swap i j k, (within first'' last'').1, (within first'' last'').2, rfl⟩
  · rintro ⟨k, first'', last'', rfl⟩
    refine ⟨Equiv.swap i j k, (within first'' last'').1, (within first'' last'').2, ?_⟩
    rw [comp_apply, Equiv.swap_apply_self]

/-- A tree in heap order. -/
structure Heap (q : TimerQueue α) (deadline : α → T) (view : Nat → α) : Prop extends Shape q view where
  ordered : Ordered q.count (deadline ∘ view)

theorem Shape.siftUp (shape : Shape q view) (first : 1 ≤ j) (last : j ≤ q.count)
    (rising : Rising q.count (deadline ∘ view) j) (enough : j ≤ fuel) :
    ∃ q' view', siftUp deadline (view j) fuel q = some q' ∧ q'.Heap deadline view' ∧ q'.count = q.count ∧
      ∀ a, Member q.count view' a ↔ Member q.count view a := by
  induction fuel generalizing q view j with
  | zero => omega
  | succ fuel ih =>
    have above : (q.nodes (view j)).parent = parentAt view j := by
      rw [shape.nodes j first last]
      rfl
    rw [TimerQueue.siftUp, above, parentAt]
    by_cases root : j = 1
    · rw [if_pos root]
      exact ⟨q, view, rfl, ⟨shape, rising.ordered (by omega)⟩, rfl, fun a => Iff.rfl⟩
    rw [if_neg root]
    dsimp only
    by_cases less : deadline (view j) < deadline (view (j / 2))
    · rw [if_pos less]
      obtain ⟨swapped, count⟩ := shape.swap (by omega : 2 ≤ j) last
      have up := rising.up (by omega) last less
      rw [← count] at up
      have step := ih swapped (by omega) (by omega) up (by omega)
      rw [comp_apply, Equiv.swap_apply_left, count] at step
      obtain ⟨q', view', run, heap, count', members⟩ := step
      refine ⟨q', view', run, heap, count', fun a => (members a).trans ?_⟩
      exact member_swap (by omega) (by omega) first last a
    · rw [if_neg less]
      exact ⟨q, view, rfl, ⟨shape, rising.ordered fun _ _ => not_lt.mp less⟩, rfl, fun a => Iff.rfl⟩

omit [DecidableEq α] in
theorem lesser_spot (deadline : α → T) (view : Nat → α) (n i : Nat) (a : α) :
    (lesser deadline a (spot n view i) = a ∧ (i ≤ n → deadline a ≤ deadline (view i))) ∨
      (lesser deadline a (spot n view i) = view i ∧ i ≤ n ∧ deadline (view i) < deadline a) := by
  by_cases within : i ≤ n
  · rw [spot_of_le within, lesser]
    by_cases less : deadline (view i) < deadline a
    · rw [if_pos less]
      exact .inr ⟨rfl, within, less⟩
    · rw [if_neg less]
      exact .inl ⟨rfl, fun _ => not_lt.mp less⟩
  · rw [spot_of_gt (by omega)]
    exact .inl ⟨rfl, fun inside => absurd inside within⟩

omit [DecidableEq α] in
/-- The node itself is chosen if it is in order with those below, and else the least of those. -/
theorem Shape.smallestOf (shape : Shape q view) (deadline : α → T) (first : 1 ≤ j) (last : j ≤ q.count) :
    (smallestOf deadline q (view j) = view j ∧
        ∀ i, i ≤ q.count → i / 2 = j → deadline (view j) ≤ deadline (view i)) ∨
      ∃ i, i ≤ q.count ∧ i / 2 = j ∧ smallestOf deadline q (view j) = view i ∧
        ∀ k, k ≤ q.count → k / 2 = j → deadline (view i) ≤ deadline (view k) := by
  have below {k : Nat} (under : k / 2 = j) : k = 2 * j ∨ k = 2 * j + 1 := by omega
  unfold TimerQueue.smallestOf
  rw [shape.nodes j first last]
  unfold nodeAt
  dsimp only
  rcases lesser_spot deadline view q.count (2 * j) (view j) with ⟨same, left⟩ | ⟨same, within, left⟩
  · rw [same]
    rcases lesser_spot deadline view q.count (2 * j + 1) (view j) with ⟨same, right⟩ | ⟨same, within, right⟩
    · refine .inl ⟨same, fun i inside under => ?_⟩
      rcases below under with rfl | rfl
      · exact left inside
      · exact right inside
    · refine .inr ⟨2 * j + 1, within, by omega, same, fun k inside under => ?_⟩
      rcases below under with rfl | rfl
      · exact right.le.trans (left inside)
      · exact le_refl _
  · rw [same]
    rcases lesser_spot deadline view q.count (2 * j + 1) (view (2 * j)) with ⟨same, right⟩ | ⟨same, within', right⟩
    · refine .inr ⟨2 * j, within, by omega, same, fun k inside under => ?_⟩
      rcases below under with rfl | rfl
      · exact le_refl _
      · exact right inside
    · refine .inr ⟨2 * j + 1, within', by omega, same, fun k inside under => ?_⟩
      rcases below under with rfl | rfl
      · exact right.le
      · exact le_refl _

/-- The loop that sifts down ends at a position from where the node can only rise. -/
theorem Shape.siftDown (shape : Shape q view) (first : 1 ≤ j) (last : j ≤ q.count)
    (loose : Loose q.count (deadline ∘ view) j) (enough : q.count < fuel + j) :
    ∃ q' view' j', siftDown deadline (view j) fuel q = some q' ∧ Shape q' view' ∧ q'.count = q.count ∧ 1 ≤ j' ∧
      j' ≤ q.count ∧ view' j' = view j ∧ Rising q.count (deadline ∘ view') j' ∧
      ∀ a, Member q.count view' a ↔ Member q.count view a := by
  induction fuel generalizing q view j with
  | zero => omega
  | succ fuel ih =>
    rw [TimerQueue.siftDown]
    rcases shape.smallestOf deadline first last with ⟨same, least⟩ | ⟨i, within, under, same, least⟩
    · rw [if_pos same]
      have rising := loose.rising fun i _ inside under => least i inside under
      exact ⟨q, view, j, rfl, shape, rfl, first, last, rfl, rising, fun a => Iff.rfl⟩
    have apart : view i ≠ view j := by
      intro equal
      have := shape.distinct i j (by omega) within first last equal
      omega
    rw [same, if_neg apart]
    subst under
    obtain ⟨swapped, count⟩ := shape.swap (by omega : 2 ≤ i) within
    have down := loose.down first within rfl least
    rw [← count] at down
    have step := ih swapped (by omega) (by omega) down (by omega)
    rw [comp_apply, Equiv.swap_apply_right, count] at step
    obtain ⟨q', view', j', run, shape', count', first', last', here, rising, members⟩ := step
    refine ⟨q', view', j', run, shape', count', first', last', here, rising, fun a => (members a).trans ?_⟩
    exact member_swap first last (by omega) within a

/-- The pointers downwards, from the pointer to each position. -/
def linksOf (pointers : Nat → Option α) (i : Nat) : Option α × Option α := (pointers (2 * i), pointers (2 * i + 1))

variable {pointers : Nat → Option α} {parents : Nat → Option α}

theorem Holds.point (holds : q.Holds n view (linksOf pointers) parents) (first : 1 ≤ i) (above : i / 2 ≤ n)
    (value : Option α) :
    (q.write (slotOf view i) value).Holds n view (linksOf (update pointers i value)) parents := by
  refine (holds.write first above value).1.congr fun k first' last => ⟨?_, rfl⟩
  unfold linksOf
  by_cases root : i = 1
  · rw [if_pos root, update_of_ne (by omega), update_of_ne (by omega)]
  rw [if_neg root]
  by_cases here : k = i / 2
  · rw [here, update_self]
    by_cases even : i % 2 = 0
    · rw [if_pos even, show 2 * (i / 2) = i by omega, update_self, update_of_ne (by omega)]
    · rw [if_neg even, show 2 * (i / 2) + 1 = i by omega, update_self, update_of_ne (by omega)]
  · rw [update_of_ne here, update_of_ne (by omega), update_of_ne (by omega)]

omit [DecidableEq α] in
theorem Holds.shape (holds : q.Holds n view (linksOf (spot n view)) parents) (count : q.count = n)
    (root : q.min = spot n view 1) (above : ∀ k, 1 ≤ k → k ≤ n → parents k = parentAt view k) : Shape q view := by
  subst count
  refine ⟨holds.distinct, root, fun k first last => ?_⟩
  rw [holds.nodes k first last, above k first last]
  rfl

omit [DecidableEq α] in
theorem Distinct.put (distinct : ∀ k m, 1 ≤ k → k ≤ n → k ≠ i → 1 ≤ m → m ≤ n → m ≠ i → view k = view m → k = m)
    (fresh : ∀ k, 1 ≤ k → k ≤ n → k ≠ i → view k ≠ node) : Distinct n (update view i node) := by
  intro k m first last first' last' same
  by_cases here : k = i <;> by_cases there : m = i
  · omega
  · rw [here, update_self, update_of_ne there] at same
    exact absurd same.symm (fresh m first' last' there)
  · rw [there, update_self, update_of_ne here] at same
    exact absurd same (fresh k first last here)
  · rw [update_of_ne here, update_of_ne there] at same
    exact distinct k m first last here first' last' there same

omit [DecidableEq α] in
theorem spot_append (n : Nat) (view : Nat → α) (node : α) :
    update (spot n view) (n + 1) (some node) = spot (n + 1) (update view (n + 1) node) := by
  funext k
  by_cases here : k = n + 1
  · rw [here, update_self, spot_of_le (le_refl _), update_self]
  rw [update_of_ne here]
  unfold spot
  rw [update_of_ne here]
  by_cases within : k ≤ n
  · rw [if_pos within, if_pos (by omega)]
  · rw [if_neg within, if_neg (by omega)]

omit [DecidableEq α] in
theorem spot_pop (first : 1 ≤ n) : update (spot n view) n none = spot (n - 1) view := by
  funext k
  by_cases here : k = n
  · rw [here, update_self, spot_of_gt (by omega)]
  rw [update_of_ne here]
  unfold spot
  by_cases within : k ≤ n
  · rw [if_pos within, if_pos (by omega)]
  · rw [if_neg within, if_neg (by omega)]

omit [DecidableEq α] in
theorem spot_replace (last : i ≤ n) (node : α) :
    update (spot n view) i (some node) = spot n (update view i node) := by
  funext k
  by_cases here : k = i
  · rw [here, update_self, spot_of_le last, update_self]
  · unfold spot
    rw [update_of_ne here, update_of_ne here]

omit [DecidableEq α] in
theorem slotOf_congr (same : view' (i / 2) = view (i / 2)) : slotOf view' i = slotOf view i := by
  unfold slotOf
  rw [same]

theorem Shape.append (shape : Shape q view) (fresh : ¬ Member q.count view node) {parent : Option α}
    (above : parent = parentAt view (q.count + 1)) :
    Shape { ((q.setNode node ⟨none, none, parent⟩).write (slotOf view (q.count + 1)) (some node)) with
        count := q.count + 1 } (update view (q.count + 1) node) := by
  have fresh' : ∀ k, 1 ≤ k → k ≤ q.count → view k ≠ node := fun k first last same => fresh ⟨k, first, last, same⟩
  have apart : update view (q.count + 1) node ((q.count + 1) / 2) = view ((q.count + 1) / 2) :=
    update_of_ne (by omega) _ _
  have placed : (q.setNode node ⟨none, none, parent⟩).Holds (q.count + 1) (update view (q.count + 1) node)
      (linksOf (spot q.count view)) (parentAt view) := by
    constructor
    · refine Distinct.put (fun k m first last here first' last' there same => ?_) fun k first last here => ?_
      · exact shape.distinct k m first (by omega) first' (by omega) same
      · exact fresh' k first (by omega)
    · intro k first last
      by_cases here : k = q.count + 1
      · rw [here, update_self, setNode, above, linksOf, spot_of_gt (by omega), spot_of_gt (by omega)]
        exact update_self ..
      · rw [update_of_ne here, setNode]
        dsimp only
        rw [update_of_ne (fresh' k first (by omega)), shape.nodes k first (by omega)]
        rfl
  have written := placed.point (by omega) (by omega : (q.count + 1) / 2 ≤ q.count + 1) (some node)
  have root := (placed.write (by omega) (by omega : (q.count + 1) / 2 ≤ q.count + 1) (some node)).2.2
  rw [spot_append] at written
  rw [slotOf_congr apart] at written root
  refine (Holds.shape ⟨written.distinct, written.nodes⟩ rfl ?_ fun k first last => ?_)
  · dsimp only
    rw [root, ← spot_append]
    by_cases empty : q.count + 1 = 1
    · rw [if_pos empty, empty, update_self]
    · rw [if_neg empty, update_of_ne (by omega)]
      exact shape.root
  · unfold parentAt
    rw [update_of_ne (by omega)]

theorem Shape.pop (shape : Shape q view) (first : 1 ≤ q.count) :
    Shape ({ q with count := q.count - 1 }.write (slotOf view q.count) none) view := by
  have less : ({ q with count := q.count - 1 } : TimerQueue α).Holds q.count view (linksOf (spot q.count view))
      (parentAt view) := ⟨shape.holds.distinct, shape.holds.nodes⟩
  have written := less.point first (by omega : q.count / 2 ≤ q.count) none
  obtain ⟨-, count, root⟩ := less.write first (by omega : q.count / 2 ≤ q.count) none
  rw [spot_pop first] at written
  change _ = q.count - 1 at count
  refine Holds.shape ⟨?_, ?_⟩ count ?_ fun k _ _ => rfl
  · intro k m first last first' last' same
    exact shape.distinct k m first (by omega) first' (by omega) same
  · intro k first last
    exact written.nodes k first (by omega)
  · rw [root, ← spot_pop first]
    by_cases single : q.count = 1
    · rw [if_pos single, single, update_self]
    · rw [if_neg single, update_of_ne (by omega)]
      exact shape.root

theorem setParentOf_other {a : Option α} (apart : a ≠ some b) :
    (q.setParentOf a parent).nodes b = q.nodes b := by
  cases a with
  | none => rfl
  | some a => exact update_of_ne (fun same => apart (congrArg some same.symm)) _ _

/-- A node that is not in the tree takes the place of one that is. -/
theorem Shape.replace (shape : Shape q view) (first : 1 ≤ i) (last : i ≤ q.count)
    (fresh : ¬ Member q.count view child)
    (copied : q₁ = q.setNode child (q.nodes (view i))) (left : q₂ = q₁.setParentOf (q₁.nodes child).left child)
    (right : q₃ = q₂.setParentOf (q₂.nodes child).right child)
    (linked : q₄ = q₃.relink (q₃.nodes (view i)).parent (view i) child) :
    Shape q₄ (update view i child) ∧ q₄.count = q.count := by
  have fresh' : ∀ k, 1 ≤ k → k ≤ q.count → view k ≠ child := fun k first last same => fresh ⟨k, first, last, same⟩
  have kept {k : Nat} (apart : k ≠ i) : spot q.count (update view i child) k = spot q.count view k := by
    rw [← spot_replace last, update_of_ne apart]
  have self : update view i child i = child := update_self ..
  have a : q₁.Holds q.count (update view i child) (linksOf (spot q.count view)) (parentAt view) := by
    constructor
    · refine Distinct.put (fun k m first last here first' last' there same => ?_) fun k first last here => ?_
      · exact shape.distinct k m first last first' last' same
      · exact fresh' k first last
    · intro k first' last'
      rw [copied, setNode]
      dsimp only
      by_cases here : k = i
      · rw [here, self, update_self, shape.nodes i first last]
        rfl
      · rw [update_of_ne here, update_of_ne (fresh' k first' last'), shape.nodes k first' last']
        rfl
  have a_left := a.nodes i first last
  rw [self] at a_left
  have b := a.setParentOf (by omega : 1 ≤ 2 * i) child
  rw [kept (by omega)] at b
  rw [a_left] at left
  change q₂ = q₁.setParentOf (spot q.count view (2 * i)) child at left
  rw [← left] at b
  have b_right := b.nodes i first last
  rw [self] at b_right
  have c := b.setParentOf (by omega : 1 ≤ 2 * i + 1) child
  rw [kept (by omega)] at c
  rw [b_right] at right
  change q₃ = q₂.setParentOf (spot q.count view (2 * i + 1)) child at right
  rw [← right] at c
  have parent : (q₃.nodes (view i)).parent = parentAt (update view i child) i := by
    have below {k : Nat} (apart : k ≠ i) (first' : 1 ≤ k) : spot q.count view k ≠ some (view i) := by
      rw [ne_eq, shape.distinct.spot_eq first' first last]
      exact apart
    rw [right, setParentOf_other (below (by omega) (by omega)), left,
      setParentOf_other (below (by omega) (by omega)), copied, setNode]
    dsimp only
    rw [update_of_ne (fresh' i first last), shape.nodes i first last, parentAt,
      update_of_ne (by omega)]
    rfl
  have linked' : q₄ = q₃.write (slotOf (update view i child) i) (some child) := by
    rw [linked, parent]
    refine relink_eq_write first (view i) child fun two => ?_
    rw [c.nodes (i / 2) (by omega) (by omega), linksOf, shape.distinct.spot_eq (by omega) first last]
    omega
  have d := c.point first (by omega : i / 2 ≤ q.count) (some child)
  obtain ⟨-, count, root⟩ := c.write first (by omega : i / 2 ≤ q.count) (some child)
  rw [← linked'] at d count root
  rw [spot_replace last] at d
  have count_b := setParentOf_rest q₁ (spot q.count view (2 * i)) child
  have count_c := setParentOf_rest q₂ (spot q.count view (2 * i + 1)) child
  rw [← left] at count_b
  rw [← right] at count_c
  have count_a : q₁.count = q.count ∧ q₁.min = q.min := by
    rw [copied]
    exact ⟨rfl, rfl⟩
  have total : q₄.count = q.count := by omega
  refine ⟨d.shape total ?_ ?_, total⟩
  · rw [root, count_c.2, count_b.2, count_a.2, ← spot_replace last]
    by_cases top : i = 1
    · rw [if_pos top, top, update_self]
    · rw [if_neg top, update_of_ne (Ne.symm top)]
      exact shape.root
  · intro k first' last'
    by_cases under : k / 2 = i
    · have here : parentAt (update view i child) k = some child := by
        rw [parentAt, if_neg (by omega), under, self]
      rw [here]
      by_cases odd : k = 2 * i + 1
      · rw [odd, update_self]
      · rw [update_of_ne odd, show k = 2 * i by omega, update_self]
    · rw [update_of_ne (by omega), update_of_ne (by omega)]
      unfold parentAt
      rw [update_of_ne under]

theorem write_count (q : TimerQueue α) (slot : Slot α) (value : Option α) : (q.write slot value).count = q.count := by
  cases slot <;> rfl

theorem Shape.setNode (shape : Shape q view) (fresh : ¬ Member q.count view node) (value : Node α) :
    Shape (q.setNode node value) view := by
  refine ⟨shape.distinct, shape.root, fun k first last => ?_⟩
  have apart : view k ≠ node := fun same => fresh ⟨k, first, last, same⟩
  exact (update_of_ne apart _ _).trans (shape.nodes k first last)

omit [DecidableEq α] in
theorem Shape.read_parent (shape : Shape q view) :
    q.read (slotOf view ((q.count + 1) / 2)) = parentAt view (q.count + 1) := by
  by_cases empty : q.count = 0
  · have root := shape.root
    rw [empty, spot_of_gt (by omega)] at root
    rw [empty]
    exact root
  · rw [shape.read_slotOf (by omega) (by omega), spot_of_le (by omega), parentAt, if_neg (by omega)]

omit [DecidableEq α] in
theorem member_append (n : Nat) (view : Nat → α) (node a : α) :
    Member (n + 1) (update view (n + 1) node) a ↔ a = node ∨ Member n view a := by
  constructor
  · rintro ⟨k, first, last, rfl⟩
    by_cases here : k = n + 1
    · rw [here, update_self]
      exact .inl rfl
    · rw [update_of_ne here]
      exact .inr ⟨k, first, by omega, rfl⟩
  · rintro (rfl | ⟨k, first, last, rfl⟩)
    · exact ⟨n + 1, by omega, le_refl _, update_self ..⟩
    · exact ⟨k, first, by omega, update_of_ne (by omega) _ _⟩

omit [DecidableEq α] in
theorem Distinct.member_pop (distinct : Distinct n view) (a : α) :
    Member (n - 1) view a ↔ Member n view a ∧ a ≠ view n := by
  constructor
  · rintro ⟨k, first, last, rfl⟩
    refine ⟨⟨k, first, by omega, rfl⟩, fun same => ?_⟩
    have := distinct k n first (by omega) (by omega) (le_refl _) same
    omega
  · rintro ⟨⟨k, first, last, rfl⟩, apart⟩
    have : k ≠ n := fun same => apart (congrArg view same)
    exact ⟨k, first, by omega, rfl⟩

omit [DecidableEq α] in
theorem Distinct.member_replace (distinct : Distinct n view) (first : 1 ≤ i) (last : i < n) (a : α) :
    Member (n - 1) (update view i (view n)) a ↔ Member n view a ∧ a ≠ view i := by
  constructor
  · rintro ⟨k, first', last', rfl⟩
    by_cases here : k = i
    · rw [here, update_self]
      refine ⟨⟨n, by omega, le_refl _, rfl⟩, fun same => ?_⟩
      have := distinct n i (by omega) (le_refl _) first (by omega) same
      omega
    · rw [update_of_ne here]
      exact ⟨⟨k, first', by omega, rfl⟩, fun same => here (distinct k i first' (by omega) first (by omega) same)⟩
  · rintro ⟨⟨k, first', last', rfl⟩, apart⟩
    have here : k ≠ i := fun same => apart (congrArg view same)
    by_cases ending : k = n
    · rw [ending]
      exact ⟨i, first, by omega, update_self ..⟩
    · exact ⟨k, first', by omega, update_of_ne here _ _⟩

/-- The node taken off the end finds its position from where another one was. -/
theorem Shape.replace_heap (shape : Shape q view) (first : 1 ≤ i) (last : i ≤ q.count)
    (fresh : ¬ Member q.count view child) (loose : Loose q.count (deadline ∘ update view i child) i) :
    ∃ q' view', q.replace deadline (view i) child = some q' ∧ q'.Heap deadline view' ∧ q'.count = q.count ∧
      ∀ a, Member q.count view' a ↔ Member q.count (update view i child) a := by
  unfold TimerQueue.replace
  dsimp only
  generalize copied : q.setNode child (q.nodes (view i)) = q₁
  generalize left : q₁.setParentOf (q₁.nodes child).left child = q₂
  generalize right : q₂.setParentOf (q₂.nodes child).right child = q₃
  generalize linked : q₃.relink (q₃.nodes (view i)).parent (view i) child = q₄
  obtain ⟨placed, count⟩ := shape.replace first last fresh copied.symm left.symm right.symm linked.symm
  rw [← count] at last loose
  have down := placed.siftDown first last loose (by omega : q₄.count < q₄.count + 1 + i)
  rw [update_self] at down
  obtain ⟨q₅, view₅, j, run, sifted, count₅, first₅, last₅, here, rising, members₅⟩ := down
  rw [← count₅] at last₅ rising
  have up := sifted.siftUp first₅ last₅ rising (by omega : j ≤ q₅.count + 1)
  rw [here] at up
  obtain ⟨q₆, view₆, run₆, heap, count₆, members₆⟩ := up
  rw [run]
  refine ⟨q₆, view₆, run₆, heap, by omega, fun a => ?_⟩
  rw [count₅, count] at members₆
  rw [count] at members₅
  exact (members₆ a).trans (members₅ a)

namespace Heap

omit [DecidableEq α] in
/-- The deadlines of nodes that are not in the heap do not matter. -/
theorem congr (heap : q.Heap deadline view)
    (same : ∀ a, Member q.count view a → deadline' a = deadline a) : q.Heap deadline' view := by
  refine ⟨heap.toShape, fun k two last => ?_⟩
  rw [comp_apply, comp_apply, same _ ⟨k / 2, by omega, by omega, rfl⟩,
    same _ ⟨k, by omega, last, rfl⟩]
  exact heap.ordered k two last

variable {node : α}

theorem insert (heap : q.Heap deadline view) (fresh : ¬ Member q.count view node) :
    ∃ q' view', q.insert deadline node = some q' ∧ q'.Heap deadline view' ∧
      ∀ a, Member q'.count view' a ↔ a = node ∨ Member q.count view a := by
  have cleared := heap.toShape.setNode fresh {}
  have self : (q.setNode node {}).nodes node = {} := update_self ..
  have parent (value : Option α) :
      (q.setNode node {}).setParent node value = (q.setNode node {}).setNode node ⟨none, none, value⟩ := by
    rw [setParent, self]
  have way := cleared.descend_pathTo (by omega : 1 ≤ q.count + 1) (by
    change _ ≤ q.count
    omega)
  have appended := cleared.append fresh cleared.read_parent
  have rising := heap.ordered.grow (deadline node)
  rw [← comp_update] at rising
  have up := appended.siftUp (Nat.le_add_left 1 _) (le_refl _) rising (le_refl _)
  rw [update_self] at up
  obtain ⟨q', view', run, heap', count, members⟩ := up
  refine ⟨q', view', ?_, heap', fun a => ?_⟩
  · unfold TimerQueue.insert
    dsimp only
    rw [show 1 + (q.setNode node {}).count = q.count + 1 from Nat.add_comm _ _, way]
    dsimp only
    rw [parent, write_count]
    exact run
  · rw [count, members a]
    exact member_append q.count view node a

theorem remove (heap : q.Heap deadline view) (member : Member q.count view node) :
    ∃ q' view', q.remove deadline node = some q' ∧ q'.Heap deadline view' ∧
      ∀ a, Member q'.count view' a ↔ Member q.count view a ∧ a ≠ node := by
  obtain ⟨i, first, last, rfl⟩ := member
  have shape := heap.toShape
  have way := shape.descend_pathTo (by omega : 1 ≤ q.count) (by omega)
  have there : ({ q with count := q.count - 1 } : TimerQueue α).read (slotOf view q.count) = some (view q.count) := by
    rw [show ({ q with count := q.count - 1 } : TimerQueue α).read (slotOf view q.count) = q.read (slotOf view q.count) by
      cases slotOf view q.count <;> rfl, shape.read_slotOf (by omega) (by omega), spot_of_le (le_refl _)]
  have popped := shape.pop (by omega)
  have count : ({ q with count := q.count - 1 }.write (slotOf view q.count) none).count = q.count - 1 := write_count ..
  unfold TimerQueue.remove
  dsimp only
  rw [if_neg (by omega), way]
  dsimp only
  rw [there]
  dsimp only
  generalize ({ q with count := q.count - 1 }.write (slotOf view q.count) none) = r at *
  by_cases same : view q.count = view i
  · have ending := shape.distinct q.count i (by omega) (le_refl _) first last same
    have other : some (view q.count) ≠ r.min := by
      rw [popped.root, count]
      intro equal
      by_cases single : 1 ≤ q.count - 1
      · rw [spot_of_le single] at equal
        have := shape.distinct q.count 1 (by omega) (le_refl _) (le_refl _) (by omega) (Option.some.inj equal)
        omega
      · rw [spot_of_gt (by omega)] at equal
        cases equal
    rw [if_pos same, if_neg other]
    have ordered := heap.ordered.shrink
    rw [← count] at ordered
    refine ⟨r, view, rfl, ⟨popped, ordered⟩, fun a => ?_⟩
    rw [count, ← ending]
    exact shape.distinct.member_pop a
  · have fresh : ¬ Member r.count view (view q.count) := by
      rw [count]
      rintro ⟨k, first', last', equal⟩
      have := shape.distinct k q.count first' (by omega) (by omega) (le_refl _) equal
      omega
    have inside : i ≤ r.count := by
      have : i ≠ q.count := fun equal => same (congrArg view equal.symm)
      omega
    have loose : Loose (q.count - 1) (update (deadline ∘ view) i (deadline (view q.count))) i :=
      heap.ordered.replace _
    rw [← comp_update, ← count] at loose
    obtain ⟨q', view', run, heap', count', members⟩ := popped.replace_heap first inside fresh loose
    rw [if_neg same]
    refine ⟨q', view', run, heap', fun a => ?_⟩
    rw [count', members a, count]
    exact shape.distinct.member_replace first (by omega) a

end Heap

end TimerQueue

end FiberGateway.Event
