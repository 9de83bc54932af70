import Mathlib

/-!
Heap order on the positions 1 to `n` of a complete binary tree, where `i / 2` is the position over `i`, and what the
exchanges of a sift do to it.
-/

namespace BinaryHeap

open Function

section Exchange

variable {T : Type} {i j k : Nat} {key : Nat → T}

theorem swap_other (apart : k ≠ i) (apart' : k ≠ j) : (key ∘ Equiv.swap i j) k = key k := by
  simp [Equiv.swap_apply_of_ne_of_ne apart apart']

theorem swap_left (key : Nat → T) (i j : Nat) : (key ∘ Equiv.swap i j) i = key j := by
  simp

theorem swap_right (key : Nat → T) (i j : Nat) : (key ∘ Equiv.swap i j) j = key i := by
  simp

end Exchange

variable {T : Type} [LinearOrder T] {n i j : Nat} {key : Nat → T}

def Ordered (n : Nat) (key : Nat → T) : Prop := ∀ i, 2 ≤ i → i ≤ n → key (i / 2) ≤ key i

/-- The order but for the pairs that the hole is one of; those below the hole are in order with the one over it. -/
structure Loose (n : Nat) (key : Nat → T) (hole : Nat) : Prop where
  apart : ∀ i, 2 ≤ i → i ≤ n → i ≠ hole → i / 2 ≠ hole → key (i / 2) ≤ key i
  around : ∀ i, i ≤ n → i / 2 = hole → 2 ≤ hole → key (hole / 2) ≤ key i

/-- The hole is in order with those below it. -/
structure Rising (n : Nat) (key : Nat → T) (hole : Nat) : Prop extends Loose n key hole where
  below : ∀ i, 2 ≤ i → i ≤ n → i / 2 = hole → key hole ≤ key i

theorem Ordered.least (ordered : Ordered n key) (first : 1 ≤ i) (last : i ≤ n) : key 1 ≤ key i := by
  induction i using Nat.strong_induction_on with
  | _ i ih =>
    by_cases root : i = 1
    · rw [root]
    · have above := ordered i (by omega) last
      exact (ih (i / 2) (by omega) (by omega) (by omega)).trans above

theorem Loose.rising (loose : Loose n key j) (below : ∀ i, 2 ≤ i → i ≤ n → i / 2 = j → key j ≤ key i) :
    Rising n key j :=
  ⟨loose, below⟩

theorem Rising.ordered (rising : Rising n key j) (above : 2 ≤ j → j ≤ n → key (j / 2) ≤ key j) : Ordered n key := by
  intro i two last
  by_cases here : i = j
  · subst here
    exact above two last
  · by_cases under : i / 2 = j
    · rw [under]
      exact rising.below i two last under
    · exact rising.apart i two last here under

theorem Rising.up (rising : Rising n key j) (two : 2 ≤ j) (last : j ≤ n) (less : key j < key (j / 2)) :
    Rising n (key ∘ Equiv.swap (j / 2) j) (j / 2) := by
  refine ⟨⟨?_, ?_⟩, ?_⟩
  · intro i two' last' apart apart'
    by_cases here : i = j
    · exact absurd (congrArg (· / 2) here) apart'
    by_cases under : i / 2 = j
    · rw [under, swap_right, swap_other apart here]
      exact rising.around i last' under two
    · rw [swap_other apart' under, swap_other apart here]
      exact rising.apart i two' last' here under
  · intro i last' under two'
    have above := rising.apart (j / 2) two' (by omega) (by omega) (by omega)
    rw [swap_other (by omega : j / 2 / 2 ≠ j / 2) (by omega)]
    by_cases here : i = j
    · rw [here, swap_right]
      exact above
    · have sibling := rising.apart i (by omega) last' here (by omega)
      rw [swap_other (by omega) here]
      rw [under] at sibling
      exact above.trans sibling
  · intro i two' last' under
    rw [swap_left]
    by_cases here : i = j
    · rw [here, swap_right]
      exact less.le
    · have sibling := rising.apart i two' last' here (by omega)
      rw [swap_other (by omega) here]
      rw [under] at sibling
      exact less.le.trans sibling

/-- A step down: the least of those below the hole comes up. -/
theorem Loose.down (loose : Loose n key j) (first : 1 ≤ j) (last : i ≤ n) (under : i / 2 = j)
    (least : ∀ k, k ≤ n → k / 2 = j → key i ≤ key k) : Loose n (key ∘ Equiv.swap j i) i := by
  constructor
  · intro k two last' apart apart'
    by_cases here : k = j
    · rw [here, swap_left, swap_other (by omega) (by omega)]
      exact loose.around i last under (by omega)
    · by_cases sibling : k / 2 = j
      · rw [sibling, swap_left, swap_other here apart]
        exact least k last' sibling
      · rw [swap_other sibling apart', swap_other here apart]
        exact loose.apart k two last' here sibling
  · intro k last' under' two
    rw [under, swap_left, swap_other (by omega) (by omega)]
    have grandchild := loose.apart k (by omega) last' (by omega) (by omega)
    rw [under'] at grandchild
    exact grandchild

theorem Ordered.grow (ordered : Ordered n key) (x : T) :
    Rising (n + 1) (update key (n + 1) x) (n + 1) := by
  refine ⟨⟨?_, ?_⟩, ?_⟩
  · intro i two last apart apart'
    rw [update_of_ne apart, update_of_ne apart']
    exact ordered i two (by omega)
  · intro i last under two
    omega
  · intro i two last under
    omega

theorem Ordered.replace (ordered : Ordered n key) (x : T) : Loose (n - 1) (update key j x) j := by
  constructor
  · intro i two last apart apart'
    rw [update_of_ne apart, update_of_ne apart']
    exact ordered i two (by omega)
  · intro i last under two
    have above := ordered j (by omega) (by omega)
    have below := ordered i (by omega) (by omega)
    rw [under] at below
    rw [update_of_ne (by omega : i ≠ j), update_of_ne (by omega : j / 2 ≠ j)]
    exact above.trans below

theorem Ordered.shrink (ordered : Ordered n key) : Ordered (n - 1) key := by
  intro i two last
  exact ordered i two (by omega)

end BinaryHeap
