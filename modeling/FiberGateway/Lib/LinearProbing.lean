import Mathlib

/-!
Open addressing with linear probing and deletion by back-shifting, over natural keys and an arbitrary hash. The
table carries its well-formedness, and its operations are those of a finite map of bounded size.
-/

namespace LinearProbing

open List

variable {α : Type}

abbrev Slots (α : Type) := List (Option (Nat × α))

def slot (slots : Slots α) (i : Nat) : Option (Nat × α) := (slots[i]?).join

/-- The way from one slot to another, going forward around a ring of `n` slots. -/
def probeDistance (n start stop : Nat) : Nat := if start ≤ stop then stop - start else n - start + stop

def next (n i : Nat) : Nat := if i + 1 < n then i + 1 else 0

/-- Probing for a key ends at the key, at an empty slot, or after `fuel` slots. -/
def findSlot (slots : Slots α) (key : Nat) : Nat → Nat → Option Nat
  | 0, _ => none
  | fuel + 1, i =>
    match slot slots i with
    | none => none
    | some (k, _) => if k = key then some i else findSlot slots key fuel (next slots.length i)

/-- The first empty slot for a new key; none when the key is met before. -/
def freeSlot (slots : Slots α) (key : Nat) : Nat → Nat → Option Nat
  | 0, _ => none
  | fuel + 1, i =>
    match slot slots i with
    | none => some i
    | some (k, _) => if k = key then none else freeSlot slots key fuel (next slots.length i)

/-- Fills the hole with the entries behind it whose probe path runs over it, and clears the last hole. -/
def backShift (home : Nat → Nat) : Nat → Slots α → Nat → Nat → Slots α
  | 0, slots, hole, _ => slots.set hole none
  | fuel + 1, slots, hole, current =>
    match slot slots current with
    | none => slots.set hole none
    | some (k, v) =>
      if probeDistance slots.length (home k) hole < probeDistance slots.length (home k) current then
        backShift home fuel (slots.set hole (some (k, v))) current (next slots.length current)
      else backShift home fuel slots hole (next slots.length current)

def occupied (slots : Slots α) : Nat := slots.countP Option.isSome

/-- Every entry sits behind a run of occupied slots that starts at its home. -/
structure WellFormed (home : Nat → Nat) (slots : Slots α) : Prop where
  home_lt : slots ≠ [] → ∀ k, home k < slots.length
  unique : ∀ {i j k : Nat} {v w : α}, slot slots i = some (k, v) → slot slots j = some (k, w) → i = j
  path : ∀ {i j k : Nat} {v : α}, slot slots i = some (k, v) → j < slots.length →
    probeDistance slots.length (home k) j < probeDistance slots.length (home k) i → slot slots j ≠ none

variable {slots shifted : Slots α} {a b i k n key fuel hole stop current : Nat} {v : α}

variable {entry held : Nat × α} {c j found free : Nat}

theorem slot_lt (held : slot slots i = some entry) : i < slots.length := by
  by_contra outside
  simp [slot, List.getElem?_eq_none (Nat.le_of_not_lt outside)] at held

theorem slot_eq (inside : i < slots.length) : slot slots i = slots[i] := by
  rw [slot, List.getElem?_eq_getElem inside]
  rfl

theorem slot_set (slots : Slots α) (i j : Nat) (entry : Option (Nat × α)) :
    slot (slots.set i entry) j = if i = j ∧ j < slots.length then entry else slot slots j := by
  unfold slot
  rw [List.getElem?_set]
  by_cases same : i = j
  · subst same
    by_cases inside : i < slots.length
    · simp [inside]
    · simp [inside]
  · simp [same]

theorem slot_set_eq_some {entry : Option (Nat × α)} (inside : i < slots.length) :
    slot (slots.set i entry) j = some held ↔ j = i ∧ entry = some held ∨ j ≠ i ∧ slot slots j = some held := by
  rw [slot_set]
  grind

theorem slot_set_ne_none (filled : slot slots j ≠ none) : slot (slots.set i (some entry)) j ≠ none := by
  rw [slot_set]
  split
  · simp
  · exact filled

theorem next_lt (positive : 0 < n) : next n i < n := by
  unfold next; split <;> omega

theorem probeDistance_lt (left : a < n) (right : b < n) : probeDistance n a b < n := by
  unfold probeDistance; split <;> omega

theorem probeDistance_self (n a : Nat) : probeDistance n a a = 0 := by simp [probeDistance]

theorem probeDistance_eq (left : a < n) (mid : b < n) (right : c < n)
    (same : probeDistance n a b = probeDistance n a c) : b = c := by
  unfold probeDistance at same; split_ifs at same <;> omega

theorem probeDistance_next (left : a < n) (right : b < n) (inside : probeDistance n a b + 1 < n) :
    probeDistance n a (next n b) = probeDistance n a b + 1 := by
  unfold probeDistance next at *; split_ifs at inside ⊢ <;> omega

theorem probeDistance_next_left (left : a < n) (right : b < n) (apart : a ≠ b) :
    probeDistance n (next n a) b + 1 = probeDistance n a b := by
  unfold probeDistance next; split_ifs <;> omega

theorem probeDistance_add (left : a < n) (mid : b < n) (right : c < n)
    (between : probeDistance n a b ≤ probeDistance n a c) :
    probeDistance n a c = probeDistance n a b + probeDistance n b c := by
  unfold probeDistance at *; split_ifs at between ⊢ <;> omega

theorem eq_of_lt_next (left : a < n) (right : b < n) (before : probeDistance n a b < probeDistance n a (next n a)) :
    b = a := by
  have near : probeDistance n a (next n a) ≤ 1 := by
    unfold probeDistance next; split_ifs <;> omega
  exact probeDistance_eq left right left (by rw [probeDistance_self]; omega)

theorem findSlot_sound (run : findSlot slots key fuel i = some found) :
    ∃ v, slot slots found = some (key, v) := by
  induction fuel generalizing i with
  | zero => cases run
  | succ fuel ih =>
    unfold findSlot at run
    split at run
    · cases run
    rename_i k v held
    split at run
    · rename_i same
      subst same
      cases run
      exact ⟨v, held⟩
    · exact ih run

section

variable {home : Nat → Nat}

theorem findSlot_complete (wf : WellFormed home slots) (held : slot slots stop = some (key, v))
    (inside : i < slots.length)
    (before : probeDistance slots.length (home key) i ≤ probeDistance slots.length (home key) stop)
    (enough : probeDistance slots.length i stop < fuel) : findSlot slots key fuel i = some stop := by
  have stop_lt := slot_lt held
  have home_lt := wf.home_lt (ne_nil_of_length_pos (by omega)) key
  induction fuel generalizing i with
  | zero => omega
  | succ fuel ih =>
    unfold findSlot
    by_cases here : i = stop
    · subst here
      simp [held]
    have apart : probeDistance slots.length (home key) i ≠ probeDistance slots.length (home key) stop :=
      fun same => here (probeDistance_eq home_lt inside stop_lt same)
    have filled := wf.path held inside (by omega)
    obtain ⟨⟨k, w⟩, entry⟩ := Option.ne_none_iff_exists'.mp filled
    have other : k ≠ key := by
      rintro rfl
      exact here (wf.unique entry held)
    simp only [entry, if_neg other]
    have stop_at := probeDistance_lt home_lt stop_lt
    refine ih (next_lt (by omega)) ?_ ?_
    · rw [probeDistance_next home_lt inside (by omega)]
      omega
    · have := probeDistance_next_left inside stop_lt here
      omega

theorem freeSlot_isSome (empty : slot slots stop = none) (stop_lt : stop < slots.length)
    (absent : ∀ i v, slot slots i ≠ some (key, v)) (inside : i < slots.length)
    (enough : probeDistance slots.length i stop < fuel) : (freeSlot slots key fuel i).isSome := by
  induction fuel generalizing i with
  | zero => omega
  | succ fuel ih =>
    unfold freeSlot
    cases held : slot slots i with
    | none => rfl
    | some entry =>
      obtain ⟨k, v⟩ := entry
      have other : k ≠ key := by
        rintro rfl
        exact absent i v held
      have here : i ≠ stop := by
        rintro rfl
        simp [held] at empty
      have closer := probeDistance_next_left inside stop_lt here
      simp only [if_neg other]
      exact ih (next_lt (by omega)) (by omega)

theorem occupied_set (inside : i < slots.length) (entry : Option (Nat × α)) :
    occupied (slots.set i entry) + (slot slots i).isSome.toNat = occupied slots + entry.isSome.toNat := by
  unfold occupied slot
  rw [countP_set inside, List.getElem?_eq_getElem inside]
  have positive : slots[i].isSome → 0 < slots.countP Option.isSome :=
    fun held => countP_pos_iff.mpr ⟨_, getElem_mem inside, held⟩
  cases here : slots[i].isSome <;> cases entry <;> simp_all

theorem exists_empty (room : occupied slots < slots.length) : ∃ i < slots.length, slot slots i = none := by
  by_contra full
  push Not at full
  have all : ∀ entry ∈ slots, entry.isSome := by
    intro entry member
    obtain ⟨i, inside, rfl⟩ := getElem_of_mem member
    have := full i inside
    rw [slot_eq inside] at this
    exact Option.isSome_iff_ne_none.mpr this
  rw [occupied, countP_eq_length.mpr all] at room
  omega

/-- The loop invariant of `backShift`: the hole keeps a stale entry, and the slots it has passed stay put. -/
structure Shifting (home : Nat → Nat) (slots : Slots α) (hole current : Nat) : Prop where
  home_lt : ∀ k, home k < slots.length
  hole_lt : hole < slots.length
  current_lt : current < slots.length
  stale : slot slots hole ≠ none
  unique : ∀ {i j k : Nat} {v w : α}, i ≠ hole → j ≠ hole → slot slots i = some (k, v) →
    slot slots j = some (k, w) → i = j
  path : ∀ {i j k : Nat} {v : α}, i ≠ hole → slot slots i = some (k, v) → j < slots.length →
    probeDistance slots.length (home k) j < probeDistance slots.length (home k) i → slot slots j ≠ none
  passed : ∀ {i k : Nat} {v : α}, i ≠ hole → slot slots i = some (k, v) →
    probeDistance slots.length hole i < probeDistance slots.length hole current →
    ¬probeDistance slots.length (home k) hole < probeDistance slots.length (home k) i

/-- The entries of the slots but for the hole. -/
def Holds (slots : Slots α) (hole k : Nat) (v : α) : Prop := ∃ i, i ≠ hole ∧ slot slots i = some (k, v)

section

variable (shifting : Shifting home slots hole current)

include shifting

theorem Shifting.clear (empty : slot slots current = none) : WellFormed home (slots.set hole none) := by
  have held {i k : Nat} {v : α} (entry : slot (slots.set hole none) i = some (k, v)) :
      i ≠ hole ∧ slot slots i = some (k, v) := by
    simpa using (slot_set_eq_some shifting.hole_lt).mp entry
  refine ⟨fun _ k => by simpa using shifting.home_lt k, ?_, ?_⟩
  · intro i j k v w left right
    obtain ⟨left_ne, left⟩ := held left
    obtain ⟨right_ne, right⟩ := held right
    exact shifting.unique left_ne right_ne left right
  · intro i j k v entry j_lt closer
    rw [length_set] at j_lt closer
    obtain ⟨apart, entry⟩ := held entry
    have i_lt := slot_lt entry
    have home_lt := shifting.home_lt k
    rw [slot_set, if_neg]
    · exact shifting.path apart entry j_lt closer
    · rintro ⟨rfl, -⟩
      -- an entry whose path runs over the hole lies behind `current`, but that slot is empty
      have behind : ¬probeDistance slots.length hole i < probeDistance slots.length hole current :=
        fun between => shifting.passed apart entry between closer
      have not_here : probeDistance slots.length hole i ≠ probeDistance slots.length hole current := by
        intro same
        rw [probeDistance_eq shifting.hole_lt i_lt shifting.current_lt same, empty] at entry
        cases entry
      have whole := probeDistance_add home_lt shifting.hole_lt i_lt closer.le
      refine shifting.path apart entry shifting.current_lt ?_ empty
      have := probeDistance_lt home_lt i_lt
      unfold probeDistance at *
      split_ifs at * <;> omega

theorem Shifting.move (held : slot slots current = some (k, v))
    (across : probeDistance slots.length (home k) hole < probeDistance slots.length (home k) current) :
    Shifting home (slots.set hole (some (k, v))) current (next slots.length current) := by
  have apart : hole ≠ current := by
    rintro rfl
    omega
  have origin {i key : Nat} {w : α} (entry : slot (slots.set hole (some (k, v))) i = some (key, w)) :=
    (slot_set_eq_some shifting.hole_lt).mp entry
  refine ⟨by simpa using shifting.home_lt, by simpa using shifting.current_lt,
    by simpa using next_lt (Nat.zero_lt_of_lt shifting.hole_lt), slot_set_ne_none (by simp [held]), ?_, ?_, ?_⟩
  · intro i j key x y i_ne j_ne left right
    rcases origin left with ⟨rfl, ⟨⟩⟩ | ⟨i_hole, left'⟩ <;> rcases origin right with ⟨rfl, ⟨⟩⟩ | ⟨j_hole, right'⟩
    · rfl
    · exact absurd (shifting.unique j_hole (Ne.symm apart) right' held) j_ne
    · exact absurd (shifting.unique i_hole (Ne.symm apart) left' held) i_ne
    · exact shifting.unique i_hole j_hole left' right'
  · intro i j key x i_ne entry j_lt closer
    rw [length_set] at j_lt closer
    rcases origin entry with ⟨rfl, ⟨⟩⟩ | ⟨i_hole, entry⟩
    · exact slot_set_ne_none (shifting.path (Ne.symm apart) held j_lt (closer.trans across))
    · exact slot_set_ne_none (shifting.path i_hole entry j_lt closer)
  · intro i key x i_ne entry between
    have i_lt := slot_lt entry
    rw [length_set] at i_lt between
    exact absurd (eq_of_lt_next shifting.current_lt i_lt between) i_ne

theorem Shifting.stay (held : slot slots current = some (k, v))
    (beside : ¬probeDistance slots.length (home k) hole < probeDistance slots.length (home k) current) :
    Shifting home slots hole (next slots.length current) := by
  refine ⟨shifting.home_lt, shifting.hole_lt, next_lt (Nat.zero_lt_of_lt shifting.hole_lt), shifting.stale,
    shifting.unique, shifting.path, ?_⟩
  intro i key x i_ne entry between
  have i_lt := slot_lt entry
  have step : probeDistance slots.length hole (next slots.length current) ≤
      probeDistance slots.length hole current + 1 := by
    have := shifting.hole_lt
    have := shifting.current_lt
    unfold probeDistance next; split_ifs <;> omega
  rcases Nat.lt_or_eq_of_le (show probeDistance slots.length hole i ≤ probeDistance slots.length hole current by omega)
    with less | same
  · exact shifting.passed i_ne entry less
  have here := probeDistance_eq shifting.hole_lt i_lt shifting.current_lt same
  subst here
  rw [held] at entry
  cases entry
  exact beside

variable {w : α}

theorem Shifting.holds_move (held : slot slots current = some (k, v)) (apart : hole ≠ current) :
    Holds (slots.set hole (some (k, v))) current key w ↔ Holds slots hole key w := by
  constructor
  · rintro ⟨i, i_ne, entry⟩
    rcases (slot_set_eq_some shifting.hole_lt).mp entry with ⟨-, ⟨⟩⟩ | there
    · exact ⟨current, Ne.symm apart, held⟩
    · exact ⟨i, there⟩
  · rintro ⟨i, i_ne, entry⟩
    by_cases here : i = current
    · subst here
      exact ⟨hole, apart, (slot_set_eq_some shifting.hole_lt).mpr (.inl ⟨rfl, held.symm.trans entry⟩)⟩
    · exact ⟨i, here, (slot_set_eq_some shifting.hole_lt).mpr (.inr ⟨i_ne, entry⟩)⟩

theorem Shifting.holds_clear : (∃ i, slot (slots.set hole none) i = some (key, w)) ↔ Holds slots hole key w := by
  simp only [slot_set_eq_some shifting.hole_lt, reduceCtorEq, and_false, false_or]
  rfl

theorem Shifting.occupied_clear : occupied (slots.set hole none) + 1 = occupied slots := by
  have count := occupied_set shifting.hole_lt none
  rw [Option.isSome_iff_ne_none.mpr shifting.stale] at count
  simpa using count

/-- Back-shifting removes the entry of the hole and nothing else. -/
theorem Shifting.backShift_spec (empty : slot slots stop = none) (stop_lt : stop < slots.length)
    (enough : probeDistance slots.length current stop < fuel) :
    WellFormed home (backShift home fuel slots hole current) ∧
      (backShift home fuel slots hole current).length = slots.length ∧
      occupied (backShift home fuel slots hole current) + 1 = occupied slots ∧
      ∀ (key : Nat) (w : α), (∃ i, slot (backShift home fuel slots hole current) i = some (key, w)) ↔
        Holds slots hole key w := by
  induction fuel generalizing slots hole current with
  | zero => omega
  | succ fuel ih =>
    unfold backShift
    cases held : slot slots current with
    | none => exact ⟨shifting.clear held, by simp, shifting.occupied_clear, fun _ _ => shifting.holds_clear⟩
    | some entry =>
      obtain ⟨k, v⟩ := entry
      have here : current ≠ stop := by
        rintro rfl
        simp [held] at empty
      have closer := probeDistance_next_left shifting.current_lt stop_lt here
      simp only
      split
      · rename_i across
        have apart : hole ≠ current := by
          rintro rfl
          omega
        have kept : slot (slots.set hole (some (k, v))) stop = none := by
          rw [slot_set, if_neg, empty]
          rintro ⟨rfl, -⟩
          exact shifting.stale empty
        have count := occupied_set shifting.hole_lt (some (k, v))
        rw [Option.isSome_iff_ne_none.mpr shifting.stale] at count
        have rest := ih (shifting.move held across) kept (by simpa using stop_lt) (by simp; omega)
        refine ⟨rest.1, by simpa using rest.2.1, ?_, fun key w => (rest.2.2.2 key w).trans (shifting.holds_move held apart)⟩
        rw [rest.2.2.1]
        simpa using count
      · rename_i beside
        exact ih (shifting.stay held beside) empty stop_lt (by omega)

end

theorem freeSlot_sound (home_lt : home key < slots.length)
    (inside : i < slots.length)
    (passed : ∀ j < slots.length, probeDistance slots.length (home key) j < probeDistance slots.length (home key) i → slot slots j ≠ none ∧ ∀ v, slot slots j ≠ some (key, v))
    (enough : probeDistance slots.length (home key) i + fuel ≤ slots.length)
    (run : freeSlot slots key fuel i = some free) :
    free < slots.length ∧ slot slots free = none ∧
      ∀ j < slots.length, probeDistance slots.length (home key) j < probeDistance slots.length (home key) free →
        slot slots j ≠ none ∧ ∀ v, slot slots j ≠ some (key, v) := by
  induction fuel generalizing i with
  | zero => cases run
  | succ fuel ih =>
    unfold freeSlot at run
    cases held : slot slots i with
    | none =>
      simp only [held] at run
      cases run
      exact ⟨inside, held, passed⟩
    | some entry =>
      obtain ⟨k, v⟩ := entry
      simp only [held] at run
      split at run
      · cases run
      rename_i other
      by_cases last : fuel = 0
      · subst last
        cases run
      have step := probeDistance_next home_lt inside (by omega)
      refine ih (next_lt (by omega)) ?_ (by omega) run
      intro j j_lt closer
      rw [step] at closer
      rcases Nat.lt_or_eq_of_le (Nat.lt_succ_iff.mp closer) with less | same
      · exact passed j j_lt less
      · rw [probeDistance_eq home_lt j_lt inside same, held]
        simp [other]

end

/-- A table of at most `limit` entries, with more slots than that. -/
structure Table (α : Type) (hash : Nat → Nat) where
  slots : Slots α
  size : Nat
  limit : Nat
  wf : WellFormed (fun k => hash k % slots.length) slots
  size_eq : size = occupied slots
  size_le : size ≤ limit
  roomy : slots ≠ [] → limit < slots.length

namespace Table

variable {hash : Nat → Nat}

def init (hash : Nat → Nat) (slotCount limit : Nat) (roomy : slotCount ≠ 0 → limit < slotCount) : Table α hash where
  slots := List.replicate slotCount none
  size := 0
  limit := limit
  wf := by
    have none_held (i : Nat) : slot (List.replicate slotCount (none : Option (Nat × α))) i = none := by
      rw [slot, List.getElem?_replicate]
      split <;> rfl
    refine ⟨fun filled k => Nat.mod_lt _ (length_pos_iff.mpr filled), ?_, ?_⟩
    · intro i j k v w held
      simp [none_held] at held
    · intro i j k v held
      simp [none_held] at held
  size_eq := by simp [occupied, countP_replicate]
  size_le := Nat.zero_le _
  roomy := by
    intro filled
    rw [length_replicate]
    exact roomy (by rintro rfl; exact filled rfl)

def home (t : Table α hash) (key : Nat) : Nat := hash key % t.slots.length

def find (t : Table α hash) (key : Nat) : Option α :=
  match findSlot t.slots key t.slots.length (t.home key) with
  | none => none
  | some i => (slot t.slots i).map Prod.snd

/-- The entries in the order of their slots. -/
def entries (t : Table α hash) : List (Nat × α) := t.slots.filterMap id

theorem home_lt (t : Table α hash) (key : Nat) (inside : i < t.slots.length) :
    t.home key < t.slots.length :=
  Nat.mod_lt _ (Nat.zero_lt_of_lt inside)

variable {t t' : Table α hash} {k key free hole key' : Nat} {v w : α} {f g : α → α}

theorem freeSlot_lt (run : freeSlot t.slots key t.slots.length (t.home key) = some free) :
    free < t.slots.length ∧ slot t.slots free = none ∧
      ∀ j < t.slots.length, probeDistance t.slots.length (t.home key) j < probeDistance t.slots.length (t.home key) free →
        slot t.slots j ≠ none ∧ ∀ v, slot t.slots j ≠ some (key, v) := by
  have positive : 0 < t.slots.length := by
    by_contra empty
    rw [Nat.eq_zero_of_not_pos empty] at run
    cases run
  have home_lt := t.home_lt key positive
  refine freeSlot_sound home_lt home_lt ?_ ?_ run
  · rw [probeDistance_self]
    intro j _ less
    omega
  · rw [probeDistance_self]
    omega

theorem absent_of_free (run : freeSlot t.slots key t.slots.length (t.home key) = some free) (i : Nat) (w : α) :
    slot t.slots i ≠ some (key, w) := by
  intro held
  obtain ⟨free_lt, empty, path⟩ := freeSlot_lt run
  have i_lt := slot_lt held
  rcases Nat.lt_trichotomy (probeDistance t.slots.length (t.home key) i)
    (probeDistance t.slots.length (t.home key) free) with less | same | more
  · exact (path i i_lt less).2 w held
  · rw [probeDistance_eq (t.home_lt key i_lt) i_lt free_lt same, empty] at held
    cases held
  · exact t.wf.path held free_lt more empty

theorem insert_wf (v : α) (run : freeSlot t.slots key t.slots.length (t.home key) = some free) :
    WellFormed (fun k => hash k % t.slots.length) (t.slots.set free (some (key, v))) := by
  obtain ⟨free_lt, empty, path⟩ := freeSlot_lt run
  have origin {i k : Nat} {w : α} (entry : slot (t.slots.set free (some (key, v))) i = some (k, w)) :=
    (slot_set_eq_some free_lt).mp entry
  refine ⟨fun _ k => by rw [length_set]; exact t.home_lt k free_lt, ?_, ?_⟩
  · intro i j k x y left right
    rcases origin left with ⟨rfl, ⟨⟩⟩ | ⟨-, left'⟩ <;> rcases origin right with ⟨rfl, ⟨⟩⟩ | ⟨-, right'⟩
    · rfl
    · exact absurd right' (absent_of_free run j y)
    · exact absurd left' (absent_of_free run i x)
    · exact t.wf.unique left' right'
  · intro i j k x entry j_lt closer
    rw [length_set] at j_lt closer
    rcases origin entry with ⟨rfl, ⟨⟩⟩ | ⟨-, entry⟩
    · exact slot_set_ne_none (path j j_lt closer).1
    · exact slot_set_ne_none (t.wf.path entry j_lt closer)

def insert (t : Table α hash) (key : Nat) (v : α) : Option (Table α hash) :=
  if full : t.limit ≤ t.size then none
  else
    match run : freeSlot t.slots key t.slots.length (t.home key) with
    | none => none
    | some free => some {
        slots := t.slots.set free (some (key, v))
        size := t.size + 1
        limit := t.limit
        wf := by simpa using insert_wf v run
        size_eq := by
          obtain ⟨free_lt, empty, -⟩ := freeSlot_lt run
          have count := occupied_set free_lt (some (key, v))
          rw [empty] at count
          simpa [t.size_eq] using count.symm
        size_le := by omega
        roomy := by
          intro filled
          rw [length_set]
          refine t.roomy ?_
          rintro none_there
          simp [none_there] at filled }

theorem empty_slot (filled : t.slots ≠ []) : ∃ stop < t.slots.length, slot t.slots stop = none := by
  refine exists_empty ?_
  rw [← t.size_eq]
  exact t.size_le.trans_lt (t.roomy filled)

theorem shifting (held : slot t.slots hole = some (k, v)) :
    Shifting (fun k => hash k % t.slots.length) t.slots hole (next t.slots.length hole) := by
  have hole_lt := slot_lt held
  refine ⟨fun k => t.home_lt k hole_lt, hole_lt, next_lt (Nat.zero_lt_of_lt hole_lt), by simp [held],
    fun _ _ => t.wf.unique, fun _ => t.wf.path, ?_⟩
  intro i k v apart entry between
  exact absurd (eq_of_lt_next hole_lt (slot_lt entry) between) apart

theorem backShift_slots (held : slot t.slots hole = some (k, v))
    (run : backShift (fun k => hash k % t.slots.length) t.slots.length t.slots hole (next t.slots.length hole) = shifted) :
    WellFormed (fun k => hash k % t.slots.length) shifted ∧ shifted.length = t.slots.length ∧
      occupied shifted + 1 = occupied t.slots ∧
      ∀ (key : Nat) (w : α), (∃ i, slot shifted i = some (key, w)) ↔ Holds t.slots hole key w := by
  subst run
  have hole_lt := slot_lt held
  obtain ⟨stop, stop_lt, empty⟩ := t.empty_slot (ne_nil_of_length_pos (Nat.zero_lt_of_lt hole_lt))
  have shifting := shifting held
  exact shifting.backShift_spec empty stop_lt (probeDistance_lt shifting.current_lt stop_lt)

def erase (t : Table α hash) (key : Nat) : Table α hash :=
  match run : findSlot t.slots key t.slots.length (t.home key) with
  | none => t
  | some hole => {
      slots := backShift (fun k => hash k % t.slots.length) t.slots.length t.slots hole (next t.slots.length hole)
      size := t.size - 1
      limit := t.limit
      wf := by
        obtain ⟨v, held⟩ := findSlot_sound run
        obtain ⟨wf, length_eq, -⟩ := backShift_slots held rfl
        rw [length_eq]
        exact wf
      size_eq := by
        obtain ⟨v, held⟩ := findSlot_sound run
        have := (backShift_slots held rfl).2.2.1
        have := t.size_eq
        omega
      size_le := (Nat.sub_le _ _).trans t.size_le
      roomy := by
        obtain ⟨v, held⟩ := findSlot_sound run
        intro _
        rw [(backShift_slots held rfl).2.1]
        exact t.roomy (ne_nil_of_length_pos (Nat.zero_lt_of_lt (slot_lt held))) }

/-- Changes the value stored under a key in place. -/
def modifySlot (key : Nat) (f : α → α) : Option (Nat × α) → Option (Nat × α)
  | none => none
  | some (k, v) => some (k, if k = key then f v else v)

theorem slot_modify (slots : Slots α) (key : Nat) (f : α → α) (i : Nat) :
    slot (slots.map (modifySlot key f)) i = modifySlot key f (slot slots i) := by
  unfold slot
  rw [List.getElem?_map]
  cases slots[i]? <;> rfl

theorem modifySlot_eq_some {entry : Option (Nat × α)} (changed : modifySlot key f entry = some (k, w)) :
    ∃ v, entry = some (k, v) ∧ w = if k = key then f v else v := by
  cases entry with
  | none => cases changed
  | some pair =>
    obtain ⟨k', v⟩ := pair
    simp only [modifySlot, Option.some.injEq, Prod.mk.injEq] at changed
    obtain ⟨rfl, rfl⟩ := changed
    exact ⟨v, rfl, rfl⟩

def modify (t : Table α hash) (key : Nat) (f : α → α) : Table α hash where
  slots := t.slots.map (modifySlot key f)
  size := t.size
  limit := t.limit
  wf := by
    rw [length_map]
    refine ⟨fun filled k => ?_, ?_, ?_⟩
    · rw [length_map]
      exact t.wf.home_lt (fun none_there => filled (by simp [none_there])) k
    · intro i j k v w left right
      rw [slot_modify] at left right
      obtain ⟨v', left, -⟩ := modifySlot_eq_some left
      obtain ⟨w', right, -⟩ := modifySlot_eq_some right
      exact t.wf.unique left right
    · intro i j k v entry j_lt closer
      rw [length_map] at j_lt closer
      rw [slot_modify] at entry ⊢
      obtain ⟨v', entry, -⟩ := modifySlot_eq_some entry
      obtain ⟨⟨k', w⟩, held⟩ := Option.ne_none_iff_exists'.mp (t.wf.path entry j_lt closer)
      simp [held, modifySlot]
  size_eq := by
    rw [occupied, countP_map, t.size_eq, occupied]
    refine countP_congr fun entry _ => ?_
    cases entry <;> simp [modifySlot]
  size_le := t.size_le
  roomy := by
    intro filled
    rw [length_map]
    exact t.roomy fun none_there => filled (by simp [none_there])

theorem find_eq_some_iff : t.find key = some v ↔ ∃ i, slot t.slots i = some (key, v) := by
  unfold find
  constructor
  · intro found
    split at found
    · cases found
    rename_i i run
    obtain ⟨w, held⟩ := findSlot_sound run
    rw [held] at found
    cases found
    exact ⟨i, held⟩
  · rintro ⟨i, held⟩
    have i_lt := slot_lt held
    have home_lt := t.home_lt key i_lt
    have run :=
      findSlot_complete t.wf held home_lt (by simp [home, probeDistance_self]) (probeDistance_lt home_lt i_lt)
    simp [run, held]

theorem find_eq_none_iff : t.find key = none ↔ ∀ i v, slot t.slots i ≠ some (key, v) := by
  rw [Option.eq_none_iff_forall_ne_some]
  constructor
  · intro absent i v held
    exact absent v (find_eq_some_iff.mpr ⟨i, held⟩)
  · intro absent v found
    obtain ⟨i, held⟩ := find_eq_some_iff.mp found
    exact absent i v held

theorem find_congr
    (same : ∀ v, (∃ i, slot t'.slots i = some (key', v)) ↔ ∃ i, slot t.slots i = some (key, v)) :
    t'.find key' = t.find key := by
  apply Option.ext
  intro v
  rw [find_eq_some_iff, find_eq_some_iff]
  exact same v

@[simp] theorem find_init (slotCount limit : Nat) (roomy : slotCount ≠ 0 → limit < slotCount) (key : Nat) :
    (init hash slotCount limit roomy : Table α hash).find key = none := by
  rw [find_eq_none_iff]
  intro i v held
  simp only [init, slot, List.getElem?_replicate] at held
  split at held <;> cases held

theorem insert_isSome_iff : (t.insert key v).isSome ↔ t.find key = none ∧ t.size < t.limit ∧ t.slots ≠ [] := by
  unfold insert
  constructor
  · intro done
    split at done
    · cases done
    rename_i room
    split at done
    · cases done
    rename_i free run
    have filled := ne_nil_of_length_pos (Nat.zero_lt_of_lt (freeSlot_lt run).1)
    exact ⟨find_eq_none_iff.mpr (absent_of_free run), by omega, filled⟩
  · rintro ⟨absent, room, filled⟩
    rw [dif_neg (by omega)]
    obtain ⟨stop, stop_lt, empty⟩ := t.empty_slot filled
    have home_lt := t.home_lt key stop_lt
    have run := freeSlot_isSome empty stop_lt (find_eq_none_iff.mp absent) home_lt (probeDistance_lt home_lt stop_lt)
    split
    · simp_all
    · rfl

theorem insert_of_free (v : α) (room : t.size < t.limit)
    (run : freeSlot t.slots key t.slots.length (t.home key) = some free) :
    ∃ t', t.insert key v = some t' ∧ t'.slots = t.slots.set free (some (key, v)) ∧ t'.size = t.size + 1 ∧
      t'.limit = t.limit := by
  unfold insert
  rw [dif_neg (Nat.not_le.mpr room)]
  split
  · rename_i missing
    rw [missing] at run
    cases run
  · rename_i free' run'
    rw [run'] at run
    cases run
    exact ⟨_, rfl, rfl, rfl, rfl⟩

theorem insert_of_no_free (v : α) (run : freeSlot t.slots key t.slots.length (t.home key) = none) :
    t.insert key v = none := by
  unfold insert
  split
  · rfl
  split
  · rfl
  rename_i free' run'
  rw [run'] at run
  cases run

theorem erase_of_slot (run : findSlot t.slots key t.slots.length (t.home key) = some hole) :
    (t.erase key).slots =
        backShift (fun k => hash k % t.slots.length) t.slots.length t.slots hole (next t.slots.length hole) ∧
      (t.erase key).size = t.size - 1 ∧ (t.erase key).limit = t.limit := by
  unfold erase
  split
  · rename_i missing
    rw [missing] at run
    cases run
  · rename_i hole' run'
    rw [run'] at run
    cases run
    exact ⟨rfl, rfl, rfl⟩

theorem erase_of_no_slot (run : findSlot t.slots key t.slots.length (t.home key) = none) : t.erase key = t := by
  unfold erase
  split
  · rfl
  rename_i hole' run'
  rw [run'] at run
  cases run

theorem find_insert (done : t.insert key v = some t') (key' : Nat) :
    t'.find key' = if key' = key then some v else t.find key' := by
  unfold insert at done
  split at done
  · cases done
  split at done
  · cases done
  rename_i free run
  cases done
  obtain ⟨free_lt, empty, -⟩ := freeSlot_lt run
  split
  · rename_i same
    subst same
    exact find_eq_some_iff.mpr ⟨free, by rw [slot_set, if_pos ⟨rfl, free_lt⟩]⟩
  rename_i other
  refine find_congr fun w => exists_congr fun i => ?_
  rw [slot_set_eq_some free_lt]
  grind

theorem find_erase (t : Table α hash) (key key' : Nat) :
    (t.erase key).find key' = if key' = key then none else t.find key' := by
  unfold erase
  split
  · rename_i missing
    split
    · rename_i same
      subst same
      simp [find, missing]
    · rfl
  rename_i hole run
  obtain ⟨v, held⟩ := findSlot_sound run
  have kept := (backShift_slots held rfl).2.2.2
  split
  · rename_i same
    subst same
    rw [find_eq_none_iff]
    intro i w entry
    obtain ⟨j, apart, entry⟩ := (kept key' w).mp ⟨i, entry⟩
    exact apart (t.wf.unique entry held)
  · rename_i other
    refine find_congr fun w => (kept key' w).trans ⟨fun ⟨i, _, entry⟩ => ⟨i, entry⟩, ?_⟩
    rintro ⟨i, entry⟩
    refine ⟨i, ?_, entry⟩
    rintro rfl
    rw [held] at entry
    cases entry
    exact other rfl

theorem find_modify (t : Table α hash) (key : Nat) (f : α → α) (key' : Nat) :
    (t.modify key f).find key' = if key' = key then (t.find key').map f else t.find key' := by
  apply Option.ext
  intro w
  rw [find_eq_some_iff]
  simp only [modify, slot_modify]
  constructor
  · rintro ⟨i, held⟩
    obtain ⟨v, entry, rfl⟩ := modifySlot_eq_some held
    have found := find_eq_some_iff.mpr ⟨i, entry⟩
    split <;> simp_all
  · intro found
    split at found
    · rename_i same
      obtain ⟨v, there, rfl⟩ := Option.map_eq_some_iff.mp found
      obtain ⟨i, entry⟩ := find_eq_some_iff.mp there
      exact ⟨i, by simp [entry, modifySlot, same]⟩
    · rename_i other
      obtain ⟨i, entry⟩ := find_eq_some_iff.mp found
      exact ⟨i, by simp [entry, modifySlot, other]⟩

@[ext] theorem ext (slots : t.slots = t'.slots) (size : t.size = t'.size) (limit : t.limit = t'.limit) : t = t' := by
  cases t
  cases t'
  cases slots
  cases size
  cases limit
  rfl

theorem modify_modify (t : Table α hash) (key : Nat) (f g : α → α) :
    (t.modify key f).modify key g = t.modify key (fun v => g (f v)) := by
  apply Table.ext
  · simp only [modify, List.map_map]
    refine map_congr_left fun entry _ => ?_
    rcases entry with _ | ⟨k, v⟩
    · rfl
    · by_cases same : k = key <;> simp [modifySlot, same]
  · rfl
  · rfl

theorem modify_congr (same : ∀ v, t.find key = some v → f v = g v) : t.modify key f = t.modify key g := by
  apply Table.ext
  · refine map_congr_left fun entry member => ?_
    rcases entry with _ | ⟨k, v⟩
    · rfl
    by_cases here : k = key
    · subst here
      obtain ⟨i, inside, there⟩ := getElem_of_mem member
      have held := (slot_eq inside).trans there
      simp [modifySlot, same v (find_eq_some_iff.mpr ⟨i, held⟩)]
    · simp [modifySlot, here]
  · rfl
  · rfl

theorem modify_eq_self (same : ∀ v, t.find key = some v → f v = v) : t.modify key f = t := by
  refine (modify_congr same).trans (Table.ext ?_ rfl rfl)
  refine (map_congr_left fun entry _ => ?_).trans (map_id t.slots)
  rcases entry with _ | ⟨k, v⟩ <;> simp [modifySlot]

theorem mem_entries : (key, v) ∈ t.entries ↔ t.find key = some v := by
  rw [find_eq_some_iff, entries, mem_filterMap]
  constructor
  · rintro ⟨entry, member, held⟩
    obtain ⟨i, inside, rfl⟩ := getElem_of_mem member
    exact ⟨i, (slot_eq inside).trans held⟩
  · rintro ⟨i, held⟩
    have inside := slot_lt held
    exact ⟨_, getElem_mem inside, (slot_eq inside).symm.trans held⟩

/-- The keys in the order of the slots. -/
def keys (t : Table α hash) : List Nat := t.entries.map (·.1)

theorem mem_keys : key ∈ t.keys ↔ (t.find key).isSome := by
  rw [keys, mem_map, Option.isSome_iff_exists]
  constructor
  · rintro ⟨⟨k, v⟩, member, rfl⟩
    exact ⟨v, mem_entries.mp member⟩
  · rintro ⟨v, found⟩
    exact ⟨(key, v), mem_entries.mpr found, rfl⟩

theorem keys_nodup (t : Table α hash) : t.keys.Nodup := by
  rw [keys, List.Nodup, pairwise_map, entries, pairwise_filterMap, pairwise_iff_getElem]
  intro i j i_lt j_lt before left left_held right right_held same
  have first := (slot_eq i_lt).trans left_held
  have second := (slot_eq j_lt).trans right_held
  obtain ⟨k, v⟩ := left
  obtain ⟨k', w⟩ := right
  have same : k = k' := same
  subst same
  exact absurd (t.wf.unique first second) (Nat.ne_of_lt before)

theorem keys_length (t : Table α hash) : t.keys.length = t.size := by
  rw [keys, length_map, entries, length_filterMap_eq_countP, t.size_eq]
  rfl

theorem keys_modify (t : Table α hash) (key : Nat) (f : α → α) : (t.modify key f).keys.Perm t.keys := by
  refine (perm_ext_iff_of_nodup (keys_nodup _) (keys_nodup _)).mpr fun other => ?_
  rw [mem_keys, mem_keys, find_modify]
  split
  · rw [Option.isSome_map]
  · rfl

theorem keys_insert (done : t.insert key v = some t') : t'.keys.Perm (key :: t.keys) := by
  have absent := (insert_isSome_iff.mp (by rw [done]; rfl) : t.find key = none ∧ _).1
  have fresh : key ∉ t.keys := by simp [mem_keys, absent]
  refine (perm_ext_iff_of_nodup (keys_nodup _) (nodup_cons.mpr ⟨fresh, keys_nodup t⟩)).mpr fun other => ?_
  rw [mem_keys, find_insert done, mem_cons, mem_keys]
  by_cases same : other = key <;> simp [same]

theorem keys_erase (found : (t.find key).isSome) : t.keys.Perm (key :: (t.erase key).keys) := by
  have gone : key ∉ (t.erase key).keys := by simp [mem_keys, find_erase]
  refine (perm_ext_iff_of_nodup (keys_nodup _) (nodup_cons.mpr ⟨gone, keys_nodup _⟩)).mpr fun other => ?_
  rw [mem_keys, mem_cons, mem_keys, find_erase]
  by_cases same : other = key
  · simp [same, found]
  · simp [same]

/-- How many entries a table takes does not change. -/
structure Alike (t t' : Table α hash) : Prop where
  limit : t'.limit = t.limit
  slots : t'.slots.length = t.slots.length

theorem Alike.modify (t : Table α hash) (key : Nat) (f : α → α) : Alike t (t.modify key f) :=
  ⟨rfl, length_map _⟩

theorem Alike.insert (done : t.insert key v = some t') : Alike t t' := by
  unfold Table.insert at done
  split at done
  · cases done
  split at done
  · cases done
  · cases done
    exact ⟨rfl, length_set⟩

theorem Alike.erase (t : Table α hash) (key : Nat) : Alike t (t.erase key) := by
  unfold Table.erase
  split
  · exact ⟨rfl, rfl⟩
  rename_i hole run
  obtain ⟨v, held⟩ := findSlot_sound run
  exact ⟨rfl, (backShift_slots held rfl).2.1⟩

theorem Alike.insert_isSome_iff (alike : Alike t t') :
    (t'.insert key v).isSome ↔ t'.find key = none ∧ t'.size < t.limit ∧ t.slots ≠ [] := by
  rw [Table.insert_isSome_iff, alike.limit, ← length_pos_iff, ← length_pos_iff, alike.slots]

end Table

end LinearProbing
