import FiberGateway.Json.Utf
import FiberGateway.Script.StdLibraryFuncs

/-!
The search functions of the script library. `wrap` is the cast of a position to `int`.
-/

namespace FiberGateway.Script

open Json List

/-- `std::u16string::rfind` of one unit. -/
def rfind (src : List UInt16) (ch : UInt16) : Option Nat :=
  (src.reverse.findIdx? (· == ch)).map (src.length - 1 - ·)

def indexOfAny (src search : List UInt16) : Int :=
  if src.isEmpty || search.isEmpty then -1
  else match src.findIdx? (search.contains ·) with
    | some i => wrap i
    | none => -1

/-- The loop goes over the search set: the first of its units that occurs decides. -/
def lastIndexAny (src search : List UInt16) : Int :=
  if src.isEmpty || search.isEmpty then -1
  else match search.findSome? (rfind src) with
    | some pos => wrap pos
    | none => -1

/-- The indices of the units with a property. -/
def places (src : List UInt16) (p : UInt16 → Prop) : Set Nat := {i | ∃ u, src[i]? = some u ∧ p u}

structure Mirrored (src search : List UInt16) : Prop where
  greatest : ∀ g, IsGreatest (places src (· ∈ search)) g → lastIndexAny src search = g
  absent : places src (· ∈ search) = ∅ → lastIndexAny src search = -1
  mirror : (places src (· ∈ search)).Nonempty →
    lastIndexAny src search = src.length - 1 - indexOfAny src.reverse search
  sameSet : ∀ other, (∀ u, u ∈ other ↔ u ∈ search) →
    indexOfAny src other = indexOfAny src search ∧ lastIndexAny src other = lastIndexAny src search

variable {src search other : List UInt16} {g n fuel : Nat} {u v : UInt16}

theorem places_greatest {p : UInt16 → Prop} (some_ : (places src p).Nonempty) : ∃ g, IsGreatest (places src p) g := by
  have bounded : BddAbove (places src p) :=
    ⟨src.length, fun i ⟨_, at_, _⟩ => (List.getElem?_eq_some_iff.mp at_).1.le⟩
  exact ⟨_, Nat.sSup_mem some_ bounded, fun _ => le_csSup bounded⟩

theorem findIdx?_reverse {p : UInt16 → Bool} (greatest : IsGreatest (places src (p ·)) g) :
    g < src.length ∧ src.reverse.findIdx? p = some (src.length - 1 - g) := by
  obtain ⟨⟨u, at_, holds⟩, last⟩ := greatest
  obtain ⟨bound, rfl⟩ := List.getElem?_eq_some_iff.mp at_
  have place : src.length - 1 - (src.length - 1 - g) = g := by omega
  refine ⟨bound, findIdx?_eq_some_iff_getElem.mpr ⟨by simp; omega, ?_, fun j before unit => ?_⟩⟩
  · simpa only [getElem_reverse, place] using holds
  · rw [getElem_reverse] at unit
    have := last ⟨_, getElem?_eq_getElem _, unit⟩
    omega

theorem rfind_greatest (greatest : IsGreatest (places src (· = u)) g) : rfind src u = some g := by
  obtain ⟨bound, first⟩ := findIdx?_reverse (p := (· == u)) (by simpa only [beq_iff_eq] using greatest)
  rw [rfind, first, Option.map_some]
  congr
  omega

theorem rfind_none (absent : u ∉ src) : rfind src u = none := by
  rw [rfind, findIdx?_eq_none_iff.mpr fun v unit => ?_, Option.map_none]
  rw [beq_eq_false_iff_ne]
  exact fun same => absent (same ▸ mem_reverse.mp unit)

theorem wrap_lt (n : Int) : wrap n < 2 ^ 31 := by
  unfold wrap
  omega

theorem wrap_small (small : n < 2 ^ 31) : wrap n = n := by
  unfold wrap
  omega

theorem lastIndexAny_absent (absent : places src (· ∈ search) = ∅) : lastIndexAny src search = -1 := by
  have nothing : search.findSome? (rfind src) = none := by
    refine findSome?_eq_none_iff.mpr fun u inside => rfind_none fun occurs => ?_
    obtain ⟨i, at_⟩ := getElem?_of_mem occurs
    exact absent.subset ⟨u, at_, inside⟩
  rw [lastIndexAny, nothing, ite_self]

theorem lastIndexAny_cons (greatest : IsGreatest (places src (· = u)) g) :
    lastIndexAny src (u :: search) = wrap g := by
  have text : src ≠ [] := ne_nil_of_length_pos (findIdx?_reverse (p := (· == u)) (by simpa using greatest)).1.pos
  simp [lastIndexAny, rfind_greatest greatest, text]

theorem indexOfAny_reverse (greatest : IsGreatest (places src (· ∈ search)) g) :
    g < src.length ∧ indexOfAny src.reverse search = wrap (src.length - 1 - g : Nat) := by
  obtain ⟨bound, first⟩ := findIdx?_reverse (p := (search.contains ·)) (by simpa only [contains_iff_mem] using greatest)
  have text : src ≠ [] := ne_nil_of_length_pos bound.pos
  obtain ⟨⟨u, -, inside⟩, -⟩ := greatest
  rw [indexOfAny, first]
  exact ⟨bound, by simp [ne_nil_of_mem inside, text]⟩

theorem indexOfAny_congr (same : ∀ u, u ∈ other ↔ u ∈ search) :
    indexOfAny src other = indexOfAny src search := by
  have units : (fun u => other.contains u) = (search.contains ·) := by
    funext u
    simp [same u]
  have empty : other.isEmpty = search.isEmpty := by
    rw [Bool.eq_iff_iff]
    simp [eq_nil_iff_forall_not_mem, same]
  rw [indexOfAny, indexOfAny, units, empty]

/-- When only one unit of the set occurs in the source, the loop finds its last place. -/
theorem lastIndexAny_greatest (single : ∀ u ∈ search, ∀ v ∈ search, u ∈ src → v ∈ src → u = v)
    (greatest : IsGreatest (places src (· ∈ search)) g) : lastIndexAny src search = wrap g := by
  obtain ⟨u, at_, inside⟩ := greatest.1
  have occurs := mem_of_getElem? at_
  -- the places of the set are those of this unit
  have only : places src (· ∈ search) = places src (· = u) := by
    ext i
    refine exists_congr fun v => and_congr_right fun unit => ⟨fun member => ?_, fun same => same ▸ inside⟩
    exact single v member u inside (mem_of_getElem? unit) occurs
  have place := rfind_greatest (only ▸ greatest)
  cases found : search.findSome? (rfind src) with
  | none => exact absurd (findSome?_eq_none_iff.mp found u inside) (by simp [place])
  | some pos =>
    obtain ⟨v, member, other⟩ := exists_of_findSome?_eq_some found
    by_cases occurs' : v ∈ src
    · rw [single v member u inside occurs' occurs, place] at other
      simp [lastIndexAny, found, ne_nil_of_mem inside, ne_nil_of_mem occurs, ← Option.some.inj other]
    · exact absurd other (by simp [rfind_none occurs'])

/-- The two searches are mirror images exactly when at most one unit of the set occurs in the source, at places that
fit an `int` from both ends. -/
theorem mirrored_iff (src search : List UInt16) : Mirrored src search ↔
    (∀ u ∈ search, ∀ v ∈ search, u ∈ src → v ∈ src → u = v) ∧
      ∀ g, IsGreatest (places src (· ∈ search)) g → g < 2 ^ 31 ∧ src.length - 1 - g < 2 ^ 31 := by
  constructor
  · intro mirrored
    -- a unit of the set may be put in front of it, and then its last place is the result
    have here {g : Nat} (greatest : IsGreatest (places src (· ∈ search)) g) {u : UInt16} (inside : u ∈ search)
        (occurs : u ∈ src) : g < 2 ^ 31 ∧ src[g]? = some u := by
      obtain ⟨i, at_⟩ := getElem?_of_mem occurs
      obtain ⟨pos, last⟩ := places_greatest (p := (· = u)) ⟨i, u, at_, rfl⟩
      have value := mirrored.greatest g greatest
      rw [← (mirrored.sameSet (u :: search) fun v => by simp +contextual [inside]).2, lastIndexAny_cons last] at value
      obtain ⟨_, there, rfl⟩ := last.1
      have le : pos ≤ g := greatest.2 ⟨_, there, inside⟩
      have small := value ▸ wrap_lt pos
      rw [wrap_small (by omega)] at value
      exact ⟨by omega, by rwa [← Nat.cast_inj.mp value]⟩
    refine ⟨fun u first v second occurs occurs' => ?_, fun g greatest => ?_⟩
    · obtain ⟨i, at_⟩ := getElem?_of_mem occurs
      obtain ⟨g, greatest⟩ := places_greatest (p := (· ∈ search)) ⟨i, u, at_, first⟩
      exact Option.some.inj ((here greatest first occurs).2.symm.trans (here greatest second occurs').2)
    · obtain ⟨u, at_, inside⟩ := greatest.1
      obtain ⟨bound, mirror⟩ := indexOfAny_reverse greatest
      have value := mirrored.mirror ⟨g, greatest.1⟩
      rw [mirrored.greatest g greatest, mirror] at value
      have := wrap_lt (src.length - 1 - g : Nat)
      exact ⟨(here greatest inside (mem_of_getElem? at_)).1, by omega⟩
  · intro ⟨single, fit⟩
    have greatest {g : Nat} (last : IsGreatest (places src (· ∈ search)) g) : lastIndexAny src search = g := by
      rw [lastIndexAny_greatest single last, wrap_small (fit g last).1]
    refine ⟨fun g => greatest, lastIndexAny_absent, fun hit => ?_, fun other same => ⟨indexOfAny_congr same, ?_⟩⟩
    · obtain ⟨g, last⟩ := places_greatest hit
      obtain ⟨bound, mirror⟩ := indexOfAny_reverse last
      rw [greatest last, mirror, wrap_small (fit g last).2]
      omega
    · have places_ : places src (· ∈ other) = places src (· ∈ search) := by simp only [places, same]
      rcases (places src (· ∈ search)).eq_empty_or_nonempty with none_ | hit
      · rw [lastIndexAny_absent none_, lastIndexAny_absent (places_.trans none_)]
      · obtain ⟨g, last⟩ := places_greatest hit
        rw [greatest last, lastIndexAny_greatest (by simpa only [same] using single) (places_ ▸ last),
          wrap_small (fit g last).1]

/-- The first unit of the set that occurs is `a`, and there is a `b` behind it. -/
theorem lastIndexAny_first : lastIndexAny [97, 98] [97, 98] = 0 ∧ IsGreatest (places [97, 98] (· ∈ [97, 98])) 1 := by
  refine ⟨by decide, ⟨98, rfl, by decide⟩, fun i ⟨u, at_, _⟩ => ?_⟩
  exact Nat.le_of_lt_succ (List.getElem?_eq_some_iff.mp at_).1

/-- What `std::regex_search` finds in the text that is left: how much it skips and how long the match is. -/
structure Regex where
  search : List UInt8 → Option (Nat × Nat)
  inside : ∀ rest skip size, search rest = some (skip, size) → skip + size ≤ rest.length

/-- The loop of `FindAllFunc`, with `fuel` calls of `std::regex_search`; `none` when they do not suffice. -/
def findAllLoop (re : Regex) : Nat → List GcString → List UInt8 → Option (Except String (List GcString))
  | 0, _, _ => none
  | fuel + 1, arr, rest =>
    match re.search rest with
    | none => some (.ok arr)
    | some (skip, size) =>
      match gcNewString ((rest.drop skip).take size) with
      | none => some (.error "out of memory")
      | some item => findAllLoop re fuel (arr ++ [item]) (rest.drop (skip + size))

/-- The places at which the loop searches. -/
inductive Searched (re : Regex) (text : List UInt8) : List UInt8 → Prop
  | start : Searched re text text
  | next {rest skip size item} : Searched re text rest → re.search rest = some (skip, size) →
      gcNewString ((rest.drop skip).take size) = some item → Searched re text (rest.drop (skip + size))

variable {re : Regex} {text rest : List UInt8}

/-- After an empty match in front of the rest, the loop searches the same rest again. -/
theorem findAllLoop_stuck (empty : re.search rest = some (0, 0)) (fuel : Nat) (arr : List GcString) :
    findAllLoop re fuel arr rest = none := by
  induction fuel generalizing arr with
  | zero => rfl
  | succ fuel ih =>
    simp only [findAllLoop, empty, take_zero]
    exact ih _

/-- A loop that does not end from one place does not end from the places before. -/
theorem findAllLoop_searched (searched : Searched re text rest) (stuck : ∀ fuel arr, findAllLoop re fuel arr rest = none) :
    ∀ fuel arr, findAllLoop re fuel arr text = none := by
  induction searched with
  | start => exact stuck
  | next before found value ih =>
    refine ih fun fuel arr => ?_
    cases fuel with
    | zero => rfl
    | succ fuel => simp only [findAllLoop, found, value, stuck]

theorem findAllLoop_ends (moves : ∀ rest, Searched re text rest → re.search rest ≠ some (0, 0))
    (enough : rest.length < fuel) (searched : Searched re text rest) (arr : List GcString) :
    ∃ result, findAllLoop re fuel arr rest = some result := by
  induction fuel generalizing rest arr with
  | zero => omega
  | succ fuel ih =>
    rw [findAllLoop]
    cases found : re.search rest with
    | none => exact ⟨_, rfl⟩
    | some place =>
      obtain ⟨skip, size⟩ := place
      cases value : gcNewString ((rest.drop skip).take size) with
      | none => exact ⟨_, by simp only [value]; rfl⟩
      | some item =>
        have bound := re.inside rest skip size found
        have moved : 0 < skip + size := by
          by_contra still
          obtain ⟨rfl, rfl⟩ : skip = 0 ∧ size = 0 := by omega
          exact moves rest searched found
        simp only [value]
        exact ih (by rw [length_drop]; omega) (searched.next found value) _

/-- The loop ends within one match more than the text has bytes exactly when it never finds an empty match where it
searches. -/
theorem findAll_ends_iff (re : Regex) (text : List UInt8) :
    (∃ result, findAllLoop re (text.length + 2) [] text = some result) ↔
      ∀ rest, Searched re text rest → re.search rest ≠ some (0, 0) := by
  constructor
  · intro ⟨result, ends⟩ rest searched empty
    rw [findAllLoop_searched searched (findAllLoop_stuck empty)] at ends
    cases ends
  · intro moves
    exact findAllLoop_ends moves (by omega) .start []

/-- `x*` finds the units of its own at the beginning, and there may be none. -/
def xStar : Regex where
  search rest := some (0, (rest.takeWhile (· = char 'x')).length)
  inside rest skip size found := by
    cases found
    exact (Nat.zero_add _).le.trans (rest.takeWhile_prefix _).length_le

/-- The search for `x*` in `a` goes on without end. -/
theorem xStar_endless : ¬ ∃ fuel result, findAllLoop xStar fuel [] [char 'a'] = some result := by
  intro ⟨fuel, result, ends⟩
  rw [findAllLoop_stuck (by decide)] at ends
  cases ends

end FiberGateway.Script
