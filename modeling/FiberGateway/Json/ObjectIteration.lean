import FiberGateway.Json.ObjectMap

/-!
An iterator over an object that is changed meanwhile. It walks along `next_order` until it sees another version of the
object, and then copies the keys that its cursor still leads to.
-/

namespace FiberGateway.Json

open List

open OrderedTable (Slot content)

variable {α : Type}

/-- A `GcIterator` of an object. -/
structure ObjectIterator where
  mode : GcIteratorMode
  expectedVersion : Nat
  cursor : Option Nat
  usingSnapshot : Bool := false
  snapshotKeys : List GcString := []
  snapshotIndex : Nat := 0
  currentKey : Option GcString := none

/-- What `gc_iterator_next` returns by mode; a missing value is undefined. -/
inductive Yielded (α : Type)
  | key (key : GcString)
  | value (value : Option α)
  | entry (key : GcString) (value : Option α)

def gcNewObjectIterator (obj : ObjectTable α) (mode : GcIteratorMode) : ObjectIterator :=
  { mode := mode, expectedVersion := obj.version, cursor := obj.entries.head }

namespace ObjectIterator

/-- The keys along `next_order`. -/
def keysFrom (obj : ObjectTable α) : Nat → Option Nat → Option (List GcString)
  | _, none => some []
  | 0, some _ => none
  | fuel + 1, some cursor => do
    let node ← obj.entries.heap cursor
    let rest ← keysFrom obj fuel node.next
    return if node.data.occupied then node.data.key.toList ++ rest else rest

def buildObjectSnapshot (obj : ObjectTable α) (iter : ObjectIterator) : Option ObjectIterator := do
  let keys ← keysFrom obj obj.entryCapacity iter.cursor
  return { iter with usingSnapshot := true, snapshotKeys := keys, snapshotIndex := 0 }

/-- In every mode the key is the current one from now on. -/
def yield (iter : ObjectIterator) (key : GcString) (value : Option α) : Option (Yielded α) × ObjectIterator :=
  (some (match iter.mode with
    | .keys => .key key
    | .values => .value value
    | .entries => .entry key value), { iter with currentKey := some key })

/-- The loop over the entries; no value means that the iteration is done. -/
def walk (obj : ObjectTable α) (iter : ObjectIterator) : Nat → Option Nat → Option (Option (Yielded α) × ObjectIterator)
  | _, none => some (none, { iter with cursor := none })
  | 0, some _ => none
  | fuel + 1, some cursor => do
    let node ← obj.entries.heap cursor
    match node.data.occupied, node.data.key with
    | true, some key => return { iter with cursor := node.next }.yield key node.data.value
    | _, _ => walk obj iter fuel node.next

def nextOfSnapshot (obj : ObjectTable α) (iter : ObjectIterator) : Option (Option (Yielded α) × ObjectIterator) :=
  match iter.snapshotKeys[iter.snapshotIndex]? with
  | none => some (none, iter)
  | some key => do
    let value ← obj.gcObjectGet key
    return { iter with snapshotIndex := iter.snapshotIndex + 1 }.yield key value

def gcIteratorNext (obj : ObjectTable α) (iter : ObjectIterator) : Option (Option (Yielded α) × ObjectIterator) := do
  let iter := { iter with currentKey := none }
  let iter ← if !iter.usingSnapshot && iter.expectedVersion != obj.version then iter.buildObjectSnapshot obj else some iter
  if iter.usingSnapshot then iter.nextOfSnapshot obj else iter.walk obj obj.entryCapacity iter.cursor

end ObjectIterator

inductive IterationOp (α : Type)
  | set (key : GcString) (value : α)
  | remove (key : GcString)
  | next

inductive IterationEvent
  | changed
  | yielded (key : GcString)
  | done
  deriving DecidableEq

structure Iteration (α : Type) where
  obj : ObjectTable α
  iter : ObjectIterator

namespace Iteration

/-- One call. -/
def step (s : Iteration α) : IterationOp α → Option (IterationEvent × Iteration α)
  | .set key value => do
    let (_, obj) ← s.obj.gcObjectSet {} key value
    return (.changed, { s with obj := obj })
  | .remove key => do
    let (_, obj) ← s.obj.gcObjectRemove key
    return (.changed, { s with obj := obj })
  | .next => do
    match ← s.iter.gcIteratorNext s.obj with
    | (none, iter) => return (.done, { s with iter := iter })
    | (some _, iter) => return (.yielded (← iter.currentKey), { s with iter := iter })

/-- The state before the call number `n`. -/
def stateAt (start : Iteration α) (calls : Nat → IterationOp α) : Nat → Option (Iteration α)
  | 0 => some start
  | n + 1 => do
    let s ← stateAt start calls n
    let (_, s) ← s.step (calls n)
    return s

/-- The code units of the keys at some slots. -/
def names (obj : ObjectTable α) (ids : List Nat) : List (List UInt16) := (content obj.entries.data ids).map (·.1.units)

/-- The keys of the object. -/
def keys (s : Iteration α) : List (List UInt16) := (s.obj.toList.getD []).map (·.1.units)

/-- The keys that are still to come. -/
def pending (s : Iteration α) : List (List UInt16) :=
  if s.iter.usingSnapshot then (s.iter.snapshotKeys.drop s.iter.snapshotIndex).map (·.units)
  else ((ObjectIterator.keysFrom s.obj s.obj.entryCapacity s.iter.cursor).getD []).map (·.units)

/-- It falls with every key that is yielded, and never rises: the keys are copied at most once. -/
def rank (s : Iteration α) : ℕ ×ₗ ℕ :=
  if s.iter.usingSnapshot then toLex (0, s.pending.length)
  else if s.iter.expectedVersion = s.obj.version then toLex (2, s.pending.length)
  else toLex (1, 0)

/-- Until the keys are copied, the entry that the cursor is at is not removed. -/
def Calm (s : Iteration α) : IterationOp α → Prop
  | .remove key => s.iter.usingSnapshot = false → ∀ cursor slot other, s.iter.cursor = some cursor →
      s.obj.entries.data cursor = some slot → slot.key = some other → other.units ≠ key.units
  | _ => True

/-- The slots in use are those before the cursor and those from it on. -/
structure Inv (s : Iteration α) : Prop where
  laid : ∃ before rest free chain, s.obj.Laid (before ++ rest) free chain ∧
    (s.iter.usingSnapshot = false → s.iter.cursor = rest.head? ∧ s.iter.expectedVersion ≤ s.obj.version)
  distinct : s.pending.Nodup

/-- What one call means for the keys that are still to come. -/
structure Moves (s s' : Iteration α) (event : IterationEvent) : Prop where
  kept : ∀ key ∈ s.pending, key ∈ s'.keys → (∀ other, event = .yielded other → other.units ≠ key) → key ∈ s'.pending
  old : ∀ key ∈ s'.pending, key ∈ s.pending ∨ key ∉ s.keys
  yielded : ∀ other, event = .yielded other →
    other.units ∈ s.pending ∧ other.units ∉ s'.pending ∧ s'.rank < s.rank
  done : event = .done → s.pending = []
  rank : event ≠ .done → s'.rank ≤ s.rank

variable {s s' : Iteration α} {before rest free : List Nat} {chain chain' : Nat → List Nat}

variable {ids order xs ys before' rest' free' : List Nat} {obj obj' : ObjectTable α}

theorem keys_eq (laid : s.obj.Laid order free chain) : s.keys = names s.obj order := by
  rw [keys, laid.toList]
  rfl

theorem names_append : names obj (xs ++ ys) = names obj xs ++ names obj ys := by
  rw [names, OrderedTable.content_append, map_append]
  rfl

theorem names_cons {id : Nat} {entry : GcString × α} (held : (obj.entries.data id).bind Slot.entry = some entry) :
    names obj (id :: ids) = entry.1.units :: names obj ids := by
  rw [names, OrderedTable.content_cons, held]
  rfl

theorem names_congr
    (same : ∀ id ∈ ids, ((obj'.entries.data id).bind Slot.entry).map Prod.fst = ((obj.entries.data id).bind Slot.entry).map Prod.fst) :
    names obj' ids = names obj ids := by
  simp only [names, content, map_filterMap]
  refine filterMap_congr fun id member => ?_
  simpa only [Option.map_map, Function.comp_def] using congrArg (Option.map (·.units)) (same id member)

theorem keysFrom_eq {prev : Option Nat} {fuel : Nat} (spells : obj.entries.Spells prev ids none)
    (filled : ∀ id ∈ ids, ∃ slot entry, obj.entries.data id = some slot ∧ slot.occupied = true ∧ slot.entry = some entry)
    (enough : ids.length ≤ fuel) :
    ObjectIterator.keysFrom obj fuel ids.head? = some ((content obj.entries.data ids).map (·.1)) := by
  induction ids generalizing prev fuel with
  | nil => cases fuel <;> rfl
  | cons id rest ih =>
    obtain ⟨⟨data, there⟩, later⟩ := spells
    obtain ⟨slot, entry, found, occupied, holds⟩ := filled id mem_cons_self
    obtain rfl : data = slot := by simpa [LinkedQueue.Queue.data, there] using found
    obtain _ | fuel := fuel
    · cases enough
    have rest' := ih later (fun id member => filled id (mem_cons_of_mem _ member)) (Nat.le_of_succ_le_succ enough)
    rw [OrderedTable.content_cons, found, Option.bind_some, holds, List.head?_cons, ObjectIterator.keysFrom, there]
    simp [rest', occupied, (Slot.entry_eq_some.mp holds).1]

theorem keysFrom_laid (laid : obj.Laid (before ++ rest) free chain) :
    ObjectIterator.keysFrom obj obj.entryCapacity rest.head? = some ((content obj.entries.data rest).map (·.1)) := by
  refine keysFrom_eq (LinkedQueue.Queue.spells_append.mp laid.linked.spells).2 (fun id member => ?_) ?_
  · obtain ⟨slot, entry, there, occupied, holds, -⟩ := laid.filled id (mem_append_right _ member)
    exact ⟨slot, entry, there, occupied, holds⟩
  · have length := laid.length_le
    rw [length_append] at length
    omega

theorem pending_eq (laid : s.obj.Laid (before ++ rest) free chain) (walking : s.iter.usingSnapshot = false)
    (cursor : s.iter.cursor = rest.head?) : s.pending = names s.obj rest := by
  rw [pending, walking, if_neg Bool.false_ne_true, cursor, keysFrom_laid laid, Option.getD_some, List.map_map]
  rfl

theorem names_distinct (laid : obj.Laid (before ++ rest) free chain) : (names obj rest).Nodup := by
  have distinct : (names obj (before ++ rest)).Nodup := laid.distinct
  rw [names_append] at distinct
  exact (nodup_append.mp distinct).2.1

/-- A call that changes the object and keeps the place of the cursor. -/
theorem changed (inv : s.Inv)
    (laid : s.obj.Laid (before ++ rest) free chain)
    (walks : s.iter.usingSnapshot = false → s.iter.cursor = rest.head? ∧ s.iter.expectedVersion ≤ s.obj.version)
    (laid' : obj.Laid (before' ++ rest') free' chain') (version : s.obj.version ≤ obj.version)
    (place : s.iter.usingSnapshot = false → rest'.head? = rest.head?)
    (kept : ∀ key ∈ names s.obj rest, key ∈ names obj (before' ++ rest') → key ∈ names obj rest')
    (old : ∀ key ∈ names obj rest', key ∈ names s.obj rest ∨ key ∉ names s.obj (before ++ rest))
    (same : obj.version = s.obj.version → names obj rest' = names s.obj rest) :
    { s with obj := obj }.Inv ∧ s.Moves { s with obj := obj } .changed := by
  cases walking : s.iter.usingSnapshot with
  | true =>
    have copied : { s with obj := obj }.pending = s.pending := by simp [pending, walking]
    have rank : { s with obj := obj }.rank = s.rank := by simp [rank, walking, copied]
    refine ⟨⟨⟨before', rest', free', chain', laid', fun walks => nomatch walking.symm.trans walks⟩, copied ▸ inv.distinct⟩,
      fun _ member _ _ => copied ▸ member, fun _ member => .inl (copied ▸ member), nofun, nofun, fun _ => rank.le⟩
  | false =>
    obtain ⟨cursor, expected⟩ := walks walking
    have here := pending_eq laid walking cursor
    have there := pending_eq (s := { s with obj := obj }) laid' walking (cursor.trans (place walking).symm)
    refine ⟨⟨⟨before', rest', free', chain', laid', fun _ => ⟨cursor.trans (place walking).symm, expected.trans version⟩⟩,
      there ▸ names_distinct laid'⟩, ?_, ?_, nofun, nofun, fun _ => ?_⟩
    · rw [here, there, keys_eq (s := { s with obj := obj }) laid']
      exact fun key member present _ => kept key member present
    · rw [here, there, keys_eq laid]
      exact old
    · simp only [rank, walking, if_neg Bool.false_ne_true]
      by_cases equal : obj.version = s.obj.version
      · rw [there, same equal, ← here, equal]
      rw [if_neg (show ¬ s.iter.expectedVersion = obj.version by omega)]
      split
      · exact (Prod.Lex.toLex_lt_toLex.mpr (.inl Nat.one_lt_two)).le
      · exact le_refl _

theorem Inv.set (inv : s.Inv) (key : GcString) (value : α) :
    ∃ s', s.step (.set key value) = some (.changed, s') ∧ s'.Inv ∧ s.Moves s' .changed := by
  obtain ⟨before, rest, free, chain, laid, walks⟩ := inv.laid
  obtain ⟨done, obj, order', free', chain', set, laid', outcome⟩ := ObjectTable.gcObjectSet_laid laid {} key value
  refine ⟨{ s with obj := obj }, by simp [step, set], ?_⟩
  cases outcome with
  | overwritten found version written keys =>
    have same : names obj rest = names s.obj rest := names_congr fun id _ => keys id
    refine changed inv laid walks laid' version.ge (fun _ => rfl) ?_ ?_ fun _ => same
    · exact fun key member _ => same ▸ member
    · exact fun key member => .inl (same ▸ member)
  | @appended id new allocated version kept last =>
    have same : names obj rest = names s.obj rest :=
      names_congr fun id member => by rw [kept id (mem_append_right _ member)]
    -- a cursor at the end stays there
    obtain rfl | more := eq_or_ne rest []
    · have laid' : obj.Laid ((before ++ [] ++ [id]) ++ []) free' chain' := by simpa using laid'
      exact changed inv laid walks laid' (by omega) (fun _ => rfl) nofun nofun (by omega)
    have appended : names obj (rest ++ [id]) = names s.obj rest ++ [key.units] := by
      rw [names_append, same, names_cons last]
      rfl
    rw [append_assoc] at laid'
    refine changed inv laid walks laid' (by omega) (fun _ => List.head?_append_of_ne_nil _ more) ?_ ?_ (by omega)
    · exact fun key member _ => appended ▸ mem_append_left _ member
    · intro other member
      rw [appended] at member
      rcases mem_append.mp member with member | member
      · exact .inl member
      refine .inr fun present => ?_
      obtain ⟨entry, held, equal⟩ := mem_map.mp present
      exact new entry held (equal.trans (mem_singleton.mp member))
  | failed new fails kept => simp [ObjectTable.allocationFails] at fails

variable {key : GcString}

theorem Inv.remove (inv : s.Inv) (calm : s.Calm (.remove key)) :
    ∃ s', s.step (.remove key) = some (.changed, s') ∧ s'.Inv ∧ s.Moves s' .changed := by
  obtain ⟨before, rest, free, chain, laid, walks⟩ := inv.laid
  obtain ⟨-, new⟩ | ⟨id, member, entry, there, equal, -⟩ := ObjectTable.lookup_cases s.obj.entries.data (before ++ rest) key
  · have removed := laid.remove_of_new stringEquals_iff hashCodeUnits_congr new
    refine ⟨s, by simp [step, ObjectTable.gcObjectRemove, removed], ?_⟩
    exact changed inv laid walks laid le_rfl (fun _ => rfl) (fun _ member _ => member) (fun _ member => .inl member) fun _ => rfl
  have distinct : (names s.obj (before ++ rest)).Nodup := laid.distinct
  have stepped {obj : ObjectTable α} (removed : s.obj.remove stringEquals key (hashCodeUnits key) = some (true, obj)) :
      s.step (.remove key) = some (.changed, { s with obj := obj }) := by
    simp [step, ObjectTable.gcObjectRemove, removed]
  rcases mem_append.mp member with member | member
  · -- behind the cursor
    obtain ⟨xs, ys, rfl⟩ := append_of_mem member
    have split : xs ++ id :: ys ++ rest = xs ++ id :: (ys ++ rest) := by simp
    rw [split] at laid
    obtain ⟨obj, chain', removed, laid', version, kept⟩ := laid.remove_of_mem stringEquals_iff hashCodeUnits_congr there equal
    have same : names obj rest = names s.obj rest := names_congr fun id member => by rw [kept id (by simp [member])]
    rw [← append_assoc] at laid'
    exact ⟨_, stepped removed, changed inv (split ▸ laid) walks laid' (by omega) (fun _ => rfl) (fun _ member _ => same ▸ member)
      (fun _ member => .inl (same ▸ member)) fun _ => same⟩
  obtain ⟨xs, ys, rfl⟩ := append_of_mem member
  have gone : entry.1.units ∉ names s.obj (before ++ (xs ++ ys)) := by
    rw [← append_assoc, names_append, names_cons there] at distinct
    rw [← append_assoc, names_append]
    exact (nodup_cons.mp (nodup_middle.mp distinct)).1
  have laid₁ := laid
  rw [← append_assoc] at laid₁
  obtain ⟨obj, chain', removed, laid', version, kept⟩ := laid₁.remove_of_mem stringEquals_iff hashCodeUnits_congr there equal
  rw [append_assoc] at laid' kept
  have same : names obj (before ++ (xs ++ ys)) = names s.obj (before ++ (xs ++ ys)) :=
    names_congr fun id member => by rw [kept id member]
  have rest : names obj (xs ++ ys) = names s.obj (xs ++ ys) :=
    names_congr fun id member => by rw [kept id (mem_append_right _ member)]
  have split (other : List UInt16) : other ∈ names s.obj (xs ++ id :: ys) ↔
      other = entry.1.units ∨ other ∈ names s.obj (xs ++ ys) := by
    simp only [names_append, names_cons there, mem_append, mem_cons, or_left_comm]
  refine ⟨_, stepped removed, changed inv laid walks laid' (by omega) (fun walking => ?_) (fun other member present => ?_)
    (fun other member => .inl ((split other).mpr (.inr (rest ▸ member)))) (by omega)⟩
  · cases xs with
    | nil =>
      obtain ⟨slot, data, held⟩ := Option.bind_eq_some_iff.mp there
      exact absurd equal (calm walking id slot entry.1 (walks walking).1 data (Slot.entry_eq_some.mp held).1)
    | cons first xs => rfl
  · rw [rest]
    refine ((split other).mp member).resolve_left fun equal => gone ?_
    rw [← equal, ← same]
    exact present

theorem nextOfSnapshot_moves {iter : ObjectIterator} (laid : obj.Laid order free chain)
    (copied : iter.usingSnapshot = true) :
    ∃ out iter', iter.nextOfSnapshot obj = some (out, iter') ∧ iter'.usingSnapshot = true ∧
      (out = none ∧ (⟨obj, iter⟩ : Iteration α).pending = [] ∧ iter' = iter ∨
        out.isSome ∧ ∃ key, iter'.currentKey = some key ∧
          (⟨obj, iter⟩ : Iteration α).pending = key.units :: (⟨obj, iter'⟩ : Iteration α).pending) := by
  have rest {iter : ObjectIterator} (copied : iter.usingSnapshot = true) :
      (⟨obj, iter⟩ : Iteration α).pending = (iter.snapshotKeys.drop iter.snapshotIndex).map (·.units) := by
    simp [pending, copied]
  unfold ObjectIterator.nextOfSnapshot
  cases here : iter.snapshotKeys[iter.snapshotIndex]? with
  | none =>
    refine ⟨none, iter, rfl, copied, .inl ⟨rfl, ?_, rfl⟩⟩
    rw [rest copied, drop_eq_nil_of_le (List.getElem?_eq_none_iff.mp here), map_nil]
  | some key =>
    have got := ObjectTable.gcObjectGet_holds ⟨order, free, chain, laid, rfl⟩ key
    simp only [got, Option.bind_eq_bind, Option.bind_some]
    refine ⟨_, _, rfl, copied, .inr ⟨rfl, key, rfl, ?_⟩⟩
    obtain ⟨inside, rfl⟩ := List.getElem?_eq_some_iff.mp here
    rw [rest copied, drop_eq_getElem_cons inside, map_cons]
    symm
    exact congrArg _ (rest (by exact copied))

theorem walk_moves (iter : ObjectIterator) (laid : obj.Laid (before ++ rest) free chain)
    (walking : iter.usingSnapshot = false) (cursor : iter.cursor = rest.head?) :
    ∃ out iter', iter.walk obj obj.entryCapacity iter.cursor = some (out, iter') ∧ iter'.usingSnapshot = false ∧
      iter'.expectedVersion = iter.expectedVersion ∧
      (out = none ∧ (⟨obj, iter⟩ : Iteration α).pending = [] ∧ iter' = iter ∨
        out.isSome ∧ ∃ key before' rest', before ++ rest = before' ++ rest' ∧ iter'.cursor = rest'.head? ∧
          iter'.currentKey = some key ∧ (⟨obj, iter⟩ : Iteration α).pending = key.units :: names obj rest') := by
  rw [pending_eq laid walking cursor, cursor]
  cases rest with
  | nil =>
    have same : { iter with cursor := none } = iter := by rw [← show iter.cursor = none from cursor]
    exact ⟨none, iter, by rw [List.head?_nil, ObjectIterator.walk, same], walking, rfl, .inl ⟨rfl, rfl, rfl⟩⟩
  | cons id rest =>
    obtain ⟨data, there⟩ := laid.linked.node
    obtain ⟨slot, entry, found, occupied, holds, -⟩ := laid.filled id (by simp)
    obtain rfl : data = slot := by simpa [LinkedQueue.Queue.data, there] using found
    obtain ⟨fuel, enough⟩ : ∃ fuel, obj.entryCapacity = fuel + 1 := Nat.exists_eq_add_one.mpr (by
      have few := laid.length_le
      rw [length_append, length_cons] at few
      omega)
    refine ⟨({ iter with cursor := rest.head? }.yield entry.1 data.value).1,
      { iter with cursor := rest.head?, currentKey := some entry.1 }, ?_, walking, rfl,
      .inr ⟨rfl, entry.1, before ++ [id], rest, by simp, rfl, rfl, ?_⟩⟩
    · rw [enough, List.head?_cons, ObjectIterator.walk, there]
      simp only [Option.bind_eq_bind, Option.bind_some, occupied, (Slot.entry_eq_some.mp holds).1]
      rfl
    · rw [names_cons (by rw [found, Option.bind_some, holds])]

theorem Moves.of_first (distinct : s.pending.Nodup) (first : s.pending = key.units :: s'.pending)
    (rank : s'.rank < s.rank) : s.Moves s' (.yielded key) := by
  rw [first] at distinct
  refine ⟨fun other member _ apart => ?_, fun other member => .inl (first ▸ mem_cons_of_mem _ member), ?_, nofun, fun _ => rank.le⟩
  · rw [first] at member
    exact (mem_cons.mp member).resolve_left fun equal => apart key rfl equal.symm
  · rintro _ ⟨⟩
    exact ⟨first ▸ mem_cons_self, (nodup_cons.mp distinct).1, rank⟩

theorem Moves.of_empty (empty : s.pending = []) (still : s'.pending = []) : s.Moves s' .done :=
  ⟨by simp [empty], by simp [still], nofun, fun _ => empty, fun more => absurd rfl more⟩

theorem Inv.nextOfCopy (inv : s.Inv) (copy : ObjectIterator) (copied : copy.usingSnapshot = true)
    (same : { s with iter := copy }.pending = s.pending) (started : s.iter.gcIteratorNext s.obj = copy.nextOfSnapshot s.obj)
    (phase : ∀ n < s.pending.length, toLex (0, n) < s.rank) :
    ∃ event s', s.step .next = some (event, s') ∧ s'.Inv ∧ s.Moves s' event ∧ event ≠ .changed := by
  obtain ⟨before, rest, free, chain, laid, -⟩ := inv.laid
  obtain ⟨out, iter, done, copied', ⟨rfl, empty, rfl⟩ | ⟨more, key, current, first⟩⟩ := nextOfSnapshot_moves laid copied
  · refine ⟨.done, { s with iter := iter }, by simp [step, started, done], ?_, .of_empty (same ▸ empty) empty, nofun⟩
    exact ⟨⟨before, rest, free, chain, laid, fun walking => nomatch copied.symm.trans walking⟩, empty ▸ nodup_nil⟩
  obtain ⟨value, rfl⟩ := Option.isSome_iff_exists.mp more
  have distinct := inv.distinct
  have first' := same.symm.trans first
  refine ⟨.yielded key, { s with iter := iter }, by simp [step, started, done, current], ?_, .of_first distinct first' ?_, nofun⟩
  · rw [first'] at distinct
    exact ⟨⟨before, rest, free, chain, laid, fun walking => nomatch copied'.symm.trans walking⟩, (nodup_cons.mp distinct).2⟩
  · rw [rank, if_pos copied']
    exact phase _ (by rw [first', length_cons]; exact Nat.lt_succ_self _)

theorem Inv.next (inv : s.Inv) :
    ∃ event s', s.step .next = some (event, s') ∧ s'.Inv ∧ s.Moves s' event ∧ event ≠ .changed := by
  obtain ⟨before, rest, free, chain, laid, walks⟩ := inv.laid
  obtain ⟨obj, iter⟩ := s
  simp only at laid walks
  cases copied : iter.usingSnapshot with
  | true =>
    refine inv.nextOfCopy { iter with currentKey := none } copied rfl ?_ fun n fewer => ?_
    · simp [ObjectIterator.gcIteratorNext, copied]
    · rw [rank, if_pos copied]
      exact Prod.Lex.toLex_lt_toLex.mpr (.inr ⟨rfl, fewer⟩)
  | false =>
    obtain ⟨cursor, expected⟩ := walks copied
    by_cases version : iter.expectedVersion = obj.version
    · obtain ⟨out, iter', done, walking, same, outcome⟩ := walk_moves { iter with currentKey := none } laid copied cursor
      have started : iter.gcIteratorNext obj = some (out, iter') := by
        simpa [ObjectIterator.gcIteratorNext, copied, version] using done
      obtain ⟨rfl, empty, rfl⟩ | ⟨more, key, before', rest', split, place, current, first⟩ := outcome
      · refine ⟨.done, _, by simp only [step, started]; rfl, ?_, .of_empty empty empty, nofun⟩
        exact ⟨⟨before, rest, free, chain, laid, fun _ => ⟨cursor, expected⟩⟩, inv.distinct⟩
      obtain ⟨value, rfl⟩ := Option.isSome_iff_exists.mp more
      have later := pending_eq (s := ⟨obj, iter'⟩) (split ▸ laid) walking place
      have first' : (⟨obj, iter⟩ : Iteration α).pending = key.units :: (⟨obj, iter'⟩ : Iteration α).pending := later ▸ first
      refine ⟨.yielded key, ⟨obj, iter'⟩, by simp [step, started, current], ?_, .of_first inv.distinct first' ?_, nofun⟩
      · rw [split] at laid
        exact ⟨⟨before', rest', free, chain, laid, fun _ => ⟨place, same.le.trans expected⟩⟩, later ▸ names_distinct laid⟩
      · simp only [rank, copied, walking, same, version, if_neg Bool.false_ne_true, if_pos]
        exact Prod.Lex.toLex_lt_toLex.mpr (.inr ⟨rfl, by rw [first', length_cons]; exact Nat.lt_succ_self _⟩)
    · have keys := keysFrom_laid laid
      rw [← cursor] at keys
      refine inv.nextOfCopy { iter with
        currentKey := none, usingSnapshot := true, snapshotKeys := (content obj.entries.data rest).map (·.1),
        snapshotIndex := 0 } rfl ?_ ?_ fun n fewer => ?_
      · refine Eq.trans ?_ (pending_eq laid copied cursor).symm
        simp only [pending, if_pos, drop_zero, List.map_map]
        rfl
      · simp [ObjectIterator.gcIteratorNext, ObjectIterator.buildObjectSnapshot, copied, version, keys]
      · simp only [rank, copied, if_neg Bool.false_ne_true, if_neg version]
        exact Prod.Lex.toLex_lt_toLex.mpr (.inl Nat.zero_lt_one)

theorem Inv.step (inv : s.Inv) {op : IterationOp α} (calm : s.Calm op) :
    ∃ event s', s.step op = some (event, s') ∧ s'.Inv ∧ s.Moves s' event ∧ (op = .next → event ≠ .changed) := by
  cases op with
  | set key value =>
    obtain ⟨s', done, inv', moves⟩ := inv.set key value
    exact ⟨_, s', done, inv', moves, nofun⟩
  | remove key =>
    obtain ⟨s', done, inv', moves⟩ := inv.remove calm
    exact ⟨_, s', done, inv', moves, nofun⟩
  | next =>
    obtain ⟨event, s', done, inv', moves, next⟩ := inv.next
    exact ⟨event, s', done, inv', moves, fun _ => next⟩

section

variable {state : Nat → Iteration α} {event : Nat → IterationEvent}
  (moves : ∀ n, (state n).Moves (state (n + 1)) (event n))

include moves

variable {key : List UInt16} {n m : Nat}

end

/-- The iteration over an object, from the creation of the iterator on. -/
def begin (obj : ObjectTable α) (mode : GcIteratorMode) : Iteration α := ⟨obj, gcNewObjectIterator obj mode⟩

end Iteration

end FiberGateway.Json
