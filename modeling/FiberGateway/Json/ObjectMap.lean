import FiberGateway.Json.ObjectTable

namespace FiberGateway.Json

open Option

open OrderedTable (Slot content insert)

inductive ObjectOp (α : Type)
  | set (memory : Memory) (key : GcString) (value : α)
  | get (key : GcString)
  | remove (key : GcString)
  | reserve (memory : Memory) (expected : Nat)

inductive ObjectResult (α : Type)
  | done (ok : Bool)
  | found (value : Option α)

namespace ObjectTable

variable {α : Type}

def apply (obj : ObjectTable α) : ObjectOp α → Option (ObjectResult α × ObjectTable α)
  | .set memory key value => (obj.gcObjectSet memory key value).map fun (ok, obj) => (.done ok, obj)
  | .get key => (obj.gcObjectGet key).map fun value => (.found value, obj)
  | .remove key => (obj.gcObjectRemove key).map fun (ok, obj) => (.done ok, obj)
  | .reserve memory expected => (obj.gcObjectReserve memory expected).map fun (ok, obj) => (.done ok, obj)

/-- The calls on a new object, the latest one first, with what each has returned. -/
def run (capacity : Nat) : List (ObjectOp α) → Option (ObjectTable α × List (ObjectOp α × ObjectResult α))
  | [] => some (gcNewObject capacity, [])
  | op :: earlier => do
    let (obj, history) ← run capacity earlier
    let (result, obj) ← obj.apply op
    return (obj, (op, result) :: history)

/-- The present keys in the order in which they were inserted as new ones, each with its value. -/
def replay (history : List (ObjectOp α × ObjectResult α)) : List (GcString × α) :=
  history.foldr (fun call entries =>
    match call with
    | (.set _ key value, .done ok) => if ok then insert stringEquals key value entries else entries
    | (.remove key, .done ok) => if ok then entries.filter fun entry => !stringEquals entry.1 key else entries
    | _ => entries) []

/-- The last value set for a key and not removed since. -/
def lastSet (key : GcString) (history : List (ObjectOp α × ObjectResult α)) : Option α :=
  history.foldr (fun call value =>
    match call with
    | (.set _ other latest, .done ok) => if ok && stringEquals other key then some latest else value
    | (.remove other, .done ok) => if ok && stringEquals other key then none else value
    | _ => value) none

/-- What a call has to return. -/
def answer (obj : ObjectTable α) (history : List (ObjectOp α × ObjectResult α)) : ObjectOp α → ObjectResult α
  | .set memory key _ => .done ((lastSet key history).isSome || !allocationFails memory obj (obj.size + 1))
  | .get key => .found (lastSet key history)
  | .remove key => .done (lastSet key history).isSome
  | .reserve memory expected => .done (!allocationFails memory obj expected)

def lookup (key : GcString) (entries : List (GcString × α)) : Option α :=
  (entries.find? fun entry => stringEquals entry.1 key).map (·.2)

theorem lookup_cons (key : GcString) (entry : GcString × α) (entries : List (GcString × α)) :
    lookup key (entry :: entries) = if stringEquals entry.1 key then some entry.2 else lookup key entries := by
  rw [lookup, List.find?_cons]
  cases stringEquals entry.1 key <;> rfl

theorem stringEquals_congr {lhs rhs : GcString} (equal : stringEquals lhs rhs = true) (key : GcString) :
    stringEquals lhs key = stringEquals rhs key := by
  rw [stringEquals, stringEquals, (stringEquals_iff lhs rhs).mp equal]

theorem lookup_insert (key other : GcString) (value : α) (entries : List (GcString × α)) :
    lookup key (insert stringEquals other value entries) =
      if stringEquals other key then some value else lookup key entries := by
  induction entries with
  | nil => exact lookup_cons key (other, value) []
  | cons entry rest ih =>
    rw [OrderedTable.insert]
    split
    · rename_i equal
      rw [lookup_cons, lookup_cons, stringEquals_congr equal]
      split <;> rfl
    rename_i different
    rw [lookup_cons, lookup_cons, ih]
    split
    · rename_i here
      rw [if_neg fun equal => different ?_]
      rw [stringEquals_congr here, stringEquals_iff]
      exact ((stringEquals_iff _ _).mp equal).symm
    · rfl

theorem lookup_filter (key other : GcString) (entries : List (GcString × α)) :
    lookup key (entries.filter fun entry => !stringEquals entry.1 other) =
      if stringEquals other key then none else lookup key entries := by
  induction entries with
  | nil => simp [lookup]
  | cons entry rest ih =>
    rw [List.filter_cons, lookup_cons]
    by_cases equal : stringEquals entry.1 other = true
    · rw [if_neg (by simp [equal]), ih, stringEquals_congr equal]
      split <;> rfl
    · rw [if_pos (by simp [equal]), lookup_cons, ih]
      split
      · rename_i here
        rw [if_neg fun there => equal ?_]
        rw [stringEquals_congr here, stringEquals_iff]
        exact ((stringEquals_iff _ _).mp there).symm
      · rfl

theorem lookup_replay (key : GcString) (history : List (ObjectOp α × ObjectResult α)) :
    lookup key (replay history) = lastSet key history := by
  induction history with
  | nil => rfl
  | cons call earlier ih =>
    simp only [replay, lastSet, List.foldr_cons] at ih ⊢
    split
    · rename_i other value ok
      cases ok with
      | true => exact (lookup_insert ..).trans (by rw [ih]; rfl)
      | false => exact ih
    · rename_i other ok
      cases ok with
      | true => exact (lookup_filter ..).trans (by rw [ih]; rfl)
      | false => exact ih
    · exact ih

variable {obj : ObjectTable α} {entries : List (GcString × α)}

theorem Holds.size (holds : obj.Holds entries) : obj.size = entries.length := by
  obtain ⟨order, free, chain, laid, rfl⟩ := holds
  rw [laid.size, OrderedTable.length_content laid.filled_isSome]

theorem lookup_cases (data : Nat → Option (Slot GcString α)) (order : List Nat) (key : GcString) :
    (lookup key (content data order) = none ∧ ∀ entry ∈ content data order, entry.1.units ≠ key.units) ∨
      ∃ id ∈ order, ∃ entry, (data id).bind Slot.entry = some entry ∧ entry.1.units = key.units ∧
        lookup key (content data order) = some entry.2 := by
  rw [lookup]
  cases found : (content data order).find? fun entry => stringEquals entry.1 key with
  | none =>
    refine .inl ⟨rfl, fun entry member equal => ?_⟩
    exact List.find?_eq_none.mp found entry member ((stringEquals_iff _ _).mpr equal)
  | some entry =>
    have equal := List.find?_some (p := fun entry : GcString × α => stringEquals entry.1 key) found
    obtain ⟨id, member, there⟩ := List.mem_filterMap.mp (List.mem_of_find?_eq_some found)
    exact .inr ⟨id, member, entry, there, (stringEquals_iff _ _).mp equal, rfl⟩

theorem gcObjectGet_holds (holds : obj.Holds entries) (key : GcString) : obj.gcObjectGet key = some (lookup key entries) := by
  obtain ⟨order, free, chain, laid, rfl⟩ := holds
  obtain ⟨missing, new⟩ | ⟨id, member, entry, there, equal, found⟩ := lookup_cases obj.entries.data order key
  · simp [gcObjectGet, laid.find_of_new stringEquals_iff hashCodeUnits_congr new, missing]
  obtain ⟨slot, data, held⟩ := bind_eq_some_iff.mp there
  simp [gcObjectGet, laid.find_of_mem stringEquals_iff hashCodeUnits_congr member there equal, data, found,
    (Slot.entry_eq_some.mp held).2]

theorem gcObjectRemove_holds (holds : obj.Holds entries) (key : GcString) :
    ∃ obj', obj.gcObjectRemove key = some ((lookup key entries).isSome, obj') ∧
      obj'.Holds (if (lookup key entries).isSome then entries.filter fun entry => !stringEquals entry.1 key else entries) := by
  obtain ⟨order, free, chain, laid, rfl⟩ := holds
  obtain ⟨missing, new⟩ | ⟨id, member, entry, there, equal, found⟩ := lookup_cases obj.entries.data order key
  · rw [missing]
    exact ⟨obj, laid.remove_of_new stringEquals_iff hashCodeUnits_congr new, order, free, chain, laid, rfl⟩
  · obtain ⟨xs, ys, rfl⟩ := List.append_of_mem member
    obtain ⟨obj', chain', done, laid', version, kept⟩ :=
      laid.remove_of_mem stringEquals_iff hashCodeUnits_congr there equal
    rw [found]
    refine ⟨obj', done, xs ++ ys, id :: free, chain', laid', ?_⟩
    rw [OrderedTable.content_congr kept, isSome_some, if_pos rfl, OrderedTable.filter_of_mem stringEquals_iff laid.distinct there equal]

theorem entryFrom_eq {before : Option Nat} {ids : List Nat} {index fuel current : Nat}
    (spells : obj.entries.Spells before ids none) (filled : ∀ id ∈ ids, ((obj.entries.data id).bind Slot.entry).isSome)
    (enough : ids.length ≤ fuel) (reached : current ≤ index) :
    obj.entryFrom index fuel current ids.head? = some (content obj.entries.data ids)[index - current]? := by
  induction ids generalizing before fuel current with
  | nil => cases fuel <;> rfl
  | cons id rest ih =>
    obtain ⟨⟨slot, there⟩, later⟩ := spells
    have data : obj.entries.data id = some slot := by
      rw [LinkedQueue.Queue.data, there]
      rfl
    obtain ⟨entry, holds⟩ := isSome_iff_exists.mp (filled id List.mem_cons_self)
    obtain _ | fuel := fuel
    · cases enough
    rw [OrderedTable.content_cons, holds, List.head?_cons, entryFrom, there]
    rw [data, bind_some] at holds
    simp only [bind_eq_bind, bind_some, or_none]
    split
    · rename_i here
      simp [here, holds]
    · rename_i further
      rw [ih later (fun id member => filled id (List.mem_cons_of_mem _ member)) (Nat.le_of_succ_le_succ enough) (by omega)]
      obtain ⟨more, rfl⟩ : ∃ more, index = current + 1 + more := ⟨index - (current + 1), by omega⟩
      rw [show current + 1 + more - (current + 1) = more by omega, show current + 1 + more - current = more + 1 by omega]
      rfl

theorem gcObjectEntryAt_holds (holds : obj.Holds entries) (index : Nat) : obj.gcObjectEntryAt index = some entries[index]? := by
  have size := holds.size
  obtain ⟨order, free, chain, laid, rfl⟩ := holds
  rw [gcObjectEntryAt]
  split
  · rename_i beyond
    rw [List.getElem?_eq_none (by omega)]
  · rw [laid.linked.head]
    exact entryFrom_eq laid.linked.spells laid.filled_isSome laid.length_le (Nat.zero_le index)

theorem gcObjectReserve_holds (holds : obj.Holds entries) (memory : Memory) (expected : Nat) :
    ∃ obj', obj.gcObjectReserve memory expected = some (!allocationFails memory obj expected, obj') ∧ obj'.Holds entries := by
  obtain ⟨order, free, chain, laid, rfl⟩ := holds
  obtain ⟨obj', chain', done, laid', -, kept, -⟩ := gcObjectReserve_laid laid memory expected
  exact ⟨obj', done, order, free, chain', laid', OrderedTable.content_congr kept⟩

theorem gcObjectSet_answers (holds : obj.Holds entries) (memory : Memory) (key : GcString) (value : α) :
    ∃ ok obj', obj.gcObjectSet memory key value = some (ok, obj') ∧
      ok = ((lookup key entries).isSome || !allocationFails memory obj (obj.size + 1)) ∧
      obj'.Holds (if ok then insert stringEquals key value entries else entries) := by
  obtain ⟨order, free, chain, laid, rfl⟩ := holds
  obtain ⟨done, obj', order', free', chain', set, laid', outcome⟩ := gcObjectSet_laid laid memory key value
  refine ⟨done, obj', set, ?_⟩
  have absent (new : ∀ entry ∈ content obj.entries.data order, entry.1.units ≠ key.units) :
      (lookup key (content obj.entries.data order)).isSome = false := by
    obtain ⟨missing, -⟩ | ⟨id, member, entry, there, equal, -⟩ := lookup_cases obj.entries.data order key
    · rw [missing]
      rfl
    · exact absurd equal (new entry (List.mem_filterMap.mpr ⟨id, member, there⟩))
  cases outcome with
  | overwritten found version written keys =>
    obtain ⟨-, new⟩ | ⟨id, member, entry, there, equal, present⟩ := lookup_cases obj.entries.data order key
    · obtain ⟨entry, member, equal⟩ := found
      exact absurd equal (new entry member)
    · rw [present]
      exact ⟨rfl, order, free', chain', laid', written⟩
  | appended new allocated version kept last =>
    refine ⟨by rw [absent new, allocated]; rfl, _, free', chain', laid', ?_⟩
    rw [content_appended kept last, if_pos rfl, OrderedTable.insert_of_new stringEquals_iff new]
  | failed new fails kept =>
    exact ⟨by rw [absent new, fails]; rfl, order, free', chain', laid', OrderedTable.content_congr kept⟩

theorem apply_holds {history : List (ObjectOp α × ObjectResult α)} (holds : obj.Holds (replay history)) (op : ObjectOp α) :
    ∃ obj', obj.apply op = some (obj.answer history op, obj') ∧
      obj'.Holds (replay ((op, obj.answer history op) :: history)) := by
  cases op with
  | set memory key value =>
    obtain ⟨ok, obj', done, rfl, holds'⟩ := gcObjectSet_answers holds memory key value
    rw [lookup_replay] at done holds'
    exact ⟨obj', by rw [apply, done]; rfl, holds'⟩
  | get key => exact ⟨obj, by rw [apply, gcObjectGet_holds holds, lookup_replay]; rfl, holds⟩
  | remove key =>
    obtain ⟨obj', done, holds'⟩ := gcObjectRemove_holds holds key
    rw [lookup_replay] at done holds'
    exact ⟨obj', by rw [apply, done]; rfl, holds'⟩
  | reserve memory expected =>
    obtain ⟨obj', done, holds'⟩ := gcObjectReserve_holds holds memory expected
    exact ⟨obj', by rw [apply, done]; rfl, holds'⟩

theorem run_holds (capacity : Nat) (calls : List (ObjectOp α)) :
    ∃ obj history, run capacity calls = some (obj, history) ∧ history.map Prod.fst = calls ∧ obj.Holds (replay history) := by
  induction calls with
  | nil => exact ⟨gcNewObject capacity, [], rfl, rfl, gcNewObject_holds capacity⟩
  | cons op earlier ih =>
    obtain ⟨obj, history, done, same, holds⟩ := ih
    obtain ⟨obj', applied, holds'⟩ := apply_holds holds op
    exact ⟨obj', _, by simp [run, done, applied], by simp [same], holds'⟩

/-- An object is a map that remembers the order of insertion. -/
theorem object_is_ordered_map (capacity : Nat) (calls : List (ObjectOp α)) :
    ∃ (obj : ObjectTable α) (history : List (ObjectOp α × ObjectResult α)),
      run capacity calls = some (obj, history) ∧ history.map Prod.fst = calls ∧
      obj.toList = some (replay history) ∧ obj.size = (replay history).length ∧
      (∀ index, obj.gcObjectEntryAt index = some (replay history)[index]?) ∧
      (∀ key, obj.gcObjectGet key = some (lastSet key history)) ∧
      ∀ op, ∃ obj', obj.apply op = some (obj.answer history op, obj') := by
  obtain ⟨obj, history, done, same, holds⟩ := run_holds capacity calls
  refine ⟨obj, history, done, same, holds.toList, holds.size, gcObjectEntryAt_holds holds, fun key => ?_, fun op => ?_⟩
  · rw [gcObjectGet_holds holds, lookup_replay]
  · obtain ⟨obj', applied, -⟩ := apply_holds holds op
    exact ⟨obj', applied⟩

end ObjectTable

end FiberGateway.Json
