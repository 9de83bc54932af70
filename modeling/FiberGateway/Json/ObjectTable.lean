import FiberGateway.Json.JsGc
import FiberGateway.Lib.OrderedTable

/-!
The entries of a `GcObject` with their hash chains, over the values they hold. Of the heap an operation needs only
whether its allocations succeed.
-/

namespace FiberGateway.Json

def kFnvOffsetBasis : UInt64 := 14695981039346656037
def kFnvPrime : UInt64 := 1099511628211
def kMinBucketCount : Nat := 8
def kMaxLoadNumerator : Nat := 3
def kMaxLoadDenominator : Nat := 4

def hashCodeUnits (str : GcString) : UInt64 :=
  str.units.foldl (fun hash unit => (hash ^^^ unit.toUInt64) * kFnvPrime) kFnvOffsetBasis

/-- The code units are compared whatever the two encodings are. -/
def stringEquals (lhs rhs : GcString) : Bool := lhs.units == rhs.units

/-- The loop that doubles a capacity up to what is expected. -/
def doubleUntil (expected : Nat) : Nat → Nat → Nat
  | 0, capacity => capacity
  | fuel + 1, capacity => if capacity < expected then doubleUntil expected fuel (capacity * 2) else capacity

def nextPow2 (value : Nat) : Nat := doubleUntil value value 1

def bucketCountForEntries (entryCapacity : Nat) : Nat :=
  if entryCapacity = 0 then 0
  else
    let needed := (entryCapacity * kMaxLoadDenominator + kMaxLoadNumerator - 1) / kMaxLoadNumerator
    nextPow2 (if needed < kMinBucketCount then kMinBucketCount else needed)

abbrev ObjectTable (α : Type) := OrderedTable.Table GcString α

/-- Whether the arrays an operation may need can be allocated. -/
structure Memory where
  entries : Bool := true
  buckets : Bool := true

namespace ObjectTable

variable {α : Type}

def gcNewObject (capacity : Nat) : ObjectTable α :=
  OrderedTable.Table.grow { buckets := List.replicate (bucketCountForEntries capacity) none } capacity

def growEntries (memory : Memory) (obj : ObjectTable α) (capacity : Nat) : Bool × ObjectTable α :=
  if memory.entries then (true, obj.grow capacity) else (false, obj)

def rehashBuckets (memory : Memory) (obj : ObjectTable α) (count : Nat) : Option (Bool × ObjectTable α) :=
  if count = 0 then some (false, obj)
  else if memory.buckets then (obj.rehash count).map (true, ·)
  else some (false, obj)

def reserveEntries (memory : Memory) (obj : ObjectTable α) (expected : Nat) : Bool × ObjectTable α :=
  let capacity := if obj.entryCapacity ≠ 0 then obj.entryCapacity else 1
  if expected > capacity then growEntries memory obj (doubleUntil expected expected capacity)
  else if obj.entryCapacity = 0 ∧ expected > 0 then growEntries memory obj expected
  else (true, obj)

def gcObjectReserve (memory : Memory) (obj : ObjectTable α) (expected : Nat) : Option (Bool × ObjectTable α) :=
  match reserveEntries memory obj expected with
  | (false, obj) => some (false, obj)
  | (true, obj) =>
    let desired := bucketCountForEntries (max expected obj.size)
    if desired > obj.buckets.length then rehashBuckets memory obj desired
    else if obj.buckets.length = 0 ∧ desired > 0 then rehashBuckets memory obj desired
    else some (true, obj)

def gcObjectSet (memory : Memory) (obj : ObjectTable α) (key : GcString) (value : α) : Option (Bool × ObjectTable α) := do
  match ← obj.find stringEquals key (hashCodeUnits key) with
  | some existing =>
    let entries ← obj.entries.modifyData existing fun slot => { slot with value := some value }
    return (true, { obj with entries := entries })
  | none =>
    match ← gcObjectReserve memory obj (obj.size + 1) with
    | (false, obj) => return (false, obj)
    | (true, obj) =>
      if obj.buckets = [] ∨ obj.entryCapacity = 0 then return (false, obj)
      match ← obj.allocate with
      | (none, obj) => return (false, obj)
      | (some id, obj) =>
        let obj ← obj.link key (hashCodeUnits key) value id
        return (true, obj)

def gcObjectGet (obj : ObjectTable α) (key : GcString) : Option (Option α) := do
  match ← obj.find stringEquals key (hashCodeUnits key) with
  | none => return none
  | some id => return (← obj.entries.data id).value

def gcObjectRemove (obj : ObjectTable α) (key : GcString) : Option (Bool × ObjectTable α) :=
  obj.remove stringEquals key (hashCodeUnits key)

/-- The walk of `gc_object_entry_at` along `next_order`, up to the entry at `index`. -/
def entryFrom (obj : ObjectTable α) (index : Nat) : Nat → Nat → Option Nat → Option (Option (GcString × α))
  | _, _, none => some none
  | 0, _, some _ => none
  | fuel + 1, current, some cursor => do
    let node ← obj.entries.heap cursor
    if current = index then return node.data.entry else entryFrom obj index fuel (current + 1) node.next

def gcObjectEntryAt (obj : ObjectTable α) (index : Nat) : Option (Option (GcString × α)) :=
  if index ≥ obj.size then some none else obj.entryFrom index obj.entryCapacity 0 obj.entries.head

/-- An allocation that `gc_object_reserve` asks for fails. -/
def allocationFails (memory : Memory) (obj : ObjectTable α) (expected : Nat) : Bool :=
  (decide (obj.entryCapacity < expected) && !memory.entries) ||
    (decide (obj.buckets.length < bucketCountForEntries (max expected obj.size)) && !memory.buckets)

/-- The slots in use in their order, the free ones, and the chains of the buckets. -/
abbrev Laid (obj : ObjectTable α) (order free : List Nat) (chain : Nat → List Nat) : Prop :=
  OrderedTable.Sound hashCodeUnits GcString.units obj order free none chain

/-- What the entries say: the keys in order, each with its value. -/
def Holds (obj : ObjectTable α) (entries : List (GcString × α)) : Prop :=
  ∃ order free chain, obj.Laid order free chain ∧ OrderedTable.content obj.entries.data order = entries

end ObjectTable

theorem stringEquals_iff (lhs rhs : GcString) : stringEquals lhs rhs = true ↔ lhs.units = rhs.units := beq_iff_eq

theorem hashCodeUnits_congr (lhs rhs : GcString) (equal : lhs.units = rhs.units) : hashCodeUnits lhs = hashCodeUnits rhs := by
  rw [hashCodeUnits, hashCodeUnits, equal]

theorem le_doubleUntil (expected fuel capacity : Nat) : capacity ≤ doubleUntil expected fuel capacity := by
  induction fuel generalizing capacity with
  | zero => exact Nat.le_refl _
  | succ fuel ih =>
    rw [doubleUntil]
    split
    · exact (Nat.le_mul_of_pos_right _ (by decide)).trans (ih _)
    · exact Nat.le_refl _

theorem expected_le_doubleUntil {expected fuel capacity : Nat} (positive : 0 < capacity)
    (enough : expected ≤ capacity + fuel) : expected ≤ doubleUntil expected fuel capacity := by
  induction fuel generalizing capacity with
  | zero => exact enough
  | succ fuel ih =>
    rw [doubleUntil]
    split
    · exact ih (by omega) (by omega)
    · omega

theorem bucketCountForEntries_pos {entryCapacity : Nat} (positive : 0 < entryCapacity) :
    0 < bucketCountForEntries entryCapacity := by
  rw [bucketCountForEntries, if_neg (by omega)]
  exact Nat.lt_of_lt_of_le Nat.zero_lt_one (le_doubleUntil ..)

namespace ObjectTable

open OrderedTable (Slot Sound content insert)

variable {α : Type} {obj : ObjectTable α} {entries : List (GcString × α)}

theorem gcNewObject_holds (capacity : Nat) : (gcNewObject capacity : ObjectTable α).Holds [] := by
  have sound : Sound hashCodeUnits GcString.units
      ({ buckets := List.replicate (bucketCountForEntries capacity) none } : ObjectTable α) [] [] none fun _ => [] := by
    constructor
    case linked => exact ⟨List.nodup_nil, rfl, rfl, trivial⟩
    case chained =>
      intro bucket bound
      rw [List.length_replicate] at bound
      rw [List.getD_eq_getElem?_getD, List.getElem?_replicate_of_lt bound]
      exact Eq.refl none
    all_goals simp [LinkedQueue.Queue.data, OrderedTable.content, OrderedTable.Follows]
  exact ⟨[], [], _, (sound.grow (Nat.zero_le _)).1, rfl⟩

section

variable {order free : List Nat} {chain : Nat → List Nat}

theorem reserveEntries_eq (memory : Memory) (obj : ObjectTable α) (expected : Nat) :
    ∃ capacity, obj.entryCapacity ≤ capacity ∧ expected ≤ capacity ∧ reserveEntries memory obj expected =
      if obj.entryCapacity < expected then growEntries memory obj capacity else (true, obj) := by
  rw [reserveEntries]
  by_cases empty : obj.entryCapacity = 0
  · by_cases many : 1 < expected
    · refine ⟨doubleUntil expected expected 1, by omega, expected_le_doubleUntil Nat.one_pos (by omega), ?_⟩
      simp [empty, many, show 0 < expected by omega]
    · exact ⟨expected, by omega, Nat.le_refl _, by simp [empty, many]⟩
  · refine ⟨doubleUntil expected expected obj.entryCapacity, le_doubleUntil .., expected_le_doubleUntil (by omega) (by omega), ?_⟩
    simp [empty]

/-- Whatever is allocated, the entries stay; a call that succeeds has made room. -/
theorem gcObjectReserve_laid (laid : obj.Laid order free chain) (memory : Memory) (expected : Nat) :
    ∃ obj' chain', gcObjectReserve memory obj expected = some (!allocationFails memory obj expected, obj') ∧
      obj'.Laid order free chain' ∧ obj'.version = obj.version ∧
      (∀ id ∈ order, (obj'.entries.data id).bind Slot.entry = (obj.entries.data id).bind Slot.entry) ∧
      (allocationFails memory obj expected = false → 0 < expected → expected ≤ obj'.entryCapacity ∧ obj'.buckets ≠ []) := by
  obtain ⟨capacity, more, enough, reserved⟩ := reserveEntries_eq memory obj expected
  obtain ⟨laid₁, kept₁⟩ := laid.grow more
  by_cases failed : obj.entryCapacity < expected ∧ memory.entries = false
  · refine ⟨obj, chain, ?_, laid, rfl, fun _ _ => rfl, fun allocated => ?_⟩
    · simp [gcObjectReserve, reserved, growEntries, allocationFails, failed]
    · simp [allocationFails, failed] at allocated
  -- the entries are now enough, whether they were grown or not
  obtain ⟨obj₁, reserved, laid₁, kept₁, same₁, room⟩ : ∃ obj₁, reserveEntries memory obj expected = (true, obj₁) ∧
      obj₁.Laid order free chain ∧ (∀ id ∈ order, obj₁.entries.data id = obj.entries.data id) ∧
      obj₁ = { obj with entries := obj₁.entries, entryCapacity := obj₁.entryCapacity } ∧ expected ≤ obj₁.entryCapacity := by
    rw [reserved]
    split
    · rename_i needed
      have allocated : memory.entries = true := by simpa [needed] using failed
      exact ⟨obj.grow capacity, by simp [growEntries, allocated], laid₁, kept₁, rfl, enough⟩
    · rename_i full
      exact ⟨obj, rfl, laid, fun _ _ => rfl, rfl, Nat.le_of_not_lt full⟩
  have size : obj₁.size = obj.size := by rw [same₁]
  have buckets : obj₁.buckets = obj.buckets := by rw [same₁]
  have version : obj₁.version = obj.version := by rw [same₁]
  have fails : allocationFails memory obj expected =
      (decide (obj.buckets.length < bucketCountForEntries (max expected obj.size)) && !memory.buckets) := by
    rw [allocationFails, Bool.or_eq_right_iff_imp]
    intro grown
    exact absurd (by simpa using grown) failed
  simp only [gcObjectReserve, reserved, size, buckets, fails]
  split
  · rename_i needed
    rw [rehashBuckets, if_neg (by omega), decide_eq_true needed]
    cases memory.buckets with
    | true =>
      obtain ⟨obj₂, chain', done, laid₂, same₂, length, kept₂⟩ := laid₁.rehash (Nat.zero_lt_of_lt needed)
      refine ⟨obj₂, chain', by rw [if_pos rfl, done]; rfl, laid₂, ?_, fun id member => ?_, fun _ _ => ⟨?_, ?_⟩⟩
      · rw [same₂, version]
      · rw [kept₂ id member, kept₁ id member]
      · rw [same₂]
        exact room
      · exact List.ne_nil_of_length_pos (by omega)
    | false => exact ⟨obj₁, chain, rfl, laid₁, version, fun id member => by rw [kept₁ id member], nofun⟩
  · rename_i full
    rw [if_neg (by omega)]
    refine ⟨obj₁, chain, by simp [full], laid₁, version, fun id member => by rw [kept₁ id member], fun _ positive => ⟨room, ?_⟩⟩
    have desired := bucketCountForEntries_pos (positive.trans_le (Nat.le_max_left expected obj.size))
    rw [buckets]
    exact List.ne_nil_of_length_pos (by omega)

/-- What `gc_object_set` does: an entry is overwritten, or one is appended, or nothing visible happens. -/
inductive SetOutcome (memory : Memory) (key : GcString) (value : α) (obj obj' : ObjectTable α) (order : List Nat) :
    Bool → List Nat → Prop
  | overwritten (found : ∃ entry ∈ content obj.entries.data order, entry.1.units = key.units)
    (version : obj'.version = obj.version)
    (written : content obj'.entries.data order = insert stringEquals key value (content obj.entries.data order))
    (keys : ∀ id, ((obj'.entries.data id).bind Slot.entry).map Prod.fst = ((obj.entries.data id).bind Slot.entry).map Prod.fst) :
    SetOutcome memory key value obj obj' order true order
  | appended {id : Nat} (new : ∀ entry ∈ content obj.entries.data order, entry.1.units ≠ key.units)
    (allocated : allocationFails memory obj (obj.size + 1) = false) (version : obj'.version = obj.version + 1)
    (kept : ∀ id ∈ order, (obj'.entries.data id).bind Slot.entry = (obj.entries.data id).bind Slot.entry)
    (last : (obj'.entries.data id).bind Slot.entry = some (key, value)) :
    SetOutcome memory key value obj obj' order true (order ++ [id])
  | failed (new : ∀ entry ∈ content obj.entries.data order, entry.1.units ≠ key.units)
    (fails : allocationFails memory obj (obj.size + 1) = true)
    (kept : ∀ id ∈ order, (obj'.entries.data id).bind Slot.entry = (obj.entries.data id).bind Slot.entry) :
    SetOutcome memory key value obj obj' order false order

theorem gcObjectSet_laid (laid : obj.Laid order free chain) (memory : Memory) (key : GcString) (value : α) :
    ∃ done obj' order' free' chain', gcObjectSet memory obj key value = some (done, obj') ∧
      obj'.Laid order' free' chain' ∧ SetOutcome memory key value obj obj' order done order' := by
  by_cases found : ∃ entry ∈ content obj.entries.data order, entry.1.units = key.units
  · obtain ⟨entry, member, equal⟩ := found
    obtain ⟨id, member', there⟩ := List.mem_filterMap.mp member
    obtain ⟨entries, done, laid', written, keys⟩ := laid.overwrite stringEquals_iff member' there equal value
    refine ⟨true, { obj with entries := entries }, order, free, chain, ?_, laid',
      .overwritten ⟨entry, member, equal⟩ rfl written keys⟩
    simp [gcObjectSet, laid.find_of_mem stringEquals_iff hashCodeUnits_congr member' there equal, done]
  have new : ∀ entry ∈ content obj.entries.data order, entry.1.units ≠ key.units :=
    fun entry member equal => found ⟨entry, member, equal⟩
  have missed := laid.find_of_new stringEquals_iff hashCodeUnits_congr new
  obtain ⟨obj₁, chain₁, reserved, laid₁, version₁, kept₁, room⟩ := gcObjectReserve_laid laid memory (obj.size + 1)
  cases fails : allocationFails memory obj (obj.size + 1) with
  | true =>
    refine ⟨false, obj₁, order, free, chain₁, ?_, laid₁, .failed new fails kept₁⟩
    simp [gcObjectSet, missed, reserved, fails]
  | false =>
    obtain ⟨room, nonempty⟩ := room fails (Nat.succ_pos _)
    obtain ⟨obj₂, free₂, id, allocated, laid₂, buckets, version₂, kept₂⟩ := laid₁.allocate (laid.size ▸ room)
    have kept (id : Nat) (member : id ∈ order) :
        (obj₂.entries.data id).bind Slot.entry = (obj.entries.data id).bind Slot.entry := by
      rw [kept₂ id member, kept₁ id member]
    obtain ⟨obj₃, chain₃, done, laid₃, version₃, kept₃, last⟩ :=
      laid₂.link (buckets ▸ nonempty) (OrderedTable.content_congr kept ▸ new) value
    refine ⟨true, obj₃, order ++ [id], free₂, chain₃, ?_, laid₃, .appended new fails ?_ (fun id member => ?_) last⟩
    · have space : ¬ (obj₁.buckets = [] ∨ obj₁.entryCapacity = 0) := by
        rintro (empty | empty)
        · exact nonempty empty
        · omega
      simp [gcObjectSet, missed, reserved, fails, space, allocated, done]
    · rw [version₃, version₂, version₁]
    · rw [kept₃ id member, kept id member]

theorem content_appended {data data' : Nat → Option (Slot GcString α)} {id : Nat} {entry : GcString × α}
    (kept : ∀ id ∈ order, (data' id).bind Slot.entry = (data id).bind Slot.entry)
    (last : (data' id).bind Slot.entry = some entry) : content data' (order ++ [id]) = content data order ++ [entry] := by
  rw [OrderedTable.content_append, OrderedTable.content_congr kept, OrderedTable.content_cons, last]
  rfl

end

theorem gcObjectSet_holds (holds : obj.Holds entries) (key : GcString) (value : α) :
    ∃ obj', gcObjectSet {} obj key value = some (true, obj') ∧ obj'.Holds (insert stringEquals key value entries) := by
  obtain ⟨order, free, chain, laid, rfl⟩ := holds
  obtain ⟨done, obj', order', free', chain', set, laid', outcome⟩ := gcObjectSet_laid laid {} key value
  cases outcome with
  | overwritten found version written keys => exact ⟨obj', set, order, free', chain', laid', written⟩
  | appended new allocated version kept last =>
    refine ⟨obj', set, _, free', chain', laid', ?_⟩
    rw [content_appended kept last, OrderedTable.insert_of_new stringEquals_iff new]
  | failed new fails kept => simp [allocationFails] at fails

theorem Holds.toList (holds : obj.Holds entries) : obj.toList = some entries := by
  obtain ⟨order, free, chain, laid, rfl⟩ := holds
  exact laid.toList

end ObjectTable

end FiberGateway.Json
