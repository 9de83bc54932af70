import FiberGateway.Http2.Stream

/-!
`Http2StreamTable` on its array of buckets, and the finite map of bounded size that it is. A read outside the array
and a loop that does not end have no result.
-/

namespace FiberGateway.Http2

open List LinearProbing Function

open Option (map_some bind_eq_bind bind_some)

variable {α : Type}

/-- A bucket; in place of the pointer to a stream stands what it points at. -/
structure Bucket (α : Type) where
  streamId : UInt32 := 0
  stream : Option α := none

structure Http2StreamTable (α : Type) where
  buckets : Option (List (Bucket α)) := none
  bucketCount : Nat := 0
  size : Nat := 0
  maxActiveStreams : Nat := 0

namespace Http2StreamTable

def kSizeMax : Nat := 2 ^ 64 - 1

/-- Once the doubled value is zero the loop goes on for ever. -/
def nextPow2Loop (value : Nat) : Nat → Nat → Option Nat
  | 0, _ => none
  | fuel + 1, out => if out < value then nextPow2Loop value fuel (out * 2 % 2 ^ 64) else some out

def nextPow2 (value : Nat) : Option Nat := if value ≤ 1 then some 1 else nextPow2Loop value 65 1

def clear (_ : Http2StreamTable α) : Http2StreamTable α := {}

/-- `memory` says whether the array can be allocated. -/
def init (t : Http2StreamTable α) (maxActiveStreams : Nat) (memory : Bool) : Option (Bool × Http2StreamTable α) :=
  let t := { t.clear with maxActiveStreams := maxActiveStreams }
  if maxActiveStreams = 0 then some (true, t)
  else if maxActiveStreams > kSizeMax / 2 then some (false, t)
  else do
    let bucketCount ← nextPow2 (maxActiveStreams * 2)
    if memory then
      return (true, { t with bucketCount := bucketCount, buckets := some (List.replicate bucketCount {}) })
    else return (false, { t with bucketCount := 0, maxActiveStreams := 0 })

def hashStreamId (streamId : UInt32) : Nat :=
  let value := streamId * 2654435761
  (value ^^^ (value >>> 16)).toNat

def mask (t : Http2StreamTable α) : Nat := t.bucketCount - 1

def probeDistance (t : Http2StreamTable α) (start stop : Nat) : Nat :=
  if stop ≥ start then stop - start else t.bucketCount - start + stop

def shouldShiftBucket (t : Http2StreamTable α) (hole current home : Nat) : Bool :=
  t.probeDistance home hole < t.probeDistance home current

def findSlotLoop (t : Http2StreamTable α) (buckets : List (Bucket α)) (streamId : UInt32) : Nat → Nat → Option Nat
  | 0, _ => some t.bucketCount
  | left + 1, idx => do
    let bucket ← buckets[idx]?
    if bucket.stream.isNone then return t.bucketCount
    else if bucket.streamId = streamId then return idx
    else findSlotLoop t buckets streamId left ((idx + 1) &&& t.mask)

def findSlot (t : Http2StreamTable α) (streamId : UInt32) : Option Nat :=
  match t.buckets with
  | none => some t.bucketCount
  | some buckets =>
    if t.bucketCount = 0 then some t.bucketCount
    else t.findSlotLoop buckets streamId t.bucketCount (hashStreamId streamId &&& t.mask)

/-- The stream of a slot that `find_slot` returned. -/
def streamAt (t : Http2StreamTable α) (slot : Nat) : Option (Option α) := do
  let buckets ← t.buckets
  let bucket ← buckets[slot]?
  return bucket.stream

def find (t : Http2StreamTable α) (streamId : UInt32) : Option (Option α) := do
  let slot ← t.findSlot streamId
  if slot = t.bucketCount then return none else t.streamAt slot

def insertLoop (t : Http2StreamTable α) (buckets : List (Bucket α)) (streamId : UInt32) (stream : α) :
    Nat → Nat → Option (Bool × Http2StreamTable α)
  | 0, _ => some (false, t)
  | left + 1, idx => do
    let bucket ← buckets[idx]?
    if bucket.stream.isNone then
      return (true, { t with buckets := some (buckets.set idx ⟨streamId, some stream⟩), size := t.size + 1 })
    else if bucket.streamId = streamId then return (false, t)
    else insertLoop t buckets streamId stream left ((idx + 1) &&& t.mask)

/-- `streamId` is the stream's own id. -/
def insert (t : Http2StreamTable α) (streamId : UInt32) (stream : α) : Option (Bool × Http2StreamTable α) :=
  match t.buckets with
  | none => some (false, t)
  | some buckets =>
    if t.bucketCount = 0 ∨ t.size ≥ t.maxActiveStreams then some (false, t)
    else t.insertLoop buckets streamId stream t.bucketCount (hashStreamId streamId &&& t.mask)

def eraseLoop (t : Http2StreamTable α) : Nat → List (Bucket α) → Nat → Nat → Option (List (Bucket α))
  | 0, _, _, _ => none
  | fuel + 1, buckets, hole, current => do
    let bucket ← buckets[current]?
    if bucket.stream.isSome then
      let home := hashStreamId bucket.streamId &&& t.mask
      if t.shouldShiftBucket hole current home then
        eraseLoop t fuel (buckets.set hole bucket) current ((current + 1) &&& t.mask)
      else eraseLoop t fuel buckets hole ((current + 1) &&& t.mask)
    else return buckets.set hole {}

/-- The loop is given as many turns as there are buckets. -/
def eraseAt (t : Http2StreamTable α) (index : Nat) : Option (Http2StreamTable α) := do
  let buckets ← t.buckets
  let buckets ← t.eraseLoop t.bucketCount buckets index ((index + 1) &&& t.mask)
  return { t with buckets := some buckets, size := t.size - 1 }

def erase (t : Http2StreamTable α) (streamId : UInt32) : Option (Option α × Http2StreamTable α) := do
  let slot ← t.findSlot streamId
  if slot = t.bucketCount then return (none, t)
  else
    let stream ← t.streamAt slot
    let t ← t.eraseAt slot
    return (stream, t)

/-- The streams `for_each` visits, in this order. -/
def forEach (t : Http2StreamTable α) : List α :=
  match t.buckets with
  | none => []
  | some buckets => (buckets.take t.bucketCount).filterMap (·.stream)

end Http2StreamTable

inductive TableCall (α : Type)
  | insert (streamId : UInt32) (stream : α)
  | erase (streamId : UInt32)
  | find (streamId : UInt32)

inductive TableAnswer (α : Type)
  | inserted (done : Bool)
  | stream (found : Option α)

namespace Http2StreamTable

def call (t : Http2StreamTable α) : TableCall α → Option (TableAnswer α × Http2StreamTable α)
  | .insert streamId stream => (t.insert streamId stream).map fun (done, t) => (.inserted done, t)
  | .erase streamId => (t.erase streamId).map fun (stream, t) => (.stream stream, t)
  | .find streamId => (t.find streamId).map fun stream => (.stream stream, t)

def run (t : Http2StreamTable α) : List (TableCall α) → Option (List (TableAnswer α) × Http2StreamTable α)
  | [] => some ([], t)
  | first :: rest => do
    let (answer, t) ← t.call first
    let (answers, t) ← t.run rest
    return (answer :: answers, t)

end Http2StreamTable

/-- A finite map from stream ids. -/
abbrev StreamMap (α : Type) := UInt32 → Option α

namespace StreamMap

def stored (m : StreamMap α) : Set UInt32 := {streamId | m streamId ≠ none}

open Classical in
/-- What a call answers and leaves when at most `n` streams are taken. -/
noncomputable def call (n : Nat) (m : StreamMap α) : TableCall α → TableAnswer α × StreamMap α
  | .insert streamId stream =>
    if m streamId = none ∧ m.stored.ncard < n then (.inserted true, update m streamId (some stream))
    else (.inserted false, m)
  | .erase streamId => (.stream (m streamId), update m streamId none)
  | .find streamId => (.stream (m streamId), m)

noncomputable def run (n : Nat) (m : StreamMap α) : List (TableCall α) → List (TableAnswer α) × StreamMap α
  | [] => ([], m)
  | first :: rest => ((m.call n first).1 :: ((m.call n first).2.run n rest).1, ((m.call n first).2.run n rest).2)

end StreamMap

def Bucket.slot (bucket : Bucket α) : Option (Nat × α) := bucket.stream.map fun stream => (bucket.streamId.toNat, stream)

namespace Http2StreamTable

open LinearProbing (slot next)

/-- The array holds what a table of linear probing holds. -/
structure Mirrors (t : Http2StreamTable α) (table : LinearProbing.Table α Http2.hashStreamId)
    (buckets : List (Bucket α)) : Prop where
  there : t.buckets = some buckets
  slots : table.slots = buckets.map Bucket.slot
  count : t.bucketCount = buckets.length
  power : ∃ k, buckets.length = 2 ^ k
  size : t.size = table.size
  limit : t.maxActiveStreams = table.limit

theorem hashStreamId_eq (streamId : UInt32) : hashStreamId streamId = Http2.hashStreamId streamId.toNat := by
  simp [hashStreamId, Http2.hashStreamId]

theorem slot_map (buckets : List (Bucket α)) (i : Nat) :
    slot (buckets.map Bucket.slot) i = (buckets[i]?).bind Bucket.slot := by
  rw [slot, List.getElem?_map]
  cases buckets[i]? <;> rfl

variable {t t₀ : Http2StreamTable α} {buckets : List (Bucket α)}

theorem and_mask (count : t.bucketCount = buckets.length) (power : ∃ k, buckets.length = 2 ^ k) (value : Nat) :
    value &&& t.mask = value % buckets.length := by
  obtain ⟨k, length⟩ := power
  rw [mask, count, length, Nat.and_two_pow_sub_one_eq_mod]

variable {idx left i hole current stop : Nat}

theorem succ_and_mask (count : t.bucketCount = buckets.length) (power : ∃ k, buckets.length = 2 ^ k)
    (inside : idx < buckets.length) : (idx + 1) &&& t.mask = next buckets.length idx := by
  rw [and_mask count power, LinearProbing.next]
  split
  · rename_i more
    exact Nat.mod_eq_of_lt more
  · rename_i last
    have full : idx + 1 = buckets.length := by omega
    rw [full, Nat.mod_self]

theorem bucket_cases (inside : i < buckets.length) :
    ∃ bucket, buckets[i]? = some bucket ∧ slot (buckets.map Bucket.slot) i = bucket.slot := by
  refine ⟨buckets[i], List.getElem?_eq_getElem inside, ?_⟩
  rw [slot_map, List.getElem?_eq_getElem inside]
  rfl

theorem findSlotLoop_eq (count : t.bucketCount = buckets.length) (power : ∃ k, buckets.length = 2 ^ k)
    (streamId : UInt32) (inside : idx < buckets.length) :
    t.findSlotLoop buckets streamId left idx =
      some ((LinearProbing.findSlot (buckets.map Bucket.slot) streamId.toNat left idx).getD t.bucketCount) := by
  induction left generalizing idx with
  | zero => rfl
  | succ left ih =>
    obtain ⟨⟨id, stream⟩, read, held⟩ := bucket_cases inside
    have later := ih (LinearProbing.next_lt (i := idx) (Nat.zero_lt_of_lt inside))
    rw [findSlotLoop, read, LinearProbing.findSlot, held, length_map, succ_and_mask count power inside]
    cases stream with
    | none => rfl
    | some stream =>
      simp only [Bucket.slot, map_some, bind_eq_bind, bind_some, UInt32.toNat_inj, later]
      by_cases same : id = streamId
      · simp [same]
      · simp [same]

theorem insertLoop_eq (count : t.bucketCount = buckets.length) (power : ∃ k, buckets.length = 2 ^ k)
    (streamId : UInt32) (stream : α) (inside : idx < buckets.length) :
    t.insertLoop buckets streamId stream left idx =
      match LinearProbing.freeSlot (buckets.map Bucket.slot) streamId.toNat left idx with
      | none => some (false, t)
      | some free =>
        some (true, { t with buckets := some (buckets.set free ⟨streamId, some stream⟩), size := t.size + 1 }) := by
  induction left generalizing idx with
  | zero => rfl
  | succ left ih =>
    obtain ⟨⟨id, held'⟩, read, held⟩ := bucket_cases inside
    have later := ih (LinearProbing.next_lt (i := idx) (Nat.zero_lt_of_lt inside))
    rw [insertLoop, read, LinearProbing.freeSlot, held, length_map, succ_and_mask count power inside]
    cases held' with
    | none => rfl
    | some other =>
      simp only [Bucket.slot, map_some, bind_eq_bind, bind_some, UInt32.toNat_inj, later]
      by_cases same : id = streamId
      · simp [same]
      · simp [same]

/-- The loop ends at the first empty bucket, and does what back-shifting does. -/
theorem eraseLoop_eq (home : Nat → Nat) (fuel : Nat) (power : ∃ k, buckets.length = 2 ^ k)
    (count : t.bucketCount = buckets.length)
    (homes : ∀ streamId : UInt32, hashStreamId streamId &&& t.mask = home streamId.toNat)
    (inside : current < buckets.length) (filled : slot (buckets.map Bucket.slot) hole ≠ none)
    (stop_lt : stop < buckets.length) (empty : slot (buckets.map Bucket.slot) stop = none)
    (enough : LinearProbing.probeDistance buckets.length current stop < fuel) :
    ∃ after, t.eraseLoop fuel buckets hole current = some after ∧ after.length = buckets.length ∧
      after.map Bucket.slot = LinearProbing.backShift home fuel (buckets.map Bucket.slot) hole current := by
  induction fuel generalizing buckets hole current with
  | zero => omega
  | succ fuel ih =>
    obtain ⟨⟨id, stream⟩, read, held⟩ := bucket_cases inside
    have forward := succ_and_mask count power inside
    have next_lt : next buckets.length current < buckets.length := LinearProbing.next_lt (Nat.zero_lt_of_lt inside)
    rw [eraseLoop, read, LinearProbing.backShift, held, length_map, forward]
    cases stream with
    | none => exact ⟨_, rfl, length_set, by rw [map_set]; rfl⟩
    | some stream =>
      have here : current ≠ stop := by
        rintro rfl
        rw [held] at empty
        cases empty
      have closer := LinearProbing.probeDistance_next_left inside stop_lt here
      have distance (a b : Nat) : t.probeDistance a b = LinearProbing.probeDistance buckets.length a b := by
        rw [probeDistance, LinearProbing.probeDistance, count]
      simp only [Bucket.slot, map_some, bind_eq_bind, bind_some, Option.isSome_some, if_true, homes,
        shouldShiftBucket, distance, decide_eq_true_eq]
      split
      · rename_i across
        have moved : (buckets.map Bucket.slot).set hole (some (id.toNat, stream)) =
            (buckets.set hole ⟨id, some stream⟩).map Bucket.slot := by
          rw [map_set]
          rfl
        have hole_lt : hole < buckets.length := by
          by_contra outside
          refine filled ?_
          rw [slot_map, List.getElem?_eq_none (Nat.le_of_not_lt outside)]
          rfl
        have apart : hole ≠ current := by
          rintro rfl
          exact Nat.lt_irrefl _ across
        have stays {i : Nat} (other : hole ≠ i) :
            slot ((buckets.set hole ⟨id, some stream⟩).map Bucket.slot) i = slot (buckets.map Bucket.slot) i := by
          rw [slot_map, slot_map, List.getElem?_set_ne other]
        have different : hole ≠ stop := by
          rintro rfl
          exact filled empty
        have filled' : slot ((buckets.set hole ⟨id, some stream⟩).map Bucket.slot) current ≠ none := by
          rw [stays apart, held]
          exact Option.some_ne_none _
        have empty' : slot ((buckets.set hole ⟨id, some stream⟩).map Bucket.slot) stop = none := by
          rw [stays different, empty]
        rw [moved, ← (length_set : (buckets.set hole ⟨id, some stream⟩).length = _)]
        refine ih ?_ ?_ ?_ filled' ?_ empty' ?_ <;> rw [length_set]
        · exact power
        · exact count
        · exact next_lt
        · exact stop_lt
        · omega
      · exact ih power count next_lt filled stop_lt empty (by omega)

namespace Mirrors

variable {table : LinearProbing.Table α Http2.hashStreamId}

section

variable (mirrors : Mirrors t table buckets)

include mirrors

theorem home (streamId : UInt32) : hashStreamId streamId &&& t.mask = table.home streamId.toNat := by
  rw [and_mask mirrors.count mirrors.power, hashStreamId_eq, Table.home, mirrors.slots, length_map]

theorem positive : 0 < buckets.length := by
  obtain ⟨k, length⟩ := mirrors.power
  rw [length]
  exact Nat.two_pow_pos k

theorem home_lt (key : Nat) : table.home key < buckets.length := by
  have bound := table.home_lt key (i := 0) (by rw [mirrors.slots, length_map]; exact mirrors.positive)
  rwa [mirrors.slots, length_map] at bound

theorem findSlot_eq (streamId : UInt32) :
    t.findSlot streamId = some ((LinearProbing.findSlot table.slots streamId.toNat table.slots.length
      (table.home streamId.toNat)).getD t.bucketCount) := by
  have length : table.slots.length = t.bucketCount := by rw [mirrors.slots, length_map, mirrors.count]
  have filled : t.bucketCount ≠ 0 := by
    rw [mirrors.count]
    exact Nat.ne_of_gt mirrors.positive
  rw [findSlot, mirrors.there]
  simp only [if_neg filled]
  rw [mirrors.home, findSlotLoop_eq mirrors.count mirrors.power streamId (mirrors.home_lt _), ← mirrors.slots, length]

variable {i key : Nat}

theorem streamAt_eq {stream : α} (held : slot table.slots i = some (key, stream)) :
    t.streamAt i = some (some stream) := by
  rw [mirrors.slots, slot_map] at held
  obtain ⟨bucket, read, entry⟩ := Option.bind_eq_some_iff.mp held
  obtain ⟨stream', there, same⟩ := Option.map_eq_some_iff.mp entry
  cases same
  simp [streamAt, mirrors.there, read, there]

theorem found_lt {entry : Nat × α} (held : slot table.slots i = some entry) : i ≠ t.bucketCount := by
  have inside := LinearProbing.slot_lt held
  rw [mirrors.slots, length_map, ← mirrors.count] at inside
  exact Nat.ne_of_lt inside

theorem find_eq (streamId : UInt32) : t.find streamId = some (table.find streamId.toNat) := by
  rw [find, mirrors.findSlot_eq, Table.find]
  cases run : LinearProbing.findSlot table.slots streamId.toNat table.slots.length (table.home streamId.toNat) with
  | none => simp
  | some i =>
    obtain ⟨stream, held⟩ := LinearProbing.findSlot_sound run
    simp [mirrors.found_lt held, mirrors.streamAt_eq held, held]

theorem insert_eq (streamId : UInt32) (stream : α) :
    ∃ done t' table' buckets', t.insert streamId stream = some (done, t') ∧ Mirrors t' table' buckets' ∧
      ((done = true ∧ table.insert streamId.toNat stream = some table') ∨
        (done = false ∧ table.insert streamId.toNat stream = none ∧ t' = t ∧ table' = table)) := by
  have filled : t.bucketCount ≠ 0 := by
    rw [mirrors.count]
    exact Nat.ne_of_gt mirrors.positive
  have length : table.slots.length = t.bucketCount := by rw [mirrors.slots, length_map, mirrors.count]
  rw [insert, mirrors.there]
  by_cases full : t.size ≥ t.maxActiveStreams
  · refine ⟨false, t, table, buckets, by simp [full], mirrors, .inr ⟨rfl, ?_, rfl, rfl⟩⟩
    unfold Table.insert
    rw [dif_pos (by rw [← mirrors.size, ← mirrors.limit]; exact full)]
  simp only [filled, full, or_self, if_false]
  rw [mirrors.home, insertLoop_eq mirrors.count mirrors.power streamId stream (mirrors.home_lt _), ← mirrors.slots]
  cases run : LinearProbing.freeSlot table.slots streamId.toNat t.bucketCount (table.home streamId.toNat) with
  | none =>
    rw [← length] at run
    exact ⟨false, t, table, buckets, rfl, mirrors, .inr ⟨rfl, Table.insert_of_no_free stream run, rfl, rfl⟩⟩
  | some free =>
    rw [← length] at run
    have room : table.size < table.limit := by
      rw [← mirrors.size, ← mirrors.limit]
      omega
    obtain ⟨table', inserted, slots, size, limit⟩ := Table.insert_of_free stream room run
    refine ⟨true, _, table', buckets.set free ⟨streamId, some stream⟩, rfl, ?_, .inl ⟨rfl, inserted⟩⟩
    constructor
    case there => rfl
    case slots =>
      rw [slots, mirrors.slots, map_set]
      rfl
    case count => rw [length_set]; exact mirrors.count
    case power => rw [length_set]; exact mirrors.power
    case size => rw [size, ← mirrors.size]
    case limit => rw [limit]; exact mirrors.limit

theorem erase_eq (streamId : UInt32) : ∃ t' buckets', t.erase streamId = some (table.find streamId.toNat, t') ∧
      Mirrors t' (table.erase streamId.toNat) buckets' := by
  rw [erase, mirrors.findSlot_eq, Table.find]
  cases run : LinearProbing.findSlot table.slots streamId.toNat table.slots.length (table.home streamId.toNat) with
  | none =>
    refine ⟨t, buckets, by simp, ?_⟩
    rw [Table.erase_of_no_slot run]
    exact mirrors
  | some hole =>
    obtain ⟨stream, held⟩ := LinearProbing.findSlot_sound run
    obtain ⟨slots, size, limit⟩ := Table.erase_of_slot run
    have length : table.slots.length = buckets.length := by rw [mirrors.slots, length_map]
    have hole_lt := length ▸ LinearProbing.slot_lt held
    obtain ⟨stop, stop_lt, empty⟩ := table.empty_slot (ne_nil_of_length_pos (by rw [length]; exact mirrors.positive))
    have next_lt : next buckets.length hole < buckets.length := LinearProbing.next_lt mirrors.positive
    have filled : slot (buckets.map Bucket.slot) hole ≠ none := by
      rw [← mirrors.slots, held]
      exact Option.some_ne_none _
    have near : LinearProbing.probeDistance buckets.length (next buckets.length hole) stop < t.bucketCount := by
      rw [mirrors.count]
      exact LinearProbing.probeDistance_lt next_lt (length ▸ stop_lt)
    obtain ⟨after, done, length', same⟩ := eraseLoop_eq table.home t.bucketCount mirrors.power mirrors.count mirrors.home
      next_lt filled (length ▸ stop_lt) (mirrors.slots ▸ empty) near
    have forward := succ_and_mask mirrors.count mirrors.power hole_lt
    refine ⟨{ t with buckets := some after, size := t.size - 1 }, after, ?_, ?_⟩
    · simp [mirrors.found_lt held, mirrors.streamAt_eq held, held, eraseAt, mirrors.there, forward, done]
    constructor
    case there => rfl
    case slots =>
      have homes : table.home = fun k => Http2.hashStreamId k % table.slots.length := rfl
      rw [slots, same, homes, ← mirrors.slots, length, mirrors.count]
    case count => rw [length']; exact mirrors.count
    case power => rw [length']; exact mirrors.power
    case size => rw [size, ← mirrors.size]
    case limit => rw [limit]; exact mirrors.limit

end

/-- The ids and their streams in the order of the buckets. -/
def entries (buckets : List (Bucket α)) : List (UInt32 × α) :=
  buckets.filterMap fun bucket => bucket.stream.map fun stream => (bucket.streamId, stream)

section

variable (mirrors : Mirrors t table buckets)

include mirrors

theorem entries_eq : table.entries = (entries buckets).map fun entry => (entry.1.toNat, entry.2) := by
  rw [Table.entries, mirrors.slots, filterMap_map, entries, map_filterMap]
  refine filterMap_congr fun bucket _ => ?_
  cases stream : bucket.stream <;> simp [Bucket.slot, stream]

theorem mem_entries {streamId : UInt32} {stream : α} :
    (streamId, stream) ∈ entries buckets ↔ table.find streamId.toNat = some stream := by
  rw [← Table.mem_entries, mirrors.entries_eq, mem_map]
  constructor
  · exact fun member => ⟨_, member, rfl⟩
  · rintro ⟨⟨other, stream'⟩, member, same⟩
    obtain ⟨sameId, rfl⟩ := Prod.mk.inj same
    rwa [← UInt32.toNat_inj.mp sameId]

theorem ids_nodup : ((entries buckets).map Prod.fst).Nodup := by
  have keys : table.keys = ((entries buckets).map Prod.fst).map UInt32.toNat := by
    rw [Table.keys, mirrors.entries_eq, List.map_map, List.map_map]
    rfl
  have nodup := table.keys_nodup
  rw [keys] at nodup
  exact nodup.of_map _

theorem ids_length : ((entries buckets).map Prod.fst).length = table.size := by
  rw [← table.keys_length, Table.keys, mirrors.entries_eq]
  simp

theorem forEach_eq : t.forEach = (entries buckets).map Prod.snd := by
  rw [forEach, mirrors.there]
  simp only [mirrors.count, take_length]
  rw [entries, map_filterMap]
  refine filterMap_congr fun bucket _ => ?_
  cases bucket.stream <;> rfl

end

end Mirrors

/-- A table that mirrors a map. -/
def Represents (t : Http2StreamTable α) (n : Nat) (m : StreamMap α) : Prop :=
  ∃ table buckets, Mirrors t table buckets ∧ table.limit = n ∧ ∀ streamId : UInt32, table.find streamId.toNat = m streamId

variable {n value fuel out result : Nat} {m : StreamMap α}

theorem Represents.ids (represents : t.Represents n m) :
    ∃ ids : List UInt32, ids.Nodup ∧ ids.length = t.size ∧ (∀ streamId, streamId ∈ ids ↔ m streamId ≠ none) ∧
      t.forEach.map some = ids.map m := by
  obtain ⟨table, buckets, mirrors, -, finds⟩ := represents
  refine ⟨(Mirrors.entries buckets).map Prod.fst, mirrors.ids_nodup, mirrors.ids_length.trans mirrors.size.symm, ?_, ?_⟩
  · intro streamId
    rw [← finds, Option.ne_none_iff_exists', mem_map]
    constructor
    · rintro ⟨⟨other, stream⟩, member, rfl⟩
      exact ⟨stream, mirrors.mem_entries.mp member⟩
    · rintro ⟨stream, found⟩
      exact ⟨(streamId, stream), mirrors.mem_entries.mpr found, rfl⟩
  · rw [mirrors.forEach_eq, List.map_map, List.map_map]
    refine map_congr_left fun entry member => ?_
    rw [comp_apply, comp_apply, ← finds, mirrors.mem_entries.mp member]

theorem Represents.size (represents : t.Represents n m) : t.size = m.stored.ncard := by
  obtain ⟨ids, nodup, length, member, -⟩ := represents.ids
  have same : m.stored = ↑ids.toFinset := by
    ext streamId
    rw [coe_toFinset]
    exact (member streamId).symm
  rw [same, Set.ncard_coe_finset, toFinset_card_of_nodup nodup, length]

theorem update_of_toNat {table table' : LinearProbing.Table α Http2.hashStreamId} {streamId : UInt32} {stream : Option α}
    (finds : ∀ streamId : UInt32, table.find streamId.toNat = m streamId)
    (changed : ∀ key, table'.find key = if key = streamId.toNat then stream else table.find key) (other : UInt32) :
    table'.find other.toNat = update m streamId stream other := by
  simp only [changed, update_apply, UInt32.toNat_inj, finds]

theorem Represents.call (represents : t.Represents n m) (first : TableCall α) :
    ∃ t', t.call first = some ((m.call n first).1, t') ∧ t'.Represents n (m.call n first).2 := by
  have size := represents.size
  obtain ⟨table, buckets, mirrors, limit, finds⟩ := represents
  cases first with
  | insert streamId stream =>
    obtain ⟨done, t', table', buckets', run, mirrors', outcome⟩ := mirrors.insert_eq streamId stream
    have filled : table.slots ≠ [] := by
      refine ne_nil_of_length_pos ?_
      rw [mirrors.slots, length_map]
      exact mirrors.positive
    have accepts : (table.insert streamId.toNat stream).isSome ↔ m streamId = none ∧ m.stored.ncard < n := by
      rw [Table.insert_isSome_iff, finds, ← mirrors.size, size, limit]
      exact ⟨fun all => ⟨all.1, all.2.1⟩, fun both => ⟨both.1, both.2, filled⟩⟩
    rw [Http2StreamTable.call, run, StreamMap.call]
    rcases outcome with ⟨rfl, inserted⟩ | ⟨rfl, refused, rfl, rfl⟩
    · rw [if_pos (accepts.mp (by rw [inserted]; rfl))]
      refine ⟨t', rfl, table', buckets', mirrors', ?_, ?_⟩
      · rw [(Table.Alike.insert inserted).limit, limit]
      · exact update_of_toNat finds (Table.find_insert inserted)
    · have refuses : ¬ (m streamId = none ∧ m.stored.ncard < n) := fun both => by
        rw [← accepts, refused] at both
        cases both
      rw [if_neg refuses]
      exact ⟨t', rfl, table', buckets', mirrors', limit, finds⟩
  | erase streamId =>
    obtain ⟨t', buckets', run, mirrors'⟩ := mirrors.erase_eq streamId
    rw [Http2StreamTable.call, run, StreamMap.call, finds]
    refine ⟨t', rfl, table.erase streamId.toNat, buckets', mirrors', ?_, ?_⟩
    · rw [(Table.Alike.erase table streamId.toNat).limit, limit]
    · exact update_of_toNat finds (Table.find_erase table streamId.toNat)
  | find streamId =>
    rw [Http2StreamTable.call, mirrors.find_eq, StreamMap.call, finds]
    exact ⟨t, rfl, table, buckets, mirrors, limit, finds⟩

theorem Represents.run (represents : t.Represents n m) (calls : List (TableCall α)) :
    ∃ t', t.run calls = some ((m.run n calls).1, t') ∧ t'.Represents n (m.run n calls).2 := by
  induction calls generalizing t m with
  | nil => exact ⟨t, rfl, represents⟩
  | cons first rest ih =>
    obtain ⟨t₁, called, represents₁⟩ := represents.call first
    obtain ⟨t₂, ran, represents₂⟩ := ih represents₁
    refine ⟨t₂, ?_, represents₂⟩
    rw [Http2StreamTable.run, called, StreamMap.run]
    simp only [bind_eq_bind, bind_some, ran]
    rfl

theorem nextPow2Loop_power (positive : 0 < value)
    (power : out = 0 ∨ ∃ k < 64, out = 2 ^ k) (run : nextPow2Loop value fuel out = some result) :
    value ≤ result ∧ ∃ k, result = 2 ^ k := by
  induction fuel generalizing out with
  | zero => cases run
  | succ fuel ih =>
    rw [nextPow2Loop] at run
    split at run
    · refine ih ?_ run
      rcases power with rfl | ⟨k, below, rfl⟩
      · exact .inl rfl
      rw [← pow_succ]
      rcases Nat.lt_or_ge (k + 1) 64 with inside | outside
      · exact .inr ⟨k + 1, inside, Nat.mod_eq_of_lt (Nat.pow_lt_pow_right (by decide) inside)⟩
      have last : k + 1 = 64 := by omega
      rw [last, Nat.mod_self]
      exact .inl rfl
    · rename_i reached
      cases run
      refine ⟨Nat.le_of_not_lt reached, ?_⟩
      rcases power with rfl | ⟨k, -, rfl⟩
      · exact absurd positive reached
      · exact ⟨k, rfl⟩

theorem init_represents {memory : Bool} (positive : 1 ≤ n)
    (accepted : t₀.init n memory = some (true, t)) : t.Represents n fun _ => none := by
  unfold init at accepted
  simp only [if_neg (show ¬ n = 0 by omega)] at accepted
  split at accepted
  · cases accepted
  obtain ⟨count, doubled, accepted⟩ := Option.bind_eq_some_iff.mp accepted
  split at accepted
  · cases accepted
    obtain ⟨reached, power⟩ : n * 2 ≤ count ∧ ∃ k, count = 2 ^ k := by
      rw [nextPow2, if_neg (by omega)] at doubled
      exact nextPow2Loop_power (by omega) (.inr ⟨0, by decide, rfl⟩) doubled
    refine ⟨.init Http2.hashStreamId count n (fun _ => by omega), List.replicate count {}, ?_, rfl, fun streamId => ?_⟩
    · refine ⟨rfl, ?_, length_replicate.symm, by rwa [length_replicate], rfl, rfl⟩
      rw [map_replicate]
      rfl
    · exact Table.find_init ..
  · cases accepted

/-- The table is a finite map of at most `n` streams, over every run. -/
theorem run_refines {t₀ : Http2StreamTable α} {memory : Bool} (positive : 1 ≤ n)
    (accepted : t₀.init n memory = some (true, t)) (calls : List (TableCall α)) :
    ∃ answers t' m', t.run calls = some (answers, t') ∧ StreamMap.run n (fun _ => none) calls = (answers, m') ∧
      (∀ streamId, t'.find streamId = some (m' streamId)) ∧ t'.size = m'.stored.ncard ∧
      ∃ ids : List UInt32, ids.Nodup ∧ (∀ streamId, streamId ∈ ids ↔ m' streamId ≠ none) ∧
        t'.forEach.map some = ids.map m' := by
  obtain ⟨t', ran, represents⟩ := (init_represents positive accepted).run calls
  refine ⟨_, t', _, ran, rfl, fun streamId => ?_, represents.size, ?_⟩
  · obtain ⟨table, buckets, mirrors, -, finds⟩ := represents
    rw [mirrors.find_eq, finds]
  · obtain ⟨ids, nodup, -, member, visited⟩ := represents.ids
    exact ⟨ids, nodup, member, visited⟩

theorem oneStream_refines : ∃ answers t' m',
    run { buckets := some [{}, {}], bucketCount := 2, maxActiveStreams := 1 } [.insert 1 10, .insert 3 30, .erase 1] =
        some (answers, t') ∧
      StreamMap.run 1 (fun _ => none) [.insert 1 10, .insert 3 30, .erase 1] = (answers, m') ∧
      (∀ streamId, t'.find streamId = some (m' streamId)) ∧ t'.size = m'.stored.ncard ∧
      ∃ ids : List UInt32, ids.Nodup ∧ (∀ streamId, streamId ∈ ids ↔ m' streamId ≠ none) ∧
        t'.forEach.map some = ids.map (m' : StreamMap Nat) :=
  run_refines (Nat.le_refl 1) (show init ({} : Http2StreamTable Nat) 1 true = some (true, _) from rfl) [.insert 1 10, .insert 3 30, .erase 1]

end Http2StreamTable

end FiberGateway.Http2
