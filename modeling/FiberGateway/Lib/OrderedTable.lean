import FiberGateway.Lib.LinkedQueue

/-!
A hash table that remembers the order of insertion. The slots lie in one array; a slot in use is in the chain of its
bucket and in the doubly linked list of the order, a slot given back is in the list of the free ones. An operation that
reaches a slot outside the array, or follows links that do not end, has no result.
-/

namespace OrderedTable

open List Function

open LinkedQueue (Queue Node)

open Option (map_some bind_eq_bind bind_some any_some some_inj isSome_map getD_some or_none)

variable {κ α : Type}

structure Slot (κ α : Type) where
  key : Option κ := none
  value : Option α := none
  hash : UInt64 := 0
  nextBucket : Option Nat := none
  nextFree : Option Nat := none
  occupied : Bool := false

/-- The slots of the array are the nodes of `entries`, and `buckets` is empty until it is first allocated. -/
structure Table (κ α : Type) where
  size : Nat := 0
  version : Nat := 0
  entryCount : Nat := 0
  entryCapacity : Nat := 0
  freeHead : Option Nat := none
  buckets : List (Option Nat) := []
  entries : Queue (Slot κ α) := {}

def bucketOf (hash : UInt64) (count : Nat) : Nat := hash.toNat &&& (count - 1)

theorem bucketOf_lt {count : Nat} (positive : 0 < count) (hash : UInt64) : bucketOf hash count < count := by
  have bound : bucketOf hash count ≤ count - 1 := Nat.and_le_right
  omega

namespace Table

def fresh (entryCount capacity : Nat) (entries : Queue (Slot κ α)) : Queue (Slot κ α) :=
  { entries with
    heap := fun id => if id < capacity then if id < entryCount then entries.heap id else some { data := {} } else none }

def grow (t : Table κ α) (capacity : Nat) : Table κ α :=
  { t with entries := fresh t.entryCount capacity t.entries, entryCapacity := capacity }

/-- One slot is put into the chain of its new bucket. -/
def rehashSlot (count : Nat) (entries : Queue (Slot κ α) × List (Option Nat)) (id : Nat) :
    Option (Queue (Slot κ α) × List (Option Nat)) := do
  let slot ← entries.1.data id
  if slot.occupied then
    let bucket := bucketOf slot.hash count
    let linked ← entries.1.modifyData id fun slot => { slot with nextBucket := entries.2.getD bucket none }
    return (linked, entries.2.set bucket (some id))
  else
    let linked ← entries.1.modifyData id fun slot => { slot with nextBucket := none }
    return (linked, entries.2)

def rehash (t : Table κ α) (count : Nat) : Option (Table κ α) := do
  let (entries, buckets) ← (List.range t.entryCount).foldlM (rehashSlot count) (t.entries, List.replicate count none)
  return { t with entries := entries, buckets := buckets }

def allocate (t : Table κ α) : Option (Option Nat × Table κ α) :=
  match t.freeHead with
  | some id => do
    let slot ← t.entries.data id
    let entries ← t.entries.modifyData id fun slot => { slot with nextFree := none }
    return (some id, { t with freeHead := slot.nextFree, entries := entries })
  | none =>
    if t.entryCount ≥ t.entryCapacity then some (none, t)
    else some (some t.entryCount, { t with entryCount := t.entryCount + 1 })

section

variable (same : κ → κ → Bool) (key : κ) (hash : UInt64)

def search (t : Table κ α) : Nat → Option Nat → Option (Option Nat)
  | _, none => some none
  | 0, some _ => none
  | fuel + 1, some id => do
    let slot ← t.entries.data id
    if slot.occupied && slot.hash == hash && slot.key.any (same · key) then return some id
    else search t fuel slot.nextBucket

def find (t : Table κ α) : Option (Option Nat) :=
  if t.buckets = [] then some none
  else t.search same key hash t.entryCapacity (t.buckets.getD (bucketOf hash t.buckets.length) none)

/-- A new slot is filled and linked in. -/
def link (t : Table κ α) (value : α) (id : Nat) : Option (Table κ α) := do
  let bucket := bucketOf hash t.buckets.length
  let filled ← t.entries.modifyData id fun _ =>
    { key := some key, value := some value, hash := hash, occupied := true, nextBucket := t.buckets.getD bucket none }
  let linked ← filled.pushBack id
  return { t with
    entries := linked, buckets := t.buckets.set bucket (some id), size := t.size + 1, version := t.version + 1 }

/-- The slot that has the key, with the one before it in its chain. -/
def seek (t : Table κ α) : Nat → Option Nat → Option Nat → Option (Option (Option Nat × Nat))
  | _, _, none => some none
  | 0, _, some _ => none
  | fuel + 1, before, some id => do
    let slot ← t.entries.data id
    if slot.occupied && slot.hash == hash && slot.key.any (same · key) then return some (before, id)
    else seek t fuel (some id) slot.nextBucket

/-- The link to a slot, from its bucket or from the slot before it in the chain. -/
def unchain (t : Table κ α) (bucket : Nat) (before link : Option Nat) : Option (List (Option Nat) × Queue (Slot κ α)) :=
  match before with
  | none => some (t.buckets.set bucket link, t.entries)
  | some before => (t.entries.modifyData before fun slot => { slot with nextBucket := link }).map (t.buckets, ·)

/-- A slot is taken out of its chain and out of the order, and is the first of the free ones. -/
def release (t : Table κ α) (bucket : Nat) (before : Option Nat) (id : Nat) : Option (Table κ α) := do
  let slot ← t.entries.data id
  let (buckets, entries) ← t.unchain bucket before slot.nextBucket
  let unlinked ← entries.unlink id
  let cleared ← unlinked.modifyData id fun _ => { nextFree := t.freeHead }
  return { t with
    entries := cleared, buckets := buckets, freeHead := some id, size := t.size - 1, version := t.version + 1 }

def remove (t : Table κ α) : Option (Bool × Table κ α) :=
  if t.buckets = [] then some (false, t)
  else do
    let bucket := bucketOf hash t.buckets.length
    match ← t.seek same key hash t.entryCapacity none (t.buckets.getD bucket none) with
    | none => return (false, t)
    | some (before, id) => return (true, ← t.release bucket before id)

end

/-- The entries in the order they are linked. -/
def walk (t : Table κ α) : Nat → Option Nat → Option (List (κ × α))
  | _, none => some []
  | 0, some _ => none
  | fuel + 1, some id => do
    let node ← t.entries.heap id
    let key ← node.data.key
    let value ← node.data.value
    let rest ← walk t fuel node.next
    return (key, value) :: rest

def toList (t : Table κ α) : Option (List (κ × α)) := t.walk t.entryCapacity t.entries.head

end Table

/-- A key already there keeps its place and gets the new value. -/
def insert (same : κ → κ → Bool) (key : κ) (value : α) : List (κ × α) → List (κ × α)
  | [] => [(key, value)]
  | entry :: rest =>
    if same entry.1 key then (entry.1, value) :: rest else entry :: insert same key value rest

/-- The links lead through these slots, in this order, to an end. -/
def Follows (next : Nat → Option (Option Nat)) : Option Nat → List Nat → Prop
  | start, [] => start = none
  | start, id :: rest => start = some id ∧ ∃ link, next id = some link ∧ Follows next link rest

theorem Follows.congr {next next' : Nat → Option (Option Nat)} {start : Option Nat} {ids : List Nat}
    (follows : Follows next start ids) (agree : ∀ id ∈ ids, next' id = next id) : Follows next' start ids := by
  induction ids generalizing start with
  | nil => exact follows
  | cons id rest ih =>
    obtain ⟨first, link, here, later⟩ := follows
    refine ⟨first, link, (agree id mem_cons_self).trans here, ih later fun other member => ?_⟩
    exact agree other (mem_cons_of_mem _ member)

/-- The key and the value of a slot in use. -/
def Slot.entry (slot : Slot κ α) : Option (κ × α) :=
  match slot.key, slot.value with
  | some key, some value => some (key, value)
  | _, _ => none

theorem Slot.entry_eq_some {slot : Slot κ α} {entry : κ × α} :
    slot.entry = some entry ↔ slot.key = some entry.1 ∧ slot.value = some entry.2 := by
  unfold Slot.entry
  split
  · rename_i key value here there
    simp [here, there, Prod.ext_iff]
  · rename_i missing
    simp only [reduceCtorEq, false_iff]
    exact fun both => missing _ _ both.1 both.2

def content (data : Nat → Option (Slot κ α)) (ids : List Nat) : List (κ × α) :=
  ids.filterMap fun id => (data id).bind Slot.entry

/-- The slots in `order` are in use and those in `free` are not; one more, `spare`, may just have been allocated. -/
structure Sound {ι : Type} (hash : κ → UInt64) (name : κ → ι) (t : Table κ α) (order free : List Nat)
    (spare : Option Nat) (chain : Nat → List Nat) : Prop where
  linked : t.entries.Holds order
  size : t.size = order.length
  array : ∀ id, (t.entries.data id).isSome ↔ id < t.entryCapacity
  counted : t.entryCount ≤ t.entryCapacity
  taken : ∀ id, id < t.entryCount ↔ id ∈ order ∨ id ∈ free ∨ spare = some id
  apart : ∀ id ∈ free, id ∉ order
  spared : ∀ id, spare = some id → id ∉ order ∧ id ∉ free
  freeDistinct : free.Nodup
  freed : Follows (fun id => (t.entries.data id).map (·.nextFree)) t.freeHead free
  filled : ∀ id ∈ order, ∃ slot entry, t.entries.data id = some slot ∧ slot.occupied = true ∧
    slot.entry = some entry ∧ slot.hash = hash entry.1
  vacant : ∀ id slot, t.entries.data id = some slot → id ∉ order → slot.occupied = false
  distinct : ((content t.entries.data order).map fun entry => name entry.1).Nodup
  chained : ∀ bucket < t.buckets.length,
    Follows (fun id => (t.entries.data id).map (·.nextBucket)) (t.buckets.getD bucket none) (chain bucket)
  chainDistinct : ∀ bucket < t.buckets.length, (chain bucket).Nodup
  inChain : ∀ bucket < t.buckets.length, ∀ id, id ∈ chain bucket ↔ id ∈ order ∧
    ∃ slot, t.entries.data id = some slot ∧ bucketOf slot.hash t.buckets.length = bucket
  bucketed : order ≠ [] → t.buckets ≠ []

section

variable {ι : Type} {hash : κ → UInt64} {same : κ → κ → Bool} {name : κ → ι} {t t' : Table κ α} {order free : List Nat}
  {spare : Option Nat} {chain : Nat → List Nat}

variable {data : Nat → Option (Slot κ α)} {n id fuel count bucket : Nat} {slot : Slot κ α}
  {xs ys ids pre post : List Nat} {key : κ} {start : Option Nat}

variable (sameName : ∀ a b, same a b = true ↔ name a = name b)
  (hashName : ∀ a b, name a = name b → hash a = hash b)

variable {buckets : List (Option Nat)} {value : α} {entries : Queue (Slot κ α)} {h : UInt64} {before : Option Nat}

theorem getD_set (inside : bucket < buckets.length) (link : Option Nat) (other : Nat) :
    (buckets.set bucket link).getD other none = if other = bucket then link else buckets.getD other none := by
  rw [getD_eq_getElem?_getD, List.getElem?_set, getD_eq_getElem?_getD]
  grind

theorem map_update {β : Type} {slot' : Slot κ α} (there : data id = some slot) (field : Slot κ α → β)
    (keeps : field slot' = field slot) (other : Nat) :
    (update data id (some slot') other).map field = (data other).map field := by
  rw [update_apply]
  split
  · rename_i here
    rw [here, there, map_some, map_some, keeps]
  · rfl

theorem exists_of_map {β : Type} {slot slot' : Option (Slot κ α)} {field : Slot κ α → β}
    (equal : slot.map field = slot'.map field) (P : β → Prop) :
    (∃ s, slot = some s ∧ P (field s)) ↔ ∃ s, slot' = some s ∧ P (field s) := by
  cases slot <;> cases slot' <;> simp_all

section

variable {data data' : Nat → Option (Slot κ α)} {id : Nat}
  (kept : (data' id).map (fun slot => { slot with nextBucket := none }) =
    (data id).map fun slot => { slot with nextBucket := none })

include kept

/-- A fact about a slot that does not look at its link into the chain. -/
theorem lift_kept (P : Slot κ α → Prop) (ignores : ∀ slot, P { slot with nextBucket := none } ↔ P slot) :
    (∃ slot, data' id = some slot ∧ P slot) ↔ ∃ slot, data id = some slot ∧ P slot := by
  simpa only [ignores] using exists_of_map kept P

theorem isSome_kept : (data' id).isSome ↔ (data id).isSome := by
  simpa [Option.isSome_iff_exists] using lift_kept kept (fun _ => True) fun _ => Iff.rfl

theorem nextFree_kept : (data' id).map (·.nextFree) = (data id).map (·.nextFree) := by
  simpa only [Option.map_map, comp_def] using congrArg (Option.map Slot.nextFree) kept

theorem entry_kept : (data' id).bind Slot.entry = (data id).bind Slot.entry := by
  refine Option.ext fun entry => ?_
  simp only [Option.bind_eq_some_iff]
  exact lift_kept kept (·.entry = some entry) fun _ => Iff.rfl

end

theorem content_congr {data' : Nat → Option (Slot κ α)}
    (agree : ∀ id ∈ ids, (data' id).bind Slot.entry = (data id).bind Slot.entry) :
    content data' ids = content data ids :=
  filterMap_congr agree

theorem content_cons {rest : List Nat} :
    content data (id :: rest) = ((data id).bind Slot.entry).toList ++ content data rest := by
  rw [content, filterMap_cons]
  cases (data id).bind Slot.entry <;> rfl

theorem content_append : content data (xs ++ ys) = content data xs ++ content data ys :=
  filterMap_append

include sameName in
theorem insert_of_new {entries : List (κ × α)} (new : ∀ entry ∈ entries, name entry.1 ≠ name key) :
    insert same key value entries = entries ++ [(key, value)] := by
  induction entries with
  | nil => rfl
  | cons entry rest ih =>
    have other : ¬ same entry.1 key = true := fun equal => new entry mem_cons_self ((sameName _ _).mp equal)
    rw [insert, if_neg other, ih fun entry member => new entry (mem_cons_of_mem _ member), cons_append]

include sameName in
theorem insert_of_mem {before after : List (κ × α)} {entry : κ × α} (found : name entry.1 = name key)
    (new : ∀ entry ∈ before, name entry.1 ≠ name key) :
    insert same key value (before ++ entry :: after) = before ++ (entry.1, value) :: after := by
  induction before with
  | nil => rw [nil_append, insert, if_pos ((sameName _ _).mpr found), nil_append]
  | cons first rest ih =>
    have other : ¬ same first.1 key = true := fun equal => new first mem_cons_self ((sameName _ _).mp equal)
    rw [cons_append, insert, if_neg other, ih fun entry member => new entry (mem_cons_of_mem _ member),
      cons_append]

namespace Sound

variable {id : Nat} {key : κ}

theorem mem_order (sound : Sound hash name t order free spare chain) {slot : Slot κ α}
    (there : t.entries.data id = some slot) : id ∈ order ↔ slot.occupied = true := by
  constructor
  · intro member
    obtain ⟨slot', -, there', occupied, -⟩ := sound.filled id member
    rw [there] at there'
    cases there'
    exact occupied
  · intro occupied
    by_contra outside
    rw [sound.vacant id slot there outside] at occupied
    cases occupied

variable {h : UInt64}

/-- The walk along a chain stops at the first slot that has the key. -/
theorem search_eq {fuel : Nat} {start : Option Nat} {ids : List Nat}
    (follows : Follows (fun id => (t.entries.data id).map (·.nextBucket)) start ids) (enough : ids.length ≤ fuel) :
    t.search same key h fuel start = some (ids.find? fun id =>
      (t.entries.data id).any fun slot => slot.occupied && slot.hash == h && slot.key.any (same · key)) := by
  induction ids generalizing fuel start with
  | nil =>
    cases follows
    cases fuel <;> rfl
  | cons id rest ih =>
    obtain ⟨rfl, link, here, later⟩ := follows
    obtain ⟨slot, there, rfl⟩ := Option.map_eq_some_iff.mp here
    obtain _ | fuel := fuel
    · cases enough
    rw [Table.search, there, List.find?_cons, there]
    simp only [bind_eq_bind, bind_some, any_some]
    split
    · rename_i matches_
      simp [matches_]
    · rename_i other
      rw [ih later (Nat.le_of_succ_le_succ enough)]
      simp [other]

theorem find_eq (sound : Sound hash name t order free spare chain) (nonempty : t.buckets ≠ []) :
    t.find same key h = some ((chain (bucketOf h t.buckets.length)).find? fun id =>
      (t.entries.data id).any fun slot => slot.occupied && slot.hash == h && slot.key.any (same · key)) := by
  have bound := bucketOf_lt (length_pos_of_ne_nil nonempty) h
  rw [Table.find, if_neg nonempty]
  refine search_eq (sound.chained _ bound) ?_
  have inside : chain (bucketOf h t.buckets.length) ⊆ List.range t.entryCapacity := by
    intro id member
    obtain ⟨inOrder, -⟩ := (sound.inChain _ bound id).mp member
    have taken := (sound.taken id).mpr (.inl inOrder)
    have counted := sound.counted
    rw [mem_range]
    omega
  simpa using (sound.chainDistinct _ bound).subperm inside |>.length_le

theorem entry_unique {data : Nat → Option (Slot κ α)}
    (distinct : ((content data order).map fun entry => name entry.1).Nodup) {other : Nat} {entry entry' : κ × α}
    (member : id ∈ order) (member' : other ∈ order) (holds : (data id).bind Slot.entry = some entry)
    (holds' : (data other).bind Slot.entry = some entry') (equal : name entry.1 = name entry'.1) : id = other := by
  induction order with
  | nil => cases member
  | cons first rest ih =>
    have inside {id : Nat} {entry : κ × α} (member : id ∈ rest) (holds : (data id).bind Slot.entry = some entry) :
        name entry.1 ∈ (content data rest).map fun entry => name entry.1 :=
      mem_map_of_mem (mem_filterMap.mpr ⟨id, member, holds⟩)
    have clash {entry : κ × α} (holds : (data first).bind Slot.entry = some entry) :
        name entry.1 ∉ (content data rest).map fun entry => name entry.1 := by
      rw [content_cons, holds] at distinct
      exact (nodup_cons.mp distinct).1
    have later := distinct.sublist (((sublist_cons_self first rest).filterMap _).map _)
    rcases mem_cons.mp member with rfl | member <;> rcases mem_cons.mp member' with same | member'
    · exact same.symm
    · exact absurd (equal ▸ inside member' holds') (clash holds)
    · exact absurd (equal ▸ inside member holds) (clash (same ▸ holds'))
    · exact ih later member member'

section

variable (sound : Sound hash name t order free spare chain)

include sound

include sameName hashName in
/-- What the search looks at in a slot decides whether the slot has the key. -/
theorem matches_iff
    (member : id ∈ order) :
    ((t.entries.data id).any fun slot => slot.occupied && slot.hash == hash key && slot.key.any (same · key)) = true ↔
      ∃ entry, (t.entries.data id).bind Slot.entry = some entry ∧ name entry.1 = name key := by
  obtain ⟨slot, entry, there, occupied, holds, hashed⟩ := sound.filled id member
  have keyed := (Slot.entry_eq_some.mp holds).1
  rw [there]
  simp only [any_some, occupied, hashed, keyed, Bool.true_and, Bool.and_eq_true, beq_iff_eq, sameName,
    bind_some, holds, Option.some.injEq, exists_eq_left']
  exact ⟨fun both => both.2, fun equal => ⟨hashName _ _ equal, equal⟩⟩

include sameName hashName in
/-- The slot in `order` that has the key is the one the search finds. -/
theorem find_of_mem
    {entry : κ × α} (member : id ∈ order) (holds : (t.entries.data id).bind Slot.entry = some entry)
    (found : name entry.1 = name key) : t.find same key (hash key) = some (some id) := by
  have nonempty := sound.bucketed (ne_nil_of_mem member)
  have bound := bucketOf_lt (length_pos_of_ne_nil nonempty) (hash key)
  have inOrder {id : Nat} (inChain : id ∈ chain (bucketOf (hash key) t.buckets.length)) :=
    ((sound.inChain _ bound id).mp inChain).1
  have inChain : id ∈ chain (bucketOf (hash key) t.buckets.length) := by
    obtain ⟨slot, entry', there, -, holds', hashed⟩ := sound.filled id member
    rw [there, bind_some, holds'] at holds
    cases holds
    exact (sound.inChain _ bound id).mpr ⟨member, slot, there, by rw [hashed, hashName _ _ found]⟩
  rw [sound.find_eq nonempty, some_inj]
  cases result : (chain (bucketOf (hash key) t.buckets.length)).find? _ with
  | none =>
    have missed := List.find?_eq_none.mp result id inChain
    exact absurd ((sound.matches_iff sameName hashName member).mpr ⟨entry, holds, found⟩) missed
  | some other =>
    have hit := List.find?_some result
    have member' := inOrder (mem_of_find?_eq_some result)
    obtain ⟨entry', holds', found'⟩ := (sound.matches_iff sameName hashName member').mp hit
    rw [entry_unique sound.distinct member member' holds holds' (found.trans found'.symm)]

include sameName hashName in
theorem find_of_new
    (new : ∀ entry ∈ content t.entries.data order, name entry.1 ≠ name key) :
    t.find same key (hash key) = some none := by
  by_cases empty : t.buckets = []
  · rw [Table.find, if_pos empty]
  have bound := bucketOf_lt (length_pos_of_ne_nil empty) (hash key)
  rw [sound.find_eq empty, some_inj, List.find?_eq_none]
  intro id inChain hit
  have member := ((sound.inChain _ bound id).mp inChain).1
  obtain ⟨entry, holds, found⟩ := (sound.matches_iff sameName hashName member).mp hit
  exact new entry (mem_filterMap.mpr ⟨id, member, holds⟩) found

include sameName in
theorem overwrite {entry : κ × α} (member : id ∈ order)
    (holds : (t.entries.data id).bind Slot.entry = some entry) (found : name entry.1 = name key) (value : α) :
    ∃ entries, t.entries.modifyData id (fun slot => { slot with value := some value }) = some entries ∧
      Sound hash name { t with entries := entries } order free spare chain ∧
      content entries.data order = insert same key value (content t.entries.data order) ∧
      ∀ other, ((entries.data other).bind Slot.entry).map Prod.fst = ((t.entries.data other).bind Slot.entry).map Prod.fst := by
  obtain ⟨slot, there, entered⟩ := Option.bind_eq_some_iff.mp holds
  obtain ⟨entries, done, linked, data⟩ := sound.linked.modifyData
    (f := fun slot : Slot κ α => { slot with value := some value }) there
  have same {β : Type} (field : Slot κ α → β) (keeps : field { slot with value := some value } = field slot) (other : Nat) :
      (entries.data other).map field = (t.entries.data other).map field := by
    rw [data]
    exact map_update there field keeps other
  have here : (entries.data id).bind Slot.entry = some (entry.1, value) := by
    rw [data, update_self, bind_some]
    exact Slot.entry_eq_some.mpr ⟨(Slot.entry_eq_some.mp entered).1, rfl⟩
  have elsewhere {ids : List Nat} (outside : id ∉ ids) : content entries.data ids = content t.entries.data ids := by
    refine content_congr fun other inside => ?_
    have apart : other ≠ id := fun equal => outside (equal ▸ inside)
    rw [data, update_of_ne apart]
  obtain ⟨xs, ys, rfl⟩ := append_of_mem member
  have written : content entries.data (xs ++ id :: ys) =
      content t.entries.data xs ++ (entry.1, value) :: content t.entries.data ys := by
    have split := nodup_append.mp sound.linked.distinct
    have left : id ∉ xs := fun inside => split.2.2 id inside id mem_cons_self rfl
    have right : id ∉ ys := (nodup_cons.mp split.2.1).1
    rw [content_append, content_cons, here, elsewhere left, elsewhere right]
    rfl
  have original : content t.entries.data (xs ++ id :: ys) =
      content t.entries.data xs ++ entry :: content t.entries.data ys := by
    rw [content_append, content_cons, holds]
    rfl
  have distinct := sound.distinct
  rw [original, map_append, map_cons] at distinct
  have new : ∀ entry ∈ content t.entries.data xs, name entry.1 ≠ name key := by
    intro other inside equal
    refine (nodup_append.mp distinct).2.2 _ (mem_map_of_mem inside) _ mem_cons_self ?_
    exact equal.trans found.symm
  refine ⟨entries, done, ?_, by rw [written, original, insert_of_mem sameName found new], fun other => ?_⟩
  on_goal 2 =>
    by_cases equal : other = id
    · rw [equal, here, holds]
      rfl
    · rw [data, update_of_ne equal]
  have filled : ∀ other ∈ xs ++ id :: ys, ∃ slot entry, entries.data other = some slot ∧ slot.occupied = true ∧
      slot.entry = some entry ∧ slot.hash = hash entry.1 := by
    intro other member'
    obtain ⟨slot', entry', there', occupied, entered', hashed⟩ := sound.filled other member'
    by_cases equal : other = id
    · subst equal
      rw [there] at there'
      cases there'
      rw [entered] at entered'
      cases entered'
      refine ⟨{ slot with value := some value }, (entry.1, value), by rw [data, update_self], occupied, ?_, hashed⟩
      exact Slot.entry_eq_some.mpr ⟨(Slot.entry_eq_some.mp entered).1, rfl⟩
    · exact ⟨slot', entry', by rw [data, update_of_ne equal, there'], occupied, entered', hashed⟩
  exact { sound with
    linked := linked
    array := fun other => by
      rw [← isSome_map, same (·.hash) rfl, isSome_map]
      exact sound.array other
    freed := sound.freed.congr fun id _ => same (·.nextFree) rfl id
    filled := filled
    vacant := fun other slot' there' outside => by
      have equal : other ≠ id := fun equal => outside (equal ▸ member)
      rw [data, update_of_ne equal] at there'
      exact sound.vacant other slot' there' outside
    distinct := by
      rw [written, map_append, map_cons]
      exact distinct
    chained := fun bucket bound => (sound.chained bucket bound).congr fun id _ => same (·.nextBucket) rfl id
    inChain := fun bucket bound other => by
      rw [sound.inChain bucket bound other]
      exact and_congr_right fun _ => (exists_of_map (same (·.hash) rfl other) (bucketOf · t.buckets.length = bucket)).symm }

theorem order_lt (member : id ∈ order) : id < t.entryCount := (sound.taken id).mpr (.inl member)

theorem distinct_congr {data : Nat → Option (Slot κ α)}
    (kept : ∀ id ∈ order, (data id).bind Slot.entry = (t.entries.data id).bind Slot.entry) :
    ((content data order).map fun entry => name entry.1).Nodup := by
  rw [content_congr kept]
  exact sound.distinct

variable {capacity : Nat}

theorem grow_data (enough : t.entryCapacity ≤ capacity) (taken : id < t.entryCount) :
    (t.grow capacity).entries.heap id = t.entries.heap id := by
  have counted := sound.counted
  simp only [Table.grow, Table.fresh]
  rw [if_pos (by omega), if_pos taken]

theorem grow (enough : t.entryCapacity ≤ capacity) :
    Sound hash name (t.grow capacity) order free spare chain ∧
      ∀ id ∈ order, (t.grow capacity).entries.data id = t.entries.data id := by
  have counted := sound.counted
  have same {id : Nat} (taken : id < t.entryCount) : (t.grow capacity).entries.data id = t.entries.data id := by
    rw [Queue.data, sound.grow_data enough taken, Queue.data]
  have kept (id : Nat) (member : id ∈ order) := same (sound.order_lt member)
  have new {id : Nat} (beyond : ¬ id < t.entryCount) :
      (t.grow capacity).entries.data id = if id < capacity then some {} else none := by
    rw [Queue.data]
    simp only [Table.grow, Table.fresh, if_neg beyond]
    split <;> rfl
  refine ⟨{ sound with
    linked := sound.linked.congr rfl rfl fun id member => sound.grow_data enough (sound.order_lt member)
    array := fun id => ?_
    counted := counted.trans enough
    freed := sound.freed.congr fun id member => by rw [same ((sound.taken id).mpr (.inr (.inl member)))]
    filled := fun id member => kept id member ▸ sound.filled id member
    vacant := fun id slot there outside => ?_
    distinct := sound.distinct_congr fun id member => by rw [kept id member]
    chained := fun bucket bound => (sound.chained bucket bound).congr fun id member => by
      rw [kept id ((sound.inChain bucket bound id).mp member).1]
    inChain := fun bucket bound id => (sound.inChain bucket bound id).trans (and_congr_right fun member => by
      rw [kept id member]
      rfl) }, kept⟩
  · change _ ↔ id < capacity
    by_cases taken : id < t.entryCount
    · rw [same taken, sound.array]
      omega
    · rw [new taken]
      split <;> simp_all
  · by_cases taken : id < t.entryCount
    · exact sound.vacant id slot (same taken ▸ there) outside
    · rw [new taken] at there
      split at there
      · cases there
        rfl
      · cases there

end

end Sound

/-- The slots below `n` in use whose bucket this is, the last one first. -/
def rehashed (data : Nat → Option (Slot κ α)) (count n bucket : Nat) : List Nat :=
  ((List.range n).filter fun id =>
    (data id).any fun slot => slot.occupied && bucketOf slot.hash count == bucket).reverse

theorem mem_rehashed : id ∈ rehashed data count n bucket ↔
    id < n ∧ ∃ slot, data id = some slot ∧ slot.occupied = true ∧ bucketOf slot.hash count = bucket := by
  simp only [rehashed, mem_reverse, mem_filter, mem_range, Option.any_eq_true_iff_get, Bool.and_eq_true,
    beq_iff_eq]
  grind

theorem rehashed_succ (there : data n = some slot) :
    rehashed data count (n + 1) bucket =
      if slot.occupied = true ∧ bucketOf slot.hash count = bucket then n :: rehashed data count n bucket
      else rehashed data count n bucket := by
  simp only [rehashed, range_succ, filter_append, reverse_append, filter_cons, there, any_some,
    Bool.and_eq_true, beq_iff_eq, filter_nil]
  split <;> rfl

/-- After the first `n` slots have been put into their new buckets. -/
structure Rehashed (data : Nat → Option (Slot κ α)) (count n : Nat) (order : List Nat) (entries : Queue (Slot κ α))
    (buckets : List (Option Nat)) : Prop where
  linked : entries.Holds order
  length : buckets.length = count
  kept : ∀ id, (entries.data id).map (fun slot => { slot with nextBucket := none }) =
    (data id).map fun slot => { slot with nextBucket := none }
  chained : ∀ bucket < count,
    Follows (fun id => (entries.data id).map (·.nextBucket)) (buckets.getD bucket none) (rehashed data count n bucket)

theorem Rehashed.step (here : Rehashed data count n order entries buckets) (positive : 0 < count)
    (there : (data n).isSome) :
    ∃ entries' buckets', Table.rehashSlot count (entries, buckets) n = some (entries', buckets') ∧
      Rehashed data count (n + 1) order entries' buckets' := by
  obtain ⟨slot, there⟩ := Option.isSome_iff_exists.mp there
  obtain ⟨slot', there', equal⟩ : ∃ slot', entries.data n = some slot' ∧
      ({ slot' with nextBucket := none } : Slot κ α) = { slot with nextBucket := none } := by
    have kept := here.kept n
    rw [there, map_some] at kept
    exact Option.map_eq_some_iff.mp kept
  have occupied : slot'.occupied = slot.occupied := by injection equal
  have hashed : slot'.hash = slot.hash := by injection equal
  -- the slot is in no chain yet, so that writing its link disturbs none
  have write (link : Option Nat) (buckets' : List (Option Nat)) (length : buckets'.length = count)
      (chained : ∀ entries' : Queue (Slot κ α), entries'.data = update entries.data n (some { slot' with nextBucket := link }) →
        ∀ bucket < count, Follows (fun id => (entries'.data id).map (·.nextBucket)) (buckets'.getD bucket none)
          (rehashed data count (n + 1) bucket)) :
      ∃ entries', entries.modifyData n (fun slot => { slot with nextBucket := link }) = some entries' ∧
        Rehashed data count (n + 1) order entries' buckets' := by
    obtain ⟨entries', done, linked, written⟩ := here.linked.modifyData
      (f := fun slot : Slot κ α => { slot with nextBucket := link }) there'
    refine ⟨entries', done, linked, length, fun id => ?_, chained entries' written⟩
    rw [written, ← here.kept id]
    exact map_update there' _ (by rfl) id
  have undisturbed {entries' : Queue (Slot κ α)} {link : Option Nat} {bucket : Nat} (bound : bucket < count)
      (written : entries'.data = update entries.data n (some { slot' with nextBucket := link })) :
      Follows (fun id => (entries'.data id).map (·.nextBucket)) (buckets.getD bucket none)
        (rehashed data count n bucket) := by
    refine (here.chained bucket bound).congr fun id member => ?_
    have below := (mem_rehashed.mp member).1
    rw [written, update_of_ne (by omega)]
  simp only [Table.rehashSlot, there', bind_eq_bind, bind_some, occupied, hashed]
  split
  · rename_i used
    have inside := bucketOf_lt positive slot.hash
    obtain ⟨entries', done, after⟩ := write (buckets.getD (bucketOf slot.hash count) none)
      (buckets.set (bucketOf slot.hash count) (some n)) (by rw [length_set, here.length]) (by
        intro entries' written bucket bound
        rw [getD_set (here.length ▸ inside), rehashed_succ there]
        by_cases mine : bucket = bucketOf slot.hash count
        · subst mine
          rw [if_pos rfl, if_pos ⟨used, rfl⟩]
          exact ⟨rfl, buckets.getD _ none, by simp [written], undisturbed bound written⟩
        · rw [if_neg mine, if_neg fun both => mine both.2.symm]
          exact undisturbed bound written)
    exact ⟨entries', _, by rw [done]; rfl, after⟩
  · rename_i unused
    obtain ⟨entries', done, after⟩ := write none buckets here.length (by
      intro entries' written bucket bound
      rw [rehashed_succ there, if_neg fun both => unused both.1]
      exact undisturbed bound written)
    exact ⟨entries', buckets, by rw [done]; rfl, after⟩

theorem Rehashed.run (start : Rehashed data count 0 order entries buckets) (positive : 0 < count)
    (there : ∀ id < n, (data id).isSome) :
    ∃ entries' buckets', (List.range n).foldlM (Table.rehashSlot count) (entries, buckets) = some (entries', buckets') ∧
      Rehashed data count n order entries' buckets' := by
  induction n with
  | zero => exact ⟨entries, buckets, rfl, start⟩
  | succ n ih =>
    obtain ⟨entries₁, buckets₁, done₁, here⟩ := ih fun id below => there id (Nat.lt_succ_of_lt below)
    obtain ⟨entries₂, buckets₂, done₂, after⟩ := here.step positive (there n (Nat.lt_succ_self n))
    refine ⟨entries₂, buckets₂, ?_, after⟩
    simp [range_succ, done₁, done₂]

theorem Sound.rehash (sound : Sound hash name t order free spare chain) (positive : 0 < count) :
    ∃ t' chain', t.rehash count = some t' ∧ Sound hash name t' order free spare chain' ∧
      t' = { t with entries := t'.entries, buckets := t'.buckets } ∧ t'.buckets.length = count ∧
      ∀ id ∈ order, (t'.entries.data id).bind Slot.entry = (t.entries.data id).bind Slot.entry := by
  have start : Rehashed t.entries.data count 0 order t.entries (List.replicate count none) := by
    refine ⟨sound.linked, length_replicate, fun _ => rfl, fun bucket bound => ?_⟩
    rw [getD_eq_getElem?_getD, List.getElem?_replicate_of_lt bound, getD_some]
    rfl
  obtain ⟨entries, buckets, done, after⟩ := start.run (n := t.entryCount) positive fun id below =>
    (sound.array id).mpr (below.trans_le sound.counted)
  have lift (P : Slot κ α → Prop) (id : Nat) (ignores : ∀ slot, P { slot with nextBucket := none } ↔ P slot) :=
    lift_kept (after.kept id) P ignores
  have kept (id : Nat) (_ : id ∈ order) := entry_kept (after.kept id)
  refine ⟨{ t with entries := entries, buckets := buckets }, rehashed t.entries.data count t.entryCount, ?_, { sound with
    linked := after.linked
    array := fun id => (isSome_kept (after.kept id)).trans (sound.array id)
    freed := sound.freed.congr fun id _ => nextFree_kept (after.kept id)
    filled := fun id member => ?_
    vacant := fun id slot there outside => ?_
    distinct := sound.distinct_congr kept
    chained := fun bucket bound => after.chained bucket (after.length ▸ bound)
    chainDistinct := fun _ _ => nodup_reverse.mpr (nodup_range.filter _)
    inChain := fun bucket bound id => ?_
    bucketed := fun _ => ne_nil_of_length_pos (after.length ▸ positive) }, rfl, after.length, kept⟩
  · rw [Table.rehash, done]
    rfl
  · obtain ⟨slot, entry, there, facts⟩ := sound.filled id member
    obtain ⟨slot', there', facts'⟩ := (lift (fun slot => slot.occupied = true ∧ slot.entry = some entry ∧
      slot.hash = hash entry.1) id fun _ => Iff.rfl).mpr ⟨slot, there, facts⟩
    exact ⟨slot', entry, there', facts'⟩
  · by_contra used
    rw [Bool.not_eq_false] at used
    obtain ⟨slot', there', used'⟩ := (lift (·.occupied = true) id fun _ => Iff.rfl).mp ⟨slot, there, used⟩
    exact outside ((sound.mem_order there').mpr used')
  · change _ ↔ id ∈ order ∧ ∃ slot, entries.data id = some slot ∧ bucketOf slot.hash buckets.length = bucket
    rw [mem_rehashed, after.length, lift (bucketOf ·.hash count = bucket) id fun _ => Iff.rfl]
    constructor
    · rintro ⟨-, slot, there, used, mine⟩
      exact ⟨(sound.mem_order there).mpr used, slot, there, mine⟩
    · rintro ⟨member, slot, there, mine⟩
      exact ⟨sound.order_lt member, slot, there, (sound.mem_order there).mp member, mine⟩

theorem Sound.allocate (sound : Sound hash name t order free none chain) (room : order.length < t.entryCapacity) :
    ∃ t' free' id, t.allocate = some (some id, t') ∧ Sound hash name t' order free' (some id) chain ∧
      t'.buckets = t.buckets ∧ t'.version = t.version ∧ ∀ id ∈ order, t'.entries.data id = t.entries.data id := by
  cases free with
  | nil =>
    have head : t.freeHead = none := sound.freed
    have taken (id : Nat) : id < t.entryCount ↔ id ∈ order := by simpa using sound.taken id
    have few : t.entryCount ≤ order.length := by
      have inside : List.range t.entryCount ⊆ order := fun id below => (taken id).mp (mem_range.mp below)
      simpa using (nodup_range.subperm inside).length_le
    have space : ¬ t.entryCount ≥ t.entryCapacity := by omega
    have taken' (id : Nat) : id < t.entryCount + 1 ↔ id ∈ order ∨ id ∈ [] ∨ some t.entryCount = some id := by
      have here := taken id
      simp only [not_mem_nil, false_or, some_inj, ← here]
      omega
    have spared (id : Nat) (equal : some t.entryCount = some id) : id ∉ order ∧ id ∉ [] := by
      cases equal
      exact ⟨fun member => Nat.lt_irrefl _ ((taken _).mpr member), not_mem_nil⟩
    refine ⟨{ t with entryCount := t.entryCount + 1 }, [], t.entryCount, ?_,
      { sound with taken := taken', spared := spared, counted := Nat.lt_of_not_ge space }, rfl, rfl, fun _ _ => rfl⟩
    simp only [Table.allocate, head, if_neg space]
  | cons id rest =>
    obtain ⟨head, link, here, later⟩ := sound.freed
    obtain ⟨slot, there, rfl⟩ := Option.map_eq_some_iff.mp here
    obtain ⟨entries, done, linked, data⟩ := sound.linked.modifyData
      (f := fun slot : Slot κ α => { slot with nextFree := none }) there
    have outside := sound.apart id mem_cons_self
    have distinct := nodup_cons.mp sound.freeDistinct
    have elsewhere {other : Nat} (apart : other ≠ id) : entries.data other = t.entries.data other := by
      rw [data, update_of_ne apart]
    have kept (other : Nat) (member : other ∈ order) := elsewhere fun equal => outside (equal ▸ member)
    refine ⟨{ t with freeHead := slot.nextFree, entries := entries }, rest, id, ?_, { sound with
      linked := linked
      array := fun other => ?_
      taken := fun other => ?_
      apart := fun other member => sound.apart other (mem_cons_of_mem _ member)
      spared := fun other spared => ?_
      freeDistinct := distinct.2
      freed := later.congr fun other member => by rw [elsewhere fun equal => distinct.1 (equal ▸ member)]
      filled := fun other member => kept other member ▸ sound.filled other member
      vacant := fun other slot' there' outside' => ?_
      distinct := sound.distinct_congr fun other member => by rw [kept other member]
      chained := fun bucket bound => (sound.chained bucket bound).congr fun other member => by
        rw [kept other ((sound.inChain bucket bound other).mp member).1]
      inChain := fun bucket bound other => (sound.inChain bucket bound other).trans (and_congr_right fun member => by
        rw [kept other member]) }, rfl, rfl, kept⟩
    · simp only [Table.allocate, head, there, bind_eq_bind, bind_some, done]
      rfl
    · rw [← sound.array other]
      by_cases equal : other = id
      · simp [equal, data, there]
      · rw [elsewhere equal]
    · rw [sound.taken other, mem_cons, some_inj]
      grind
    · cases spared
      exact ⟨outside, distinct.1⟩
    · by_cases equal : other = id
      · subst equal
        rw [data, update_self] at there'
        cases there'
        exact sound.vacant other slot there outside'
      · rw [elsewhere equal] at there'
        exact sound.vacant other slot' there' outside'

/-- A slot is filled with a key that was not there, and becomes the last in the order. -/
theorem Sound.link (sound : Sound hash name t order free (some id) chain) (nonempty : t.buckets ≠ [])
    (new : ∀ entry ∈ content t.entries.data order, name entry.1 ≠ name key) (value : α) :
    ∃ t' chain', t.link key (hash key) value id = some t' ∧ Sound hash name t' (order ++ [id]) free none chain' ∧
      t'.version = t.version + 1 ∧ (∀ id ∈ order, t'.entries.data id = t.entries.data id) ∧
      (t'.entries.data id).bind Slot.entry = some (key, value) := by
  obtain ⟨outside, notFree⟩ := sound.spared id rfl
  have below := ((sound.taken id).mpr (.inr (.inr rfl))).trans_le sound.counted
  obtain ⟨old, there⟩ := Option.isSome_iff_exists.mp ((sound.array id).mpr below)
  generalize mine : bucketOf (hash key) t.buckets.length = home
  let slot : Slot κ α :=
    { key := some key, value := some value, hash := hash key, occupied := true, nextBucket := t.buckets.getD home none }
  obtain ⟨filled, done, linked, data⟩ := sound.linked.modifyData (f := fun _ : Slot κ α => slot) there
  obtain ⟨node, found, -⟩ : ∃ node, filled.heap id = some node ∧ node.data = slot := by
    have here : filled.data id = some slot := by rw [data, update_self]
    exact Option.map_eq_some_iff.mp here
  obtain ⟨entries, done', linked', data'⟩ := linked.pushBack found outside
  rw [data] at data'
  have here : entries.data id = some slot := by rw [data', update_self]
  have elsewhere {other : Nat} (apart : other ≠ id) : entries.data other = t.entries.data other := by
    rw [data', update_of_ne apart]
  have kept (other : Nat) (member : other ∈ order) := elsewhere fun equal => outside (equal ▸ member)
  have inChain {other bucket : Nat} (inside : bucket < t.buckets.length) (member : other ∈ chain bucket) := ((sound.inChain bucket inside other).mp member).1
  have undisturbed {bucket : Nat} (inside : bucket < t.buckets.length) :
      Follows (fun id => (entries.data id).map (·.nextBucket)) (t.buckets.getD bucket none) (chain bucket) :=
    (sound.chained bucket inside).congr fun other member => by rw [kept other (inChain inside member)]
  have length : (t.buckets.set home (some id)).length = t.buckets.length := length_set
  refine ⟨{ t with
    entries := entries, buckets := t.buckets.set home (some id), size := t.size + 1, version := t.version + 1 },
    update chain home (id :: chain home), ?_, { sound with
    linked := linked'
    size := by simp [sound.size]
    array := fun other => ?_
    taken := fun other => ?_
    apart := fun other member inside => ?_
    spared := nofun
    freed := sound.freed.congr fun other member => by rw [elsewhere fun equal => notFree (equal ▸ member)]
    filled := fun other member => ?_
    vacant := fun other slot' there' outside' => ?_
    distinct := ?_
    chained := fun bucket inside => ?_
    chainDistinct := fun bucket inside => ?_
    inChain := fun bucket inside other => ?_
    bucketed := fun _ empty => nonempty (length_eq_zero_iff.mp (length.symm.trans (congrArg List.length empty))) },
    rfl, kept, by rw [here]; rfl⟩
  · simp only [Table.link, bind_eq_bind, mine]
    rw [done, bind_some, done', bind_some]
    rfl
  · rw [← sound.array other]
    by_cases equal : other = id
    · simp [equal, here, there]
    · rw [elsewhere equal]
  · rw [sound.taken other, mem_append, mem_singleton, some_inj]
    grind
  · rcases mem_append.mp inside with inside | inside
    · exact sound.apart other member inside
    · exact notFree (mem_singleton.mp inside ▸ member)
  · rcases mem_append.mp member with member | member
    · exact kept other member ▸ sound.filled other member
    · rw [mem_singleton.mp member]
      exact ⟨slot, (key, value), here, rfl, rfl, rfl⟩
  · rw [mem_append, not_or, mem_singleton] at outside'
    exact sound.vacant other slot' (elsewhere outside'.2 ▸ there') outside'.1
  · have last : content entries.data [id] = [(key, value)] := by
      rw [content_cons, here]
      rfl
    rw [content_append, content_congr fun other member => by rw [kept other member], last, map_append, nodup_append]
    refine ⟨sound.distinct, nodup_singleton _, fun a left b right equal => ?_⟩
    obtain ⟨entry, member, rfl⟩ := mem_map.mp left
    exact new entry member (equal.trans (mem_singleton.mp right))
  · rw [length] at inside
    rw [getD_set (mine ▸ bucketOf_lt (length_pos_of_ne_nil nonempty) _), update_apply]
    split
    · rename_i own
      subst own
      exact ⟨rfl, slot.nextBucket, by simp [here], undisturbed inside⟩
    · exact undisturbed inside
  · rw [length] at inside
    by_cases own : bucket = home
    · rw [own, update_self]
      exact nodup_cons.mpr ⟨fun member => outside (inChain (own ▸ inside) member), sound.chainDistinct _ (own ▸ inside)⟩
    · rw [update_of_ne own]
      exact sound.chainDistinct bucket inside
  · rw [length] at inside ⊢
    have member : other ∈ update chain home (id :: chain home) bucket ↔
        other ∈ chain bucket ∨ other = id ∧ bucket = home := by
      by_cases own : bucket = home
      · rw [own, update_self, mem_cons]
        tauto
      · simp [own]
    rw [member, sound.inChain bucket inside other, mem_append, mem_singleton]
    by_cases equal : other = id
    · simp [equal, outside, here, slot, mine, eq_comm]
    · rw [elsewhere equal]
      simp [equal]

theorem seek_search (before : Option Nat) :
    (t.seek same key h fuel before start).map (Option.map Prod.snd) = t.search same key h fuel start := by
  induction fuel generalizing before start with
  | zero => cases start <;> rfl
  | succ fuel ih =>
    cases start with
    | none => rfl
    | some id =>
      rw [Table.seek, Table.search]
      cases t.entries.data id with
      | none => rfl
      | some slot =>
        simp only [bind_eq_bind, bind_some]
        split
        · rfl
        · exact ih _

/-- The slot found splits the chain, behind the one that the search passed last. -/
theorem split_of_seek {prev : Option Nat}
    (follows : Follows (fun id => (t.entries.data id).map (·.nextBucket)) start ids)
    (found : t.seek same key h fuel prev start = some (some (before, id))) :
    ∃ pre post, ids = pre ++ id :: post ∧ before = pre.getLast?.or prev := by
  induction ids generalizing fuel prev start with
  | nil =>
    cases follows
    cases fuel <;> cases found
  | cons first rest ih =>
    obtain ⟨rfl, link, here, later⟩ := follows
    obtain ⟨slot, there, rfl⟩ := Option.map_eq_some_iff.mp here
    obtain _ | fuel := fuel
    · cases found
    rw [Table.seek, there] at found
    simp only [bind_eq_bind, bind_some] at found
    split at found
    · cases found
      exact ⟨[], rest, rfl, rfl⟩
    · obtain ⟨pre, post, rfl, rfl⟩ := ih later found
      refine ⟨first :: pre, post, rfl, ?_⟩
      rw [List.getLast?_cons]
      cases pre.getLast? <;> rfl

/-- One slot is left out of a chain: the link of the one before leads past it. -/
theorem Follows.skip {next next' : Nat → Option (Option Nat)} {link : Option Nat} {before : Nat}
    (follows : Follows next start (pre ++ before :: id :: post)) (distinct : (pre ++ before :: id :: post).Nodup)
    (here : next id = some link) (written : next' before = some link)
    (agree : ∀ other, other ≠ before → other ≠ id → next' other = next other) :
    Follows next' start (pre ++ before :: post) := by
  induction pre generalizing start with
  | nil =>
    obtain ⟨first, -, -, -, after, there, later⟩ := follows
    obtain rfl := Option.some.inj (here.symm.trans there)
    refine ⟨first, link, written, later.congr fun other member => ?_⟩
    simp only [nil_append, nodup_cons, mem_cons, not_or] at distinct
    exact agree other (fun equal => distinct.1.2 (equal ▸ member)) fun equal => distinct.2.1 (equal ▸ member)
  | cons other rest ih =>
    obtain ⟨first, after, there, later⟩ := follows
    rw [cons_append, nodup_cons] at distinct
    simp only [mem_append, mem_cons, not_or] at distinct
    exact ⟨first, after, (agree other distinct.1.2.1 distinct.1.2.2.1).trans there, ih later distinct.2⟩

/-- The slots of a chain after the one at `id` has been taken out of it. -/
theorem Sound.unchain (sound : Sound hash name t order free spare chain) (bound : bucket < t.buckets.length)
    (split : chain bucket = pre ++ id :: post) (there : t.entries.data id = some slot) :
    ∃ buckets entries, t.unchain bucket pre.getLast? slot.nextBucket = some (buckets, entries) ∧
      entries.Holds order ∧ buckets.length = t.buckets.length ∧
      (∀ other, (entries.data other).map (fun slot => { slot with nextBucket := none }) =
        (t.entries.data other).map fun slot => { slot with nextBucket := none }) ∧
      ∀ other < t.buckets.length, Follows (fun id => (entries.data id).map (·.nextBucket)) (buckets.getD other none)
        (update chain bucket (pre ++ post) other) := by
  have follows := sound.chained bucket bound
  rw [split] at follows
  have here : (t.entries.data id).map (·.nextBucket) = some slot.nextBucket := by rw [there, map_some]
  cases last : pre.getLast? with
  | none =>
    obtain rfl := List.getLast?_eq_none_iff.mp last
    obtain ⟨-, after, there', later⟩ := follows
    obtain rfl := Option.some.inj (here.symm.trans there')
    refine ⟨_, _, rfl, sound.linked, length_set, fun _ => rfl, fun other inside => ?_⟩
    rw [getD_set bound, update_apply]
    split
    · exact later
    · exact sound.chained other inside
  | some before =>
    obtain ⟨pre, rfl⟩ := List.getLast?_eq_some_iff.mp last
    have member : before ∈ chain bucket := by simp [split]
    obtain ⟨inOrder, previous, found, hashed⟩ := (sound.inChain bucket bound before).mp member
    obtain ⟨entries, done, linked, data⟩ := sound.linked.modifyData
      (f := fun previous : Slot κ α => { previous with nextBucket := slot.nextBucket }) found
    refine ⟨t.buckets, entries, by simp [Table.unchain, done], linked, rfl, fun other => ?_, fun other inside => ?_⟩
    · rw [data]
      exact map_update found _ (by rfl) other
    · have agree (id : Nat) (apart : id ≠ before) :
          (entries.data id).map (·.nextBucket) = (t.entries.data id).map (·.nextBucket) := by
        rw [data, update_of_ne apart]
      by_cases mine : other = bucket
      · subst mine
        have distinct := sound.chainDistinct other inside
        rw [split, append_assoc, singleton_append] at distinct
        rw [append_assoc, singleton_append] at follows
        rw [update_self, append_assoc, singleton_append]
        exact follows.skip distinct here (by simp [data]) fun id apart _ => agree id apart
      · rw [update_of_ne mine]
        refine (sound.chained other inside).congr fun id member => agree id fun equal => mine ?_
        obtain ⟨-, slot', there', hashed'⟩ := (sound.inChain other inside id).mp member
        rw [equal, found] at there'
        cases there'
        exact hashed'.symm.trans hashed

theorem Sound.release (sound : Sound hash name t (xs ++ id :: ys) free none chain)
    (bound : bucket < t.buckets.length) (split : chain bucket = pre ++ id :: post) :
    ∃ t' chain', t.release bucket pre.getLast? id = some t' ∧ Sound hash name t' (xs ++ ys) (id :: free) none chain' ∧
      t'.version = t.version + 1 ∧
      ∀ id ∈ xs ++ ys, (t'.entries.data id).bind Slot.entry = (t.entries.data id).bind Slot.entry := by
  have mem (other : Nat) : other ∈ xs ++ id :: ys ↔ other = id ∨ other ∈ xs ++ ys := by simp [or_left_comm]
  have outside := (nodup_cons.mp (nodup_middle.mp sound.linked.distinct)).1
  obtain ⟨slot, -, there, -⟩ := sound.filled id ((mem id).mpr (.inl rfl))
  obtain ⟨buckets, entries, unchained, linked, length, kept, chained⟩ := sound.unchain bound split there
  obtain ⟨unlinked, done, linked, data⟩ := linked.unlink
  obtain ⟨slot', there'⟩ := Option.isSome_iff_exists.mp ((isSome_kept (kept id)).mpr (by rw [there]; rfl))
  obtain ⟨cleared, done', linked, data'⟩ := linked.modifyData (f := fun _ : Slot κ α => { nextFree := t.freeHead })
    ((congrFun data id).trans there')
  rw [data] at data'
  have here : cleared.data id = some { nextFree := t.freeHead } := by rw [data', update_self]
  have elsewhere {other : Nat} (apart : other ≠ id) : cleared.data other = entries.data other := by
    rw [data', update_of_ne apart]
  have kept {other : Nat} (apart : other ≠ id) := elsewhere apart ▸ kept other
  have inOrder {other : Nat} (member : other ∈ xs ++ ys) : other ≠ id := fun equal => outside (equal ▸ member)
  have same (other : Nat) (member : other ∈ xs ++ ys) := entry_kept (kept (inOrder member))
  have distinct := sound.chainDistinct bucket bound
  rw [split] at distinct
  have once := nodup_cons.mp (nodup_middle.mp distinct)
  have inChain (other : Nat) (inside : other < t.buckets.length) (member : Nat) :
      member ∈ update chain bucket (pre ++ post) other ↔ member ≠ id ∧ member ∈ chain other := by
    by_cases mine : other = bucket
    · rw [mine, update_self, split]
      have left := once.1
      simp only [mem_append, mem_cons] at left ⊢
      grind
    · rw [update_of_ne mine, iff_and_self]
      rintro within rfl
      obtain ⟨-, slot₁, there₁, hashed₁⟩ := (sound.inChain other inside member).mp within
      obtain ⟨-, slot₂, there₂, hashed₂⟩ := (sound.inChain bucket bound member).mp (by simp [split])
      rw [there₁] at there₂
      cases there₂
      exact mine (hashed₁.symm.trans hashed₂)
  refine ⟨{ t with
    entries := cleared, buckets := buckets, freeHead := some id, size := t.size - 1, version := t.version + 1 },
    update chain bucket (pre ++ post), ?_, { sound with
    linked := linked
    size := ?_
    array := fun other => ?_
    taken := fun other => ?_
    apart := fun other member inside => ?_
    spared := nofun
    freeDistinct := nodup_cons.mpr ⟨fun member => sound.apart id member ((mem id).mpr (.inl rfl)), sound.freeDistinct⟩
    freed := ⟨rfl, t.freeHead, by simp [here], sound.freed.congr fun other member =>
      nextFree_kept (kept fun equal => sound.apart other member ((mem other).mpr (.inl equal)))⟩
    filled := fun other member => ?_
    vacant := fun other slot there outside' => ?_
    distinct := ?_
    chained := fun other inside => ?_
    chainDistinct := fun other inside => ?_
    inChain := fun other inside member => ?_
    bucketed := fun _ empty => absurd (congrArg List.length empty) (by simp only [length_nil]; omega) }, rfl, same⟩
  · simp only [Table.release, there, bind_eq_bind, bind_some, unchained, done, done']
    rfl
  · have size := sound.size
    simp only [length_append, length_cons] at size ⊢
    omega
  · rw [← sound.array other]
    by_cases apart : other = id
    · simp [apart, here, there]
    · exact isSome_kept (kept apart)
  · rw [sound.taken other, mem, mem_cons]
    grind
  · rcases mem_cons.mp member with rfl | member
    · exact outside inside
    · exact sound.apart other member ((mem other).mpr (.inr inside))
  · obtain ⟨slot, entry, there, facts⟩ := sound.filled other ((mem other).mpr (.inr member))
    obtain ⟨slot', there', facts'⟩ := (lift_kept (kept (inOrder member)) (fun slot => slot.occupied = true ∧
      slot.entry = some entry ∧ slot.hash = hash entry.1) fun _ => Iff.rfl).mpr ⟨slot, there, facts⟩
    exact ⟨slot', entry, there', facts'⟩
  · by_cases apart : other = id
    · rw [apart, here] at there
      cases there
      rfl
    · obtain ⟨slot', there', same⟩ :=
        (lift_kept (kept apart) (·.occupied = slot.occupied) fun _ => Iff.rfl).mp ⟨slot, there, rfl⟩
      refine same.symm.trans (sound.vacant other slot' there' fun member => ?_)
      exact ((mem other).mp member).elim apart outside'
  · rw [content_congr same]
    exact sound.distinct.sublist (((sublist_cons_self id ys).append_left xs).filterMap _ |>.map _)
  · rw [length] at inside
    refine (chained other inside).congr fun member within => ?_
    rw [elsewhere ((inChain other inside member).mp within).1]
  · rw [length] at inside
    by_cases mine : other = bucket
    · rw [mine, update_self]
      exact once.2
    · rw [update_of_ne mine]
      exact sound.chainDistinct other inside
  · rw [length] at inside ⊢
    rw [inChain other inside member, sound.inChain other inside member, mem]
    by_cases apart : member = id
    · simp [apart, outside]
    · rw [lift_kept (kept apart) (bucketOf ·.hash t.buckets.length = other) fun _ => Iff.rfl]
      simp [apart]

include sameName hashName in
theorem Sound.remove_of_mem (sound : Sound hash name t (xs ++ id :: ys) free none chain)
    {entry : κ × α} (holds : (t.entries.data id).bind Slot.entry = some entry) (found : name entry.1 = name key) :
    ∃ t' chain', t.remove same key (hash key) = some (true, t') ∧ Sound hash name t' (xs ++ ys) (id :: free) none chain' ∧
      t'.version = t.version + 1 ∧
      ∀ id ∈ xs ++ ys, (t'.entries.data id).bind Slot.entry = (t.entries.data id).bind Slot.entry := by
  have member : id ∈ xs ++ id :: ys := by simp
  have nonempty := sound.bucketed (ne_nil_of_mem member)
  have bound := bucketOf_lt (length_pos_of_ne_nil nonempty) (hash key)
  have searched := sound.find_of_mem sameName hashName member holds found
  rw [Table.find, if_neg nonempty, ← seek_search none, Option.map_eq_some_iff] at searched
  obtain ⟨result, sought, last⟩ := searched
  obtain ⟨⟨before, other⟩, rfl, rfl⟩ := Option.map_eq_some_iff.mp last
  obtain ⟨pre, post, split, rfl⟩ := split_of_seek (sound.chained _ bound) sought
  rw [or_none] at sought
  obtain ⟨t', chain', done, after⟩ := sound.release bound split
  refine ⟨t', chain', ?_, after⟩
  simp only [Table.remove, if_neg nonempty, sought, bind_eq_bind, bind_some]
  rw [done]
  rfl

include sameName hashName in
theorem Sound.remove_of_new (sound : Sound hash name t order free spare chain)
    (new : ∀ entry ∈ content t.entries.data order, name entry.1 ≠ name key) :
    t.remove same key (hash key) = some (false, t) := by
  have searched := sound.find_of_new sameName hashName new
  rw [Table.remove]
  split
  · rfl
  rename_i nonempty
  rw [Table.find, if_neg nonempty, ← seek_search none, Option.map_eq_some_iff] at searched
  obtain ⟨result, sought, last⟩ := searched
  obtain rfl := Option.map_eq_none_iff.mp last
  simp only [sought, bind_eq_bind, bind_some]
  rfl

include sameName in
theorem filter_of_mem {entry : κ × α}
    (distinct : ((content data (xs ++ id :: ys)).map fun entry => name entry.1).Nodup)
    (holds : (data id).bind Slot.entry = some entry) (found : name entry.1 = name key) :
    (content data (xs ++ id :: ys)).filter (fun entry => !same entry.1 key) = content data (xs ++ ys) := by
  rw [content_append, content_cons, holds] at distinct ⊢
  simp only [Option.toList_some, singleton_append, map_append, map_cons] at distinct ⊢
  have outside := (nodup_cons.mp (nodup_middle.mp distinct)).1
  rw [← map_append, ← content_append] at outside
  rw [filter_append, filter_cons_of_neg (by simp [sameName, found]), ← filter_append, ← content_append,
    filter_eq_self]
  intro other member
  have apart : name other.1 ≠ name key := fun equal =>
    outside (found.trans equal.symm ▸ mem_map_of_mem (f := fun entry : κ × α => name entry.1) member)
  simpa [Bool.eq_false_iff, sameName] using apart

theorem Table.walk_eq (spells : t.entries.Spells before ids none)
    (filled : ∀ id ∈ ids, ((t.entries.data id).bind Slot.entry).isSome) (enough : ids.length ≤ fuel) :
    t.walk fuel ids.head? = some (content t.entries.data ids) := by
  induction ids generalizing before fuel with
  | nil => cases fuel <;> rfl
  | cons id rest ih =>
    obtain ⟨⟨slot, there⟩, later⟩ := spells
    have data : t.entries.data id = some slot := by rw [Queue.data, there]; rfl
    have full := filled id mem_cons_self
    obtain ⟨entry, holds⟩ := Option.isSome_iff_exists.mp full
    rw [data, bind_some] at holds
    obtain ⟨key, value⟩ := Slot.entry_eq_some.mp holds
    obtain _ | fuel := fuel
    · cases enough
    have rest' := ih later (fun id member => filled id (mem_cons_of_mem _ member)) (Nat.le_of_succ_le_succ enough)
    rw [content_cons, data, bind_some, holds]
    simp only [List.head?_cons, Table.walk, there, bind_eq_bind, bind_some, key, value, or_none, rest']
    rfl

section

variable (sound : Sound hash name t order free spare chain)

include sound

theorem Sound.length_le : order.length ≤ t.entryCapacity := by
  have inside : order ⊆ List.range t.entryCapacity := fun id member =>
    mem_range.mpr ((sound.order_lt member).trans_le sound.counted)
  simpa using (sound.linked.distinct.subperm inside).length_le

theorem Sound.filled_isSome : ∀ id ∈ order, ((t.entries.data id).bind Slot.entry).isSome := by
  intro id member
  obtain ⟨slot, entry, there, -, holds, -⟩ := sound.filled id member
  rw [there, bind_some, holds]
  rfl

theorem Sound.toList : t.toList = some (content t.entries.data order) := by
  rw [Table.toList, sound.linked.head]
  exact Table.walk_eq sound.linked.spells sound.filled_isSome sound.length_le

end

theorem length_content (filled : ∀ id ∈ ids, ((data id).bind Slot.entry).isSome) :
    (content data ids).length = ids.length := by
  induction ids with
  | nil => rfl
  | cons id rest ih =>
    obtain ⟨entry, holds⟩ := Option.isSome_iff_exists.mp (filled id mem_cons_self)
    rw [content_cons, holds, length_append, ih fun id member => filled id (mem_cons_of_mem _ member)]
    exact Nat.add_comm ..

end

end OrderedTable
