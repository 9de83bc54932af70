import Mathlib

/-!
An intrusive queue: the nodes are linked in both directions through fields of their own, in a heap that they are
allocated in and deleted from. An operation that follows a link to a node that is not there has no result.
-/

namespace LinkedQueue

open List

open Option (bind_eq_bind bind_some bind_eq_some_iff)

open Function (update_of_ne update_self update_apply comp_def)

variable {α : Type}

structure Node (α : Type) where
  prev : Option Nat := none
  next : Option Nat := none
  data : α

structure Queue (α : Type) where
  heap : Nat → Option (Node α) := fun _ => none
  head : Option Nat := none
  tail : Option Nat := none

namespace Queue

def data (q : Queue α) (id : Nat) : Option α := (q.heap id).map (·.data)

def update (q : Queue α) (id : Nat) (f : Node α → Node α) : Option (Queue α) :=
  match q.heap id with
  | none => none
  | some node => some { q with heap := Function.update q.heap id (some (f node)) }

def modifyData (q : Queue α) (id : Nat) (f : α → α) : Option (Queue α) :=
  q.update id fun node => { node with data := f node.data }

def alloc (q : Queue α) (id : Nat) (data : α) : Queue α :=
  { q with heap := Function.update q.heap id (some { data := data }) }

def delete (q : Queue α) (id : Nat) : Option (Queue α) :=
  match q.heap id with
  | none => none
  | some _ => some { q with heap := Function.update q.heap id none }

/-- The link that the node `id` has from the node before it, or from the head. -/
def setNext (q : Queue α) (before : Option Nat) (id : Option Nat) : Option (Queue α) :=
  match before with
  | none => some { q with head := id }
  | some before => q.update before fun node => { node with next := id }

def setPrev (q : Queue α) (after : Option Nat) (id : Option Nat) : Option (Queue α) :=
  match after with
  | none => some { q with tail := id }
  | some after => q.update after fun node => { node with prev := id }

def pushBack (q : Queue α) (id : Nat) : Option (Queue α) := do
  let linked ← q.update id fun node => { node with prev := q.tail, next := none }
  let linked ← linked.setNext linked.tail (some id)
  return { linked with tail := some id }

/-- Takes a node out, wherever it is. -/
def unlink (q : Queue α) (id : Nat) : Option (Queue α) := do
  let node ← q.heap id
  let linked ← q.setNext node.prev node.next
  let linked ← linked.setPrev node.next node.prev
  linked.update id fun node => { node with prev := none, next := none }

/-- Takes the first node out. -/
def popFront (q : Queue α) (id : Nat) : Option (Queue α) := do
  let node ← q.heap id
  let linked ← { q with head := node.next }.setPrev node.next none
  linked.update id fun node => { node with prev := none, next := none }

/-- Changes the nodes that are linked from `id` on. -/
def each (f : Node α → Node α) : Nat → Option Nat → Queue α → Option (Queue α)
  | _, none, q => some q
  | 0, some _, _ => none
  | fuel + 1, some id, q => do
    let q ← q.update id f
    let node ← q.heap id
    q.each f fuel node.next

/-- Takes all nodes out at once; they stay linked forwards, from the one that was the first. -/
def detach (fuel : Nat) (q : Queue α) (f : α → α) : Option (Option Nat × Queue α) := do
  let detached ← { q with head := none, tail := none }.each
    (fun node => { node with prev := none, data := f node.data }) fuel q.head
  return (q.head, detached)

/-- Takes the first of the nodes that were detached. -/
def takeNext (q : Queue α) (id : Nat) : Option (Option Nat × Queue α) := do
  let node ← q.heap id
  let taken ← q.update id fun node => { node with next := none }
  return (node.next, taken)

/-- The nodes are linked in this order, between `before` and `after`. -/
def Spells (q : Queue α) (before : Option Nat) : List Nat → Option Nat → Prop
  | [], _ => True
  | id :: rest, after => (∃ data, q.heap id = some ⟨before, rest.head?.or after, data⟩) ∧ q.Spells (some id) rest after

/-- The nodes are linked forwards, up to a null pointer. -/
def Chain (q : Queue α) : List Nat → Prop
  | [] => True
  | id :: rest => (q.heap id).map (·.next) = some rest.head? ∧ q.Chain rest

/-- The links lead to a node. -/
inductive Leads (q : Queue α) : Option Nat → Nat → Prop
  | here {id : Nat} {node : Node α} (there : q.heap id = some node) : q.Leads (some id) id
  | later {first id : Nat} {node : Node α} (there : q.heap first = some node) (rest : q.Leads node.next id) :
    q.Leads (some first) id

structure Holds (q : Queue α) (ids : List Nat) : Prop where
  distinct : ids.Nodup
  head : q.head = ids.head?
  tail : q.tail = ids.getLast?
  spells : q.Spells none ids none

variable {q q' : Queue α} {before after : Option Nat} {id : Nat} {ids xs ys : List Nat}

variable {f : Node α → Node α} {fuel other : Nat} {link : Option Nat}

theorem update_eq {node : Node α} (there : q.heap id = some node) (f : Node α → Node α) :
    q.update id f = some { q with heap := Function.update q.heap id (some (f node)) } := by
  simp [update, there]

theorem update_heap (done : q.update id f = some q') :
    q' = { q with heap := q'.heap } ∧ ∃ node, q.heap id = some node ∧
      q'.heap = Function.update q.heap id (some (f node)) := by
  unfold update at done
  split at done
  · cases done
  rename_i node there
  cases done
  exact ⟨rfl, node, there, rfl⟩

theorem Spells.congr (spells : q.Spells before ids after) (same : ∀ id ∈ ids, q'.heap id = q.heap id) :
    q'.Spells before ids after := by
  induction ids generalizing before with
  | nil => trivial
  | cons id rest ih =>
    obtain ⟨⟨data, there⟩, later⟩ := spells
    refine ⟨⟨data, (same id mem_cons_self).trans there⟩, ih later fun id member => ?_⟩
    exact same id (mem_cons_of_mem _ member)

theorem spells_append : q.Spells before (xs ++ ys) after ↔
    q.Spells before xs (ys.head?.or after) ∧ q.Spells (xs.getLast?.or before) ys after := by
  induction xs generalizing before with
  | nil => simp [Spells]
  | cons x xs ih =>
    have next : (xs ++ ys).head?.or after = xs.head?.or (ys.head?.or after) := by
      cases xs <;> simp
    have last : (x :: xs).getLast?.or before = xs.getLast?.or (some x) := by
      cases xs with
      | nil => rfl
      | cons y ys => simp [List.getLast?_eq_getLast_of_ne_nil]
    simp only [cons_append, Spells, ih, next, last, and_assoc]

theorem data_update (keeps : ∀ node, (f node).data = node.data) (done : q.update id f = some q') :
    q'.data = q.data := by
  obtain ⟨-, node, there, heap⟩ := update_heap done
  funext other
  rw [data, data, heap]
  by_cases same : other = id
  · subst same
    simp [there, keeps]
  · rw [update_of_ne same]

theorem Spells.setNext (spells : q.Spells before xs after) (distinct : xs.Nodup) (link : Option Nat) :
    ∃ q', q.setNext xs.getLast? link = some q' ∧ q'.Spells before xs link ∧ q'.tail = q.tail ∧
      (q'.head = if xs = [] then link else q.head) ∧
      (∀ id, xs.getLast? ≠ some id → q'.heap id = q.heap id) ∧ q'.data = q.data := by
  induction xs generalizing before with
  | nil => exact ⟨_, rfl, trivial, rfl, rfl, fun _ _ => rfl, rfl⟩
  | cons x xs ih =>
    obtain ⟨⟨data, there⟩, later⟩ := spells
    rw [nodup_cons] at distinct
    cases xs with
    | nil =>
      have done := update_eq there fun node => { node with next := link }
      refine ⟨_, done, ⟨⟨data, update_self ..⟩, trivial⟩, rfl, rfl, fun id other => ?_, data_update (by intro; rfl) done⟩
      exact update_of_ne (fun same => other (by rw [same]; rfl)) _ _
    | cons y ys =>
      obtain ⟨q', done, spells', tail, head, same, kept⟩ := ih later distinct.2
      have apart : (y :: ys).getLast? ≠ some x := fun last => distinct.1 (mem_of_getLast? last)
      refine ⟨q', done, ⟨⟨data, (same x apart).trans there⟩, spells'⟩, tail, ?_, fun id other => same id other, kept⟩
      rw [head, if_neg (cons_ne_nil _ _), if_neg (cons_ne_nil _ _)]

theorem Spells.setPrev (spells : q.Spells before ys after) (distinct : ys.Nodup) (link : Option Nat) :
    ∃ q', q.setPrev ys.head? link = some q' ∧ q'.Spells link ys after ∧ q'.head = q.head ∧
      (q'.tail = if ys = [] then link else q.tail) ∧
      (∀ id, ys.head? ≠ some id → q'.heap id = q.heap id) ∧ q'.data = q.data := by
  cases ys with
  | nil => exact ⟨_, rfl, trivial, rfl, rfl, fun _ _ => rfl, rfl⟩
  | cons y ys =>
    obtain ⟨⟨data, there⟩, later⟩ := spells
    rw [nodup_cons] at distinct
    have done := update_eq there fun node => { node with prev := link }
    refine ⟨_, done, ⟨⟨data, update_self ..⟩, later.congr fun id member => ?_⟩, rfl, rfl, fun id other => ?_,
      data_update (by intro; rfl) done⟩
    · have apart : id ≠ y := fun same => distinct.1 (same ▸ member)
      exact update_of_ne apart _ _
    · exact update_of_ne (fun same => other (by rw [same]; rfl)) _ _

theorem Holds.node (holds : q.Holds (xs ++ id :: ys)) :
    ∃ data, q.heap id = some ⟨xs.getLast?, ys.head?, data⟩ := by
  have spells := (spells_append.mp holds.spells).2
  obtain ⟨data, there⟩ := spells.1
  exact ⟨data, by simpa using there⟩

theorem Spells.update (spells : q.Spells before ids after) (outside : id ∉ ids) (done : q.update id f = some q') :
    q'.Spells before ids after := by
  obtain ⟨-, node, -, heap⟩ := update_heap done
  refine spells.congr fun other member => ?_
  have apart : other ≠ id := fun same => outside (same ▸ member)
  rw [heap, update_of_ne apart]

theorem Holds.unlink (holds : q.Holds (xs ++ id :: ys)) :
    ∃ q', q.unlink id = some q' ∧ q'.Holds (xs ++ ys) ∧ q'.data = q.data := by
  obtain ⟨data, there⟩ := holds.node
  obtain ⟨distinct, distinct', apart⟩ := nodup_append.mp holds.distinct
  rw [nodup_cons] at distinct'
  obtain ⟨front, back⟩ := spells_append.mp holds.spells
  have back' := back.2
  obtain ⟨q₁, done₁, front₁, tail₁, head₁, same₁, data₁⟩ := front.setNext distinct ys.head?
  have back₁ := back'.congr fun other member => same₁ other fun last =>
    apart other (mem_of_getLast? last) other (mem_cons_of_mem _ member) rfl
  obtain ⟨q₂, done₂, back₂, head₂, tail₂, same₂, data₂⟩ := back₁.setPrev distinct'.2 xs.getLast?
  have front₂ := front₁.congr fun other member => same₂ other fun first =>
    apart other member other (mem_cons_of_mem _ (mem_of_head? first)) rfl
  have middle : q₂.heap id = some ⟨xs.getLast?, ys.head?, data⟩ := by
    rw [same₂ id fun first => distinct'.1 (mem_of_head? first),
      same₁ id fun last => apart id (mem_of_getLast? last) id mem_cons_self rfl, there]
  have done₃ := update_eq middle fun node => { node with prev := none, next := none }
  refine ⟨_, ?_, ⟨?_, ?_, ?_, ?_⟩, ((data_update (by intro; rfl) done₃).trans data₂).trans data₁⟩
  · simp [Queue.unlink, there, done₁, done₂, done₃]
  · exact nodup_append.mpr ⟨distinct, distinct'.2, fun a left b right => apart a left b (mem_cons_of_mem _ right)⟩
  · change q₂.head = (xs ++ ys).head?
    rw [head₂, head₁]
    cases xs with
    | nil => rfl
    | cons x xs => exact (if_neg (cons_ne_nil _ _)).trans holds.head
  · change q₂.tail = (xs ++ ys).getLast?
    rw [tail₂, tail₁, holds.tail]
    cases ys with
    | nil => simp
    | cons y ys => simp
  · have outside : id ∉ xs ++ ys := by
      rw [mem_append, not_or]
      exact ⟨fun member => apart id member id mem_cons_self rfl, distinct'.1⟩
    refine Spells.update (q := q₂) (spells_append.mpr ⟨?_, ?_⟩) outside done₃
    · simpa using front₂
    · simpa using back₂

theorem Holds.popFront_eq (holds : q.Holds (id :: ys)) : q.popFront id = q.unlink id := by
  obtain ⟨data, there⟩ : ∃ data, q.heap id = some ⟨[].getLast?, ys.head?, data⟩ := holds.node
  simp [Queue.popFront, Queue.unlink, there, Queue.setNext]

theorem Holds.popFront (holds : q.Holds ([] ++ id :: ys)) :
    ∃ q', q.popFront id = some q' ∧ q'.Holds ys ∧ q'.data = q.data :=
  holds.popFront_eq ▸ holds.unlink

theorem Holds.pushBack {node : Node α} (holds : q.Holds ids) (there : q.heap id = some node) (outside : id ∉ ids) :
    ∃ q', q.pushBack id = some q' ∧ q'.Holds (ids ++ [id]) ∧ q'.data = q.data := by
  have done₁ := update_eq there fun node => { node with prev := q.tail, next := none }
  generalize eq₁ : ({ q with heap := Function.update q.heap id (some ⟨q.tail, none, node.data⟩) } : Queue α) = q₁ at done₁
  have tail₁ : q₁.tail = ids.getLast? := by rw [← eq₁]; exact holds.tail
  have head₁ : q₁.head = q.head := by rw [← eq₁]
  have node₁ : q₁.heap id = some ⟨ids.getLast?, none, node.data⟩ := by
    rw [← eq₁, ← holds.tail]
    exact update_self ..
  obtain ⟨q₂, done₂, front₂, tail₂, head₂, same₂, data₂⟩ :=
    (holds.spells.update outside done₁).setNext holds.distinct (some id)
  refine ⟨{ q₂ with tail := some id }, ?_, ⟨?_, ?_, by simp, ?_⟩, data₂.trans (data_update (by intro; rfl) done₁)⟩
  · simp only [Queue.pushBack, done₁, bind_eq_bind, bind_some, tail₁, done₂]
    rfl
  · exact nodup_append.mpr ⟨holds.distinct, nodup_singleton _, fun a left b right => by
      rw [mem_singleton.mp right]
      exact fun same => outside (same ▸ left)⟩
  · change q₂.head = _
    rw [head₂, head₁, holds.head]
    cases ids <;> rfl
  · refine Spells.congr (q := q₂) (spells_append.mpr ⟨front₂, ⟨node.data, ?_⟩, trivial⟩) fun _ _ => rfl
    have apart : ids.getLast? ≠ some id := fun last => outside (mem_of_getLast? last)
    rw [same₂ id apart, node₁]
    simp

theorem Spells.modifyData {node : Node α} (spells : q.Spells before ids after) (found : q.heap id = some node)
    (f : α → α) : { q with heap := Function.update q.heap id (some { node with data := f node.data }) }.Spells
      before ids after := by
  induction ids generalizing before with
  | nil => trivial
  | cons first rest ih =>
    obtain ⟨⟨data, here⟩, later⟩ := spells
    refine ⟨?_, ih later⟩
    by_cases same : first = id
    · subst same
      rw [found] at here
      cases here
      exact ⟨_, update_self ..⟩
    · exact ⟨data, (update_of_ne same _ _).trans here⟩

theorem Holds.modifyData {f : α → α} (holds : q.Holds ids) {data : α} (there : q.data id = some data) :
    ∃ q', q.modifyData id f = some q' ∧ q'.Holds ids ∧ q'.data = Function.update q.data id (some (f data)) := by
  obtain ⟨node, found, rfl⟩ := Option.map_eq_some_iff.mp there
  refine ⟨_, update_eq found _, ⟨holds.distinct, holds.head, holds.tail, ?_⟩, ?_⟩
  · exact holds.spells.modifyData found f
  · funext other
    change Option.map _ (Function.update q.heap id _ other) = _
    rw [update_apply, update_apply]
    split <;> rfl

theorem modifyData_next {f : α → α} (done : q.modifyData id f = some q') (other : Nat) :
    (q'.heap other).map (·.next) = (q.heap other).map (·.next) := by
  obtain ⟨-, node, there, heap⟩ := update_heap done
  rw [heap, update_apply]
  split
  · rename_i same
    rw [same, there]
    rfl
  · rfl

theorem Holds.set (holds : q.Holds ids) (outside : id ∉ ids) (node : Option (Node α)) :
    { q with heap := Function.update q.heap id node }.Holds ids ∧
      { q with heap := Function.update q.heap id node }.data = Function.update q.data id (node.map (·.data)) := by
  refine ⟨⟨holds.distinct, holds.head, holds.tail, holds.spells.congr fun other member => ?_⟩, funext fun other => ?_⟩
  · have apart : other ≠ id := fun same => outside (same ▸ member)
    exact update_of_ne apart _ _
  · change Option.map _ (Function.update q.heap id node other) = _
    rw [update_apply, update_apply]
    split <;> rfl

theorem Holds.alloc (holds : q.Holds ids) (outside : id ∉ ids) (data : α) :
    (q.alloc id data).Holds ids ∧ (q.alloc id data).data = Function.update q.data id (some data) :=
  holds.set outside (some { data := data })

theorem Holds.delete (holds : q.Holds ids) (outside : id ∉ ids) {data : α} (there : q.data id = some data) :
    ∃ q', q.delete id = some q' ∧ q'.Holds ids ∧ q'.data = Function.update q.data id none := by
  obtain ⟨node, found, -⟩ := Option.map_eq_some_iff.mp there
  exact ⟨_, by rw [Queue.delete, found], holds.set outside none⟩

theorem Chain.congr (chain : q.Chain ids)
    (same : ∀ id ∈ ids, (q'.heap id).map (·.next) = (q.heap id).map (·.next)) : q'.Chain ids := by
  induction ids with
  | nil => trivial
  | cons id rest ih =>
    refine ⟨(same id mem_cons_self).trans chain.1, ih chain.2 fun other member => ?_⟩
    exact same other (mem_cons_of_mem _ member)

theorem Spells.chain (spells : q.Spells before ids none) : q.Chain ids := by
  induction ids generalizing before with
  | nil => trivial
  | cons id rest ih =>
    obtain ⟨⟨data, there⟩, later⟩ := spells
    exact ⟨by simp [there], ih later⟩

theorem Chain.leads_iff (chain : q.Chain ids) : q.Leads ids.head? id ↔ id ∈ ids := by
  induction ids with
  | nil =>
    constructor
    · rintro ⟨⟩
    · nofun
  | cons first rest ih =>
    obtain ⟨node, there, next⟩ := Option.map_eq_some_iff.mp chain.1
    rw [mem_cons, List.head?_cons]
    constructor
    · intro leads
      cases leads with
      | here => exact .inl rfl
      | later there' later =>
        obtain rfl := Option.some.inj (there.symm.trans there')
        rw [next] at later
        exact .inr ((ih chain.2).mp later)
    · rintro (rfl | member)
      · exact .here there
      · refine .later there ?_
        rw [next]
        exact (ih chain.2).mpr member

theorem Chain.each (keeps : ∀ node, (f node).next = node.next) (chain : q.Chain ids) (distinct : ids.Nodup)
    (enough : ids.length ≤ fuel) :
    ∃ q', q.each f fuel ids.head? = some q' ∧ q'.head = q.head ∧ q'.tail = q.tail ∧
      q'.heap = fun id => if id ∈ ids then (q.heap id).map f else q.heap id := by
  induction ids generalizing q fuel with
  | nil => exact ⟨q, by cases fuel <;> rfl, rfl, rfl, by simp⟩
  | cons id rest ih =>
    obtain ⟨node, there, next⟩ := Option.map_eq_some_iff.mp chain.1
    rw [nodup_cons] at distinct
    cases fuel with
    | zero => simp at enough
    | succ fuel =>
      have done := update_eq there f
      have chain' : { q with heap := Function.update q.heap id (some (f node)) }.Chain rest := by
        refine chain.2.congr fun other member => ?_
        have apart : other ≠ id := fun same => distinct.1 (same ▸ member)
        simp [update_of_ne apart]
      obtain ⟨q', run, head, tail, heap⟩ := ih chain' distinct.2 (by simpa using enough)
      refine ⟨q', ?_, head, tail, ?_⟩
      · simp only [Queue.each, List.head?_cons, done, bind_eq_bind, bind_some, update_self]
        rw [keeps, next]
        exact run
      · rw [heap]
        funext other
        by_cases here : other = id
        · subst here
          simp [distinct.1, there]
        · simp [here]

theorem Holds.detach (holds : q.Holds ids) (f : α → α) (enough : ids.length ≤ fuel) :
    ∃ q', q.detach fuel f = some (ids.head?, q') ∧ q'.Holds [] ∧ q'.Chain ids ∧
      (∀ id, (q'.heap id).map (·.next) = (q.heap id).map (·.next)) ∧
      q'.data = fun id => if id ∈ ids then (q.data id).map f else q.data id := by
  have chain : { q with head := none, tail := none }.Chain ids := holds.spells.chain.congr fun _ _ => rfl
  obtain ⟨q', run, head, tail, heap⟩ :=
    chain.each (f := fun node => { node with prev := none, data := f node.data }) (fun _ => rfl) holds.distinct enough
  have next (id : Nat) : (q'.heap id).map (·.next) = (q.heap id).map (·.next) := by
    rw [heap]
    dsimp only
    split
    · rw [Option.map_map]
      rfl
    · rfl
  refine ⟨q', ?_, ⟨nodup_nil, head, tail, trivial⟩, ?_, next, ?_⟩
  · rw [← holds.head] at run ⊢
    simp only [Queue.detach, run, bind_eq_bind, bind_some]
    rfl
  · exact holds.spells.chain.congr fun id _ => next id
  · funext id
    unfold Queue.data
    rw [heap]
    dsimp only
    split
    · simp [Option.map_map, comp_def]
    · rfl

theorem Chain.takeNext (chain : q.Chain (id :: ids)) :
    ∃ q', q.takeNext id = some (ids.head?, q') ∧ q'.head = q.head ∧ q'.tail = q.tail ∧ q'.data = q.data ∧
      ∀ other, other ≠ id → q'.heap other = q.heap other := by
  obtain ⟨node, there, next⟩ := Option.map_eq_some_iff.mp chain.1
  have done := update_eq there fun node => { node with next := none }
  refine ⟨{ q with heap := Function.update q.heap id (some { node with next := none }) }, ?_, rfl, rfl,
    data_update (by intro; rfl) done, fun other apart => update_of_ne apart _ _⟩
  simp only [Queue.takeNext, there, bind_eq_bind, bind_some, done, next]
  rfl

theorem Holds.congr (holds : q.Holds ids) (head : q'.head = q.head) (tail : q'.tail = q.tail)
    (same : ∀ id ∈ ids, q'.heap id = q.heap id) : q'.Holds ids :=
  ⟨holds.distinct, head.trans holds.head, tail.trans holds.tail, holds.spells.congr same⟩

theorem setNext_frame (done : q.setNext before link = some q') (apart : before ≠ some other) :
    q'.heap other = q.heap other := by
  cases before with
  | none =>
    cases done
    rfl
  | some before =>
    obtain ⟨-, node, -, heap⟩ := update_heap done
    rw [heap, update_of_ne fun same => apart (congrArg some same.symm)]

theorem setPrev_frame (done : q.setPrev after link = some q') (apart : after ≠ some other) :
    q'.heap other = q.heap other := by
  cases after with
  | none =>
    cases done
    rfl
  | some after =>
    obtain ⟨-, node, -, heap⟩ := update_heap done
    rw [heap, update_of_ne fun same => apart (congrArg some same.symm)]

/-- The nodes of no queue do not matter to one that joins it. -/
theorem Holds.pushBack_frame (holds : q.Holds ids) (done : q.pushBack id = some q') (outside : other ∉ ids)
    (apart : other ≠ id) : q'.heap other = q.heap other := by
  unfold Queue.pushBack at done
  simp only [bind_eq_bind, bind_eq_some_iff] at done
  obtain ⟨q₁, done₁, q₂, done₂, done⟩ := done
  cases done
  obtain ⟨rest, node, -, heap⟩ := update_heap done₁
  have tail : q₁.tail = q.tail := by rw [rest]
  have later : q₁.tail ≠ some other := by
    rw [tail, holds.tail]
    exact fun last => outside (mem_of_getLast? last)
  rw [setNext_frame done₂ later, heap, update_of_ne apart]

theorem Holds.unlink_frame (holds : q.Holds (xs ++ id :: ys)) (done : q.unlink id = some q')
    (outside : other ∉ xs ++ id :: ys) : q'.heap other = q.heap other := by
  obtain ⟨data, there⟩ := holds.node
  rw [mem_append, mem_cons, not_or, not_or] at outside
  unfold Queue.unlink at done
  simp only [there, bind_eq_bind, bind_some, bind_eq_some_iff] at done
  obtain ⟨q₁, done₁, q₂, done₂, done₃⟩ := done
  obtain ⟨-, node, -, heap⟩ := update_heap done₃
  rw [heap, update_of_ne outside.2.1, setPrev_frame done₂ fun first => outside.2.2 (mem_of_head? first),
    setNext_frame done₁ fun last => outside.1 (mem_of_getLast? last)]

theorem Holds.popFront_frame (holds : q.Holds ([] ++ id :: ys)) (done : q.popFront id = some q')
    (outside : other ∉ id :: ys) : q'.heap other = q.heap other :=
  holds.unlink_frame (holds.popFront_eq ▸ done) outside

end Queue

end LinkedQueue
