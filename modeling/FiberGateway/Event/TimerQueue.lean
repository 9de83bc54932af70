import Mathlib

/-!
`TimerQueue` and the timers of `EventLoop`: a heap of nodes that are linked by pointers and addressed by the bits of the
count.
-/

namespace FiberGateway.Event

open Function

structure TimerQueue.Node (α : Type) where
  left : Option α := none
  right : Option α := none
  parent : Option α := none
  deriving DecidableEq, Repr

/-- The queue and the nodes it may be made of; `α` are their addresses. -/
structure TimerQueue (α : Type) where
  nodes : α → TimerQueue.Node α
  min : Option α := none
  count : Nat := 0

namespace TimerQueue

variable {α : Type} [DecidableEq α] {T : Type} [LinearOrder T]

/-- What a `Node **` of the code points to. -/
inductive Slot (α : Type)
  | min
  | left (node : α)
  | right (node : α)
  deriving DecidableEq, Repr

def setNode (q : TimerQueue α) (a : α) (node : Node α) : TimerQueue α :=
  { q with nodes := update q.nodes a node }

def setLeft (q : TimerQueue α) (a : α) (left : Option α) : TimerQueue α :=
  q.setNode a { q.nodes a with left := left }

def setRight (q : TimerQueue α) (a : α) (right : Option α) : TimerQueue α :=
  q.setNode a { q.nodes a with right := right }

def setParent (q : TimerQueue α) (a : α) (parent : Option α) : TimerQueue α :=
  q.setNode a { q.nodes a with parent := parent }

/-- The write through a pointer that was found not to be null. -/
def setParentOf (q : TimerQueue α) (a : Option α) (parent : α) : TimerQueue α :=
  match a with
  | none => q
  | some a => q.setParent a (some parent)

def read (q : TimerQueue α) : Slot α → Option α
  | .min => q.min
  | .left a => (q.nodes a).left
  | .right a => (q.nodes a).right

def write (q : TimerQueue α) (slot : Slot α) (value : Option α) : TimerQueue α :=
  match slot with
  | .min => { q with min := value }
  | .left a => q.setLeft a value
  | .right a => q.setRight a value

/-- Puts `next` where the node above, or `min_`, has `node`. -/
def relink (q : TimerQueue α) (above : Option α) (node next : α) : TimerQueue α :=
  match above with
  | none => { q with min := some next }
  | some above =>
    if (q.nodes above).left = some node then q.setLeft above (some next) else q.setRight above (some next)

/-- The nodes trade places, pointers and all, and `parent` comes below `child`. -/
def exchange (q : TimerQueue α) (parent child : α) : TimerQueue α :=
  let temp := q.nodes parent
  let q := q.setNode parent (q.nodes child)
  let q := q.setNode child temp
  q.setParent parent (some child)

/-- The pointer of `child` that led to itself; the other one is the sibling's. -/
def turn (q : TimerQueue α) (parent child : α) : TimerQueue α × Option α :=
  if (q.nodes child).left = some child then (q.setLeft child (some parent), (q.nodes child).right)
  else (q.setRight child (some parent), (q.nodes child).left)

def swapNodes (q : TimerQueue α) (parent child : α) : TimerQueue α :=
  let q := q.exchange parent child
  let (q, sibling) := q.turn parent child
  let q := q.setParentOf sibling child
  let q := q.setParentOf (q.nodes parent).left parent
  let q := q.setParentOf (q.nodes parent).right parent
  q.relink (q.nodes child).parent parent child

/-- The path to a position: one bit for each level, the first step lowest. -/
def pathLoop : Nat → Nat → Nat → Nat → Nat × Nat
  | 0, path, k, _ => (path, k)
  | fuel + 1, path, k, n =>
    if 2 ≤ n then pathLoop fuel ((path <<< 1) ||| (n &&& 1)) (k + 1) (n / 2) else (path, k)

def pathTo (n : Nat) : Nat × Nat := pathLoop n 0 0 n

/-- Follows the path from the slot `child`; the slot before it is kept as well. None: a null pointer is followed. -/
def descend (q : TimerQueue α) : Nat → Nat → Slot α × Slot α → Option (Slot α × Slot α)
  | 0, _, slots => some slots
  | k + 1, path, (_, child) =>
    match q.read child with
    | none => none
    | some a => q.descend k (path >>> 1) (child, if path &&& 1 = 1 then .right a else .left a)

/-- The loop that exchanges a node with its parent as long as it is less. None: it did not come to its end. -/
def siftUp (deadline : α → T) (node : α) : Nat → TimerQueue α → Option (TimerQueue α)
  | 0, _ => none
  | fuel + 1, q =>
    match (q.nodes node).parent with
    | none => some q
    | some parent => if deadline node < deadline parent then siftUp deadline node fuel (q.swapNodes parent node) else some q

/-- The lesser of `smallest` and the node that a pointer points to. -/
def lesser (deadline : α → T) (smallest : α) (node : Option α) : α :=
  match node with
  | none => smallest
  | some a => if deadline a < deadline smallest then a else smallest

/-- The least of a node and the ones below it. -/
def smallestOf (deadline : α → T) (q : TimerQueue α) (child : α) : α :=
  lesser deadline (lesser deadline child (q.nodes child).left) (q.nodes child).right

def siftDown (deadline : α → T) (child : α) : Nat → TimerQueue α → Option (TimerQueue α)
  | 0, _ => none
  | fuel + 1, q =>
    if q.smallestOf deadline child = child then some q
    else siftDown deadline child fuel (q.swapNodes child (q.smallestOf deadline child))

def insert (deadline : α → T) (q : TimerQueue α) (node : α) : Option (TimerQueue α) :=
  let q := q.setNode node {}
  let (path, k) := pathTo (1 + q.count)
  match q.descend k path (.min, .min) with
  | none => none
  | some (parent, child) =>
    let q := q.setParent node (q.read parent)
    let q := q.write child (some node)
    let q := { q with count := q.count + 1 }
    siftUp deadline node q.count q

/-- The end of `remove`: the node taken off the end of the tree replaces the one that goes. -/
def replace (deadline : α → T) (q : TimerQueue α) (node child : α) : Option (TimerQueue α) :=
  let q := q.setNode child (q.nodes node)
  let q := q.setParentOf (q.nodes child).left child
  let q := q.setParentOf (q.nodes child).right child
  let q := q.relink (q.nodes node).parent node child
  match siftDown deadline child (q.count + 1) q with
  | none => none
  | some q => siftUp deadline child (q.count + 1) q

def remove (deadline : α → T) (q : TimerQueue α) (node : α) : Option (TimerQueue α) :=
  if q.count = 0 then some q
  else
    let (path, k) := pathTo q.count
    match q.descend k path (.min, .min) with
    | none => none
    | some (_, max) =>
      let q := { q with count := q.count - 1 }
      match q.read max with
      | none => none
      | some child =>
        let q := q.write max none
        if child = node then some (if some child = q.min then { q with min := none } else q)
        else q.replace deadline node child

end TimerQueue

/-- The timers of an event loop: the heap, and the fields of the entries that it is made of. -/
structure Timers (α T : Type) where
  queue : TimerQueue α
  deadline : α → T
  inHeap : α → Bool

/-- Why a call does not return: an assertion fails, or the heap is broken (a null pointer, an endless loop). -/
inductive Fault
  | assertion
  | broken
  deriving DecidableEq, Repr

/-- What a callback does with timers. -/
inductive TimerAction (α T : Type)
  | arm (timer : α) (deadline : T)
  | cancel (timer : α)
  deriving DecidableEq, Repr

/-- What happens to timers while `run_due_timers` is at work. -/
inductive TimerEvent (α T : Type)
  | action (action : TimerAction α T)
  | fire (timer : α)
  deriving DecidableEq, Repr

/-- How far a call has come. -/
inductive Progress
  | working
  | returned
  | failed (fault : Fault)
  deriving DecidableEq, Repr

namespace Timers

variable {α : Type} [DecidableEq α] {T : Type} [LinearOrder T]

def orBroken {β : Type} : Option β → Except Fault β
  | none => .error .broken
  | some b => .ok b

/-- The timers of a new loop, whatever is in the entries. -/
def init (nodes : α → TimerQueue.Node α) (deadline : α → T) : Timers α T where
  queue := { nodes := nodes }
  deadline := deadline
  inHeap := fun _ => false

/-- `post_at`. -/
def postAt (t : Timers α T) (when : T) (entry : α) : Except Fault (Timers α T) :=
  if t.inHeap entry then .error .assertion
  else
    let deadline := update t.deadline entry when
    (orBroken (t.queue.insert deadline entry)).map fun queue =>
      { queue := queue, deadline := deadline, inHeap := update t.inHeap entry true }

/-- The `remove` of a timer that is in the heap. -/
def take (t : Timers α T) (entry : α) : Except Fault (Timers α T) :=
  (orBroken (t.queue.remove t.deadline entry)).map fun queue =>
    { t with queue := queue, inHeap := update t.inHeap entry false }

def cancel (t : Timers α T) (entry : α) : Except Fault (Timers α T) :=
  if t.inHeap entry then t.take entry else .ok t

def act (t : Timers α T) : TimerAction α T → Except Fault (Timers α T)
  | .arm entry when => t.postAt when entry
  | .cancel entry => t.cancel entry

/-- What a callback does, one thing after the other. -/
def actAll (t : Timers α T) : List (TimerAction α T) → Except Fault (Timers α T)
  | [] => .ok t
  | action :: rest =>
    match t.act action with
    | .error fault => .error fault
    | .ok t => t.actAll rest

/-- The loop of `run_due_timers`. A callback may do anything with the timers, in the light of all that has happened so far
(`callbacks`); the events are recorded. -/
def runDueTimers (callbacks : List (TimerEvent α T) → List (TimerAction α T)) (now : T) :
    Nat → Timers α T → List (TimerEvent α T) → Progress × Timers α T × List (TimerEvent α T)
  | 0, t, events => (.working, t, events)
  | fuel + 1, t, events =>
    match t.queue.min with
    | none => (.returned, t, events)
    | some entry =>
      if now < t.deadline entry then (.returned, t, events)
      else
        match t.take entry with
        | .error fault => (.failed fault, t, events)
        | .ok t =>
          let events := events ++ [.fire entry]
          let actions := callbacks events
          match t.actAll actions with
          | .error fault => (.failed fault, t, events)
          | .ok t => runDueTimers callbacks now fuel t (events ++ actions.map .action)

end Timers

end FiberGateway.Event
