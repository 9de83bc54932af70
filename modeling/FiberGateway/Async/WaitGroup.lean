import FiberGateway.Async.Mutex

namespace FiberGateway.Async

/-- The fields under `state_mu_`. A `WaitGroup::Waiter` has the fields of a `Mutex::Waiter`, and is named by the number of
its allocation. -/
structure WaitGroup where
  waiters : LinkedQueue.Queue Waiter := {}
  count : Nat := 0

namespace WaitGroup

/-! Each function is one critical section, as for the mutex. -/

/-- `std::numeric_limits<std::uint64_t>::max()`. -/
def maxCount : Nat := 2 ^ 64 - 1

def modifyWaiter (g : WaitGroup) (waiter : Nat) (f : Waiter → Waiter) : Option WaitGroup :=
  (g.waiters.modifyData waiter f).map fun waiters => { g with waiters := waiters }

def add (g : WaitGroup) (n : Nat) : Option WaitGroup :=
  if n = 0 then some g
  else if g.count ≤ maxCount - n then some { g with count := g.count + n }
  else none

/-- `done` up to the end of the critical section: the first of the waiters to notify. -/
def done (fuel : Nat) (g : WaitGroup) : Option (Option Nat × WaitGroup) :=
  if g.count = 0 then none
  else if g.count - 1 ≠ 0 then some (none, { g with count := g.count - 1 })
  else do
    let (first, waiters) ← g.waiters.detach fuel fun waiter => { waiter with queued := false, state := .notified }
    return (first, { g with count := g.count - 1, waiters := waiters })

/-- False when there is nothing to wait for. -/
def enqueueWaiter (g : WaitGroup) (waiter : Nat) : Option (Bool × WaitGroup) :=
  if g.count = 0 then some (false, g)
  else do
    let waiters ← g.waiters.pushBack waiter
    let g ← { g with waiters := waiters }.modifyWaiter waiter fun waiter => { waiter with queued := true }
    return (true, g)

/-- `cancel_waiter` up to the end of the critical section: whether the waiter is to be deleted. -/
def cancelWaiter (g : WaitGroup) (waiter : Nat) : Option (Bool × WaitGroup) := do
  let data ← g.waiters.data waiter
  match data.state with
  | .waiting =>
    let g ← if data.queued then do
        let waiters ← g.waiters.unlink waiter
        { g with waiters := waiters }.modifyWaiter waiter fun waiter => { waiter with queued := false }
      else some g
    let g ← g.modifyWaiter waiter fun waiter => { waiter with state := .canceled, handle := false }
    return (true, g)
  | .notified =>
    let g ← g.modifyWaiter waiter fun waiter => { waiter with state := .canceled, handle := false }
    return (false, g)
  | _ => return (false, g)

/-- `Waiter::resume`: whether a coroutine is resumed. -/
def resume (g : WaitGroup) (waiter : Nat) : Option (Bool × WaitGroup) := do
  let data ← g.waiters.data waiter
  if data.state = .notified then do
    let g ← g.modifyWaiter waiter fun waiter => { waiter with state := .resumed, handle := false }
    return (data.handle, g)
  else return (false, g)

/-- A call of `done` in its loop: `notify_head`, and the waiter that is taken but not posted. -/
structure Posting where
  head : Option Nat
  current : Option Nat := none
  deriving DecidableEq, Repr

/-- What happened: a join that did not suspend saw a count, the count came down to zero, and what became of the waiters. -/
inductive Fact
  | passed (count : Nat)
  | enqueued (waiter : Nat)
  | zero
  | canceled (waiter : Nat)
  | resumed (waiter : Nat)
  deriving DecidableEq, Repr

/-- The group and the threads that use it. `suspending` are the threads between `await_ready` and `await_suspend`;
`awaiting` are the waiters whose awaiter exists, `calls` the calls of `done` that notify, `posted` the waiters whose
notification is in the queue of their loop, and `deleting` those about to be deleted. -/
structure System where
  group : WaitGroup := {}
  created : Nat := 0
  suspending : List Nat := []
  awaiting : List Nat := []
  calls : List Posting := []
  posted : List Nat := []
  deleting : List Nat := []
  deleted : List Nat := []
  history : List Fact := []

/-- One step of one thread. `join` is `await_ready`; `take` and `post` are made by a call of `done`, and `cancel`, the end of
an awaiter, by the thread that awaited. -/
inductive Event
  | add (n : Nat)
  | done
  | join (thread : Nat)
  | suspend (thread : Nat)
  | cancel (waiter : Nat)
  | take (call : Nat)
  | post (call : Nat)
  | deliver (waiter : Nat)
  | delete (waiter : Nat)
  deriving DecidableEq, Repr

namespace System

/-- A call of `add` or `done` that its own assertion would end is not made. -/
def Enabled (s : System) : Event → Prop
  | .add n => n ≤ maxCount ∧ s.group.count ≤ maxCount - n
  | .done => 0 < s.group.count
  | .join _ => True
  | .suspend thread => thread ∈ s.suspending
  | .cancel waiter => waiter ∈ s.awaiting
  | .take call => s.calls[call]?.any fun posting => posting.current.isNone && posting.head.isSome
  | .post call => s.calls[call]?.any fun posting => posting.current.isSome
  | .deliver waiter => waiter ∈ s.posted
  | .delete waiter => waiter ∈ s.deleting

instance (s : System) (event : Event) : Decidable (s.Enabled event) := by
  cases event <;> unfold Enabled <;> infer_instance

/-- The loop over the queue takes no more rounds. -/
def fuel (s : System) : Nat := s.created

def add (s : System) (n : Nat) : Option System := do
  let g ← s.group.add n
  return { s with group := g }

def done (s : System) : Option System := do
  let (first, g) ← s.group.done s.fuel
  return { s with
    group := g
    calls := s.calls ++ [{ head := first }]
    history := if g.count = 0 then s.history ++ [.zero] else s.history }

def join (s : System) (thread : Nat) : System :=
  if s.group.count = 0 then { s with history := s.history ++ [.passed s.group.count] }
  else { s with suspending := thread :: s.suspending }

/-- `await_suspend`: a new waiter is queued, or deleted when there is nothing to wait for. -/
def suspend (s : System) (thread : Nat) : Option System := do
  let waiter := s.created
  let g := { s.group with waiters := s.group.waiters.alloc waiter { thread := thread } }
  let (queued, g) ← g.enqueueWaiter waiter
  let s := { s with created := waiter + 1, suspending := s.suspending.erase thread }
  if queued then return { s with
    group := g
    awaiting := s.awaiting ++ [waiter]
    history := s.history ++ [.enqueued waiter] }
  else do
    let waiters ← g.waiters.delete waiter
    return { s with
      group := { g with waiters := waiters }
      deleted := s.deleted ++ [waiter]
      history := s.history ++ [.passed g.count] }

def cancel (s : System) (waiter : Nat) : Option System := do
  let (shouldDelete, g) ← s.group.cancelWaiter waiter
  return { s with
    group := g
    awaiting := s.awaiting.erase waiter
    deleting := if shouldDelete then s.deleting ++ [waiter] else s.deleting
    history := s.history ++ [.canceled waiter] }

/-- The first half of a round of the loop in `done`. -/
def take (s : System) (call : Nat) : Option System := do
  let posting ← s.calls[call]?
  let waiter ← posting.head
  let (next, waiters) ← s.group.waiters.takeNext waiter
  return { s with
    group := { s.group with waiters := waiters }
    calls := s.calls.set call { head := next, current := some waiter } }

def post (s : System) (call : Nat) : Option System := do
  let posting ← s.calls[call]?
  let waiter ← posting.current
  let _ ← s.group.waiters.data waiter
  return { s with
    calls := s.calls.set call { posting with current := none }
    posted := s.posted ++ [waiter] }

/-- `on_run`, up to the point where the resumed coroutine waits again. -/
def deliver (s : System) (waiter : Nat) : Option System := do
  let (resumes, g) ← s.group.resume waiter
  let s := { s with group := g, posted := s.posted.erase waiter, deleting := s.deleting ++ [waiter] }
  return if resumes then { s with
    awaiting := s.awaiting.erase waiter
    history := s.history ++ [.resumed waiter] } else s

def delete (s : System) (waiter : Nat) : Option System := do
  let waiters ← s.group.waiters.delete waiter
  return { s with
    group := { s.group with waiters := waiters }
    deleting := s.deleting.erase waiter
    deleted := s.deleted ++ [waiter] }

def step (s : System) : Event → Option System
  | .add n => s.add n
  | .done => s.done
  | .join thread => some (s.join thread)
  | .suspend thread => s.suspend thread
  | .cancel waiter => s.cancel waiter
  | .take call => s.take call
  | .post call => s.post call
  | .deliver waiter => s.deliver waiter
  | .delete waiter => s.delete waiter

/-- Any interleaving: an event that no thread can make is passed over. -/
def run (s : System) (events : List Event) : Option System :=
  events.foldlM (fun s event => if s.Enabled event then s.step event else some s) s

end System

end WaitGroup

end FiberGateway.Async
