import FiberGateway.Lib.LinkedQueue

namespace FiberGateway.Async

inductive WaiterState
  | waiting | notified | resumed | canceled
  deriving DecidableEq, Repr

/-- `Mutex::Waiter` without its links. A thread stands for its event loop as well; `handle` tells whether the handle of
the coroutine is set. -/
structure Waiter where
  thread : Nat
  handle : Bool := true
  state : WaiterState := .waiting
  queued : Bool := false
  deriving DecidableEq, Repr

/-- The fields under `state_mu_`; waiters are named by the number of their allocation. -/
structure Mutex where
  waiters : LinkedQueue.Queue Waiter := {}
  locked : Bool := false
  ownerThread : Option Nat := none

namespace Mutex

/-! Each function is one critical section. None stands for a failed `FIBER_ASSERT`, and for the use of a waiter that was
deleted. -/

def modifyWaiter (m : Mutex) (waiter : Nat) (f : Waiter → Waiter) : Option Mutex :=
  (m.waiters.modifyData waiter f).map fun waiters => { m with waiters := waiters }

def tryLock (m : Mutex) (thread : Nat) : Option (Bool × Mutex) :=
  if m.locked then some (false, m)
  else if m.waiters.head ≠ none ∨ m.waiters.tail ≠ none then none
  else some (true, { m with locked := true, ownerThread := some thread })

/-- Each round of the loop takes a waiter out of the queue. -/
def selectNextWaiterLocked : Nat → Mutex → Option (Option Nat × Mutex)
  | 0, _ => none
  | fuel + 1, m =>
    match m.waiters.head with
    | none => some (none, { m with locked := false, ownerThread := none })
    | some next => do
      let waiters ← m.waiters.popFront next
      let m ← { m with waiters := waiters }.modifyWaiter next fun waiter => { waiter with queued := false }
      let waiter ← m.waiters.data next
      if waiter.state = .resumed then none
      else if waiter.state ≠ .waiting then selectNextWaiterLocked fuel m
      else do
        let m ← m.modifyWaiter next fun waiter => { waiter with state := .notified }
        return (some next, { m with ownerThread := some waiter.thread })

def unlock (fuel : Nat) (m : Mutex) (thread : Nat) : Option (Option Nat × Mutex) :=
  if ¬m.locked then none
  else if m.ownerThread ≠ some thread then none
  else m.selectNextWaiterLocked fuel

/-- False when the mutex was free and is taken for the waiter. -/
def enqueueWaiter (m : Mutex) (waiter : Nat) : Option (Bool × Mutex) :=
  if ¬m.locked then do
    let data ← m.waiters.data waiter
    return (false, { m with locked := true, ownerThread := some data.thread })
  else do
    let waiters ← m.waiters.pushBack waiter
    let m ← { m with waiters := waiters }.modifyWaiter waiter fun waiter => { waiter with queued := true }
    return (true, m)

/-- `cancel_waiter` on the given thread, up to the end of the critical section: the waiter to resume next, and whether
the canceled one is to be deleted. -/
def cancelWaiter (fuel : Nat) (m : Mutex) (waiter thread : Nat) : Option (Option Nat × Bool × Mutex) := do
  let data ← m.waiters.data waiter
  match data.state with
  | .waiting =>
    let m ← if data.queued then do
        let waiters ← m.waiters.unlink waiter
        { m with waiters := waiters }.modifyWaiter waiter fun waiter => { waiter with queued := false }
      else some m
    let m ← m.modifyWaiter waiter fun waiter => { waiter with state := .canceled, handle := false }
    return (none, true, m)
  | .notified =>
    if m.ownerThread ≠ some thread then none
    else do
      let m ← m.modifyWaiter waiter fun waiter => { waiter with state := .canceled, handle := false }
      let (next, m) ← m.selectNextWaiterLocked fuel
      return (next, false, m)
  | _ => return (none, false, m)

/-- `Waiter::resume`: whether a coroutine is resumed. -/
def resume (m : Mutex) (waiter : Nat) : Option (Bool × Mutex) := do
  let data ← m.waiters.data waiter
  if data.state = .notified then do
    let m ← m.modifyWaiter waiter fun waiter => { waiter with state := .resumed, handle := false }
    return (data.handle, m)
  else return (false, m)

end Mutex

/-- The mutex and the threads that use it. `holders` are the threads of those that have the lock, `suspending` those
between `await_ready` and `await_suspend`; `awaiting` are the waiters whose awaiter exists, `selected` those between
their selection and `post_resume`, `posted` those whose notification is in the queue of their loop, and `deleting` those
about to be deleted. The other fields record what happened. -/
structure System where
  mutex : Mutex := {}
  created : Nat := 0
  holders : List Nat := []
  suspending : List Nat := []
  awaiting : List Nat := []
  selected : List Nat := []
  posted : List Nat := []
  deleting : List Nat := []
  arrived : List Nat := []
  withdrawn : List Nat := []
  granted : List Nat := []
  resumed : List Nat := []
  deleted : List Nat := []

/-- One step of one thread. `lock` is `await_ready`; `unlock` is made by a holder, on the thread where it got the lock,
and `cancel`, the end of an awaiter, on the thread that awaited. -/
inductive Event
  | tryLock (thread : Nat)
  | lock (thread : Nat)
  | suspend (thread : Nat)
  | unlock (thread : Nat)
  | cancel (waiter : Nat)
  | post (waiter : Nat)
  | deliver (waiter : Nat)
  | delete (waiter : Nat)
  deriving DecidableEq, Repr

namespace System

def Enabled (s : System) : Event → Prop
  | .tryLock _ => True
  | .lock _ => True
  | .suspend thread => thread ∈ s.suspending
  | .unlock thread => thread ∈ s.holders
  | .cancel waiter => waiter ∈ s.awaiting
  | .post waiter => waiter ∈ s.selected
  | .deliver waiter => waiter ∈ s.posted
  | .delete waiter => waiter ∈ s.deleting

instance (s : System) (event : Event) : Decidable (s.Enabled event) := by
  cases event <;> unfold Enabled <;> infer_instance

/-- No loop over the queue takes more rounds. -/
def fuel (s : System) : Nat := s.created + 1

def tryLock (s : System) (thread : Nat) : Option (Bool × System) := do
  let (locked, m) ← s.mutex.tryLock thread
  return (locked, { s with
    mutex := m
    holders := if locked then thread :: s.holders else s.holders })

/-- `await_suspend`: a new waiter is queued, or deleted when the lock was free. -/
def suspend (s : System) (thread : Nat) : Option System := do
  let waiter := s.created
  let m := { s.mutex with waiters := s.mutex.waiters.alloc waiter { thread := thread } }
  let (queued, m) ← m.enqueueWaiter waiter
  let s := { s with created := waiter + 1, suspending := s.suspending.erase thread }
  if queued then return { s with
    mutex := m
    awaiting := s.awaiting ++ [waiter]
    arrived := s.arrived ++ [waiter] }
  else do
    let waiters ← m.waiters.delete waiter
    return { s with
      mutex := { m with waiters := waiters }
      holders := thread :: s.holders
      deleted := s.deleted ++ [waiter] }

/-- The selected waiter is on its way to be resumed. -/
def select (s : System) (next : Option Nat) : System :=
  { s with selected := s.selected ++ next.toList, granted := s.granted ++ next.toList }

def unlock (s : System) (thread : Nat) : Option System := do
  let (next, m) ← s.mutex.unlock s.fuel thread
  return { s with mutex := m, holders := s.holders.erase thread }.select next

def cancel (s : System) (waiter : Nat) : Option System := do
  let data ← s.mutex.waiters.data waiter
  let (next, shouldDelete, m) ← s.mutex.cancelWaiter s.fuel waiter data.thread
  let s := { s with mutex := m, awaiting := s.awaiting.erase waiter }.select next
  return if shouldDelete then { s with
    deleting := s.deleting ++ [waiter]
    withdrawn := s.withdrawn ++ [waiter] } else s

def post (s : System) (waiter : Nat) : Option System := do
  let _ ← s.mutex.waiters.data waiter
  return { s with selected := s.selected.erase waiter, posted := s.posted ++ [waiter] }

/-- `on_run`, up to the point where the resumed coroutine waits again. -/
def deliver (s : System) (waiter : Nat) : Option System := do
  let data ← s.mutex.waiters.data waiter
  let (resumes, m) ← s.mutex.resume waiter
  let s := { s with mutex := m, posted := s.posted.erase waiter, deleting := s.deleting ++ [waiter] }
  return if resumes then { s with
    holders := data.thread :: s.holders
    awaiting := s.awaiting.erase waiter
    resumed := s.resumed ++ [waiter] } else s

def delete (s : System) (waiter : Nat) : Option System := do
  let waiters ← s.mutex.waiters.delete waiter
  return { s with
    mutex := { s.mutex with waiters := waiters }
    deleting := s.deleting.erase waiter
    deleted := s.deleted ++ [waiter] }

def step (s : System) : Event → Option System
  | .tryLock thread => (s.tryLock thread).map (·.2)
  | .lock thread => (s.tryLock thread).map fun (locked, s) =>
      if locked then s else { s with suspending := thread :: s.suspending }
  | .suspend thread => s.suspend thread
  | .unlock thread => s.unlock thread
  | .cancel waiter => s.cancel waiter
  | .post waiter => s.post waiter
  | .deliver waiter => s.deliver waiter
  | .delete waiter => s.delete waiter

/-- Any interleaving: an event that no thread can make is passed over. -/
def run (s : System) (events : List Event) : Option System :=
  events.foldlM (fun s event => if s.Enabled event then s.step event else some s) s

end System

end FiberGateway.Async
