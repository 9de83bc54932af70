import FiberGateway.Async.Mutex

/-!
`SignalService` between `attach` and `detach`, and the awaiters of `wait_signal`, all on the thread of the loop.
-/

namespace FiberGateway.Event

open Function

open Async (WaiterState)

structure SignalInfo where
  signum : Nat := 0
  code : Int := 0
  pid : Int := 0
  uid : Int := 0
  status : Int := 0
  errno : Int := 0
  value : Int := 0
  deriving DecidableEq, Repr

/-- `SignalWaiter` without its links; `handle` tells whether the handle of the coroutine is set. `SignalWaiterState` has the
states of the other waiters. -/
structure SignalWaiter where
  signum : Nat
  info : SignalInfo := {}
  handle : Bool := true
  state : WaiterState := .waiting
  queued : Bool := false
  deriving DecidableEq, Repr

/-- The waiters, named by numbers, with the queue of each signal number, and the signals that nobody waited for. -/
structure SignalService where
  heap : Nat → Option (LinkedQueue.Node SignalWaiter) := fun _ => none
  heads : Nat → Option Nat := fun _ => none
  tails : Nat → Option Nat := fun _ => none
  pending : Nat → List SignalInfo := fun _ => []

/-- `NSIG`. -/
def kNsig : Nat := 65

def validSignum (signum : Nat) : Prop := 0 < signum ∧ signum < kNsig

instance (signum : Nat) : Decidable (validSignum signum) := inferInstanceAs (Decidable (_ ∧ _))

namespace SignalService

/-! None stands for a failed `FIBER_ASSERT`, and for the use of a waiter that was deleted. -/

def data (s : SignalService) (waiter : Nat) : Option SignalWaiter := (s.heap waiter).map (·.data)

/-- `waiters_[signum]`. -/
def waiters (s : SignalService) (signum : Nat) : LinkedQueue.Queue SignalWaiter :=
  { heap := s.heap, head := s.heads signum, tail := s.tails signum }

def setWaiters (s : SignalService) (signum : Nat) (queue : LinkedQueue.Queue SignalWaiter) : SignalService :=
  { s with
    heap := queue.heap
    heads := update s.heads signum queue.head
    tails := update s.tails signum queue.tail }

def modifyWaiter (s : SignalService) (waiter : Nat) (f : SignalWaiter → SignalWaiter) : Option SignalService := do
  let node ← s.heap waiter
  return { s with heap := update s.heap waiter (some { node with data := f node.data }) }

def delete (s : SignalService) (waiter : Nat) : Option SignalService := do
  let _ ← s.heap waiter
  return { s with heap := update s.heap waiter none }

def enqueueWaiter (s : SignalService) (signum waiter : Nat) : Option SignalService := do
  let data ← s.data waiter
  if ¬validSignum signum ∨ data.signum ≠ signum ∨ data.queued then none
  else do
    let queue ← (s.waiters signum).pushBack waiter
    (s.setWaiters signum queue).modifyWaiter waiter fun waiter => { waiter with queued := true }

def cancelWaiter (s : SignalService) (waiter : Nat) : Option SignalService := do
  let data ← s.data waiter
  if ¬validSignum data.signum then none
  else match data.state with
    | .waiting => do
      let s ← if data.queued then do
          let queue ← (s.waiters data.signum).unlink waiter
          (s.setWaiters data.signum queue).modifyWaiter waiter fun waiter => { waiter with queued := false }
        else some s
      let s ← s.modifyWaiter waiter fun waiter => { waiter with state := .canceled, handle := false }
      s.delete waiter
    | .notified => s.modifyWaiter waiter fun waiter => { waiter with state := .canceled, handle := false }
    | _ => some s

def tryPopPending (s : SignalService) (signum : Nat) : Option (SignalInfo × SignalService) :=
  if ¬validSignum signum then none
  else match s.pending signum with
    | [] => none
    | info :: rest => some (info, { s with pending := update s.pending signum rest })

/-- Each round of the loop takes a waiter out of the queue. -/
def popNextWaiter : Nat → SignalService → Nat → Option (Option Nat × SignalService)
  | 0, _, _ => none
  | fuel + 1, s, signum =>
    match s.heads signum with
    | none => some (none, s)
    | some waiter => do
      let queue ← (s.waiters signum).popFront waiter
      let s ← (s.setWaiters signum queue).modifyWaiter waiter fun waiter => { waiter with queued := false }
      let data ← s.data waiter
      if data.state ≠ .waiting then popNextWaiter fuel s signum
      else do
        let s ← s.modifyWaiter waiter fun waiter => { waiter with state := .notified }
        return (some waiter, s)

/-- `on_delivery`: the waiter to post. -/
def onDelivery (fuel : Nat) (s : SignalService) (info : SignalInfo) : Option (Option Nat × SignalService) :=
  if ¬validSignum info.signum then some (none, s)
  else do
    let (waiter, s) ← s.popNextWaiter fuel info.signum
    match waiter with
    | none => return (none, { s with
        pending := update s.pending info.signum (s.pending info.signum ++ [info]) })
    | some waiter => do
      let s ← s.modifyWaiter waiter fun waiter => { waiter with info := info }
      return (some waiter, s)

/-- `SignalWaiter::resume`: what the coroutine is resumed with. -/
def resume (s : SignalService) (waiter : Nat) : Option (Option SignalInfo × SignalService) := do
  let data ← s.data waiter
  if data.state = .notified then do
    let s ← s.modifyWaiter waiter fun waiter => { waiter with state := .resumed, handle := false }
    return (if data.handle then some data.info else none, s)
  else return (none, s)

end SignalService

/-- The service and its awaiters. The calls of `wait_signal` are numbered, and a waiter has the number of its call; `awaiting`
are those whose awaiter exists, `posted` those whose notification is in the queue of the loop, in its order, and `deleting`
those about to be deleted. The other fields record what happened; `lost` are the signals of waiters whose awaiter ended
after they were notified, `overtook` the calls that returned at once while an earlier one was notified but had not run. -/
structure SignalSystem where
  service : SignalService := {}
  created : Nat := 0
  awaiting : List Nat := []
  posted : List Nat := []
  deleting : List Nat := []
  suspended : List Nat := []
  delivered : List SignalInfo := []
  assigned : List (Nat × SignalInfo) := []
  returned : List (Nat × SignalInfo) := []
  lost : List (Nat × SignalInfo) := []
  overtook : List Nat := []
  deleted : List Nat := []

inductive SignalEvent
  | wait (signum : Nat)
  | signal (info : SignalInfo)
  | destroy (waiter : Nat)
  | notify
  | delete (waiter : Nat)
  deriving DecidableEq, Repr

/-- The signals that are in a waiter that was notified, in the order of the notifications. -/
def notifiedIn (posted : List Nat) (table : Nat → Option SignalWaiter) : List (Nat × SignalInfo) :=
  posted.filterMap fun waiter =>
    (table waiter).bind fun data => if data.state = .notified then some (waiter, data.info) else none

/-- Those of one signal number. -/
def ofSignum (signum : Nat) (infos : List (Nat × SignalInfo)) : List (Nat × SignalInfo) :=
  infos.filter fun p => p.2.signum = signum

namespace SignalSystem

def notified (s : SignalSystem) : List (Nat × SignalInfo) := notifiedIn s.posted s.service.data

/-- `wait_signal` is called with a valid number. -/
def Enabled (s : SignalSystem) : SignalEvent → Prop
  | .wait signum => validSignum signum
  | .signal _ => True
  | .destroy waiter => waiter ∈ s.awaiting
  | .notify => s.posted ≠ []
  | .delete waiter => waiter ∈ s.deleting

instance (s : SignalSystem) (event : SignalEvent) : Decidable (s.Enabled event) := by
  cases event <;> unfold Enabled <;> infer_instance

/-- `await_ready` and `await_suspend`. -/
def wait (s : SignalSystem) (signum : Nat) : Option SignalSystem :=
  let waiter := s.created
  match s.service.tryPopPending signum with
  | some (info, service) => some { s with
      service := service
      created := waiter + 1
      assigned := s.assigned ++ [(waiter, info)]
      returned := s.returned ++ [(waiter, info)]
      overtook := if ofSignum signum s.notified = [] then s.overtook else s.overtook ++ [waiter] }
  | none => do
    let service ← { s.service with
      heap := update s.service.heap waiter (some { data := { signum := signum } }) }.enqueueWaiter signum waiter
    return { s with
      service := service
      created := waiter + 1
      awaiting := s.awaiting ++ [waiter]
      suspended := s.suspended ++ [waiter] }

def signal (s : SignalSystem) (info : SignalInfo) : Option SignalSystem := do
  let (waiter, service) ← s.service.onDelivery (s.created + 1) info
  let s := { s with
    service := service
    delivered := if validSignum info.signum then s.delivered ++ [info] else s.delivered }
  return match waiter with
    | none => s
    | some waiter => { s with posted := s.posted ++ [waiter], assigned := s.assigned ++ [(waiter, info)] }

/-- The end of an awaiter that waits. -/
def destroy (s : SignalSystem) (waiter : Nat) : Option SignalSystem := do
  let data ← s.service.data waiter
  let service ← s.service.cancelWaiter waiter
  let s := { s with service := service, awaiting := s.awaiting.erase waiter }
  return match data.state with
    | .waiting => { s with deleted := s.deleted ++ [waiter] }
    | .notified => { s with lost := s.lost ++ [(waiter, data.info)] }
    | _ => s

/-- `on_run`, up to the point where the resumed coroutine waits again. -/
def notify (s : SignalSystem) : Option SignalSystem :=
  match s.posted with
  | [] => some s
  | waiter :: rest => do
    let (info, service) ← s.service.resume waiter
    let s := { s with service := service, posted := rest, deleting := s.deleting ++ [waiter] }
    return match info with
      | none => s
      | some info => { s with
          awaiting := s.awaiting.erase waiter
          returned := s.returned ++ [(waiter, info)] }

def delete (s : SignalSystem) (waiter : Nat) : Option SignalSystem := do
  let service ← s.service.delete waiter
  return { s with service := service, deleting := s.deleting.erase waiter, deleted := s.deleted ++ [waiter] }

def step (s : SignalSystem) : SignalEvent → Option SignalSystem
  | .wait signum => s.wait signum
  | .signal info => s.signal info
  | .destroy waiter => s.destroy waiter
  | .notify => s.notify
  | .delete waiter => s.delete waiter

/-- Any interleaving: what cannot happen is passed over. -/
def run (s : SignalSystem) (events : List SignalEvent) : Option SignalSystem :=
  events.foldlM (fun s event => if s.Enabled event then s.step event else some s) s

end SignalSystem

end FiberGateway.Event
