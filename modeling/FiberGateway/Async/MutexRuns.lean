import FiberGateway.Async.Mutex
import FiberGateway.Lib.Interleaving

namespace FiberGateway.Async

open List Function

open LinkedQueue

open Option (bind_eq_bind bind_some)

namespace Mutex

variable {m m' : Mutex} {q xs ys : List Nat} {w thread : Nat} {data : Waiter}

/-- What the mutex is for the surroundings: the queue in its order, and what is known of each waiter. -/
structure View (m : Mutex) (q : List Nat) (waiters : Nat → Option Waiter) : Prop where
  holds : m.waiters.Holds q
  data : m.waiters.data = waiters

variable {waiters : Nat → Option Waiter}

theorem View.modifyWaiter (view : View m q waiters) (there : waiters w = some data) (f : Waiter → Waiter) :
    ∃ m', m.modifyWaiter w f = some m' ∧ View m' q (update waiters w (some (f data))) ∧ m'.locked = m.locked ∧
      m'.ownerThread = m.ownerThread := by
  rw [← view.data] at there
  obtain ⟨queue, done, holds, kept⟩ := view.holds.modifyData (f := f) there
  refine ⟨{ m with waiters := queue }, ?_, ⟨holds, ?_⟩, rfl, rfl⟩
  · rw [Mutex.modifyWaiter, done]
    rfl
  · rw [← view.data]
    exact kept

theorem View.select_cons (view : View m (w :: q) waiters) (there : waiters w = some data) (waits : data.state = .waiting)
    (fuel : Nat) :
    ∃ m', m.selectNextWaiterLocked (fuel + 1) = some (some w, m') ∧
      View m' q (update waiters w (some { data with queued := false, state := .notified })) ∧
      m'.locked = m.locked ∧ m'.ownerThread = some data.thread := by
  obtain ⟨queue, popped, holds, kept⟩ := view.holds.popFront
  have taken : View { m with waiters := queue } q waiters := ⟨holds, kept.trans view.data⟩
  obtain ⟨m₁, done₁, view₁, locked₁, -⟩ := taken.modifyWaiter there fun waiter => { waiter with queued := false }
  have there₁ : m₁.waiters.data w = some { data with queued := false } := by
    rw [view₁.data, update_self]
  obtain ⟨m₂, done₂, view₂, locked₂, -⟩ :=
    view₁.modifyWaiter (update_self ..) fun waiter => { waiter with state := .notified }
  have head : m.waiters.head = some w := view.holds.head
  refine ⟨{ m₂ with ownerThread := some data.thread }, ?_, ⟨view₂.holds, ?_⟩, locked₂.trans locked₁, rfl⟩
  · unfold selectNextWaiterLocked
    simp only [head, popped, done₁, there₁, done₂, waits, bind_eq_bind, bind_some, reduceCtorEq, ne_eq,
      not_true_eq_false, if_false]
    rfl
  · rw [view₂.data, update_idem]

theorem View.select_nil (view : View m [] waiters) (fuel : Nat) :
    m.selectNextWaiterLocked (fuel + 1) = some (none, { m with locked := false, ownerThread := none }) := by
  have head := view.holds.head
  simp [selectNextWaiterLocked, head]

theorem View.tryLock (view : View m q waiters) (idle : m.locked = false → q = []) (thread : Nat) :
    m.tryLock thread = if m.locked then some (false, m)
      else some (true, { m with locked := true, ownerThread := some thread }) := by
  unfold Mutex.tryLock
  split
  · rfl
  rename_i free
  have empty := idle (by simpa using free)
  subst empty
  rw [if_neg]
  simp [view.holds.head, view.holds.tail]

theorem View.enqueue (view : View m q waiters) (locked : m.locked = true) (there : waiters w = some data) (new : w ∉ q) :
    ∃ m', m.enqueueWaiter w = some (true, m') ∧
      View m' (q ++ [w]) (update waiters w (some { data with queued := true })) ∧ m'.locked = true ∧
      m'.ownerThread = m.ownerThread := by
  obtain ⟨node, found, -⟩ := Option.map_eq_some_iff.mp ((congrFun view.data w).trans there)
  obtain ⟨queue, pushed, holds, kept⟩ := view.holds.pushBack found new
  have linked : View { m with waiters := queue } (q ++ [w]) waiters := ⟨holds, kept.trans view.data⟩
  obtain ⟨m₁, done₁, view₁, locked₁, owner₁⟩ := linked.modifyWaiter there fun waiter => { waiter with queued := true }
  refine ⟨m₁, ?_, view₁, locked₁.trans locked, owner₁⟩
  unfold Mutex.enqueueWaiter
  rw [if_neg (by simp [locked])]
  simp only [pushed, done₁, bind_eq_bind, bind_some]
  rfl

theorem View.cancel_waiting (view : View m (xs ++ w :: ys) waiters) (there : waiters w = some data)
    (waits : data.state = .waiting) (queued : data.queued = true) (fuel thread : Nat) :
    ∃ m', m.cancelWaiter fuel w thread = some (none, true, m') ∧
      View m' (xs ++ ys)
        (update waiters w (some { data with queued := false, state := .canceled, handle := false })) ∧
      m'.locked = m.locked ∧ m'.ownerThread = m.ownerThread := by
  obtain ⟨queue, unlinked, holds, kept⟩ := view.holds.unlink
  have taken : View { m with waiters := queue } (xs ++ ys) waiters := ⟨holds, kept.trans view.data⟩
  obtain ⟨m₁, done₁, view₁, locked₁, owner₁⟩ := taken.modifyWaiter there fun waiter => { waiter with queued := false }
  obtain ⟨m₂, done₂, view₂, locked₂, owner₂⟩ := view₁.modifyWaiter (update_self ..)
    fun waiter => { waiter with state := .canceled, handle := false }
  rw [update_idem] at view₂
  refine ⟨m₂, ?_, view₂, locked₂.trans locked₁, owner₂.trans owner₁⟩
  rw [← view.data] at there
  simp only [cancelWaiter, there, bind_eq_bind, bind_some, waits, queued, if_true, unlinked, done₁, done₂]
  rfl

/-- A waiter that has the lock but does not know gives it on. -/
theorem View.cancel_notified (view : View m q waiters) (there : waiters w = some data) (next : data.state = .notified)
    (owner : m.ownerThread = some thread) :
    ∃ m', View m' q (update waiters w (some { data with state := .canceled, handle := false })) ∧
      m'.locked = m.locked ∧ ∀ fuel, m.cancelWaiter fuel w thread =
        (m'.selectNextWaiterLocked fuel).map fun (next, m) => (next, false, m) := by
  obtain ⟨m₁, done₁, view₁, locked₁, owner₁⟩ :=
    view.modifyWaiter there fun waiter => { waiter with state := .canceled, handle := false }
  refine ⟨m₁, view₁, locked₁, fun fuel => ?_⟩
  rw [← view.data] at there
  simp only [cancelWaiter, there, bind_eq_bind, bind_some, next, owner, ne_eq, not_true_eq_false, if_false,
    done₁]
  cases m₁.selectNextWaiterLocked fuel <;> rfl

theorem View.resume (view : View m q waiters) (there : waiters w = some data) :
    ∃ m', m.resume w = some (data.state = .notified && data.handle, m') ∧ m'.locked = m.locked ∧
      m'.ownerThread = m.ownerThread ∧ View m' q (if data.state = .notified then
        update waiters w (some { data with state := .resumed, handle := false }) else waiters) := by
  obtain ⟨m₁, done₁, view₁, locked₁, owner₁⟩ :=
    view.modifyWaiter there fun waiter => { waiter with state := .resumed, handle := false }
  rw [← view.data] at there
  by_cases next : data.state = .notified
  · refine ⟨m₁, ?_, locked₁, owner₁, by rw [if_pos next]; exact view₁⟩
    simp only [Mutex.resume, there, bind_eq_bind, bind_some, next, if_true, done₁]
    simp
  · refine ⟨m, ?_, rfl, rfl, by rw [if_neg next]; exact view⟩
    simp only [Mutex.resume, there, bind_eq_bind, bind_some, next, if_false]
    simp

end Mutex

def stateAt (waiters : Nat → Option Waiter) (w : Nat) : Option WaiterState := (waiters w).map (·.state)

@[grind =]
theorem stateAt_update (waiters : Nat → Option Waiter) (w : Nat) (data : Option Waiter) (v : Nat) :
    stateAt (update waiters w data) v = if v = w then data.map (·.state) else stateAt waiters v := by
  rw [stateAt, update_apply]
  split <;> rfl

theorem stateAt_some {waiters : Nat → Option Waiter} {w : Nat} {state : WaiterState}
    (at_state : stateAt waiters w = some state) :
    ∃ data, waiters w = some data ∧ data.state = state :=
  Option.map_eq_some_iff.mp at_state

namespace System

/-- The lock is free, someone has it, or it is on its way to a waiter. -/
inductive Owned (m : Mutex) (holders : List Nat) (waiters : Nat → Option Waiter) : Prop
  | free (unlocked : m.locked = false) (unheld : holders = [])
      (idle : ∀ w, stateAt waiters w ≠ some .waiting ∧ stateAt waiters w ≠ some .notified)
  | held (locked : m.locked = true) {thread : Nat} (holder : holders = [thread])
      (owner : m.ownerThread = some thread) (unpassed : ∀ w, stateAt waiters w ≠ some .notified)
  | passed (locked : m.locked = true) (unheld : holders = []) {w : Nat} {data : Waiter}
      (there : waiters w = some data) (next : data.state = .notified) (owner : m.ownerThread = some data.thread)
      (only : ∀ v, stateAt waiters v = some .notified → v = w)

/-- What becomes of a waiter that the lock is not passed to does not matter to the lock. -/
theorem Owned.update {m m' : Mutex} {holders : List Nat} {waiters : Nat → Option Waiter} {w : Nat} {data : Option Waiter}
    (owned : Owned m holders waiters) (locked : m'.locked = m.locked) (owner : m'.ownerThread = m.ownerThread)
    (unpassed : stateAt waiters w ≠ some .notified) (unselected : data.map (·.state) ≠ some .notified)
    (waits : data.map (·.state) = some .waiting → m.locked = true) :
    Owned m' holders (Function.update waiters w data) := by
  cases owned with
  | free unlocked unheld idle =>
    refine .free (locked.trans unlocked) unheld fun v => ?_
    grind
  | held taken holder owns none =>
    refine .held (locked.trans taken) holder (owner.trans owns) fun v => ?_
    grind
  | @passed taken unheld next entry there notified owns only =>
    have apart : next ≠ w := fun same => unpassed (by rw [← same, stateAt, there, Option.map_some, notified])
    refine .passed (locked.trans taken) unheld ((Function.update_of_ne apart ..).trans there) notified (owner.trans owns) ?_
    grind

/-- The queue holds the waiters in state `waiting`; every other waiter has one task left, after which it is deleted. -/
structure Consistent (s : System) (q : List Nat) (waiters : Nat → Option Waiter) : Prop where
  view : s.mutex.View q waiters
  fresh : ∀ w, s.created ≤ w → waiters w = none
  waiting : ∀ w, w ∈ q ↔ stateAt waiters w = some .waiting
  queued : ∀ w data, waiters w = some data → data.state = .waiting → data.queued = true
  handles : ∀ w data, waiters w = some data → data.state = .waiting ∨ data.state = .notified → data.handle = true
  awaits : ∀ w, w ∈ s.awaiting ↔ stateAt waiters w = some .waiting ∨ stateAt waiters w = some .notified
  awaitsOnce : s.awaiting.Nodup
  tasks : (s.selected ++ s.posted ++ s.deleting).Nodup
  tasked : ∀ w, w ∈ s.selected ++ s.posted ++ s.deleting ↔
    stateAt waiters w ≠ none ∧ stateAt waiters w ≠ some .waiting
  coming : ∀ w, stateAt waiters w = some .notified → w ∉ s.deleting
  fifo : s.arrived.filter (· ∉ s.withdrawn) = s.granted ++ q
  arrivals : s.arrived.Nodup ∧ ∀ w ∈ s.arrived, w < s.created
  withdrawals : ∀ w ∈ s.withdrawn, w < s.created
  resumes : s.resumed.Nodup ∧
    ∀ w ∈ s.resumed, w < s.created ∧ (stateAt waiters w = none ∨ stateAt waiters w = some .resumed)
  gone : s.deleted.Nodup ∧ ∀ w, w ∈ s.deleted ↔ w < s.created ∧ waiters w = none

structure Inv (s : System) (q : List Nat) (waiters : Nat → Option Waiter) : Prop extends Consistent s q waiters where
  owned : Owned s.mutex s.holders waiters

attribute [grind cases eager] Consistent Inv

def Sound (s : System) : Prop := ∃ q waiters, Inv s q waiters

variable {s : System} {q : List Nat} {waiters : Nat → Option Waiter} {w thread : Nat}

theorem Inv.init : Inv {} [] (fun _ => none) := by
  refine ⟨⟨⟨⟨nodup_nil, rfl, rfl, trivial⟩, rfl⟩, fun _ _ => rfl, ?_, nofun, nofun, ?_, nodup_nil, nodup_nil,
    ?_, nofun, rfl, ⟨nodup_nil, nofun⟩, nofun, ⟨nodup_nil, nofun⟩, nodup_nil, ?_⟩, .free rfl rfl ?_⟩
  all_goals simp [stateAt]

section

variable (inv : Inv s q waiters)

include inv

theorem Inv.empty (unlocked : s.mutex.locked = false) : q = [] := by
  refine eq_nil_iff_forall_not_mem.mpr fun w member => ?_
  cases inv.owned with
  | free _ _ idle => exact (idle w).1 ((inv.waiting w).mp member)
  | held locked | passed locked => rw [locked] at unlocked; cases unlocked

theorem Inv.tryLock (thread : Nat) : ∃ locked s', s.tryLock thread = some (locked, s') ∧ Inv s' q waiters := by
  simp only [System.tryLock, inv.view.tryLock inv.empty thread]
  cases locked : s.mutex.locked with
  | true => exact ⟨false, _, rfl, inv⟩
  | false =>
    refine ⟨true, _, rfl, { inv with view := ⟨inv.view.holds, inv.view.data⟩, owned := ?_ }⟩
    cases inv.owned with
    | free _ unheld idle => exact .held rfl (by simp [unheld]) rfl fun w => (idle w).2
    | held taken | passed taken => rw [locked] at taken; cases taken

theorem Inv.lock (thread : Nat) : ∃ s', s.step (.lock thread) = some s' ∧ s'.Sound := by
  obtain ⟨locked, s', done, inv'⟩ := inv.tryLock thread
  refine ⟨_, by rw [step, done]; rfl, q, waiters, ?_⟩
  dsimp only
  split
  · exact inv'
  · exact { inv' with }

/-- A waiter that has something left to do is not deleted yet. -/
theorem Inv.live (task : w ∈ s.selected ++ s.posted ++ s.deleting) :
    ∃ data, waiters w = some data ∧ data.state ≠ .waiting := by
  obtain ⟨alive, active⟩ := (inv.tasked w).mp task
  obtain ⟨state, at_state⟩ := Option.ne_none_iff_exists'.mp alive
  obtain ⟨data, there, same⟩ := stateAt_some at_state
  exact ⟨data, there, fun waits => active (by rw [at_state, ← same, waits])⟩

theorem Inv.post (enabled : w ∈ s.selected) : ∃ s', s.post w = some s' ∧ s'.Sound := by
  obtain ⟨data, there, -⟩ := inv.live (w := w) (by simp [enabled])
  rw [← inv.view.data] at there
  have moved : (s.selected.erase w ++ (s.posted ++ [w]) ++ s.deleting).Perm (s.selected ++ s.posted ++ s.deleting) := by
    refine List.Perm.append_right _ ?_
    rw [← append_assoc]
    refine (perm_append_singleton _ _).trans ?_
    rw [← cons_append]
    exact (perm_cons_erase enabled).symm.append_right _
  exact ⟨{ s with selected := s.selected.erase w, posted := s.posted ++ [w] }, by simp [System.post, there], q, waiters, { inv with
    tasks := moved.nodup_iff.mpr inv.tasks
    tasked := fun v => moved.mem_iff.trans (inv.tasked v) }⟩

theorem Inv.delete (enabled : w ∈ s.deleting) : ∃ s', s.delete w = some s' ∧ s'.Sound := by
  obtain ⟨data, there, active⟩ := inv.live (w := w) (by simp [enabled])
  have state : stateAt waiters w = some data.state := by simp [stateAt, there]
  have unpassed : data.state ≠ .notified := fun next => inv.coming w (state.trans (by rw [next])) enabled
  have outside : w ∉ q := fun member => active (Option.some.inj (state.symm.trans ((inv.waiting w).mp member)))
  obtain ⟨waiters', done, holds, kept⟩ := inv.view.holds.delete outside (by rw [inv.view.data]; exact there)
  rw [inv.view.data] at kept
  have looks (v : Nat) : stateAt (update waiters w none) v = if v = w then none else stateAt waiters v :=
    stateAt_update ..
  have known : w < s.created := by
    by_contra later
    rw [inv.fresh w (by omega)] at there
    cases there
  refine ⟨{ s with
    mutex := { s.mutex with waiters := waiters' }
    deleting := s.deleting.erase w
    deleted := s.deleted ++ [w] }, by simp [System.delete, done], q, _, ⟨⟨⟨holds, kept⟩, ?_, ?_, ?_, ?_, ?_, inv.awaitsOnce, ?_, ?_,
    ?_, inv.fifo, inv.arrivals, inv.withdrawals, ?_, ?_⟩, inv.owned.update rfl rfl (by grind) nofun nofun⟩⟩
  all_goals grind

theorem Inv.suspend : ∃ s', s.suspend thread = some s' ∧ s'.Sound := by
  have absent := inv.fresh _ le_rfl
  have nowhere : stateAt waiters s.created = none := by rw [stateAt, absent]; rfl
  have outside : s.created ∉ q := fun member => by simpa [stateAt, absent] using (inv.waiting _).mp member
  obtain ⟨holds, kept⟩ := inv.view.holds.alloc outside { thread := thread }
  rw [inv.view.data] at kept
  generalize eq : ({ s.mutex with waiters := s.mutex.waiters.alloc s.created { thread := thread } } : Mutex) = m
  have view : m.View q (update waiters s.created (some { thread := thread })) := by
    rw [← eq]
    exact ⟨holds, kept⟩
  have locked : m.locked = s.mutex.locked := by rw [← eq]
  have owner : m.ownerThread = s.mutex.ownerThread := by rw [← eq]
  cases taken : s.mutex.locked with
  | true =>
    obtain ⟨m', done, view', locked', owner'⟩ :=
      view.enqueue (locked.trans taken) (update_self ..) outside
    rw [update_idem] at view'
    refine ⟨{ s with
      mutex := m'
      created := s.created + 1
      suspending := s.suspending.erase thread
      awaiting := s.awaiting ++ [s.created]
      arrived := s.arrived ++ [s.created] }, by simp [System.suspend, eq, done], _, _, ⟨⟨view', ?_, ?_, ?_, ?_, ?_, ?_,
      inv.tasks, ?_, ?_, ?_, ?_, ?_, ?_, ?_⟩,
      inv.owned.update (locked'.trans taken.symm) (owner'.trans owner) (by grind) nofun fun _ => taken⟩⟩
    all_goals grind
  | false =>
    have there : m.waiters.data s.created = some { thread := thread } := by rw [view.data, update_self]
    obtain ⟨waiters', done, holds', kept'⟩ := view.holds.delete outside there
    have granted : m.enqueueWaiter s.created = some (false, { m with locked := true, ownerThread := some thread }) := by
      simp [Mutex.enqueueWaiter, locked, taken, there]
    have same : waiters'.data = waiters := by
      rw [kept', view.data, update_idem, ← absent, update_eq_self]
    refine ⟨{ s with
      mutex := { m with waiters := waiters', locked := true, ownerThread := some thread }
      created := s.created + 1
      suspending := s.suspending.erase thread
      holders := thread :: s.holders
      deleted := s.deleted ++ [s.created] }, ?_, q, waiters, { inv with
        view := ⟨holds', same⟩
        fresh := fun w later => inv.fresh w (Nat.le_of_succ_le later)
        owned := ?_
        arrivals := ⟨inv.arrivals.1, fun w member => Nat.lt_succ_of_lt (inv.arrivals.2 w member)⟩
        withdrawals := fun w member => Nat.lt_succ_of_lt (inv.withdrawals w member)
        resumes := ?_
        gone := ?_ }⟩
    · simp [System.suspend, eq, granted, done]
    · grind
    · grind
    · cases inv.owned with
      | free _ unheld idle => exact .held rfl (by rw [unheld]) rfl fun w => (idle w).2
      | held locked | passed locked => rw [taken] at locked; cases locked

end

theorem select_none (s : System) : s.select none = s := by
  simp [System.select]

theorem select_some (s : System) (w : Nat) :
    s.select (some w) = { s with selected := s.selected ++ [w], granted := s.granted ++ [w] } := rfl

/-- The lock goes to the first of the queue; without one it is free. -/
theorem Consistent.select (fits : Consistent s q waiters) (locked : s.mutex.locked = true) (unheld : s.holders = [])
    (unpassed : ∀ w, stateAt waiters w ≠ some .notified) :
    ∃ next m', s.mutex.selectNextWaiterLocked s.fuel = some (next, m') ∧
      ({ s with mutex := m' }.select next).Sound := by
  cases q with
  | nil =>
    refine ⟨none, _, fits.view.select_nil _, [], waiters, ?_⟩
    have idle (w : Nat) : stateAt waiters w ≠ some .waiting := fun waits => not_mem_nil ((fits.waiting w).mpr waits)
    rw [select_none]
    exact { fits with
      view := ⟨fits.view.holds, fits.view.data⟩
      owned := .free rfl unheld fun w => ⟨idle w, unpassed w⟩ }
  | cons w q =>
    have state := (fits.waiting w).mp mem_cons_self
    obtain ⟨data, there, waits⟩ := stateAt_some state
    obtain ⟨m', done, view, locked', owner⟩ := fits.view.select_cons there waits s.created
    refine ⟨some w, m', done, q, update waiters w (some { data with queued := false, state := .notified }), ?_⟩
    rw [select_some]
    have distinct := fits.view.holds.distinct
    refine ⟨⟨view, ?_, ?_, ?_, ?_, ?_, fits.awaitsOnce, ?tasks, ?_, ?_, ?_, fits.arrivals, fits.withdrawals,
      ?_, ?_⟩, .passed (locked'.trans locked) unheld (update_self ..) rfl owner ?_⟩
    case tasks =>
      have := fits.tasks
      have := fits.tasked w
      rw [nodup_append, nodup_append] at *
      grind
    all_goals grind

section

variable (inv : Inv s q waiters)

include inv

theorem Inv.unlock (enabled : thread ∈ s.holders) :
    ∃ s', s.unlock thread = some s' ∧ s'.Sound := by
  cases inv.owned with
  | free _ unheld | passed _ unheld => rw [unheld] at enabled; cases enabled
  | held locked holder owner unpassed =>
    rw [holder] at enabled
    obtain rfl := mem_singleton.mp enabled
    have fits : Consistent { s with holders := s.holders.erase thread } q waiters := { inv with }
    obtain ⟨next, m', done, sound⟩ := fits.select locked (by simp [holder]) unpassed
    have done' : s.mutex.selectNextWaiterLocked s.fuel = some (next, m') := done
    exact ⟨_, by simp [System.unlock, Mutex.unlock, locked, owner, done'], sound⟩

theorem Inv.cancel_waiting (there : waiters w = some data) (waits : data.state = .waiting) :
    ∃ s', s.cancel w = some s' ∧ s'.Sound := by
  have state : stateAt waiters w = some .waiting := by rw [stateAt, there, ← waits]; rfl
  obtain ⟨xs, ys, rfl⟩ := append_of_mem ((inv.waiting w).mpr state)
  obtain ⟨m', done, view, locked, owner⟩ :=
    inv.view.cancel_waiting there waits (inv.queued w data there waits) s.fuel data.thread
  have distinct := inv.view.holds.distinct
  have found : s.mutex.waiters.data w = some data := by rw [inv.view.data, there]
  refine ⟨{ s with
    mutex := m'
    awaiting := s.awaiting.erase w
    deleting := s.deleting ++ [w]
    withdrawn := s.withdrawn ++ [w] }, by simp [System.cancel, found, done, select_none], _, _, ⟨⟨view, ?_, ?_, ?_, ?_, ?_, ?_,
    ?tasks, ?_, ?_, ?fifo, inv.arrivals, ?_, ?_, ?_⟩, inv.owned.update locked owner (by grind) nofun nofun⟩⟩
  case tasks =>
    have := inv.tasks
    have := inv.tasked w
    rw [nodup_append] at *
    grind
  case fifo =>
    have once : (s.granted ++ (xs ++ w :: ys)).Nodup := by
      rw [← inv.fifo]
      exact inv.arrivals.1.filter _
    calc s.arrived.filter (· ∉ s.withdrawn ++ [w])
      _ = (s.arrived.filter (· ∉ s.withdrawn)).filter (· != w) := by
        rw [filter_filter]
        refine filter_congr fun v _ => ?_
        grind
      _ = (s.granted ++ (xs ++ w :: ys)).erase w := by rw [inv.fifo, once.erase_eq_filter]
      _ = s.granted ++ (xs ++ ys) := by grind
  all_goals grind

theorem Inv.cancel_notified (there : waiters w = some data) (next : data.state = .notified) :
    ∃ s', s.cancel w = some s' ∧ s'.Sound := by
  have state : stateAt waiters w = some .notified := by rw [stateAt, there, ← next]; rfl
  cases inv.owned with
  | free _ _ idle => exact absurd state (idle w).2
  | held _ _ _ unpassed => exact absurd state (unpassed w)
  | @passed locked unheld w' data' there' next' owner only =>
    obtain rfl := only w state
    obtain rfl := Option.some.inj (there.symm.trans there')
    obtain ⟨m', view, locked', passes⟩ := inv.view.cancel_notified there next owner
    have fits : Consistent { s with mutex := m', awaiting := s.awaiting.erase w } q
        (update waiters w (some { data with state := .canceled, handle := false })) := by
      refine ⟨view, ?_, ?_, ?_, ?_, ?_, inv.awaitsOnce.erase w, inv.tasks, ?_, ?_, inv.fifo, inv.arrivals,
        inv.withdrawals, ?_, ?_⟩
      all_goals grind
    have unpassed : ∀ v, stateAt (update waiters w (some { data with state := .canceled, handle := false })) v ≠
        some .notified := by
      grind
    obtain ⟨next, m'', done, sound⟩ := fits.select (locked'.trans locked) unheld unpassed
    have found : s.mutex.waiters.data w = some data := by rw [inv.view.data, there]
    have done' : m'.selectNextWaiterLocked s.fuel = some (next, m'') := done
    exact ⟨_, by simp [System.cancel, found, passes, done'], sound⟩

theorem Inv.cancel (enabled : w ∈ s.awaiting) : ∃ s', s.cancel w = some s' ∧ s'.Sound := by
  rcases (inv.awaits w).mp enabled with state | state
  · obtain ⟨data, there, waits⟩ := stateAt_some state
    exact inv.cancel_waiting there waits
  · obtain ⟨data, there, next⟩ := stateAt_some state
    exact inv.cancel_notified there next

theorem Inv.deliver (enabled : w ∈ s.posted) : ∃ s', s.deliver w = some s' ∧ s'.Sound := by
  obtain ⟨data, there, active⟩ := inv.live (w := w) (by simp [enabled])
  obtain ⟨m', done, locked, owner, view⟩ := inv.view.resume there
  have found : s.mutex.waiters.data w = some data := by rw [inv.view.data, there]
  have state : stateAt waiters w = some data.state := by rw [stateAt, there]; rfl
  have moved : (s.selected ++ s.posted.erase w ++ (s.deleting ++ [w])).Perm (s.selected ++ s.posted ++ s.deleting) := by
    rw [append_assoc, append_assoc]
    refine List.Perm.append_left _ ?_
    rw [← append_assoc]
    refine (perm_append_singleton _ _).trans ?_
    rw [← cons_append]
    exact (perm_cons_erase enabled).symm.append_right _
  have tasks := moved.nodup_iff.mpr inv.tasks
  by_cases next : data.state = .notified
  · rw [if_pos next] at view
    have handle := inv.handles w data there (.inr next)
    refine ⟨{ s with
      mutex := m'
      posted := s.posted.erase w
      deleting := s.deleting ++ [w]
      holders := data.thread :: s.holders
      awaiting := s.awaiting.erase w
      resumed := s.resumed ++ [w] }, by simp [System.deliver, found, done, next, handle], q, _, ⟨⟨view, ?_, ?_, ?_, ?_, ?_,
        inv.awaitsOnce.erase w, tasks, ?_, ?_, inv.fifo, inv.arrivals, inv.withdrawals, ?_, ?_⟩, ?owned⟩⟩
    case owned =>
      cases inv.owned with
      | free _ _ idle => exact absurd (state.trans (by rw [next])) (idle w).2
      | held _ _ _ unpassed => exact absurd (state.trans (by rw [next])) (unpassed w)
      | @passed taken unheld w' data' there' _ owns only =>
        obtain rfl := only w (state.trans (by rw [next]))
        obtain rfl := Option.some.inj (there.symm.trans there')
        refine .held (locked.trans taken) (by rw [unheld]) (owner.trans owns) ?_
        grind
    all_goals grind
  · rw [if_neg next] at view
    refine ⟨{ s with
      mutex := m'
      posted := s.posted.erase w
      deleting := s.deleting ++ [w] }, by simp [System.deliver, found, done, next], q, waiters, { inv with
        view := view
        tasks := tasks
        tasked := fun v => moved.mem_iff.trans (inv.tasked v)
        coming := ?_
        owned := ?_ }⟩
    · grind
    · have kept : Owned m' s.holders (update waiters w (waiters w)) :=
        inv.owned.update locked owner (by grind) (by grind) (by grind)
      rwa [update_eq_self] at kept

theorem Inv.step {event : Event} (enabled : s.Enabled event) : ∃ s', s.step event = some s' ∧ s'.Sound := by
  cases event with
  | tryLock thread =>
    obtain ⟨locked, s', done, inv'⟩ := inv.tryLock thread
    exact ⟨s', by rw [System.step, done]; rfl, q, waiters, inv'⟩
  | lock thread => exact inv.lock thread
  | suspend thread => exact inv.suspend
  | unlock thread => exact inv.unlock enabled
  | cancel waiter => exact inv.cancel enabled
  | post waiter => exact inv.post enabled
  | deliver waiter => exact inv.deliver enabled
  | delete waiter => exact inv.delete enabled

end

theorem run_sound (events : List Event) : ∃ s, run {} events = some s ∧ s.Sound :=
  Interleaving.run_invariant (fun _ _ ⟨_, _, inv⟩ enabled => inv.step enabled) ⟨[], _, Inv.init⟩ events

/-- The waiters that own the lock without knowing. -/
def notified (s : System) : List Nat :=
  (List.range s.created).filter fun w => stateAt s.mutex.waiters.data w = some .notified

/-- A lock that is taken has one owner, which has it or will learn of it; it goes to the waiters in the order of their
arrival, without those that withdrew; and a waiter is deleted once, unless it waits still or is about to be. -/
structure Safe (s : System) : Prop where
  owner : s.holders.length + s.notified.length = if s.mutex.locked then 1 else 0
  informed : ∀ w ∈ s.notified, w ∈ s.awaiting ∧ w ∈ s.selected ++ s.posted
  free : s.mutex.locked = false → s.mutex.waiters.head = none ∧ s.mutex.waiters.tail = none
  order : ∃ queue, s.mutex.waiters.Holds queue ∧ s.arrived.filter (· ∉ s.withdrawn) = s.granted ++ queue ∧
    ∀ w ∈ queue, w ∈ s.awaiting
  arrivedOnce : s.arrived.Nodup
  resumedOnce : s.resumed.Nodup
  deletedOnce : s.deleted.Nodup
  deletes : ∀ w, w ∈ s.deleted ↔ w < s.created ∧ w ∉ s.awaiting ∧ w ∉ s.selected ++ s.posted ++ s.deleting

theorem Inv.notified_iff (inv : Inv s q waiters) : w ∈ s.notified ↔ stateAt waiters w = some .notified := by
  rw [notified, mem_filter, inv.view.data, mem_range]
  refine ⟨fun member => by simpa using member.2, fun next => ⟨?_, by simpa using next⟩⟩
  by_contra later
  rw [stateAt, inv.fresh w (by omega)] at next
  cases next

theorem Inv.owners (inv : Inv s q waiters) :
    s.holders.length + s.notified.length = if s.mutex.locked then 1 else 0 := by
  cases inv.owned with
  | free unlocked unheld idle =>
    have none := eq_nil_iff_forall_not_mem.mpr fun w member => (idle w).2 (inv.notified_iff.mp member)
    simp [unlocked, unheld, none]
  | held locked holder _ unpassed =>
    have none : s.notified = [] :=
      eq_nil_iff_forall_not_mem.mpr fun w member => unpassed w (inv.notified_iff.mp member)
    simp [locked, holder, none]
  | @passed locked unheld w data there next _ only =>
    have member := inv.notified_iff.mpr (by rw [stateAt, there, ← next]; rfl)
    have once : s.notified.Nodup := nodup_range.filter _
    have all : s.notified = [w] := by
      refine perm_singleton.mp ((perm_ext_iff_of_nodup once (nodup_singleton w)).mpr fun v => ?_)
      rw [mem_singleton]
      exact ⟨fun other => only v (inv.notified_iff.mp other), fun same => same ▸ member⟩
    simp [locked, unheld, all]

theorem Inv.safe (inv : Inv s q waiters) : s.Safe where
  owner := inv.owners
  informed w member := by
    have next := inv.notified_iff.mp member
    have := (inv.tasked w).mpr (by simp [next])
    have := inv.coming w next
    exact ⟨(inv.awaits w).mpr (.inr next), by grind⟩
  free unlocked := by
    obtain rfl := inv.empty unlocked
    exact ⟨inv.view.holds.head, inv.view.holds.tail⟩
  order := ⟨q, inv.view.holds, inv.fifo, fun w member => (inv.awaits w).mpr (.inl ((inv.waiting w).mp member))⟩
  arrivedOnce := inv.arrivals.1
  resumedOnce := inv.resumes.1
  deletedOnce := inv.gone.1
  deletes w := by
    have absent : waiters w = none ↔ stateAt waiters w = none := by simp [stateAt]
    rw [inv.gone.2, inv.awaits, inv.tasked, absent]
    grind

theorem run_safe (events : List Event) : ∃ s, run {} events = some s ∧ s.Safe := by
  obtain ⟨s, done, q, waiters, inv⟩ := run_sound events
  exact ⟨s, done, inv.safe⟩

end System

end FiberGateway.Async
