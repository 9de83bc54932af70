import FiberGateway.Event.SignalService
import FiberGateway.Lib.Interleaving

namespace FiberGateway.Event

open List Function Option

open LinkedQueue

open Async (WaiterState)

namespace SignalService

variable {s : SignalService} {q : Nat → List Nat} {table : Nat → Option SignalWaiter} {n w : Nat} {data : SignalWaiter}

/-- The service as its surroundings see it: the queue of each number in its order, and what is known of each waiter. -/
structure View (s : SignalService) (q : Nat → List Nat) (table : Nat → Option SignalWaiter) : Prop where
  holds : ∀ n, (s.waiters n).Holds (q n)
  data : s.data = table
  apart : ∀ m n w, w ∈ q m → w ∈ q n → m = n

namespace View

section

variable (view : s.View q table)

include view

theorem node (there : table w = some data) : ∃ node, s.heap w = some node ∧ node.data = data := by
  rw [← view.data] at there
  exact map_eq_some_iff.mp there

theorem modifyWaiter (there : table w = some data) (f : SignalWaiter → SignalWaiter) :
    ∃ s', s.modifyWaiter w f = some s' ∧ s'.View q (update table w (some (f data))) ∧ s'.pending = s.pending := by
  obtain ⟨node, found, rfl⟩ := view.node there
  refine ⟨{ s with heap := update s.heap w (some { node with data := f node.data }) }, ?_, ⟨fun n => ?_, ?_,
    view.apart⟩, rfl⟩
  · simp [SignalService.modifyWaiter, found]
  · exact ⟨(view.holds n).distinct, (view.holds n).head, (view.holds n).tail, (view.holds n).spells.modifyData found f⟩
  · rw [← view.data]
    funext v
    simp only [SignalService.data, update_apply]
    split <;> rfl

theorem set (outside : ∀ n, w ∉ q n) (node : Option (Node SignalWaiter)) :
    { s with heap := update s.heap w node }.View q (update table w (node.map Node.data)) := by
  refine ⟨fun n => ((view.holds n).set (outside n) node).1, ?_, view.apart⟩
  rw [← view.data]
  funext v
  simp only [SignalService.data, update_apply]
  split <;> rfl

theorem setWaiters {queue : Queue SignalWaiter} {ids : List Nat} (holds : queue.Holds ids)
    (kept : queue.data = s.data) (frame : ∀ v, v ∉ q n → v ∉ ids → queue.heap v = s.heap v)
    (new : ∀ m v, m ≠ n → v ∈ q m → v ∉ ids) : (s.setWaiters n queue).View (update q n ids) table := by
  refine ⟨fun m => ?_, kept.trans view.data, fun m m' v member member' => ?_⟩
  · by_cases here : m = n
    · subst here
      rw [update_self]
      refine holds.congr ?_ ?_ fun _ _ => rfl
      · exact update_self ..
      · exact update_self ..
    · rw [update_of_ne here]
      refine (view.holds m).congr ?_ ?_ fun v member => ?_
      · exact update_of_ne here ..
      · exact update_of_ne here ..
      · exact frame v (fun other => here (view.apart m n v member other)) (new m v here member)
  · by_cases here : m = n <;> by_cases there : m' = n
    · rw [here, there]
    · subst here
      rw [update_self] at member
      rw [update_of_ne there] at member'
      exact absurd member (new m' v there member')
    · subst there
      rw [update_self] at member'
      rw [update_of_ne here] at member
      exact absurd member' (new m v here member)
    · rw [update_of_ne here] at member
      rw [update_of_ne there] at member'
      exact view.apart m m' v member member'

theorem enqueue (valid : validSignum n) (there : table w = some data) (signum : data.signum = n)
    (unqueued : data.queued = false) (new : ∀ m, w ∉ q m) :
    ∃ s', s.enqueueWaiter n w = some s' ∧ s'.pending = s.pending ∧
      s'.View (update q n (q n ++ [w])) (update table w (some { data with queued := true })) := by
  obtain ⟨node, found, -⟩ := view.node there
  obtain ⟨queue, pushed, holds, kept⟩ := (view.holds n).pushBack found (new n)
  have linked : (s.setWaiters n queue).View (update q n (q n ++ [w])) table := by
    refine view.setWaiters holds kept (fun v outside unlinked => ?_) fun m v other member => ?_
    · exact (view.holds n).pushBack_frame pushed outside fun same => unlinked (by simp [same])
    · rw [mem_append, mem_singleton, not_or]
      exact ⟨fun inside => other (view.apart m n v member inside), fun same => new m (same ▸ member)⟩
  obtain ⟨s', done, view', pending⟩ := linked.modifyWaiter there fun waiter => { waiter with queued := true }
  refine ⟨s', ?_, pending, view'⟩
  rw [← view.data] at there
  simp [SignalService.enqueueWaiter, there, valid, signum, unqueued, pushed, done]

theorem popNext_nil (empty : q n = []) (fuel : Nat) : s.popNextWaiter (fuel + 1) n = some (none, s) := by
  have head : s.heads n = (q n).head? := (view.holds n).head
  rw [popNextWaiter, head, empty]
  rfl

theorem popNext_cons {rest : List Nat} (first : q n = w :: rest) (there : table w = some data)
    (waits : data.state = .waiting) (fuel : Nat) :
    ∃ s', s.popNextWaiter (fuel + 1) n = some (some w, s') ∧ s'.pending = s.pending ∧ s'.View (update q n rest)
        (update table w (some { data with queued := false, state := .notified })) := by
  have holds := view.holds n
  rw [first] at holds
  obtain ⟨queue, popped, holds', kept⟩ := holds.popFront
  have taken : (s.setWaiters n queue).View (update q n rest) table := by
    refine view.setWaiters holds' kept (fun v outside _ => ?_) fun m v other member => ?_
    · rw [first] at outside
      exact holds.popFront_frame popped outside
    · intro inside
      exact other (view.apart m n v member (by rw [first]; exact mem_cons_of_mem _ inside))
  obtain ⟨s₁, done₁, view₁, pending₁⟩ := taken.modifyWaiter there fun waiter => { waiter with queued := false }
  obtain ⟨s₂, done₂, view₂, pending₂⟩ :=
    view₁.modifyWaiter (update_self ..) fun waiter => { waiter with state := .notified }
  rw [update_idem] at view₂
  have there₁ : s₁.data w = some { data with queued := false } := by rw [view₁.data, update_self]
  have head : s.heads n = some w := holds.head
  refine ⟨s₂, ?_, pending₂.trans pending₁, view₂⟩
  rw [popNextWaiter, head]
  simp only [popped, done₁, there₁, waits, done₂, bind_eq_bind, bind_some, ne_eq, not_true_eq_false, if_false]
  rfl

/-- A waiter that still waits leaves the queue and is deleted. -/
theorem cancel_waiting {xs ys : List Nat} (place : q n = xs ++ w :: ys) (there : table w = some data)
    (signum : data.signum = n) (valid : validSignum n) (waits : data.state = .waiting) (queued : data.queued = true) :
    ∃ s', s.cancelWaiter w = some s' ∧ s'.pending = s.pending ∧
      s'.View (update q n (xs ++ ys)) (update table w none) := by
  have holds := view.holds n
  rw [place] at holds
  obtain ⟨queue, unlinked, holds', kept⟩ := holds.unlink
  have outside : w ∉ xs ++ ys := by
    have distinct := holds.distinct
    rw [nodup_append, nodup_cons] at distinct
    rw [mem_append, not_or]
    exact ⟨fun member => distinct.2.2 w member w mem_cons_self rfl, distinct.2.1.1⟩
  have taken : (s.setWaiters n queue).View (update q n (xs ++ ys)) table := by
    refine view.setWaiters holds' kept (fun v outside _ => ?_) fun m v other member => ?_
    · rw [place] at outside
      exact holds.unlink_frame unlinked outside
    · intro inside
      refine other (view.apart m n v member ?_)
      rw [place]
      simp only [mem_append, mem_cons] at inside ⊢
      tauto
  obtain ⟨s₁, done₁, view₁, pending₁⟩ := taken.modifyWaiter there fun waiter => { waiter with queued := false }
  obtain ⟨s₂, done₂, view₂, pending₂⟩ := view₁.modifyWaiter (update_self ..)
    fun waiter => { waiter with state := .canceled, handle := false }
  rw [update_idem] at view₂
  obtain ⟨node, found, -⟩ := view₂.node (update_self ..)
  have nowhere (m : Nat) : w ∉ update q n (xs ++ ys) m := by
    by_cases here : m = n
    · rw [here, update_self]
      exact outside
    · rw [update_of_ne here]
      exact fun member => here (view.apart m n w member (by rw [place]; simp))
  have view₃ := view₂.set nowhere none
  rw [update_idem] at view₃
  refine ⟨{ s₂ with heap := update s₂.heap w none }, ?_, pending₂.trans pending₁, view₃⟩
  rw [← view.data] at there
  subst signum
  simp [SignalService.cancelWaiter, there, valid, waits, queued, unlinked, done₁, done₂, SignalService.delete, found]

theorem cancel_notified (there : table w = some data) (valid : validSignum data.signum)
    (next : data.state = .notified) : ∃ s', s.cancelWaiter w = some s' ∧ s'.pending = s.pending ∧
      s'.View q (update table w (some { data with state := .canceled, handle := false })) := by
  obtain ⟨s₁, done₁, view₁, pending₁⟩ :=
    view.modifyWaiter there fun waiter => { waiter with state := .canceled, handle := false }
  refine ⟨s₁, ?_, pending₁, view₁⟩
  rw [← view.data] at there
  simp [SignalService.cancelWaiter, there, valid, next, done₁]

theorem resume (there : table w = some data) :
    ∃ s', s.resume w = some (if data.state = .notified ∧ data.handle then some data.info else none, s') ∧
      s'.pending = s.pending ∧ s'.View q (if data.state = .notified then
        update table w (some { data with state := .resumed, handle := false }) else table) := by
  obtain ⟨s₁, done₁, view₁, pending₁⟩ :=
    view.modifyWaiter there fun waiter => { waiter with state := .resumed, handle := false }
  rw [← view.data] at there
  by_cases next : data.state = .notified
  · refine ⟨s₁, ?_, pending₁, by rw [if_pos next]; exact view₁⟩
    simp [SignalService.resume, there, next, done₁]
  · refine ⟨s, ?_, rfl, by rw [if_neg next]; exact view⟩
    simp [SignalService.resume, there, next]

end

end View

end SignalService

section Notified

variable {table : Nat → Option SignalWaiter} {posted : List Nat} {w n : Nat} {data : SignalWaiter}

theorem notifiedIn_update (outside : w ∉ posted) (data : Option SignalWaiter) :
    notifiedIn posted (update table w data) = notifiedIn posted table := by
  refine filterMap_congr fun v member => ?_
  have apart : v ≠ w := by
    rintro rfl
    exact outside member
  rw [update_of_ne apart]

theorem notifiedIn_append (posted more : List Nat) (table : Nat → Option SignalWaiter) :
    notifiedIn (posted ++ more) table = notifiedIn posted table ++ notifiedIn more table :=
  filterMap_append ..

theorem notifiedIn_cons (there : table w = some data) (posted : List Nat) :
    notifiedIn (w :: posted) table =
      (if data.state = .notified then [(w, data.info)] else []) ++ notifiedIn posted table := by
  rw [notifiedIn, filterMap_cons, there]
  split
  · rename_i none
    simp only [bind_some, ite_eq_right_iff] at none
    rw [if_neg fun next => nomatch none next]
    rfl
  · rename_i p some
    simp only [bind_some, Option.ite_none_right_eq_some, Option.some.injEq] at some
    rw [if_pos some.1, some.2]
    rfl

theorem ofSignum_append (n : Nat) (xs ys : List (Nat × SignalInfo)) :
    ofSignum n (xs ++ ys) = ofSignum n xs ++ ofSignum n ys := filter_append ..

theorem ofSignum_singleton (n : Nat) (p : Nat × SignalInfo) :
    ofSignum n [p] = if p.2.signum = n then [p] else [] := by
  simp [ofSignum, filter_cons]

/-- The signal of a waiter that is canceled is notified no more. -/
theorem notifiedIn_cancel (distinct : posted.Nodup) (member : w ∈ posted) (there : table w = some data)
    (next : data.state = .notified) (other : SignalWaiter) (canceled : other.state ≠ .notified) :
    (notifiedIn posted table).Perm (notifiedIn posted (update table w (some other)) ++ [(w, data.info)]) := by
  obtain ⟨xs, ys, rfl⟩ := append_of_mem member
  rw [nodup_append, nodup_cons] at distinct
  rw [notifiedIn_append, notifiedIn_append, notifiedIn_cons there, notifiedIn_cons (update_self ..), if_pos next,
    if_neg canceled, notifiedIn_update fun inside => distinct.2.2 w inside w mem_cons_self rfl,
    notifiedIn_update distinct.2.1.1]
  refine perm_middle.trans ?_
  rw [nil_append]
  exact (perm_append_singleton _ _).symm

end Notified

namespace SignalSystem

def stateOf (table : Nat → Option SignalWaiter) (w : Nat) : Option WaiterState := (table w).map (·.state)

@[grind =]
theorem stateOf_update (table : Nat → Option SignalWaiter) (w : Nat) (data : Option SignalWaiter) (v : Nat) :
    stateOf (update table w data) v = if v = w then data.map (·.state) else stateOf table v := by
  rw [stateOf, update_apply]
  split <;> rfl

theorem stateOf_some {table : Nat → Option SignalWaiter} {w : Nat} {state : WaiterState}
    (at_state : stateOf table w = some state) : ∃ data, table w = some data ∧ data.state = state :=
  map_eq_some_iff.mp at_state

/-- The queues hold the waiters in state `waiting`; every other waiter has one task left, after which it is deleted. -/
structure Waits (s : SignalSystem) (q : Nat → List Nat) (table : Nat → Option SignalWaiter) : Prop where
  view : s.service.View q table
  fresh : ∀ w, s.created ≤ w → table w = none
  waiting : ∀ n w, w ∈ q n ↔ ∃ data, table w = some data ∧ data.state = .waiting ∧ data.signum = n
  queued : ∀ w data, table w = some data → data.state = .waiting → data.queued = true
  handles : ∀ w data, table w = some data → data.state = .waiting ∨ data.state = .notified → data.handle = true
  valid : ∀ w data, table w = some data → validSignum data.signum
  infos : ∀ w data, table w = some data → data.state = .notified → data.info.signum = data.signum
  awaits : ∀ w, w ∈ s.awaiting ↔ stateOf table w = some .waiting ∨ stateOf table w = some .notified
  awaitsOnce : s.awaiting.Nodup
  tasks : (s.posted ++ s.deleting).Nodup
  tasked : ∀ w, w ∈ s.posted ++ s.deleting ↔ stateOf table w ≠ none ∧ stateOf table w ≠ some .waiting
  coming : ∀ w, stateOf table w = some .notified → w ∉ s.deleting
  gone : s.deleted.Nodup ∧ ∀ w, w ∈ s.deleted ↔ w ∈ s.suspended ∧ table w = none
  allocated : ∀ w, table w ≠ none → w ∈ s.suspended
  known : ∀ w ∈ s.suspended, w < s.created

/-- What becomes of the signals. -/
structure Accounts (s : SignalSystem) (q : Nat → List Nat) (notified : List (Nat × SignalInfo)) : Prop where
  idle : ∀ n, s.service.pending n ≠ [] → q n = []
  order : ∀ n, s.delivered.filter (·.signum = n) = (ofSignum n s.assigned).map (·.2) ++ s.service.pending n
  fifo : ∀ n, ((ofSignum n s.assigned).map (·.1) ++ q n).Pairwise (· < ·)
  before : ∀ p ∈ s.assigned, p.1 < s.created
  account : s.assigned.Perm (s.returned ++ notified ++ s.lost)
  turns : s.lost = [] → s.overtook = [] → ∀ n, ofSignum n (s.returned ++ notified) = ofSignum n s.assigned

structure Inv (s : SignalSystem) (q : Nat → List Nat) (table : Nat → Option SignalWaiter) : Prop extends Waits s q table where
  accounts : s.Accounts q (notifiedIn s.posted table)

attribute [grind cases eager] Waits Inv

def Sound (s : SignalSystem) : Prop := ∃ q table, Inv s q table

variable {s : SignalSystem} {q : Nat → List Nat} {table : Nat → Option SignalWaiter} {n w : Nat} {data : SignalWaiter}
  {notified : List (Nat × SignalInfo)}

theorem Inv.init : Inv {} (fun _ => []) (fun _ => none) := by
  refine ⟨⟨⟨fun _ => ⟨nodup_nil, rfl, rfl, trivial⟩, rfl, nofun⟩, fun _ _ => rfl, ?_, nofun, nofun, nofun, nofun, ?_,
    nodup_nil, nodup_nil, ?_, nofun, ⟨nodup_nil, ?_⟩, ?_, nofun⟩, ⟨fun _ _ => rfl, ?_, ?_, nofun, .nil, ?_⟩⟩
  all_goals simp [stateOf, ofSignum, notifiedIn]

theorem Accounts.pending_signum (accounts : s.Accounts q notified) {info : SignalInfo}
    (member : info ∈ s.service.pending n) : info.signum = n := by
  have inside : info ∈ s.delivered.filter (·.signum = n) := by
    rw [accounts.order n]
    exact mem_append_right _ member
  simpa using (mem_filter.mp inside).2

theorem Accounts.keep {service : SignalService} (accounts : s.Accounts q notified)
    (pending : service.pending = s.service.pending) : { s with service := service }.Accounts q notified :=
  { accounts with
    idle := fun n => pending ▸ accounts.idle n
    order := fun n => pending ▸ accounts.order n }

section

variable (inv : Inv s q table)

include inv

variable {info : SignalInfo} {rest : List Nat}

theorem Inv.wait_pending (valid : validSignum n) {rest : List SignalInfo}
    (pending : s.service.pending n = info :: rest) : ∃ s', s.wait n = some s' ∧ s'.Sound := by
  have accounts := inv.accounts
  have signum := accounts.pending_signum (by rw [pending]; exact mem_cons_self)
  have found : s.service.tryPopPending n = some (info, { s.service with pending := update s.service.pending n rest }) := by
    simp [SignalService.tryPopPending, valid, pending]
  have notified : s.notified = notifiedIn s.posted table := by rw [SignalSystem.notified, inv.view.data]
  have own (m : Nat) : ofSignum m [(s.created, info)] = if n = m then [(s.created, info)] else [] := by
    rw [ofSignum_singleton, signum]
  refine ⟨{ s with
    service := { s.service with pending := update s.service.pending n rest }
    created := s.created + 1
    assigned := s.assigned ++ [(s.created, info)]
    returned := s.returned ++ [(s.created, info)]
    overtook := if ofSignum n s.notified = [] then s.overtook else s.overtook ++ [s.created] },
    by rw [SignalSystem.wait, found], q, table, ⟨{ inv with
    view := ⟨inv.view.holds, inv.view.data, inv.view.apart⟩
    fresh := fun w later => inv.fresh w (Nat.le_of_succ_le later)
    known := fun w member => Nat.lt_succ_of_lt (inv.known w member) }, ⟨?_, ?_, ?_, ?_, ?_, ?_⟩⟩⟩
  · intro m some
    refine accounts.idle m fun none => ?_
    by_cases here : m = n
    · rw [here, pending] at none
      cases none
    · dsimp only at some
      rw [update_of_ne here] at some
      exact some none
  · intro m
    dsimp only
    rw [accounts.order m, ofSignum_append, own, map_append]
    by_cases here : n = m
    · subst here
      rw [if_pos rfl, update_self, pending]
      simp
    · rw [if_neg here, update_of_ne (Ne.symm here)]
      simp
  · intro m
    have fifo := accounts.fifo m
    rw [ofSignum_append, own, map_append]
    by_cases here : n = m
    · subst here
      rw [accounts.idle n (by rw [pending]; simp), append_nil] at fifo
      rw [if_pos rfl, accounts.idle n (by rw [pending]; simp), append_nil, pairwise_append]
      refine ⟨fifo, pairwise_singleton _ _, fun v member v' last => ?_⟩
      obtain ⟨p, inside, rfl⟩ := mem_map.mp member
      rw [mem_singleton.mp last]
      exact accounts.before p (mem_of_mem_filter inside)
    · rw [if_neg here]
      simpa using fifo
  · intro p member
    rcases mem_append.mp member with old | new
    · exact Nat.lt_succ_of_lt (accounts.before p old)
    · rw [mem_singleton.mp new]
      exact Nat.lt_succ_self _
  · dsimp only
    refine (accounts.account.append_right _).trans ?_
    simp only [append_assoc]
    refine List.Perm.append_left _ ?_
    rw [← append_assoc]
    exact perm_append_comm
  · dsimp only
    intro lost overtook m
    have none : ofSignum n (notifiedIn s.posted table) = [] ∧ s.overtook = [] := by
      rw [notified] at overtook
      split at overtook
      · rename_i none
        exact ⟨none, overtook⟩
      · simp at overtook
    have turns := accounts.turns lost none.2 m
    rw [ofSignum_append] at turns
    rw [ofSignum_append, ofSignum_append, ofSignum_append, own, ← turns]
    by_cases here : n = m
    · subst here
      rw [if_pos rfl, none.1]
      simp
    · rw [if_neg here]
      simp

theorem Inv.wait_suspend (valid : validSignum n) (pending : s.service.pending n = []) :
    ∃ s', s.wait n = some s' ∧ s'.Sound := by
  have accounts := inv.accounts
  have absent := inv.fresh _ le_rfl
  have nowhere : stateOf table s.created = none := by rw [stateOf, absent]; rfl
  have outside (m : Nat) : s.created ∉ q m := fun member => by
    obtain ⟨data, there, -⟩ := (inv.waiting m _).mp member
    rw [absent] at there
    cases there
  have unposted : s.created ∉ s.posted := fun member =>
    ((inv.tasked _).mp (mem_append_left _ member)).1 nowhere
  have none : s.service.tryPopPending n = none := by
    simp [SignalService.tryPopPending, pending]
  obtain ⟨service, done, kept, view⟩ := (inv.view.set outside (some { data := { signum := n } })).enqueue valid
    (update_self ..) rfl rfl outside
  rw [update_idem] at view
  refine ⟨{ s with
    service := service
    created := s.created + 1
    awaiting := s.awaiting ++ [s.created]
    suspended := s.suspended ++ [s.created] }, by simp [SignalSystem.wait, none, done], _, _, ⟨⟨view, ?_, ?_, ?_, ?_, ?_, ?_, ?_,
    ?_, inv.tasks, ?_, ?_, ?_, ?_, ?_⟩, ?accounts⟩⟩
  case accounts =>
    dsimp only
    rw [notifiedIn_update unposted]
    refine { accounts.keep kept with idle := ?_, fifo := ?_, before := ?_ }
    · intro m some
      dsimp only at some
      rw [kept] at some
      have here : m ≠ n := by
        rintro rfl
        exact some pending
      rw [update_of_ne here]
      exact accounts.idle m some
    · intro m
      have fifo := accounts.fifo m
      by_cases here : m = n
      · subst here
        rw [update_self, ← append_assoc, pairwise_append]
        refine ⟨fifo, pairwise_singleton _ _, fun v member v' last => ?_⟩
        rw [mem_singleton.mp last]
        rcases mem_append.mp member with old | waits
        · obtain ⟨p, inside, rfl⟩ := mem_map.mp old
          exact accounts.before p (mem_of_mem_filter inside)
        · by_contra later
          obtain ⟨data, there, -⟩ := (inv.waiting m v).mp waits
          rw [inv.fresh v (by omega)] at there
          cases there
      · rw [update_of_ne here]
        exact fifo
    · exact fun p member => Nat.lt_succ_of_lt (accounts.before p member)
  all_goals grind

theorem Inv.signal_pending (valid : validSignum info.signum) (nobody : q info.signum = []) :
    ∃ s', s.signal info = some s' ∧ s'.Sound := by
  have accounts := inv.accounts
  refine ⟨{ s with
    service := { s.service with
      pending := update s.service.pending info.signum (s.service.pending info.signum ++ [info]) }
    delivered := s.delivered ++ [info] }, ?_, q, table, ⟨{ inv with
      view := ⟨inv.view.holds, inv.view.data, inv.view.apart⟩ }, { accounts with idle := ?_, order := ?_ }⟩⟩
  · simp [SignalSystem.signal, SignalService.onDelivery, valid, inv.view.popNext_nil nobody]
  · intro m some
    by_cases here : m = info.signum
    · rw [here]
      exact nobody
    · dsimp only at some
      rw [update_of_ne here] at some
      exact accounts.idle m some
  · intro m
    dsimp only
    rw [filter_append, accounts.order m]
    by_cases here : info.signum = m
    · subst here
      simp
    · rw [update_of_ne (Ne.symm here)]
      simp [here]

theorem Inv.signal_waiter (valid : validSignum info.signum) (first : q info.signum = w :: rest) :
    ∃ s', s.signal info = some s' ∧ s'.Sound := by
  have accounts := inv.accounts
  obtain ⟨data, there, waits, signum⟩ := (inv.waiting info.signum w).mp (by rw [first]; exact mem_cons_self)
  have state : stateOf table w = some .waiting := by rw [stateOf, there, ← waits]; rfl
  have unposted : w ∉ s.posted := fun member => ((inv.tasked w).mp (mem_append_left _ member)).2 state
  obtain ⟨s₁, popped, pending₁, view₁⟩ := inv.view.popNext_cons first there waits s.created
  obtain ⟨s₂, done₂, view₂, pending₂⟩ :=
    view₁.modifyWaiter (update_self ..) fun waiter => { waiter with info := info }
  rw [update_idem] at view₂
  have distinct := (inv.view.holds info.signum).distinct
  have apart := inv.view.apart
  have own (m : Nat) : ofSignum m [(w, info)] = if info.signum = m then [(w, info)] else [] := ofSignum_singleton m _
  refine ⟨{ s with
    service := s₂
    delivered := s.delivered ++ [info]
    posted := s.posted ++ [w]
    assigned := s.assigned ++ [(w, info)] }, ?_, _, _, ⟨⟨view₂, ?_, ?_, ?_, ?_, ?_, ?_, ?_, inv.awaitsOnce, ?tasks, ?_, ?_, ?_, ?_,
    inv.known⟩, ?accounts⟩⟩
  · simp [SignalSystem.signal, SignalService.onDelivery, valid, popped, done₂]
  case tasks =>
    have := inv.tasks
    have := inv.tasked w
    rw [nodup_append] at *
    grind
  case accounts =>
    dsimp only
    rw [notifiedIn_append, notifiedIn_update unposted, notifiedIn_cons (update_self ..), if_pos rfl]
    have none : s.service.pending info.signum = [] := by
      by_contra some
      rw [accounts.idle info.signum some] at first
      cases first
    refine ⟨?_, ?_, ?_, ?_, ?_, ?_⟩
    · intro m some
      dsimp only at some
      rw [pending₂, pending₁] at some
      have here : m ≠ info.signum := by
        rintro rfl
        exact some none
      rw [update_of_ne here]
      exact accounts.idle m some
    · intro m
      dsimp only
      rw [pending₂, pending₁, filter_append, accounts.order m, ofSignum_append, own, map_append]
      by_cases here : info.signum = m
      · subst here
        simp [none]
      · simp [here]
    · intro m
      have fifo := accounts.fifo m
      dsimp only
      rw [ofSignum_append, own, map_append]
      by_cases here : info.signum = m
      · subst here
        rw [first] at fifo
        rw [if_pos rfl, update_self]
        simpa using fifo
      · rw [if_neg here, update_of_ne (Ne.symm here)]
        simpa using fifo
    · intro p member
      rcases mem_append.mp member with old | new
      · exact accounts.before p old
      rw [mem_singleton.mp new]
      by_contra later
      rw [inv.fresh w (by simpa using later)] at there
      cases there
    · dsimp only
      refine (accounts.account.append_right _).trans ?_
      simp only [append_assoc, notifiedIn, filterMap_nil, append_nil]
      refine List.Perm.append_left _ (List.Perm.append_left _ ?_)
      exact perm_append_comm
    · intro lost overtook m
      have turns := accounts.turns lost overtook m
      dsimp only
      rw [ofSignum_append] at turns
      rw [ofSignum_append m s.assigned, ← turns]
      simp [ofSignum, notifiedIn]
  all_goals grind

theorem Inv.signal (info : SignalInfo) : ∃ s', s.signal info = some s' ∧ s'.Sound := by
  by_cases valid : validSignum info.signum
  · cases waiting : q info.signum with
    | nil => exact inv.signal_pending valid waiting
    | cons w rest => exact inv.signal_waiter valid waiting
  · exact ⟨s, by simp [SignalSystem.signal, SignalService.onDelivery, valid], q, table, inv⟩

theorem Inv.destroy_waiting (there : table w = some data) (waits : data.state = .waiting) :
    ∃ s', s.destroy w = some s' ∧ s'.Sound := by
  have accounts := inv.accounts
  have state : stateOf table w = some .waiting := by rw [stateOf, there, ← waits]; rfl
  have unposted : w ∉ s.posted := fun member => ((inv.tasked w).mp (mem_append_left _ member)).2 state
  obtain ⟨xs, ys, place⟩ := append_of_mem ((inv.waiting data.signum w).mpr ⟨data, there, waits, rfl⟩)
  obtain ⟨service, done, pending, view⟩ := inv.view.cancel_waiting place there rfl (inv.valid w data there) waits
    (inv.queued w data there waits)
  have found : s.service.data w = some data := by rw [inv.view.data, there]
  refine ⟨{ s with
    service := service
    awaiting := s.awaiting.erase w
    deleted := s.deleted ++ [w] }, by simp [SignalSystem.destroy, found, done, waits], _, _, ⟨⟨view, ?_, ?waiting, ?_, ?_, ?_, ?_,
    ?_, inv.awaitsOnce.erase w, inv.tasks, ?_, ?_, ?_, ?_, inv.known⟩, ?accounts⟩⟩
  case waiting =>
    have distinct := (inv.view.holds data.signum).distinct
    rw [place] at distinct
    intro m v
    by_cases same : v = w
    · subst same
      have nowhere : v ∉ update q data.signum (xs ++ ys) m := by
        by_cases here : m = data.signum
        · rw [here, update_self]
          grind
        · rw [update_of_ne here]
          grind [(inv.waiting m v)]
      simp [nowhere]
    · rw [update_of_ne same, ← inv.waiting]
      by_cases here : m = data.signum
      · rw [here, update_self, place]
        simp [same]
      · rw [update_of_ne here]
  case accounts =>
    dsimp only
    rw [notifiedIn_update unposted]
    refine { accounts.keep pending with idle := ?_, fifo := ?_ }
    · intro m some
      dsimp only at some
      rw [pending] at some
      have none := accounts.idle m some
      have here : m ≠ data.signum := by
        rintro rfl
        rw [place] at none
        simp at none
      rw [update_of_ne here]
      exact none
    · intro m
      have fifo := accounts.fifo m
      by_cases here : m = data.signum
      · subst here
        rw [update_self]
        rw [place] at fifo
        refine fifo.sublist (List.Sublist.append_left ?_ _)
        exact List.Sublist.append_left (sublist_cons_self w ys) xs
      · rw [update_of_ne here]
        exact fifo
  all_goals grind

/-- The awaiter of a waiter ends after it was notified: its signal is lost. -/
theorem Inv.destroy_notified (there : table w = some data) (next : data.state = .notified) :
    ∃ s', s.destroy w = some s' ∧ s'.Sound := by
  have accounts := inv.accounts
  have state : stateOf table w = some .notified := by rw [stateOf, there, ← next]; rfl
  have posted : w ∈ s.posted := by
    have task := (inv.tasked w).mpr (by simp [state])
    exact (mem_append.mp task).resolve_right (inv.coming w state)
  obtain ⟨service, done, pending, view⟩ := inv.view.cancel_notified there (inv.valid w data there) next
  have found : s.service.data w = some data := by rw [inv.view.data, there]
  have moved := notifiedIn_cancel inv.tasks.of_append_left posted there next
    { data with state := .canceled, handle := false } nofun
  refine ⟨{ s with
    service := service
    awaiting := s.awaiting.erase w
    lost := s.lost ++ [(w, data.info)] }, by simp [SignalSystem.destroy, found, done, next], q, _, ⟨⟨view, ?_, ?_, ?_, ?_, ?_,
    ?_, ?_, inv.awaitsOnce.erase w, inv.tasks, ?_, ?_, ?_, ?_, inv.known⟩, ?accounts⟩⟩
  case accounts =>
    refine { accounts.keep pending with account := ?_, turns := ?_ }
    · refine accounts.account.trans ?_
      have lose := moved.append_left s.returned
      refine (lose.append_right s.lost).trans ?_
      simp only [append_assoc]
      refine List.Perm.append_left _ (List.Perm.append_left _ ?_)
      exact perm_append_comm
    · intro none
      simp at none
  all_goals grind

theorem Inv.destroy (enabled : w ∈ s.awaiting) : ∃ s', s.destroy w = some s' ∧ s'.Sound := by
  rcases (inv.awaits w).mp enabled with state | state
  · obtain ⟨data, there, waits⟩ := stateOf_some state
    exact inv.destroy_waiting there waits
  · obtain ⟨data, there, next⟩ := stateOf_some state
    exact inv.destroy_notified there next

/-- A waiter that has something left to do is not deleted yet. -/
theorem Inv.live (task : w ∈ s.posted ++ s.deleting) : ∃ data, table w = some data ∧ data.state ≠ .waiting := by
  obtain ⟨alive, active⟩ := (inv.tasked w).mp task
  obtain ⟨state, at_state⟩ := ne_none_iff_exists'.mp alive
  obtain ⟨data, there, same⟩ := stateOf_some at_state
  exact ⟨data, there, fun waits => active (by rw [at_state, ← same, waits])⟩

theorem Inv.notify (first : s.posted = w :: rest) : ∃ s', s.notify = some s' ∧ s'.Sound := by
  have accounts := inv.accounts
  obtain ⟨data, there, active⟩ := inv.live (w := w) (by simp [first])
  obtain ⟨service, done, pending, view⟩ := inv.view.resume there
  have state : stateOf table w = some data.state := by rw [stateOf, there]; rfl
  have moved : (rest ++ (s.deleting ++ [w])).Perm (s.posted ++ s.deleting) := by
    rw [first, ← append_assoc]
    exact perm_append_singleton _ _
  have tasks := moved.nodup_iff.mpr inv.tasks
  have outside : w ∉ rest := by
    have distinct := inv.tasks
    rw [first, cons_append, nodup_cons] at distinct
    exact fun member => distinct.1 (mem_append_left _ member)
  rw [first, notifiedIn_cons there] at accounts
  by_cases next : data.state = .notified
  · have handle := inv.handles w data there (.inr next)
    rw [if_pos next] at view accounts
    rw [if_pos ⟨next, handle⟩] at done
    refine ⟨{ s with
      service := service
      posted := rest
      deleting := s.deleting ++ [w]
      awaiting := s.awaiting.erase w
      returned := s.returned ++ [(w, data.info)] }, by simp [SignalSystem.notify, first, done], q, _, ⟨⟨view, ?_, ?_, ?_, ?_, ?_,
      ?_, ?_, inv.awaitsOnce.erase w, tasks, ?_, ?_, ?_, ?_, inv.known⟩, ?accounts⟩⟩
    case accounts =>
      dsimp only
      rw [notifiedIn_update outside]
      refine { accounts.keep pending with account := ?_, turns := ?_ }
      · have account := accounts.account
        simp only [append_assoc] at account ⊢
        exact account
      · intro lost overtook m
        have turns := accounts.turns lost overtook m
        rw [← turns]
        simp
    all_goals grind
  · rw [if_neg next] at view accounts
    rw [if_neg fun both => next both.1] at done
    refine ⟨{ s with
      service := service
      posted := rest
      deleting := s.deleting ++ [w] }, by simp [SignalSystem.notify, first, done], q, table, ⟨{ inv with
        view := view
        tasks := tasks
        tasked := fun v => moved.mem_iff.trans (inv.tasked v)
        coming := ?_ }, { accounts.keep pending with }⟩⟩
    grind

theorem Inv.delete (enabled : w ∈ s.deleting) : ∃ s', s.delete w = some s' ∧ s'.Sound := by
  have accounts := inv.accounts
  obtain ⟨data, there, active⟩ := inv.live (w := w) (by simp [enabled])
  obtain ⟨node, found, -⟩ := inv.view.node there
  have outside (m : Nat) : w ∉ q m := by
    intro member
    obtain ⟨data', there', waits, -⟩ := (inv.waiting m w).mp member
    rw [there] at there'
    cases there'
    exact active waits
  have unposted : w ∉ s.posted := fun member => (nodup_append.mp inv.tasks).2.2 w member w enabled rfl
  have state : stateOf table w = some data.state := by rw [stateOf, there]; rfl
  have view := inv.view.set outside none
  refine ⟨{ s with
    service := { s.service with heap := update s.service.heap w none }
    deleting := s.deleting.erase w
    deleted := s.deleted ++ [w] }, by simp [SignalSystem.delete, SignalService.delete, found], q, _, ⟨⟨view, ?_, ?_, ?_, ?_, ?_,
    ?_, ?_, inv.awaitsOnce, ?_, ?_, ?_, ?_, ?_, inv.known⟩, ?accounts⟩⟩
  case accounts =>
    dsimp only
    rw [notifiedIn_update unposted]
    exact { accounts with }
  all_goals grind

theorem Inv.step {event : SignalEvent} (enabled : s.Enabled event) : ∃ s', s.step event = some s' ∧ s'.Sound := by
  cases event with
  | wait signum =>
    cases pending : s.service.pending signum with
    | nil => exact inv.wait_suspend enabled pending
    | cons info rest => exact inv.wait_pending enabled pending
  | signal info => exact inv.signal info
  | destroy waiter => exact inv.destroy enabled
  | notify =>
    cases posted : s.posted with
    | nil => exact absurd posted enabled
    | cons w rest => exact inv.notify posted
  | delete waiter => exact inv.delete enabled

end

theorem run_sound (events : List SignalEvent) : ∃ s, run {} events = some s ∧ s.Sound :=
  Interleaving.run_invariant (fun _ _ ⟨_, _, inv⟩ enabled => inv.step enabled) ⟨_, _, Inv.init⟩ events

/-- The calls return in that order as well. -/
def InOrder (s : SignalSystem) : Prop :=
  ∀ n, s.delivered.filter (·.signum = n) = (ofSignum n (s.returned ++ s.notified)).map (·.2) ++ s.service.pending n

/-- A waiter is deleted once, when its awaiter has ended and no notification of it is left. -/
structure Deletes (s : SignalSystem) : Prop where
  once : s.deleted.Nodup
  all : ∀ w, w ∈ s.deleted ↔ w ∈ s.suspended ∧ w ∉ s.awaiting ∧ w ∉ s.posted ∧ w ∉ s.deleting

theorem Inv.notified_eq (inv : Inv s q table) : s.notified = notifiedIn s.posted table := by
  rw [SignalSystem.notified, inv.view.data]

theorem Inv.inOrder (inv : Inv s q table) (kept : s.lost = []) (turn : s.overtook = []) : s.InOrder := by
  intro n
  rw [inv.notified_eq, inv.accounts.turns kept turn n]
  exact inv.accounts.order n

theorem Inv.deletes (inv : Inv s q table) : s.Deletes := by
  refine ⟨inv.gone.1, fun w => (inv.gone.2 w).trans (and_congr_right fun _ => ?_)⟩
  have absent : table w = none ↔ stateOf table w = none := by simp [stateOf]
  have tasked := inv.tasked w
  rw [mem_append] at tasked
  rw [inv.awaits, absent]
  grind

end SignalSystem

end FiberGateway.Event
