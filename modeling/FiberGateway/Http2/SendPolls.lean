import FiberGateway.Lib.Interleaving
import FiberGateway.Mem.IoBuf

/-!
`Http2SendingEntryQueue` and the polls of the send loop: an awaiter that is woken by a notification or by its timer.
-/

namespace FiberGateway.Http2

open List Function

structure SendingEntryQueue where
  ready : List Nat := []
  waiter : Option Nat := none
  closed : Bool := false

/-- A `PollAwaiter` whose coroutine is suspended; `handle` tells whether its handle is set. -/
structure PollAwaiter where
  timeout : Int
  handle : Bool := true
  timedOut : Bool := false
  resumePosted : Bool := false
  deriving DecidableEq, Repr

inductive PollResult
  | entry (entry : Nat)
  | timedOut
  | closed
  deriving DecidableEq, Repr

def PollResult.entry? : PollResult → Option Nat
  | .entry e => some e
  | _ => none

/-- What a poll returned. -/
structure Polled where
  poll : Nat
  timeout : Int
  result : PollResult
  deriving DecidableEq, Repr

/-- `std::chrono::milliseconds::max()`. -/
def kMaxTimeout : Int := 2 ^ 63 - 1

def hasTimer (timeout : Int) : Prop := 0 < timeout ∧ timeout ≠ kMaxTimeout

instance (timeout : Int) : Decidable (hasTimer timeout) := inferInstanceAs (Decidable (_ ∧ _))

/-- The queue, its polls by their number, and the loop they run on: `notifications` are the awaiters whose notify entry is in
the queue of the loop, `timers` those whose timer is in its heap. The other fields record what happened. -/
structure SendPolls where
  queue : SendingEntryQueue := {}
  awaiters : Nat → Option PollAwaiter := fun _ => none
  notifications : List Nat := []
  timers : List Nat := []
  created : Nat := 0
  accepted : List Nat := []
  handed : List Nat := []
  suspended : List Nat := []
  resumed : List Nat := []
  destroyed : List Nat := []
  expired : List Nat := []
  polled : List Polled := []

/-- What happens on the thread of the loop. -/
inductive PollEvent
  | enqueue (entry : Nat)
  | close
  | poll (timeout : Int)
  | expire (poll : Nat)
  | deliver
  | destroy (poll : Nat)
  deriving DecidableEq, Repr

namespace SendPolls

/-! None stands for a failed `FIBER_ASSERT`, and for the use of an awaiter that was destroyed. -/

def notifyWaiter (s : SendPolls) : Option SendPolls :=
  match s.queue.waiter with
  | none => some s
  | some poll => do
    let awaiter ← s.awaiters poll
    return if awaiter.resumePosted then s else { s with
      awaiters := update s.awaiters poll (some { awaiter with resumePosted := true })
      notifications := s.notifications ++ [poll] }

def enqueue (s : SendPolls) (entry : Nat) : Option (Except IoErr SendPolls) :=
  if s.queue.closed then some (.error .canceled)
  else do
    let s ← { s with
      queue := { s.queue with ready := s.queue.ready ++ [entry] }
      accepted := s.accepted ++ [entry] }.notifyWaiter
    return .ok s

def close (s : SendPolls) : Option SendPolls :=
  if s.queue.closed then some s
  else { s with queue := { s.queue with closed := true } }.notifyWaiter

/-- `cancel_waiter`. -/
def cancelWaiter (s : SendPolls) (poll : Nat) : SendPolls :=
  { s with queue := { s.queue with waiter := if s.queue.waiter = some poll then none else s.queue.waiter } }

/-- The end of the awaiter, with its timer. -/
def release (s : SendPolls) (poll : Nat) : SendPolls :=
  { s.cancelWaiter poll with
    timers := s.timers.erase poll
    awaiters := update s.awaiters poll none }

/-- `await_resume`, and the end of the awaiter with the `co_await` expression. -/
def awaitResume (s : SendPolls) (poll : Nat) (timeout : Int) : SendPolls :=
  let s := s.release poll
  match s.queue.ready with
  | entry :: ready => { s with
      queue := { s.queue with ready := ready }
      handed := s.handed ++ [entry]
      polled := s.polled ++ [⟨poll, timeout, .entry entry⟩] }
  | [] => { s with polled := s.polled ++ [⟨poll, timeout, if s.queue.closed then .closed else .timedOut⟩] }

/-- `PollAwaiter::resume`. -/
def resume (s : SendPolls) (poll : Nat) (awaiter : PollAwaiter) : SendPolls :=
  if awaiter.handle then { s with resumed := s.resumed ++ [poll] }.awaitResume poll awaiter.timeout
  else { s with awaiters := update s.awaiters poll (some awaiter) }

def poll (s : SendPolls) (timeout : Int) : Option SendPolls :=
  let poll := s.created
  let s := { s with created := poll + 1 }
  if s.queue.ready ≠ [] ∨ s.queue.closed ∨ timeout = 0 then some (s.awaitResume poll timeout)
  else if s.queue.waiter ≠ none then none
  else some { s with
    queue := { s.queue with waiter := some poll }
    awaiters := update s.awaiters poll (some { timeout := timeout })
    suspended := s.suspended ++ [poll]
    timers := if hasTimer timeout then s.timers ++ [poll] else s.timers }

/-- `on_timeout`, after `run_due_timers` took the timer out of the heap. -/
def expire (s : SendPolls) (poll : Nat) : Option SendPolls := do
  let awaiter ← s.awaiters poll
  let s := { s with timers := s.timers.erase poll, expired := s.expired ++ [poll] }.cancelWaiter poll
  return s.resume poll { awaiter with timedOut := true }

/-- `on_notify`, for the entry that was posted first. -/
def deliver (s : SendPolls) : Option SendPolls :=
  match s.notifications with
  | [] => some s
  | poll :: rest => do
    let awaiter ← s.awaiters poll
    return { s with notifications := rest }.resume poll { awaiter with resumePosted := false }

/-- The frame of the coroutine is destroyed where it is suspended. -/
def destroy (s : SendPolls) (poll : Nat) : SendPolls :=
  { s.release poll with destroyed := s.destroyed ++ [poll] }

/-- An entry is not enqueued while it is in the queue. -/
def Enabled (s : SendPolls) : PollEvent → Prop
  | .enqueue entry => entry ∉ s.queue.ready
  | .close => True
  | .poll _ => True
  | .expire poll => poll ∈ s.timers
  | .deliver => s.notifications ≠ []
  | .destroy poll => s.awaiters poll ≠ none

instance (s : SendPolls) (event : PollEvent) : Decidable (s.Enabled event) := by
  cases event <;> unfold Enabled <;> infer_instance

def step (s : SendPolls) : PollEvent → Option SendPolls
  | .enqueue entry => (s.enqueue entry).map fun
    | .error _ => s
    | .ok s => s
  | .close => s.close
  | .poll timeout => s.poll timeout
  | .expire poll => s.expire poll
  | .deliver => s.deliver
  | .destroy poll => some (s.destroy poll)

/-- Any interleaving: what cannot happen is passed over. -/
def run (s : SendPolls) (events : List PollEvent) : Option SendPolls :=
  events.foldlM (fun s event => if s.Enabled event then s.step event else some s) s

/-- Entries are handed out in their order; a poll that is suspended is resumed once unless it is destroyed, and will be woken
when there is something for it; it times out only when its time is up; and one that is gone has left nothing behind in the
loop. -/
structure Kept (s : SendPolls) : Prop where
  order : s.handed ++ s.queue.ready = s.accepted
  entries : s.polled.filterMap (·.result.entry?) = s.handed
  resumedOnce : s.resumed.Nodup
  resumes : ∀ poll ∈ s.suspended, poll ∈ s.resumed ∨ poll ∈ s.destroyed ∨ s.awaiters poll ≠ none
  waits : ∀ poll awaiter, s.awaiters poll = some awaiter → poll ∉ s.resumed ∧ poll ∉ s.destroyed ∧
    awaiter.handle = true ∧ (s.queue.ready ≠ [] ∨ s.queue.closed = true → poll ∈ s.notifications) ∧
    (hasTimer awaiter.timeout → poll ∈ s.timers)
  destroys : ∀ poll ∈ s.destroyed, poll ∉ s.resumed
  timesOut : ∀ p ∈ s.polled, p.result = .timedOut → p.poll ∈ s.expired ∨ p.timeout = 0
  gone : ∀ poll, s.awaiters poll = none → poll ∉ s.notifications ∧ poll ∉ s.timers

/-- A poll neither times out nor is destroyed while its notification is in the queue of the loop, and no other poll begins
while one is suspended. -/
def Calm (s : SendPolls) : PollEvent → Prop
  | .expire poll => poll ∉ s.notifications
  | .destroy poll => poll ∉ s.notifications
  | .poll _ => ∀ poll, s.awaiters poll = none
  | _ => True

/-- Every step of the run is calm. -/
def CalmRun (s : SendPolls) : List PollEvent → Prop
  | [] => True
  | event :: events =>
    if s.Enabled event then s.Calm event ∧ ∀ s', s.step event = some s' → s'.CalmRun events else s.CalmRun events

/-- No poll is suspended, or one is: what that says about the queue and the loop. -/
inductive Phase (s : SendPolls) : Prop
  | idle (awaiters : s.awaiters = fun _ => none) (waiter : s.queue.waiter = none) (notifications : s.notifications = [])
      (timers : s.timers = [])
  | waiting {poll : Nat} {awaiter : PollAwaiter} (awaiters : s.awaiters = update (fun _ => none) poll (some awaiter))
      (waiter : s.queue.waiter = some poll)
      (notifications : s.notifications = if awaiter.resumePosted then [poll] else [])
      (timers : s.timers = if hasTimer awaiter.timeout then [poll] else []) (handle : awaiter.handle = true)
      (woken : awaiter.resumePosted = true ↔ s.queue.ready ≠ [] ∨ s.queue.closed = true)
      (new : poll ∉ s.resumed ∧ poll ∉ s.destroyed) (known : poll < s.created)

structure Records (s : SendPolls) : Prop where
  order : s.handed ++ s.queue.ready = s.accepted
  entries : s.polled.filterMap (·.result.entry?) = s.handed
  resumedOnce : s.resumed.Nodup
  known : ∀ poll, poll ∈ s.resumed ∨ poll ∈ s.destroyed → poll < s.created
  destroys : ∀ poll ∈ s.destroyed, poll ∉ s.resumed
  timesOut : ∀ p ∈ s.polled, p.result = .timedOut → p.poll ∈ s.expired ∨ p.timeout = 0

structure Inv (s : SendPolls) : Prop extends Records s where
  phase : s.Phase
  resumes : ∀ poll ∈ s.suspended, poll ∈ s.resumed ∨ poll ∈ s.destroyed ∨ s.awaiters poll ≠ none

variable {s s' : SendPolls}

theorem Inv.kept (inv : s.Inv) : s.Kept := by
  refine ⟨inv.order, inv.entries, inv.resumedOnce, inv.resumes, ?_, inv.destroys, inv.timesOut, ?_⟩
  · intro poll awaiter there
    cases inv.phase with
    | idle awaiters => simp [awaiters] at there
    | @waiting poll' awaiter' awaiters waiter notifications timers handle woken new known =>
      rw [awaiters, update_apply] at there
      split at there
      · rename_i same
        cases there
        subst same
        refine ⟨new.1, new.2, handle, fun ready => ?_, fun timer => ?_⟩
        · rw [notifications, woken.mpr ready]
          simp
        · rw [timers, if_pos timer]
          simp
      · cases there
  · intro poll gone
    cases inv.phase with
    | idle awaiters waiter notifications timers => simp [notifications, timers]
    | @waiting poll' awaiter' awaiters waiter notifications timers handle woken new known =>
      have apart : poll ≠ poll' := by
        rintro rfl
        rw [awaiters, update_self] at gone
        cases gone
      rw [notifications, timers]
      constructor
      · split <;> simp [apart]
      · split <;> simp [apart]

theorem Inv.init : Inv {} where
  phase := .idle rfl rfl rfl rfl
  order := rfl
  entries := rfl
  resumedOnce := nodup_nil
  known := by simp
  resumes := nofun
  destroys := nofun
  timesOut := nofun

/-- There is something for a poll: the one that is suspended gets its notification. -/
theorem Inv.notifyWaiter (inv : s.Inv) (queue : SendingEntryQueue) (accepted : List Nat)
    (waiter : queue.waiter = s.queue.waiter) (ready : queue.ready ≠ [] ∨ queue.closed = true)
    (order : s.handed ++ queue.ready = accepted) :
    ∃ s', { s with queue := queue, accepted := accepted }.notifyWaiter = some s' ∧ s'.Inv := by
  unfold SendPolls.notifyWaiter
  cases inv.phase with
  | idle awaiters none notifications timers =>
    rw [none] at waiter
    refine ⟨{ s with queue := queue, accepted := accepted }, by simp [waiter], { inv with
      phase := .idle awaiters waiter notifications timers
      order := order }⟩
  | @waiting poll awaiter awaiters here notifications timers handle woken new known =>
    rw [here] at waiter
    have there : s.awaiters poll = some awaiter := by rw [awaiters, update_self]
    by_cases posted : awaiter.resumePosted = true
    · refine ⟨{ s with queue := queue, accepted := accepted }, by simp [waiter, there, posted], { inv with
        phase := .waiting awaiters waiter notifications timers handle ⟨fun _ => ready, fun _ => posted⟩ new known
        order := order }⟩
    refine ⟨{ s with
      queue := queue
      accepted := accepted
      awaiters := update s.awaiters poll (some { awaiter with resumePosted := true })
      notifications := s.notifications ++ [poll] }, by simp [waiter, there, posted], { inv with
        phase := @Phase.waiting _ poll { awaiter with resumePosted := true } ?_ waiter ?_ timers handle
          ⟨fun _ => ready, fun _ => rfl⟩ new known
        order := order
        resumes := ?_ }⟩
    · rw [awaiters, update_idem]
    · simp [notifications, posted]
    · intro other member
      refine (inv.resumes other member).imp_right (Or.imp_right fun live => ?_)
      dsimp only
      rw [update_apply]
      split
      · nofun
      · exact live

theorem Inv.enqueue (inv : s.Inv) (entry : Nat) : ∃ s', s.step (.enqueue entry) = some s' ∧ s'.Inv := by
  rw [step, SendPolls.enqueue]
  by_cases closed : s.queue.closed = true
  · rw [if_pos closed]
    exact ⟨s, rfl, inv⟩
  · rw [if_neg closed]
    obtain ⟨s', done, inv'⟩ := inv.notifyWaiter { s.queue with ready := s.queue.ready ++ [entry] }
      (s.accepted ++ [entry]) rfl (.inl (by simp)) (by rw [← inv.order, append_assoc])
    exact ⟨s', by rw [done]; rfl, inv'⟩

theorem Inv.close (inv : s.Inv) : ∃ s', s.close = some s' ∧ s'.Inv := by
  unfold SendPolls.close
  by_cases closed : s.queue.closed = true
  · rw [if_pos closed]
    exact ⟨s, rfl, inv⟩
  · rw [if_neg closed]
    exact inv.notifyWaiter { s.queue with closed := true } s.accepted rfl (.inr rfl) inv.order

variable {timeout : Int} {event : PollEvent} {events : List PollEvent}

/-- The end of a poll that no other is there with, and that has no notification in the loop. -/
theorem Records.awaitResume (records : s.Records) {poll : Nat}
    (awaiters : update s.awaiters poll none = fun _ => none)
    (waiter : s.queue.waiter = none ∨ s.queue.waiter = some poll) (notifications : s.notifications = [])
    (timers : s.timers.erase poll = []) (ended : ∀ other ∈ s.suspended, other ∈ s.resumed ∨ other ∈ s.destroyed)
    (late : s.queue.ready = [] → s.queue.closed = false → poll ∈ s.expired ∨ timeout = 0) :
    (s.awaitResume poll timeout).Inv := by
  have gone : (if s.queue.waiter = some poll then none else s.queue.waiter) = none := by
    rcases waiter with none | here
    · simp [none]
    · simp [here]
  unfold SendPolls.awaitResume
  dsimp only [release, cancelWaiter]
  cases ready : s.queue.ready with
  | cons entry rest =>
    refine ⟨⟨?_, ?_, records.resumedOnce, records.known, records.destroys, ?_⟩, ?_, fun other member => ?_⟩
    · rw [← records.order, ready]
      simp
    · rw [filterMap_append, records.entries]
      rfl
    · grind [records.timesOut]
    · exact .idle awaiters gone notifications timers
    · exact (ended other member).imp_right .inl
  | nil =>
    refine ⟨⟨?_, ?_, records.resumedOnce, records.known, records.destroys, ?_⟩, ?_, fun other member => ?_⟩
    · rw [← records.order, ready]
    · rw [filterMap_append, records.entries]
      split <;> simp [PollResult.entry?]
    · grind [records.timesOut]
    · exact .idle awaiters gone notifications timers
    · exact (ended other member).imp_right .inl

theorem Inv.poll (inv : s.Inv) (calm : s.Calm (.poll timeout)) : ∃ s', s.poll timeout = some s' ∧ s'.Inv := by
  cases inv.phase with
  | @waiting poll awaiter awaiters =>
    have none := calm poll
    rw [awaiters, update_self] at none
    cases none
  | idle awaiters waiter notifications timers =>
    have records : Records { s with created := s.created + 1 } := { inv with
      known := fun poll member => Nat.lt_succ_of_lt (inv.known poll member) }
    unfold SendPolls.poll
    by_cases ready : s.queue.ready ≠ [] ∨ s.queue.closed = true ∨ timeout = 0
    · rw [if_pos ready]
      refine ⟨_, rfl, records.awaitResume ?_ (.inl waiter) notifications (by simp [timers]) ?_ ?_⟩
      · simp [awaiters]
      · intro other member
        have := inv.resumes other member
        rw [awaiters] at this
        simpa using this
      · intro empty opened
        rcases ready with some | closed | zero
        · exact absurd empty some
        · exact absurd (closed.symm.trans opened) nofun
        · exact .inr zero
    · rw [if_neg ready, if_neg (by simp [waiter])]
      rw [not_or, not_or] at ready
      refine ⟨_, rfl, { records with
        phase := @Phase.waiting _ s.created { timeout := timeout } (by simp [awaiters]) rfl notifications
          (by simp [timers]) rfl ⟨nofun, fun some => ?_⟩ ?_ (Nat.lt_succ_self _)
        resumes := ?_ }⟩
      · exact some.elim (fun some => absurd some ready.1) fun closed => absurd closed ready.2.1
      · constructor
        · intro member
          exact absurd (inv.known _ (.inl member)) (Nat.lt_irrefl _)
        · intro member
          exact absurd (inv.known _ (.inr member)) (Nat.lt_irrefl _)
      · intro other member
        rcases mem_append.mp member with member | member
        · have := inv.resumes other member
          rw [awaiters] at this
          exact (by simpa using this : other ∈ s.resumed ∨ other ∈ s.destroyed).imp_right .inl
        · rw [mem_singleton.mp member]
          simp

theorem Inv.ended (inv : s.Inv) {poll : Nat} {awaiter : PollAwaiter}
    (awaiters : s.awaiters = update (fun _ => none) poll (some awaiter)) {other : Nat} (member : other ∈ s.suspended) :
    other ∈ s.resumed ∨ other ∈ s.destroyed ∨ other = poll := by
  refine (inv.resumes other member).imp_right (Or.imp_right fun live => ?_)
  by_contra apart
  rw [awaiters, update_of_ne apart] at live
  exact live rfl

theorem Records.resumed (records : s.Records) {poll : Nat} (new : poll ∉ s.resumed ∧ poll ∉ s.destroyed)
    (known : poll < s.created) : Records { s with resumed := s.resumed ++ [poll] } := by
  refine { records with resumedOnce := ?_, known := ?_, destroys := ?_ }
  · grind [records.resumedOnce]
  · have := records.known
    grind
  · grind [records.destroys]

theorem Inv.expire (inv : s.Inv) {poll : Nat} (enabled : poll ∈ s.timers) (calm : poll ∉ s.notifications) :
    ∃ s', s.expire poll = some s' ∧ s'.Inv := by
  cases inv.phase with
  | idle _ _ _ timers => simp [timers] at enabled
  | @waiting poll' awaiter awaiters waiter notifications timers handle woken new known =>
    obtain rfl : poll = poll' := by grind
    have there : s.awaiters poll = some awaiter := by rw [awaiters, update_self]
    have unposted : s.notifications = [] := by grind
    have records : Records { s with
        timers := s.timers.erase poll
        expired := s.expired ++ [poll]
        queue := { s.queue with waiter := if s.queue.waiter = some poll then none else s.queue.waiter } } := { inv with
      timesOut := fun p member late => (inv.timesOut p member late).imp_left (mem_append_left _) }
    refine ⟨_, by rw [SendPolls.expire, there]; rfl, ?_⟩
    rw [SendPolls.resume, if_pos handle]
    refine (records.resumed new known).awaitResume ?_ (.inl ?_) unposted ?_ ?_ fun _ _ => .inl (by simp)
    · dsimp only
      rw [awaiters, update_idem]
      exact update_eq_self ..
    · simp [waiter]
    · dsimp only
      rw [timers]
      split <;> simp
    · intro other member
      have := inv.ended awaiters member
      simp only [mem_append, mem_singleton]
      tauto

theorem Inv.deliver (inv : s.Inv) (enabled : s.notifications ≠ []) : ∃ s', s.deliver = some s' ∧ s'.Inv := by
  cases inv.phase with
  | idle _ _ notifications => exact absurd notifications enabled
  | @waiting poll awaiter awaiters waiter notifications timers handle woken new known =>
    have there : s.awaiters poll = some awaiter := by rw [awaiters, update_self]
    have posted : awaiter.resumePosted = true := by grind
    rw [if_pos posted] at notifications
    have records : Records { s with notifications := [] } := { inv with }
    refine ⟨_, by rw [SendPolls.deliver, notifications]; simp [there]; rfl, ?_⟩
    rw [SendPolls.resume, if_pos handle]
    refine (records.resumed new known).awaitResume ?_ (.inr waiter) rfl ?_ ?_ ?_
    · dsimp only
      rw [awaiters, update_idem]
      exact update_eq_self ..
    · dsimp only
      rw [timers]
      split <;> simp
    · intro other member
      have := inv.ended awaiters member
      simp only [mem_append, mem_singleton]
      tauto
    · intro empty opened
      rcases woken.mp posted with some | closed
      · exact absurd empty some
      · exact absurd (closed.symm.trans opened) nofun

theorem Inv.destroy (inv : s.Inv) {poll : Nat} (enabled : s.awaiters poll ≠ none) (calm : poll ∉ s.notifications) :
    (s.destroy poll).Inv := by
  cases inv.phase with
  | idle awaiters => simp [awaiters] at enabled
  | @waiting poll' awaiter awaiters waiter notifications timers handle woken new known =>
    obtain rfl : poll = poll' := by
      by_contra apart
      exact enabled (by rw [awaiters, update_of_ne apart])
    have unposted : s.notifications = [] := by grind
    refine { inv with known := ?_, destroys := ?_, phase := .idle ?_ ?_ unposted ?_, resumes := ?_ }
    · intro other member
      rcases member with member | member
      · exact inv.known other (.inl member)
      rcases mem_append.mp member with member | member
      · exact inv.known other (.inr member)
      · rw [mem_singleton.mp member]
        exact known
    · intro other member
      rcases mem_append.mp member with member | member
      · exact inv.destroys other member
      · rw [mem_singleton.mp member]
        exact new.1
    · dsimp only [SendPolls.destroy, release]
      rw [awaiters, update_idem]
      exact update_eq_self ..
    · simp [SendPolls.destroy, release, cancelWaiter, waiter]
    · dsimp only [SendPolls.destroy, release]
      rw [timers]
      split <;> simp
    · intro other member
      have := inv.ended awaiters member
      simp only [SendPolls.destroy, mem_append, mem_singleton]
      tauto

theorem Inv.step (inv : s.Inv) (enabled : s.Enabled event) (calm : s.Calm event) :
    ∃ s', s.step event = some s' ∧ s'.Inv := by
  cases event with
  | enqueue entry => exact inv.enqueue entry
  | close => exact inv.close
  | poll timeout => exact inv.poll calm
  | expire poll => exact inv.expire enabled calm
  | deliver => exact inv.deliver enabled
  | destroy poll => exact ⟨_, rfl, inv.destroy enabled calm⟩

theorem calmRun_eq (s : SendPolls) (events : List PollEvent) :
    s.CalmRun events = Interleaving.Through Enabled SendPolls.step Calm s events := by
  induction events generalizing s with
  | nil => rfl
  | cons event events ih => simp only [CalmRun, Interleaving.Through, ih]

theorem CalmRun.cons (enabled : s.Enabled event) (calm : s.Calm event) (done : s.step event = some s')
    (rest : s'.CalmRun events) : s.CalmRun (event :: events) := by
  rw [calmRun_eq] at rest ⊢
  exact .cons enabled calm done rest

theorem calmRun_kept {events : List PollEvent} (calm : CalmRun {} events) : ∃ s, run {} events = some s ∧ s.Kept := by
  rw [calmRun_eq] at calm
  obtain ⟨s, done, inv⟩ := calm.run_invariant (fun _ _ inv enabled calm => Inv.step inv enabled calm) Inv.init
  exact ⟨s, done, inv.kept⟩

/-- A poll that is woken by an entry, and one that times out. -/
theorem twoPolls_kept : CalmRun {} [.poll 5, .enqueue 0, .deliver, .poll 5, .expire 1] ∧
    ∃ s, run {} [.poll 5, .enqueue 0, .deliver, .poll 5, .expire 1] = some s ∧ s.Kept := by
  have calm : CalmRun {} [.poll 5, .enqueue 0, .deliver, .poll 5, .expire 1] := by
    refine .cons trivial (fun _ => rfl) rfl (.cons not_mem_nil trivial rfl (.cons (by decide) trivial rfl
      (.cons trivial ?_ rfl (.cons (by decide) ?_ rfl trivial))))
    · intro poll
      by_cases first : poll = 0
      · subst first
        rfl
      · exact (update_of_ne first _ _).trans ((update_of_ne first _ _).trans (update_of_ne first _ _))
    · exact not_mem_nil
  exact ⟨calm, calmRun_kept calm⟩

/-- The timer of a poll is due when its notification is already in the queue of the loop: the poll returns, and leaves the
notification behind. The next turn of the loop delivers it to an awaiter that is gone. -/
theorem timer_before_notification :
    ∃ s, run {} [.poll 5, .enqueue 0, .expire 0] = some s ∧ s.polled = [⟨0, 5, .entry 0⟩] ∧ s.awaiters 0 = none ∧
      s.notifications = [0] ∧ ¬ s.Kept ∧ s.run [.deliver] = none := by
  refine ⟨_, rfl, rfl, rfl, rfl, fun kept => ?_, rfl⟩
  exact (kept.gone 0 rfl).1 (mem_singleton_self 0)

end SendPolls

end FiberGateway.Http2
