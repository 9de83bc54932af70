import FiberGateway.Event.TimerHeap

/-!
What the timers of an event loop are for: a table of armed timers, from which the due ones fire, the earliest first.
-/

namespace FiberGateway.Event

open Function Option

open TimerQueue (Node Member)

variable {α : Type} [DecidableEq α] {T : Type} [LinearOrder T]

/-- Which timers are armed, and for when. -/
abbrev Armed (α T : Type) : Type := α → Option T

namespace Armed

def none : Armed α T := fun _ => Option.none

/-- None: a timer that is armed may not be armed again. -/
def act (armed : Armed α T) : TimerAction α T → Option (Armed α T)
  | .arm timer when => if armed timer = Option.none then some (update armed timer (some when)) else Option.none
  | .cancel timer => some (update armed timer Option.none)

/-- A timer that no other is earlier than. -/
def Least (armed : Armed α T) (timer : α) (when : T) : Prop :=
  armed timer = some when ∧ ∀ other when', armed other = some when' → when ≤ when'

/-- What may happen at a time: anything is armed or cancelled, and one of the earliest timers fires if it is due. -/
inductive Step (now : T) (armed : Armed α T) : TimerEvent α T → Armed α T → Prop
  | action {action : TimerAction α T} {armed' : Armed α T} (done : armed.act action = some armed') :
    Step now armed (.action action) armed'
  | fire {timer : α} {when : T} (least : armed.Least timer when) (due : when ≤ now) :
    Step now armed (.fire timer) (update armed timer Option.none)

inductive Run (now : T) : Armed α T → List (TimerEvent α T) → Armed α T → Prop
  | nil (armed : Armed α T) : Run now armed [] armed
  | cons {armed armed' armed'' : Armed α T} {event : TimerEvent α T} {events : List (TimerEvent α T)}
    (step : Step now armed event armed') (rest : Run now armed' events armed'') : Run now armed (event :: events) armed''

variable {now : T} {armed armed' armed'' : Armed α T}

theorem Run.append {events events' : List (TimerEvent α T)}
    (first : Run now armed events armed') (second : Run now armed' events' armed'') :
    Run now armed (events ++ events') armed'' := by
  induction first with
  | nil => exact second
  | cons step _ ih => exact .cons step (ih second)

theorem run_actions {actions : List (TimerAction α T)} (done : actions.foldlM act armed = some armed') :
    Run now armed (actions.map .action) armed' := by
  induction actions generalizing armed with
  | nil =>
    cases done
    exact .nil _
  | cons action rest ih =>
    rw [List.foldlM_cons, bind_eq_bind, bind_eq_some_iff] at done
    obtain ⟨armed₁, step, rest⟩ := done
    exact .cons (.action step) (ih rest)

end Armed

namespace Timers

variable {t t' : Timers α T} {armed armed' : Armed α T} {timer a : α} {when now : T}

/-- The heap is made of the armed timers. -/
structure Serves (t : Timers α T) (armed : Armed α T) (view : Nat → α) : Prop where
  heap : t.queue.Heap t.deadline view
  members : ∀ a, Member t.queue.count view a ↔ armed a ≠ none
  deadlines : ∀ a when, armed a = some when → t.deadline a = when
  flags : ∀ a, t.inHeap a = (armed a).isSome

omit [DecidableEq α] in
theorem init_serves (nodes : α → Node α) (deadline : α → T) (view : Nat → α) :
    (init nodes deadline).Serves Armed.none view := by
  have empty {i : Nat} (last : i ≤ (init nodes deadline).queue.count) : i = 0 := Nat.le_zero.mp last
  refine ⟨⟨⟨?_, rfl, ?_⟩, ?_⟩, ?_, ?_, ?_⟩
  · intro i j first last
    have := empty last
    omega
  · intro i first last
    have := empty last
    omega
  · intro i two last
    have := empty last
    omega
  · intro a
    constructor
    · rintro ⟨i, first, last, -⟩
      have := empty last
      omega
    · intro armed
      exact absurd rfl armed
  · intro a when armed
    cases armed
  · intro a
    rfl

namespace Serves

variable {view : Nat → α}

theorem postAt (serves : t.Serves armed view) (free : armed timer = none) (when : T) :
    ∃ t' view', t.postAt when timer = .ok t' ∧ t'.Serves (update armed timer (some when)) view' := by
  have fresh : ¬ Member t.queue.count view timer := fun member => (serves.members timer).mp member free
  have heap : t.queue.Heap (update t.deadline timer when) view := by
    refine serves.heap.congr fun a member => update_of_ne ?_ _ _
    rintro rfl
    exact fresh member
  obtain ⟨queue, view', inserted, heap', members⟩ := heap.insert fresh
  have flag : t.inHeap timer = false := by
    rw [serves.flags, free]
    rfl
  refine ⟨⟨queue, update t.deadline timer when, update t.inHeap timer true⟩, view', ?_, heap', ?_, ?_, ?_⟩
  · unfold Timers.postAt
    dsimp only
    rw [flag, inserted]
    rfl
  · intro a
    rw [members a, serves.members a]
    by_cases here : a = timer
    · rw [here, update_self]
      simp
    · rw [update_of_ne here]
      simp [here]
  · intro a when' set
    dsimp only
    by_cases here : a = timer
    · rw [here, update_self] at set ⊢
      exact Option.some.inj set
    · rw [update_of_ne here] at set ⊢
      exact serves.deadlines a when' set
  · intro a
    dsimp only
    by_cases here : a = timer
    · rw [here, update_self, update_self]
      rfl
    · rw [update_of_ne here, update_of_ne here]
      exact serves.flags a

theorem take (serves : t.Serves armed view) (set : armed timer ≠ none) :
    ∃ t' view', t.take timer = .ok t' ∧ t'.Serves (update armed timer none) view' := by
  obtain ⟨queue, view', removed, heap, members⟩ := serves.heap.remove ((serves.members timer).mpr set)
  refine ⟨⟨queue, t.deadline, update t.inHeap timer false⟩, view', ?_, heap, ?_, ?_, ?_⟩
  · rw [Timers.take, removed]
    rfl
  · intro a
    rw [members a, serves.members a]
    by_cases here : a = timer
    · rw [here, update_self]
      simp
    · rw [update_of_ne here]
      simp [here]
  · intro a when set
    by_cases here : a = timer
    · rw [here, update_self] at set
      cases set
    · rw [update_of_ne here] at set
      exact serves.deadlines a when set
  · intro a
    dsimp only
    by_cases here : a = timer
    · rw [here, update_self, update_self]
      rfl
    · rw [update_of_ne here, update_of_ne here]
      exact serves.flags a

theorem cancel (serves : t.Serves armed view) (timer : α) :
    ∃ t' view', t.cancel timer = .ok t' ∧ t'.Serves (update armed timer none) view' := by
  rw [Timers.cancel, serves.flags]
  cases held : armed timer with
  | none =>
    have same : update armed timer none = armed := by
      rw [← held]
      exact update_eq_self timer armed
    rw [same]
    exact ⟨t, view, rfl, serves⟩
  | some when => exact serves.take (by simp [held])

/-- A step of the table is one of the heap, and the assertion fails where the table has no step. -/
theorem act (serves : t.Serves armed view) (action : TimerAction α T) :
    match armed.act action with
    | none => t.act action = .error .assertion
    | some armed' => ∃ t' view', t.act action = .ok t' ∧ t'.Serves armed' view' := by
  cases action with
  | arm timer when =>
    unfold Armed.act
    dsimp only
    by_cases free : armed timer = none
    · rw [if_pos free]
      exact serves.postAt free when
    · have flag : t.inHeap timer = true := by
        rw [serves.flags]
        exact isSome_iff_ne_none.mpr free
      rw [if_neg free]
      dsimp only
      rw [Timers.act, Timers.postAt, if_pos flag]
  | cancel timer => exact serves.cancel timer

theorem actAll (serves : t.Serves armed view) (actions : List (TimerAction α T)) :
    match actions.foldlM Armed.act armed with
    | none => t.actAll actions = .error .assertion
    | some armed' => ∃ t' view', t.actAll actions = .ok t' ∧ t'.Serves armed' view' := by
  induction actions generalizing t armed view with
  | nil => exact ⟨t, view, rfl, serves⟩
  | cons action rest ih =>
    have step := serves.act action
    rw [List.foldlM_cons, bind_eq_bind, Timers.actAll]
    cases acted : armed.act action with
    | none =>
      rw [acted] at step
      dsimp only at step
      rw [step]
      rfl
    | some armed' =>
      rw [acted] at step
      obtain ⟨t', view', done, serves'⟩ := step
      rw [done]
      exact ih serves'

omit [DecidableEq α] in
theorem min_none (serves : t.Serves armed view) (empty : t.queue.min = none) (a : α) : armed a = none := by
  by_contra set
  obtain ⟨i, first, last, -⟩ := (serves.members a).mpr set
  rw [serves.heap.root, TimerQueue.spot_of_le (first.trans last)] at empty
  cases empty

omit [DecidableEq α] in
theorem min_least (serves : t.Serves armed view) (root : t.queue.min = some a) :
    armed.Least a (t.deadline a) := by
  have top := serves.heap.root
  by_cases empty : t.queue.count = 0
  · rw [root, empty] at top
    cases top
  rw [root, TimerQueue.spot_of_le (by omega)] at top
  have here : view 1 = a := (Option.some.inj top).symm
  constructor
  · cases held : armed a with
    | none => exact absurd held ((serves.members a).mp ⟨1, le_refl 1, by omega, here⟩)
    | some when => rw [serves.deadlines a when held]
  · intro other when set
    obtain ⟨i, first, last, there⟩ := (serves.members other).mpr (by simp [set])
    have least := serves.heap.ordered.least first last
    rw [Function.comp_apply, Function.comp_apply, here, there, serves.deadlines other when set] at least
    exact least

theorem runDueTimers (serves : t.Serves armed view) (callbacks : List (TimerEvent α T) → List (TimerAction α T)) (now : T)
    (fuel : Nat) (events : List (TimerEvent α T)) :
    ∃ progress t' more armed' view', t.runDueTimers callbacks now fuel events = (progress, t', events ++ more) ∧
      Armed.Run now armed more armed' ∧ t'.Serves armed' view' ∧
      (progress = .returned → ∀ timer when, armed' timer = some when → now < when) ∧
      (∀ fault, progress = .failed fault →
        fault = .assertion ∧ (callbacks (events ++ more)).foldlM Armed.act armed' = none) := by
  induction fuel generalizing t armed view events with
  | zero => exact ⟨.working, t, [], armed, view, by simp [Timers.runDueTimers], .nil armed, serves, by simp, by simp⟩
  | succ fuel ih =>
    rw [Timers.runDueTimers]
    cases root : t.queue.min with
    | none =>
      refine ⟨.returned, t, [], armed, view, by simp, .nil armed, serves, fun _ timer when set => ?_, by simp⟩
      rw [serves.min_none root timer] at set
      cases set
    | some entry =>
      have least := serves.min_least root
      dsimp only
      by_cases late : now < t.deadline entry
      · rw [if_pos late]
        exact ⟨.returned, t, [], armed, view, by simp, .nil armed, serves,
          fun _ timer when set => late.trans_le (least.2 timer when set), by simp⟩
      obtain ⟨t₁, view₁, taken, serves₁⟩ := serves.take (by simp [least.1] : armed entry ≠ none)
      have fired : Armed.Step now armed (.fire entry) (update armed entry none) := .fire least (not_lt.mp late)
      rw [if_neg late, taken]
      dsimp only
      have acted := serves₁.actAll (callbacks (events ++ [.fire entry]))
      cases table : (callbacks (events ++ [.fire entry])).foldlM Armed.act (update armed entry none) with
      | none =>
        rw [table] at acted
        dsimp only at acted
        rw [acted]
        refine ⟨.failed .assertion, t₁, [.fire entry], _, view₁, rfl, .cons fired (.nil _), serves₁, by simp, ?_⟩
        intro fault same
        exact ⟨(Progress.failed.inj same).symm, table⟩
      | some armed₂ =>
        rw [table] at acted
        obtain ⟨t₂, view₂, done, serves₂⟩ := acted
        rw [done]
        dsimp only
        obtain ⟨progress, t', more, armed', view', run, trace, serves', finished, failed⟩ := ih serves₂
          (events ++ [.fire entry] ++ (callbacks (events ++ [.fire entry])).map .action)
        refine ⟨progress, t', [.fire entry] ++ (callbacks (events ++ [.fire entry])).map .action ++ more, armed', view', ?_,
          ?_, serves', finished, ?_⟩
        · rw [run]
          simp
        · exact ((Armed.Run.cons fired (.nil _)).append (Armed.run_actions table)).append trace
        · simpa using failed

end Serves

/-- Whatever is armed and cancelled before, the heap is a complete tree of the armed timers in heap order; then, whatever
the callbacks do, only due timers fire, of those that are armed the earliest first, and the call returns with none left that
is due. It fails only where a callback arms a timer that is armed. -/
theorem armed_runDueTimers [Inhabited α] (nodes : α → Node α) (deadline : α → T) {before : List (TimerAction α T)}
    {armed : Armed α T} (legal : before.foldlM Armed.act Armed.none = some armed)
    (callbacks : List (TimerEvent α T) → List (TimerAction α T)) (now : T) (fuel : Nat) :
    ∃ t view, (init nodes deadline).actAll before = .ok t ∧ t.Serves armed view ∧
      (∀ timer, t.queue.min = some timer → armed.Least timer (t.deadline timer)) ∧
      (t.queue.min = none → ∀ timer, armed timer = none) ∧
      ∃ progress t' events armed' view', t.runDueTimers callbacks now fuel [] = (progress, t', events) ∧
        Armed.Run now armed events armed' ∧ t'.Serves armed' view' ∧
        (progress = .returned → ∀ timer when, armed' timer = some when → now < when) ∧
        (∀ fault, progress = .failed fault →
          fault = .assertion ∧ (callbacks events).foldlM Armed.act armed' = none) := by
  have built := (init_serves nodes deadline fun _ => default).actAll before
  rw [legal] at built
  obtain ⟨t, view, done, serves⟩ := built
  obtain ⟨progress, t', events, armed', view', run, trace, serves', finished, failed⟩ :=
    serves.runDueTimers callbacks now fuel []
  exact ⟨t, view, done, serves, fun timer => serves.min_least, serves.min_none, progress, t', events, armed', view', run, trace,
    serves', finished, failed⟩

/-- Three timers, one of which is cancelled; the callback of the first that fires arms it again. -/
theorem threeTimers_runDueTimers :
    ∃ t view, (init (fun _ => {}) fun _ => 0 : Timers Nat Nat).actAll [.arm 1 5, .arm 2 3, .arm 3 4, .cancel 1] = .ok t ∧
      t.Serves (update (update (update (update Armed.none 1 (some 5)) 2 (some 3))
        3 (some 4)) 1 none) view ∧
      ∃ progress t' events, t.runDueTimers (fun events => if events.length = 1 then [.arm 2 9] else []) 7 4 [] =
          (progress, t', events) ∧ ∀ fault, progress = .failed fault → fault = .assertion := by
  have legal : ([.arm 1 5, .arm 2 3, .arm 3 4, .cancel 1] : List (TimerAction Nat Nat)).foldlM Armed.act Armed.none =
      some _ := rfl
  obtain ⟨t, view, done, serves, -, -, progress, t', events, armed', view', run, -, -, -, failed⟩ :=
    armed_runDueTimers (fun _ => {}) (fun _ => 0) legal (fun events => if events.length = 1 then [.arm 2 9] else []) 7 4
  exact ⟨t, view, done, serves, progress, t', events, run, fun fault same => (failed fault same).1⟩

end Timers

end FiberGateway.Event
