import FiberGateway.Async.MutexRuns
import FiberGateway.Async.WaitGroup

namespace FiberGateway.Async

open List Function Option

namespace WaitGroup

variable {g : WaitGroup} {q : List Nat} {chains : List (List Nat)} {waiters : Nat → Option Waiter} {w : Nat} {data : Waiter}

/-- The group as its surroundings see it: the queue in its order, what calls of `done` took out of it, and what is known of
each waiter. -/
structure View (g : WaitGroup) (q : List Nat) (chains : List (List Nat)) (waiters : Nat → Option Waiter) : Prop where
  holds : g.waiters.Holds q
  chained : ∀ chain ∈ chains, g.waiters.Chain chain
  data : g.waiters.data = waiters

namespace View

section

variable (view : g.View q chains waiters)

include view

theorem modifyWaiter (there : waiters w = some data) (f : Waiter → Waiter) :
    ∃ g', g.modifyWaiter w f = some g' ∧ g'.View q chains (update waiters w (some (f data))) ∧
      g'.count = g.count := by
  rw [← view.data] at there
  obtain ⟨queue, done, holds, kept⟩ := view.holds.modifyData (f := f) there
  have next := LinkedQueue.Queue.modifyData_next done
  refine ⟨{ g with waiters := queue }, ?_, ⟨holds, ?_, ?_⟩, rfl⟩
  · rw [WaitGroup.modifyWaiter, done]
    rfl
  · exact fun chain member => (view.chained chain member).congr fun other _ => next other
  · rw [← view.data]
    exact kept

/-- The last call of `done` takes all waiters out of the queue. -/
theorem done (one : g.count = 1) {fuel : Nat} (enough : q.length ≤ fuel) :
    ∃ g', g.done fuel = some (q.head?, g') ∧ g'.count = 0 ∧ g'.View [] (chains ++ [q]) fun v =>
      if v ∈ q then (waiters v).map fun waiter => { waiter with queued := false, state := .notified } else waiters v := by
  obtain ⟨queue, detached, holds, chain, next, kept⟩ := view.holds.detach
    (fun waiter => { waiter with queued := false, state := .notified }) enough
  refine ⟨{ g with count := 0, waiters := queue }, ?_, rfl, holds, ?_, ?_⟩
  · simp only [WaitGroup.done, one, detached, bind_eq_bind, bind_some]
    rfl
  · intro other member
    rcases mem_append.mp member with member | member
    · exact (view.chained other member).congr fun id _ => next id
    · rw [mem_singleton.mp member]
      exact chain
  · rw [← view.data]
    exact kept

theorem done_more (more : 1 < g.count) (fuel : Nat) :
    ∃ g', g.done fuel = some (none, g') ∧ g'.count = g.count - 1 ∧ g'.View q (chains ++ [[]]) waiters := by
  refine ⟨{ g with count := g.count - 1 }, ?_, rfl, view.holds, ?_, view.data⟩
  · rw [WaitGroup.done, if_neg (by omega), if_pos (by omega)]
  · intro chain member
    rcases mem_append.mp member with member | member
    · exact view.chained chain member
    · rw [mem_singleton.mp member]
      trivial

theorem enqueue (more : g.count ≠ 0) (there : waiters w = some data) (new : w ∉ q)
    (apart : ∀ chain ∈ chains, ∀ v ∈ chain, v ∉ q ∧ v ≠ w) :
    ∃ g', g.enqueueWaiter w = some (true, g') ∧ g'.count = g.count ∧
      g'.View (q ++ [w]) chains (update waiters w (some { data with queued := true })) := by
  obtain ⟨node, found, -⟩ := map_eq_some_iff.mp ((congrFun view.data w).trans there)
  obtain ⟨queue, pushed, holds, kept⟩ := view.holds.pushBack found new
  have linked : View { g with waiters := queue } (q ++ [w]) chains waiters := by
    refine ⟨holds, fun chain member => (view.chained chain member).congr fun v inside => ?_, kept.trans view.data⟩
    rw [view.holds.pushBack_frame pushed (apart chain member v inside).1 (apart chain member v inside).2]
  obtain ⟨g', done, view', count⟩ := linked.modifyWaiter there fun waiter => { waiter with queued := true }
  refine ⟨g', ?_, count, view'⟩
  unfold WaitGroup.enqueueWaiter
  rw [if_neg more]
  simp only [pushed, done, bind_eq_bind, bind_some]
  rfl

end

theorem cancel_waiting {xs ys : List Nat} (view : g.View (xs ++ w :: ys) chains waiters) (there : waiters w = some data)
    (waits : data.state = .waiting) (queued : data.queued = true)
    (apart : ∀ chain ∈ chains, ∀ v ∈ chain, v ∉ xs ++ w :: ys) :
    ∃ g', g.cancelWaiter w = some (true, g') ∧ g'.count = g.count ∧ g'.View (xs ++ ys) chains
      (update waiters w (some { data with queued := false, state := .canceled, handle := false })) := by
  obtain ⟨queue, unlinked, holds, kept⟩ := view.holds.unlink
  have taken : View { g with waiters := queue } (xs ++ ys) chains waiters := by
    refine ⟨holds, fun chain member => (view.chained chain member).congr fun v inside => ?_, kept.trans view.data⟩
    rw [view.holds.unlink_frame unlinked (apart chain member v inside)]
  obtain ⟨g₁, done₁, view₁, count₁⟩ := taken.modifyWaiter there fun waiter => { waiter with queued := false }
  obtain ⟨g₂, done₂, view₂, count₂⟩ := view₁.modifyWaiter (update_self ..)
    fun waiter => { waiter with state := .canceled, handle := false }
  rw [update_idem] at view₂
  refine ⟨g₂, ?_, count₂.trans count₁, view₂⟩
  rw [← view.data] at there
  simp only [cancelWaiter, there, bind_eq_bind, bind_some, waits, queued, if_true, unlinked, done₁, done₂]
  rfl

theorem cancel_notified (view : g.View q chains waiters) (there : waiters w = some data) (next : data.state = .notified) :
    ∃ g', g.cancelWaiter w = some (false, g') ∧ g'.count = g.count ∧
      g'.View q chains (update waiters w (some { data with state := .canceled, handle := false })) := by
  obtain ⟨g₁, done₁, view₁, count₁⟩ :=
    view.modifyWaiter there fun waiter => { waiter with state := .canceled, handle := false }
  refine ⟨g₁, ?_, count₁, view₁⟩
  rw [← view.data] at there
  simp only [cancelWaiter, there, bind_eq_bind, bind_some, next, done₁]
  rfl

theorem resume (view : g.View q chains waiters) (there : waiters w = some data) :
    ∃ g', g.resume w = some (data.state = .notified && data.handle, g') ∧ g'.count = g.count ∧
      g'.View q chains (if data.state = .notified then
        update waiters w (some { data with state := .resumed, handle := false }) else waiters) := by
  obtain ⟨g₁, done₁, view₁, count₁⟩ :=
    view.modifyWaiter there fun waiter => { waiter with state := .resumed, handle := false }
  rw [← view.data] at there
  by_cases next : data.state = .notified
  · refine ⟨g₁, ?_, count₁, by rw [if_pos next]; exact view₁⟩
    simp only [WaitGroup.resume, there, bind_eq_bind, bind_some, next, if_true, done₁]
    simp
  · refine ⟨g, ?_, rfl, by rw [if_neg next]; exact view⟩
    simp only [WaitGroup.resume, there, bind_eq_bind, bind_some, next, if_false]
    simp

/-- A waiter that is linked nowhere is allocated or deleted. -/
theorem set (view : g.View q chains waiters) (new : w ∉ q) (apart : ∀ chain ∈ chains, w ∉ chain)
    (node : Option (LinkedQueue.Node Waiter)) :
    { g with waiters := { g.waiters with heap := update g.waiters.heap w node } }.View q chains
      (update waiters w (node.map LinkedQueue.Node.data)) := by
  obtain ⟨holds, kept⟩ := view.holds.set new node
  refine ⟨holds, fun chain member => (view.chained chain member).congr fun v inside => ?_, ?_⟩
  · have other : v ≠ w := fun same => apart chain member (same ▸ inside)
    dsimp only
    rw [update_of_ne other]
  · rw [← view.data]
    exact kept

end View

/-- What a joiner may expect. It is `wrong` to resume one that is not owed it, or to do anything with it afterwards. -/
inductive Fate
  | absent | waits | owed | canceled | resumed | wrong
  deriving DecidableEq, Repr

namespace Fate

def after (w : Nat) (fate : Fate) : Fact → Fate
  | .passed _ => fate
  | .zero => if fate = .waits then .owed else fate
  | .enqueued v => if v = w then (if fate = .absent then .waits else .wrong) else fate
  | .canceled v => if v = w then (if fate = .waits ∨ fate = .owed then .canceled else .wrong) else fate
  | .resumed v => if v = w then (if fate = .owed then .resumed else .wrong) else fate

/-- The fate of a joiner, from what has happened so far. -/
def of (history : List Fact) (w : Nat) : Fate := history.foldl (after w) .absent

@[grind =]
theorem of_snoc (history : List Fact) (fact : Fact) (w : Nat) :
    of (history ++ [fact]) w = (of history w).after w fact := by
  simp [of]

/-- Neither absent nor waiting any more. -/
def Past (fate : Fate) : Prop := fate ≠ .absent ∧ fate ≠ .waits

variable {fate : Fate} {w : Nat} {history : List Fact}

theorem Past.after (past : fate.Past) (w : Nat) (fact : Fact) : (fate.after w fact).Past := by
  obtain ⟨left, right⟩ := past
  cases fact <;> simp only [Fate.after, Past] <;> grind

theorem Past.foldl (past : fate.Past) (w : Nat) (facts : List Fact) : (facts.foldl (Fate.after w) fate).Past := by
  induction facts generalizing fate with
  | nil => exact past
  | cons fact rest ih => exact ih (past.after w fact)

theorem after_ne_absent (born : fate ≠ .absent) (w : Nat) (fact : Fact) : fate.after w fact ≠ .absent := by
  cases fact <;> simp only [Fate.after] <;> grind

theorem past_of_zero (born : fate ≠ .absent) (w : Nat) {facts : List Fact} (zero : .zero ∈ facts) :
    (facts.foldl (Fate.after w) fate).Past := by
  induction facts generalizing fate with
  | nil => cases zero
  | cons fact rest ih =>
    rcases mem_cons.mp zero with rfl | later
    · refine Past.foldl ?_ w rest
      simp only [Fate.after, Past]
      grind
    · exact ih (after_ne_absent born w fact) later

theorem of_enqueued {before after : List Fact} (zero : .zero ∈ after) :
    (of (before ++ .enqueued w :: after) w).Past := by
  have born : (of before w).after w (.enqueued w) ≠ .absent := by
    simp only [Fate.after]
    grind
  rw [of, foldl_append, foldl_cons]
  exact past_of_zero born w zero

/-- What has happened to a joiner that came to its fate. -/
def Story (history : List Fact) (w : Nat) : Fate → Prop
  | .absent => .canceled w ∉ history ∧ .resumed w ∉ history
  | .waits => (∃ a b, history = a ++ .enqueued w :: b) ∧ .canceled w ∉ history ∧ .resumed w ∉ history
  | .owed => (∃ a b c, history = a ++ .enqueued w :: b ++ .zero :: c) ∧ .canceled w ∉ history ∧ .resumed w ∉ history
  | .canceled => .canceled w ∈ history ∧ .resumed w ∉ history
  | .resumed => (∃ a b c d, history = a ++ .enqueued w :: b ++ .zero :: c ++ .resumed w :: d) ∧ .canceled w ∉ history ∧
      history.count (.resumed w) = 1
  | .wrong => True

theorem Story.keep (story : Story history w fate) {fact : Fact} (apart : fact ≠ .canceled w)
    (apart' : fact ≠ .resumed w) : Story (history ++ [fact]) w fate := by
  have cancels : .canceled w ∈ history ++ [fact] ↔ .canceled w ∈ history := by simp [apart.symm]
  have resumes : .resumed w ∈ history ++ [fact] ↔ .resumed w ∈ history := by simp [apart'.symm]
  cases fate with
  | absent => exact ⟨cancels.not.mpr story.1, resumes.not.mpr story.2⟩
  | waits =>
    obtain ⟨⟨a, b, rfl⟩, rest⟩ := story
    exact ⟨⟨a, b ++ [fact], by simp⟩, cancels.not.mpr rest.1, resumes.not.mpr rest.2⟩
  | owed =>
    obtain ⟨⟨a, b, c, rfl⟩, rest⟩ := story
    exact ⟨⟨a, b, c ++ [fact], by simp⟩, cancels.not.mpr rest.1, resumes.not.mpr rest.2⟩
  | canceled => exact ⟨cancels.mpr story.1, resumes.not.mpr story.2⟩
  | resumed =>
    obtain ⟨⟨a, b, c, d, rfl⟩, rest⟩ := story
    refine ⟨⟨a, b, c, d ++ [fact], by simp⟩, cancels.not.mpr rest.1, ?_⟩
    rw [count_append, rest.2, count_singleton, if_neg (by simpa using apart')]
  | wrong => trivial

theorem Story.snoc (story : Story history w fate) (fact : Fact) :
    Story (history ++ [fact]) w (fate.after w fact) := by
  cases fact with
  | passed count => exact story.keep nofun nofun
  | zero =>
    rw [Fate.after]
    split
    · rename_i waits
      subst waits
      obtain ⟨⟨a, b, rfl⟩, rest⟩ := story
      exact ⟨⟨a, b, [], by simp⟩, by simpa using rest.1, by simpa using rest.2⟩
    · exact story.keep nofun nofun
  | enqueued v =>
    rw [Fate.after]
    split
    · rename_i same
      subst same
      split
      · rename_i absent
        subst absent
        exact ⟨⟨history, [], rfl⟩, by simp [story.1], by simp [story.2]⟩
      · trivial
    · exact story.keep nofun nofun
  | canceled v =>
    rw [Fate.after]
    split
    · rename_i same
      subst same
      split
      · rename_i before
        have unresumed : .resumed v ∉ history := by
          rcases before with rfl | rfl
          · exact story.2.2
          · exact story.2.2
        exact ⟨by simp, by simp [unresumed]⟩
      · trivial
    · rename_i other
      exact story.keep (by simp [other]) nofun
  | resumed v =>
    rw [Fate.after]
    split
    · rename_i same
      subst same
      split
      · rename_i owed
        subst owed
        obtain ⟨⟨a, b, c, rfl⟩, rest⟩ := story
        refine ⟨⟨a, b, c, [], by simp⟩, by simpa using rest.1, ?_⟩
        rw [count_append, count_eq_zero.mpr rest.2, count_singleton_self]
      · trivial
    · rename_i other
      exact story.keep nofun (by simp [other])

theorem story (history : List Fact) (w : Nat) : Story history w (of history w) := by
  induction history using List.reverseRecOn with
  | nil => exact ⟨by simp, by simp⟩
  | append_singleton history fact ih =>
    rw [of_snoc]
    exact ih.snoc fact

end Fate

namespace System

/-- The waiters that calls of `done` have still to post. -/
def unposted (posts : List (Option Nat × List Nat)) : List Nat := posts.flatMap fun post => post.1.toList ++ post.2

/-- The queue holds the waiters in state `waiting`; every other waiter has one task left, after which it is deleted. -/
structure Inv (s : System) (q : List Nat) (posts : List (Option Nat × List Nat)) (waiters : Nat → Option Waiter) :
    Prop where
  view : s.group.View q (posts.map (·.2)) waiters
  calls : s.calls = posts.map fun post => ⟨post.2.head?, post.1⟩
  fresh : ∀ w, s.created ≤ w → waiters w = none ∧ Fate.of s.history w = .absent
  waiting : ∀ w, w ∈ q ↔ stateAt waiters w = some .waiting
  queued : ∀ w data, waiters w = some data → data.state = .waiting → data.queued = true
  handles : ∀ w data, waiters w = some data → data.state = .waiting ∨ data.state = .notified → data.handle = true
  awaits : ∀ w, w ∈ s.awaiting ↔ stateAt waiters w = some .waiting ∨ stateAt waiters w = some .notified
  awaitsOnce : s.awaiting.Nodup
  tasks : (unposted posts ++ s.posted ++ s.deleting).Nodup
  tasked : ∀ w, w ∈ unposted posts ++ s.posted ++ s.deleting ↔
    stateAt waiters w ≠ none ∧ stateAt waiters w ≠ some .waiting
  coming : ∀ w, stateAt waiters w = some .notified → w ∉ s.deleting
  idle : s.group.count = 0 → q = []
  fates : ∀ w, (Fate.of s.history w = .waits ↔ stateAt waiters w = some .waiting) ∧
    (Fate.of s.history w = .owed ↔ stateAt waiters w = some .notified) ∧ Fate.of s.history w ≠ .wrong
  passes : ∀ count, .passed count ∈ s.history → count = 0
  gone : s.deleted.Nodup ∧ ∀ w, w ∈ s.deleted ↔ w < s.created ∧ waiters w = none

attribute [grind cases eager] Inv

attribute [grind =] Fate.after

def Sound (s : System) : Prop := ∃ q posts waiters, Inv s q posts waiters

variable {s : System} {posts : List (Option Nat × List Nat)} {thread : Nat}

theorem Inv.init : Inv {} [] [] (fun _ => none) := by
  refine ⟨⟨⟨nodup_nil, rfl, rfl, trivial⟩, nofun, rfl⟩, rfl, fun _ _ => ⟨rfl, rfl⟩, ?_, nofun, nofun, ?_, nodup_nil,
    nodup_nil, ?_, nofun, fun _ => rfl, ?_, nofun, nodup_nil, ?_⟩
  all_goals simp [stateAt, unposted, Fate.of]

/-- A waiter that has something left to do is not deleted yet. -/
theorem Inv.live (inv : Inv s q posts waiters) (task : w ∈ unposted posts ++ s.posted ++ s.deleting) :
    ∃ data, waiters w = some data ∧ data.state ≠ .waiting := by
  obtain ⟨alive, active⟩ := (inv.tasked w).mp task
  obtain ⟨state, at_state⟩ := ne_none_iff_exists'.mp alive
  obtain ⟨data, there, same⟩ := stateAt_some at_state
  exact ⟨data, there, fun waits => active (by rw [at_state, ← same, waits])⟩

theorem mem_unposted {chain : List Nat} (member : chain ∈ posts.map (·.2)) (inside : w ∈ chain) : w ∈ unposted posts := by
  obtain ⟨post, there, rfl⟩ := mem_map.mp member
  exact mem_flatMap.mpr ⟨post, there, mem_append_right _ inside⟩

section

variable (inv : Inv s q posts waiters)

include inv

theorem Inv.apart {chain : List Nat} (member : chain ∈ posts.map (·.2)) (inside : w ∈ chain) :
    w ∉ q ∧ stateAt waiters w ≠ none := by
  have task := mem_unposted member inside
  obtain ⟨alive, active⟩ := (inv.tasked w).mp (by simp [task])
  exact ⟨fun queued => active ((inv.waiting w).mp queued), alive⟩

theorem Inv.add {n : Nat} (enabled : s.Enabled (.add n)) : ∃ s', s.add n = some s' ∧ s'.Sound := by
  have room := enabled.2
  by_cases none : n = 0
  · exact ⟨s, by simp [System.add, WaitGroup.add, none], q, posts, waiters, inv⟩
  · refine ⟨{ s with group := { s.group with count := s.group.count + n } }, ?_, q, posts, waiters, { inv with
      view := ⟨inv.view.holds, inv.view.chained, inv.view.data⟩
      idle := fun zero => ?_ }⟩
    · simp [System.add, WaitGroup.add, none, room]
    · dsimp only at zero
      omega

theorem Inv.join (thread : Nat) : Inv (s.join thread) q posts waiters := by
  unfold System.join
  split
  · rename_i zero
    refine { inv with fresh := ?_, fates := ?_, passes := ?_ }
    all_goals grind
  · exact { inv with }

theorem Inv.call {call : Nat} {posting : Posting} (found : s.calls[call]? = some posting) :
    ∃ before chain after, posts = before ++ (posting.current, chain) :: after ∧ posting.head = chain.head? ∧
      ∀ next : Option Nat × List Nat, s.calls.set call ⟨next.2.head?, next.1⟩ =
        (before ++ next :: after).map fun post => ⟨post.2.head?, post.1⟩ := by
  rw [inv.calls, List.getElem?_map, map_eq_some_iff] at found
  obtain ⟨⟨current, chain⟩, found, rfl⟩ := found
  obtain ⟨inside, here⟩ := List.getElem?_eq_some_iff.mp found
  refine ⟨posts.take call, chain, posts.drop (call + 1), ?_, rfl, fun next => ?_⟩
  · rw [← here, getElem_cons_drop, take_append_drop]
  · have set : posts.set call next = posts.take call ++ next :: posts.drop (call + 1) := by
      rw [set_eq_take_append_cons_drop, if_pos inside]
    rw [← set, inv.calls, map_set]

end

theorem unposted_append (before after : List (Option Nat × List Nat)) (post : Option Nat × List Nat) :
    unposted (before ++ post :: after) = unposted before ++ (post.1.toList ++ post.2) ++ unposted after := by
  simp [unposted]

section

variable (inv : Inv s q posts waiters)

include inv

theorem Inv.post {call : Nat} (enabled : s.Enabled (.post call)) :
    ∃ s', s.post call = some s' ∧ s'.Sound := by
  change s.calls[call]?.any _ = true at enabled
  cases found : s.calls[call]? with
  | none => simp [found] at enabled
  | some posting =>
    obtain ⟨head, current⟩ := posting
    rw [found] at enabled
    obtain ⟨w, rfl⟩ := isSome_iff_exists.mp enabled
    obtain ⟨before, chain, after, rfl, here, set⟩ := inv.call found
    have task : w ∈ unposted (before ++ (some w, chain) :: after) ++ s.posted ++ s.deleting := by
      simp [unposted_append]
    obtain ⟨data, there, -⟩ := inv.live task
    rw [← inv.view.data] at there
    have moved : (unposted (before ++ (none, chain) :: after) ++ (s.posted ++ [w]) ++ s.deleting).Perm
        (unposted (before ++ (some w, chain) :: after) ++ s.posted ++ s.deleting) := by
      refine List.Perm.append_right _ ?_
      rw [unposted_append, unposted_append, ← append_assoc]
      refine (perm_append_singleton _ _).trans ?_
      simp only [Option.toList, nil_append, append_assoc, cons_append]
      exact perm_middle.symm
    refine ⟨{ s with
      calls := s.calls.set call ⟨head, none⟩
      posted := s.posted ++ [w] }, by simp [System.post, found, there], q, before ++ (none, chain) :: after, waiters, { inv with
        view := ?_
        calls := ?_
        tasks := moved.nodup_iff.mpr inv.tasks
        tasked := fun v => moved.mem_iff.trans (inv.tasked v) }⟩
    · have view := inv.view
      simp only [map_append, map_cons] at view ⊢
      exact view
    · dsimp only at here ⊢
      rw [here]
      exact set (none, chain)

theorem Inv.take {call : Nat} (enabled : s.Enabled (.take call)) :
    ∃ s', s.take call = some s' ∧ s'.Sound := by
  change s.calls[call]?.any _ = true at enabled
  cases found : s.calls[call]? with
  | none => simp [found] at enabled
  | some posting =>
    obtain ⟨head, current⟩ := posting
    rw [found] at enabled
    obtain ⟨before, chain, after, rfl, here, set⟩ := inv.call found
    dsimp only at here
    subst here
    simp only [any_some, Bool.and_eq_true, isNone_iff_eq_none, isSome_head?] at enabled
    obtain ⟨rfl, some⟩ := enabled
    cases chain with
    | nil => simp at some
    | cons w rest =>
      have same : unposted (before ++ (Option.some w, rest) :: after) = unposted (before ++ (none, w :: rest) :: after) := by
        simp [unposted_append]
      have distinct : (unposted before ++ w :: rest ++ unposted after).Nodup := by
        have all := inv.tasks.of_append_left.of_append_left
        rwa [unposted_append] at all
      have outside : w ∉ q := (inv.apart (by simp) (mem_cons_self : w ∈ w :: rest)).1
      obtain ⟨waiters', taken, first, last, kept, frame⟩ :=
        (inv.view.chained (w :: rest) (by simp)).takeNext
      refine ⟨{ s with
        group := { s.group with waiters := waiters' }
        calls := s.calls.set call ⟨rest.head?, Option.some w⟩ }, by simp [System.take, found, taken], q,
        before ++ (Option.some w, rest) :: after, waiters, { inv with
          view := ?_
          calls := set (Option.some w, rest)
          tasks := by rw [same]; exact inv.tasks
          tasked := fun v => by rw [same]; exact inv.tasked v }⟩
      refine ⟨inv.view.holds.congr first last fun v member => frame v fun equal => outside (equal ▸ member), ?_,
        kept.trans inv.view.data⟩
      intro chain member
      rw [map_append, map_cons, mem_append, mem_cons] at member
      have old : s.group.waiters.Chain chain := by
        rcases member with member | here | member
        · exact inv.view.chained chain (by simp_all)
        · rw [here]
          exact (inv.view.chained (w :: rest) (by simp)).2
        · exact inv.view.chained chain (by simp_all)
      refine old.congr fun v inside => ?_
      rw [frame v]
      rintro rfl
      rcases member with member | rfl | member
      · grind [(mem_unposted member inside)]
      · grind
      · grind [(mem_unposted member inside)]

theorem Inv.delete (enabled : w ∈ s.deleting) :
    ∃ s', s.delete w = some s' ∧ s'.Sound := by
  obtain ⟨data, there, active⟩ := inv.live (w := w) (by simp [enabled])
  have state : stateAt waiters w = some data.state := by simp [stateAt, there]
  have unpassed : data.state ≠ .notified := fun next => inv.coming w (state.trans (by rw [next])) enabled
  have outside : w ∉ q := fun member => active (Option.some.inj (state.symm.trans ((inv.waiting w).mp member)))
  have unlinked : ∀ chain ∈ posts.map (·.2), w ∉ chain := by
    intro chain member inside
    have task := mem_unposted member inside
    have := inv.tasks
    rw [nodup_append] at this
    exact this.2.2 w (mem_append_left _ task) w enabled rfl
  obtain ⟨node, found, -⟩ := map_eq_some_iff.mp ((congrFun inv.view.data w).trans there)
  have view := inv.view.set outside unlinked none
  have looks (v : Nat) : stateAt (update waiters w none) v = if v = w then none else stateAt waiters v :=
    stateAt_update ..
  have known : w < s.created := by
    by_contra later
    rw [(inv.fresh w (by omega)).1] at there
    cases there
  refine ⟨{ s with
    group := { s.group with waiters := { s.group.waiters with heap := update s.group.waiters.heap w none } }
    deleting := s.deleting.erase w
    deleted := s.deleted ++ [w] }, by simp [System.delete, LinkedQueue.Queue.delete, found], q, posts, _, ⟨view, inv.calls, ?_, ?_, ?_, ?_,
    ?_, inv.awaitsOnce, ?_, ?_, ?_, inv.idle, ?_, inv.passes, ?_⟩⟩
  all_goals grind

theorem Inv.suspend : ∃ s', s.suspend thread = some s' ∧ s'.Sound := by
  have absent := (inv.fresh _ le_rfl).1
  have nowhere : stateAt waiters s.created = none := by rw [stateAt, absent]; rfl
  have outside : s.created ∉ q := fun member => by simpa [stateAt, absent] using (inv.waiting _).mp member
  have unlinked : ∀ chain ∈ posts.map (·.2), s.created ∉ chain := fun chain member inside =>
    (inv.apart member inside).2 nowhere
  have view := inv.view.set outside unlinked (some { data := { thread := thread } })
  by_cases zero : s.group.count = 0
  · refine ⟨{ s with
      created := s.created + 1
      suspending := s.suspending.erase thread
      deleted := s.deleted ++ [s.created]
      history := s.history ++ [.passed s.group.count] }, ?_, q, posts, waiters, { inv with
        fresh := ?_
        fates := ?_
        passes := ?_
        gone := ?_ }⟩
    · have gone : s.group.waiters.heap s.created = none := by
        have kept := inv.view.data
        have : s.group.waiters.data s.created = none := by rw [kept, absent]
        simpa [LinkedQueue.Queue.data] using this
      have undone : update s.group.waiters.heap s.created none = s.group.waiters.heap := by
        rw [← gone]
        exact update_eq_self ..
      simp [System.suspend, enqueueWaiter, zero, LinkedQueue.Queue.alloc, LinkedQueue.Queue.delete, undone]
      rw [← zero]
    all_goals grind
  · obtain ⟨g', done, count, view'⟩ := view.enqueue zero (update_self ..) outside fun chain member v inside =>
      ⟨(inv.apart member inside).1, fun same => unlinked chain member (same ▸ inside)⟩
    rw [update_idem] at view'
    have nothing := (inv.fresh s.created le_rfl).2
    refine ⟨{ s with
      group := g'
      created := s.created + 1
      suspending := s.suspending.erase thread
      awaiting := s.awaiting ++ [s.created]
      history := s.history ++ [.enqueued s.created] }, ?_, q ++ [s.created], posts, _, ⟨view', inv.calls, ?_, ?_, ?_, ?_, ?_,
      ?_, inv.tasks, ?_, ?_, fun none => absurd (count.symm.trans none) zero, ?_, ?_, ?_⟩⟩
    · simp only [System.suspend, LinkedQueue.Queue.alloc, done]
      rfl
    all_goals grind

theorem Inv.cancel_waiting (there : waiters w = some data) (waits : data.state = .waiting) :
    ∃ s', s.cancel w = some s' ∧ s'.Sound := by
  have state : stateAt waiters w = some .waiting := by rw [stateAt, there, ← waits]; rfl
  obtain ⟨xs, ys, rfl⟩ := append_of_mem ((inv.waiting w).mpr state)
  obtain ⟨g', done, count, view⟩ := inv.view.cancel_waiting there waits (inv.queued w data there waits)
    fun chain member v inside => (inv.apart member inside).1
  have distinct := inv.view.holds.distinct
  refine ⟨{ s with
    group := g'
    awaiting := s.awaiting.erase w
    deleting := s.deleting ++ [w]
    history := s.history ++ [.canceled w] }, by simp [System.cancel, done], xs ++ ys, posts, _, ⟨view, inv.calls, ?_, ?_, ?_,
    ?_, ?_, ?_, ?tasks, ?_, ?_, ?idle, ?_, ?_, ?_⟩⟩
  case tasks =>
    have := inv.tasks
    have := inv.tasked w
    rw [nodup_append] at *
    grind
  case idle =>
    intro none
    have := inv.idle (count.symm.trans none)
    simp at this
  all_goals grind

/-- The awaiter of a waiter ends before the notification reaches it. -/
theorem Inv.cancel_notified (there : waiters w = some data) (next : data.state = .notified) :
    ∃ s', s.cancel w = some s' ∧ s'.Sound := by
  have state : stateAt waiters w = some .notified := by rw [stateAt, there, ← next]; rfl
  obtain ⟨g', done, count, view⟩ := inv.view.cancel_notified there next
  refine ⟨{ s with
    group := g'
    awaiting := s.awaiting.erase w
    history := s.history ++ [.canceled w] }, by simp [System.cancel, done], q, posts, _, ⟨view, inv.calls, ?_, ?_, ?_, ?_, ?_,
    inv.awaitsOnce.erase w, inv.tasks, ?_, ?_, fun none => inv.idle (count.symm.trans none), ?_, ?_, ?_⟩⟩
  all_goals grind

theorem Inv.cancel (enabled : w ∈ s.awaiting) :
    ∃ s', s.cancel w = some s' ∧ s'.Sound := by
  rcases (inv.awaits w).mp enabled with state | state
  · obtain ⟨data, there, waits⟩ := stateAt_some state
    exact inv.cancel_waiting there waits
  · obtain ⟨data, there, next⟩ := stateAt_some state
    exact inv.cancel_notified there next

theorem Inv.deliver (enabled : w ∈ s.posted) : ∃ s', s.deliver w = some s' ∧ s'.Sound := by
  obtain ⟨data, there, active⟩ := inv.live (w := w) (by simp [enabled])
  obtain ⟨g', done, count, view⟩ := inv.view.resume there
  have state : stateAt waiters w = some data.state := by rw [stateAt, there]; rfl
  have moved : (unposted posts ++ s.posted.erase w ++ (s.deleting ++ [w])).Perm
      (unposted posts ++ s.posted ++ s.deleting) := by
    rw [append_assoc, append_assoc]
    refine List.Perm.append_left _ ?_
    rw [← append_assoc]
    refine (perm_append_singleton _ _).trans ?_
    rw [← cons_append]
    exact (perm_cons_erase enabled).symm.append_right _
  have tasks := moved.nodup_iff.mpr inv.tasks
  by_cases next : data.state = .notified
  · rw [if_pos next] at view
    have handle := inv.handles w data there (.inr next)
    refine ⟨{ s with
      group := g'
      posted := s.posted.erase w
      deleting := s.deleting ++ [w]
      awaiting := s.awaiting.erase w
      history := s.history ++ [.resumed w] }, by simp [System.deliver, done, next, handle], q, posts, _, ⟨view, inv.calls, ?_, ?_, ?_,
        ?_, ?_, inv.awaitsOnce.erase w, tasks, ?_, ?_, fun none => inv.idle (count.symm.trans none), ?_, ?_, ?_⟩⟩
    all_goals grind
  · rw [if_neg next] at view
    refine ⟨{ s with
      group := g'
      posted := s.posted.erase w
      deleting := s.deleting ++ [w] }, by simp [System.deliver, done, next], q, posts, waiters, { inv with
        view := view
        tasks := tasks
        tasked := fun v => moved.mem_iff.trans (inv.tasked v)
        coming := ?_
        idle := fun none => inv.idle (count.symm.trans none) }⟩
    grind

theorem Inv.done_more (more : 1 < s.group.count) : ∃ s', s.done = some s' ∧ s'.Sound := by
  obtain ⟨g', done, count, view⟩ := inv.view.done_more more s.fuel
  have same : unposted (posts ++ [(none, [])]) = unposted posts := by simp [unposted]
  refine ⟨{ s with
    group := g'
    calls := s.calls ++ [⟨none, none⟩] }, ?_, q, posts ++ [(none, [])], waiters, { inv with
      view := ?_
      calls := ?_
      tasks := by rw [same]; exact inv.tasks
      tasked := fun w => by rw [same]; exact inv.tasked w
      idle := ?_ }⟩
  · have some : g'.count ≠ 0 := by omega
    simp [System.done, done, some]
  · rw [map_append]
    exact view
  · simp [inv.calls]
  · intro zero
    dsimp only at zero
    omega

/-- The count comes down to zero: all that wait are owed to be resumed. -/
theorem Inv.done_last (one : s.group.count = 1) :
    ∃ s', s.done = some s' ∧ s'.Sound := by
  have enough : q.length ≤ s.fuel := by
    have inside : q ⊆ List.range s.created := by
      intro w member
      rw [mem_range]
      by_contra later
      have state := (inv.waiting w).mp member
      rw [stateAt, (inv.fresh w (by omega)).1] at state
      cases state
    have short := (inv.view.holds.distinct.subperm inside).length_le
    rwa [length_range] at short
  obtain ⟨g', done, count, view⟩ := inv.view.done one enough
  generalize next : (fun v => if v ∈ q then (waiters v).map fun waiter : Waiter => { waiter with queued := false, state := .notified }
    else waiters v) = waiters' at view
  have looks (v : Nat) : stateAt waiters' v = if v ∈ q then some .notified else stateAt waiters v := by
    rw [← next]
    unfold stateAt
    by_cases member : v ∈ q
    · obtain ⟨data, there, -⟩ := stateAt_some ((inv.waiting v).mp member)
      simp [member, there]
    · simp [member]
  have known (v : Nat) (data : Waiter) (there : waiters' v = some data) (left : v ∉ q) : waiters v = some data := by
    rw [← next] at there
    simpa [left] using there
  have given (v : Nat) (data : Waiter) (there : waiters' v = some data) (member : v ∈ q) :
      data.state = .notified ∧ data.handle = true := by
    obtain ⟨old, found, waits⟩ := stateAt_some ((inv.waiting v).mp member)
    have handle := inv.handles v old found (.inl waits)
    rw [← next] at there
    simp only [member, if_true, found, map_some, Option.some.injEq] at there
    rw [← there]
    exact ⟨rfl, handle⟩
  have same : unposted (posts ++ [(none, q)]) = unposted posts ++ q := by simp [unposted]
  have distinct := inv.view.holds.distinct
  refine ⟨{ s with
    group := g'
    calls := s.calls ++ [⟨q.head?, none⟩]
    history := s.history ++ [.zero] }, by simp [System.done, done, count], [], posts ++ [(none, q)], waiters',
    ⟨by rwa [map_append], by simp [inv.calls], ?fresh, ?_, ?_, ?_, ?_, inv.awaitsOnce, ?_, ?_, ?_, fun _ => rfl, ?_, ?_, ?gone⟩⟩
  case fresh =>
    intro w later
    have fresh := inv.fresh w later
    have outside : w ∉ q := fun member => by
      have state := (inv.waiting w).mp member
      rw [stateAt, fresh.1] at state
      cases state
    refine ⟨?_, ?_⟩
    · rw [← next]
      simp [outside, fresh.1]
    · rw [Fate.of_snoc, fresh.2]
      rfl
  case gone =>
    refine ⟨inv.gone.1, fun w => (inv.gone.2 w).trans (and_congr_right fun _ => ?_)⟩
    rw [← next]
    dsimp only
    split <;> simp
  all_goals grind

theorem Inv.step {event : Event} (enabled : s.Enabled event) : ∃ s', s.step event = some s' ∧ s'.Sound := by
  cases event with
  | add n => exact inv.add enabled
  | done =>
    have some : 0 < s.group.count := enabled
    by_cases one : s.group.count = 1
    · exact inv.done_last one
    · exact inv.done_more (by omega)
  | join thread => exact ⟨_, rfl, q, posts, waiters, inv.join thread⟩
  | suspend thread => exact inv.suspend
  | cancel waiter => exact inv.cancel enabled
  | take call => exact inv.take enabled
  | post call => exact inv.post enabled
  | deliver waiter => exact inv.deliver enabled
  | delete waiter => exact inv.delete enabled

end

theorem run_sound (events : List Event) : ∃ s, run {} events = some s ∧ s.Sound :=
  Interleaving.run_invariant (fun _ _ ⟨_, _, _, inv⟩ enabled => inv.step enabled) ⟨[], [], _, Inv.init⟩ events

/-- A resumption is on its way: posted, or in the hands of a call of `done`. -/
def OnWay (s : System) (w : Nat) : Prop :=
  w ∈ s.posted ∨ ∃ posting ∈ s.calls, posting.current = some w ∨ s.group.waiters.Leads posting.head w

/-- A joiner is resumed at most once, only if the count came down to zero after it was queued, and never if it was canceled;
such a one is resumed unless it is canceled before. A join that did not suspend saw the count at zero, nothing is queued
while it is zero, and a waiter is deleted once, when nothing is left to be done with it. -/
structure Safe (s : System) : Prop where
  resumedOnce : ∀ w, s.history.count (.resumed w) ≤ 1
  justified : ∀ w, .resumed w ∈ s.history →
    (∃ a b c d, s.history = a ++ .enqueued w :: b ++ .zero :: c ++ .resumed w :: d) ∧ .canceled w ∉ s.history
  served : ∀ w before after, s.history = before ++ .enqueued w :: after → .zero ∈ after →
    .resumed w ∈ s.history ∨ .canceled w ∈ s.history ∨ s.OnWay w
  moves : ∀ w, s.OnWay w → w ∈ s.posted ∨ ∃ call, s.Enabled (.take call) ∨ s.Enabled (.post call)
  passes : ∀ count, .passed count ∈ s.history → count = 0
  empty : s.group.count = 0 → s.group.waiters.head = none ∧ s.group.waiters.tail = none
  deletedOnce : s.deleted.Nodup
  deletes : ∀ w, w ∈ s.deleted ↔ w < s.created ∧ w ∉ s.awaiting ∧ ¬ s.OnWay w ∧ w ∉ s.deleting

theorem Inv.onWay_iff (inv : Inv s q posts waiters) : s.OnWay w ↔ w ∈ unposted posts ++ s.posted := by
  have leads {post : Option Nat × List Nat} (member : post ∈ posts) : s.group.waiters.Leads post.2.head? w ↔ w ∈ post.2 :=
    (inv.view.chained post.2 (mem_map_of_mem member)).leads_iff
  rw [mem_append, or_comm, OnWay, inv.calls, unposted, mem_flatMap]
  refine or_congr Iff.rfl ⟨?_, ?_⟩
  · rintro ⟨posting, member, here⟩
    obtain ⟨post, there, rfl⟩ := mem_map.mp member
    refine ⟨post, there, ?_⟩
    rw [mem_append, Option.mem_toList]
    exact here.imp id (leads there).mp
  · rintro ⟨post, there, here⟩
    rw [mem_append, Option.mem_toList] at here
    exact ⟨_, mem_map_of_mem there, here.imp id (leads there).mpr⟩

theorem Inv.safe (inv : Inv s q posts waiters) : s.Safe where
  resumedOnce w := by
    have story := Fate.story s.history w
    cases fate : Fate.of s.history w with
    | wrong => exact absurd fate (inv.fates w).2.2
    | resumed =>
      rw [fate] at story
      exact story.2.2.le
    | _ =>
      rw [fate] at story
      have none : .resumed w ∉ s.history := by
        simp only [Fate.Story] at story
        tauto
      rw [count_eq_zero.mpr none]
      exact Nat.zero_le 1
  justified w resumed := by
    have story := Fate.story s.history w
    cases fate : Fate.of s.history w with
    | wrong => exact absurd fate (inv.fates w).2.2
    | resumed =>
      rw [fate] at story
      exact ⟨story.1, story.2.1⟩
    | _ =>
      rw [fate] at story
      simp only [Fate.Story] at story
      tauto
  served w before after parts zero := by
    have past : (Fate.of s.history w).Past := by
      rw [parts]
      exact Fate.of_enqueued zero
    have story := Fate.story s.history w
    cases fate : Fate.of s.history w with
    | absent => exact absurd fate past.1
    | waits => exact absurd fate past.2
    | wrong => exact absurd fate (inv.fates w).2.2
    | owed =>
      have next := (inv.fates w).2.1.mp fate
      have task := (inv.tasked w).mpr (by simp [next])
      have waits := inv.coming w next
      refine .inr (.inr (inv.onWay_iff.mpr ?_))
      exact (mem_append.mp task).resolve_right waits
    | canceled =>
      rw [fate] at story
      exact .inr (.inl story.1)
    | resumed =>
      rw [fate] at story
      obtain ⟨⟨a, b, c, d, parts'⟩, -⟩ := story
      rw [parts']
      exact .inl (by simp)
  moves w way := by
    rcases way with posted | ⟨posting, member, here⟩
    · exact .inl posted
    obtain ⟨call, found⟩ := mem_iff_getElem?.mp member
    refine .inr ⟨call, ?_⟩
    simp only [Enabled, found, any_some, Bool.and_eq_true, isNone_iff_eq_none]
    cases current : posting.current with
    | some v => exact .inr rfl
    | none =>
      rw [current] at here
      rcases here with here | leads
      · cases here
      refine .inl ⟨rfl, ?_⟩
      generalize posting.head = head at leads
      cases leads <;> rfl
  passes := inv.passes
  empty zero := by
    obtain rfl := inv.idle zero
    exact ⟨inv.view.holds.head, inv.view.holds.tail⟩
  deletedOnce := inv.gone.1
  deletes w := by
    have absent : waiters w = none ↔ stateAt waiters w = none := by simp [stateAt]
    have tasked := inv.tasked w
    rw [mem_append] at tasked
    rw [inv.gone.2, inv.awaits, inv.onWay_iff, absent]
    grind

theorem joins_safe (events : List Event) : ∃ s, run {} events = some s ∧ s.Safe := by
  obtain ⟨s, done, q, posts, waiters, inv⟩ := run_sound events
  exact ⟨s, done, inv.safe⟩

-- Two joiners; the awaiter of the second ends after the count came down to zero and before its notification is posted.
example : (run {} [.add 1, .join 7, .suspend 7, .join 8, .suspend 8, .done, .take 0, .post 0, .cancel 1, .deliver 0,
    .delete 0, .take 0, .post 0, .deliver 1, .delete 1]).map (fun s => (s.history, s.deleted)) =
    some ([.enqueued 0, .enqueued 1, .zero, .canceled 1, .resumed 0], [0, 1]) := by
  decide

end System

end WaitGroup

end FiberGateway.Async
