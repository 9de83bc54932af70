import FiberGateway.Http2.SendSide

namespace FiberGateway.Http2

open LinearProbing

namespace Stream

/-- Some entry of the stream has a frame in the send queue. -/
def InFlight (s : Stream) : Prop := ∃ id entry, s.entry id = some entry ∧ entry.inflightSends ≠ 0

variable {s : Stream} {id : Nat}

variable {entry : PendingEntry}

theorem entry_id (found : s.entry id = some entry) : entry.id = id := by
  simpa using List.find?_some found

theorem entry_mem (found : s.entry id = some entry) : entry ∈ s.entries :=
  List.mem_of_find?_eq_some found

theorem entry_isSome_iff : (s.entry id).isSome ↔ id ∈ s.entries.map (·.id) := by
  simp [entry]

theorem entry_removeActivePending (s : Stream) (id other : Nat) :
    (s.removeActivePending id).entry other = if other = id then none else s.entry other := by
  unfold removeActivePending entry
  rw [List.find?_filter]
  split
  · rename_i same
    subst same
    rw [List.find?_eq_none]
    intro entry _
    simp
  · rename_i apart
    congr 1
    funext entry
    by_cases here : entry.id = other <;> simp [here, apart]

theorem entry_modifyEntry (s : Stream) (id : Nat) (f : PendingEntry → PendingEntry) (keeps : ∀ entry, (f entry).id = entry.id)
    (other : Nat) :
    (s.modifyEntry id f).entry other = if other = id then (s.entry other).map f else s.entry other := by
  unfold modifyEntry entry
  simp only [List.find?_map]
  have same_test : (fun entry : PendingEntry => decide (entry.id = other)) ∘
      (fun entry => if entry.id = id then f entry else entry) = fun entry => decide (entry.id = other) := by
    funext entry
    simp only [Function.comp_apply]
    split <;> simp [keeps]
  rw [same_test]
  cases found : s.entries.find? (fun entry => decide (entry.id = other)) with
  | none => split <;> rfl
  | some entry =>
    have here : entry.id = other := by simpa using List.find?_some found
    simp only [Option.map_some, here]
    split <;> rfl

end Stream

namespace Conn

theorem find_modifyStream (c : Conn) (streamId : Nat) (f : Stream → Stream) (other : Nat) :
    (c.modifyStream streamId f).streams.find other =
      if other = streamId then (c.streams.find other).map f else c.streams.find other :=
  Table.find_modify _ _ _ _

variable {c : Conn} {streamId entryId id : Nat} {s : Stream}

theorem find_modifyStream_self (found : c.streams.find streamId = some s) (f : Stream → Stream) :
    (c.modifyStream streamId f).streams.find streamId = some (f s) := by
  rw [find_modifyStream, if_pos rfl, found]; rfl

theorem maybeFinishGracefulShutdown_streams (c : Conn) : c.maybeFinishGracefulShutdown.streams = c.streams := by
  unfold maybeFinishGracefulShutdown
  repeat' split
  all_goals rfl

theorem eraseStream_streams (c : Conn) (streamId : Nat) :
    (c.eraseStream streamId).streams = c.streams.erase streamId := by
  unfold eraseStream
  rw [maybeFinishGracefulShutdown_streams]
  split <;> split <;> rfl

theorem eraseStream_find (c : Conn) (streamId : Nat) : (c.eraseStream streamId).streams.find streamId = none := by
  rw [eraseStream_streams, Table.find_erase, if_pos rfl]

/-- A closed stream that an error or a reset is working on. -/
structure Closing (c : Conn) (streamId : Nat) (s : Stream) : Prop where
  found : c.streams.find streamId = some s
  closed : s.state = .closed
  unqueued : s.pending = []

/-- Only the stream, the changes and the marks of a misuse differ. -/
def withStreams (c after : Conn) : Conn :=
  { c with
    streams := after.streams
    changes := after.changes
    staleAccess := after.staleAccess
    queuedReturn := after.queuedReturn }

variable {entry : PendingEntry}

theorem Closing.finishPending (closing : Closing c streamId s)
    (found : s.entry entryId = some entry) (result : Option IoErr) :
    if s.entries.filter (fun entry => entry.id ≠ entryId) = [] then
      (c.finishPending streamId entryId result).streams.find streamId = none
    else Closing (c.finishPending streamId entryId result) streamId (s.removeActivePending entryId) ∧
      c.withStreams (c.finishPending streamId entryId result) = c.finishPending streamId entryId result := by
  unfold Conn.finishPending
  simp only [closing.found, found]
  generalize kind_eq : entry.change _ 0 result = change
  have there : ((c.notify entryId change).modifyStream streamId (·.removeActivePending entryId)).streams.find streamId =
      some (s.removeActivePending entryId) :=
    find_modifyStream_self (c := c.notify entryId change) closing.found _
  have closed : (s.removeActivePending entryId).state = .closed := closing.closed
  have unqueued : (s.removeActivePending entryId).pending = [] := closing.unqueued
  unfold maybeDestroyStream
  rw [there]
  simp only [closed, unqueued, ne_eq, not_true_eq_false, if_false, false_or]
  split
  · rename_i last
    rw [if_neg (by simpa [Stream.removeActivePending] using last)]
    exact eraseStream_find _ _
  · rename_i more
    rw [if_pos (by simpa [Stream.removeActivePending] using more)]
    exact ⟨⟨there, closed, unqueued⟩, rfl⟩

theorem InFlight_removeActivePending (found : s.entry id = some entry) (idle : entry.inflightSends = 0)
    (inFlight : s.InFlight) : (s.removeActivePending id).InFlight := by
  obtain ⟨other, busy, there, flying⟩ := inFlight
  refine ⟨other, busy, ?_, flying⟩
  rw [Stream.entry_removeActivePending, if_neg, there]
  rintro rfl
  rw [found] at there
  cases there
  exact flying idle

theorem InFlight_entries (inFlight : s.InFlight) : s.entries ≠ [] := by
  obtain ⟨id, entry, there, -⟩ := inFlight
  exact List.ne_nil_of_mem (Stream.entry_mem there)

/-- A stream with frames on their way out survives `drain_pending`. -/
theorem Closing.drain_inFlight (closing : Closing c streamId s) (inFlight : s.InFlight) (result : IoErr)
    (ids : List Nat) :
    (∃ s', Closing (ids.foldl (drainEntry result streamId) c) streamId s' ∧ s'.InFlight) ∧
      c.withStreams (ids.foldl (drainEntry result streamId) c) = ids.foldl (drainEntry result streamId) c := by
  induction ids generalizing c s with
  | nil => exact ⟨⟨s, closing, inFlight⟩, rfl⟩
  | cons id ids ih =>
    rw [List.foldl_cons]
    have step : ∃ s', Closing (drainEntry result streamId c id) streamId s' ∧ s'.InFlight ∧
        c.withStreams (drainEntry result streamId c id) = drainEntry result streamId c id := by
      unfold drainEntry
      rw [closing.found]
      simp only [Option.bind_some]
      cases found : s.entry id with
      | none => exact ⟨s, ⟨closing.found, closing.closed, closing.unqueued⟩, inFlight, rfl⟩
      | some entry =>
        simp only
        split
        · rename_i idle
          have after := closing.finishPending found (some result)
          have still := InFlight_removeActivePending found idle inFlight
          rw [if_neg (by simpa [Stream.removeActivePending] using InFlight_entries still)] at after
          exact ⟨_, after.1, still, after.2⟩
        · split
          · refine ⟨_, ⟨find_modifyStream_self closing.found _, closing.closed, closing.unqueued⟩, ?_, rfl⟩
            obtain ⟨other, busy, there, flying⟩ := inFlight
            have moved := s.entry_modifyEntry id (fun entry => { entry with result := some result }) (fun _ => rfl) other
            rw [there] at moved
            by_cases same : other = id
            · exact ⟨other, _, moved.trans (if_pos same), flying⟩
            · exact ⟨other, busy, moved.trans (if_neg same), flying⟩
          · exact ⟨s, closing, inFlight, rfl⟩
    obtain ⟨s', closing', inFlight', side⟩ := step
    obtain ⟨survives, side'⟩ := ih closing' inFlight'
    refine ⟨survives, ?_⟩
    rw [← side', ← side]
    rfl

/-- Without frames on their way out nothing of the stream is left once all its entries are drained. -/
theorem drain_idle (result : IoErr) (ids : List Nat)
    (idle : ∀ s, c.streams.find streamId = some s → Closing c streamId s ∧ ¬s.InFlight ∧ ∀ id ∈ s.entries.map (·.id), id ∈ ids) :
    ∀ s, (ids.foldl (drainEntry result streamId) c).streams.find streamId = some s →
      Closing (ids.foldl (drainEntry result streamId) c) streamId s ∧ s.entries = [] := by
  induction ids generalizing c with
  | nil =>
    intro s found
    obtain ⟨closing, -, covered⟩ := idle s found
    refine ⟨closing, List.eq_nil_iff_forall_not_mem.mpr fun entry member => ?_⟩
    exact List.not_mem_nil (covered entry.id (List.mem_map_of_mem member))
  | cons id ids ih =>
    rw [List.foldl_cons]
    apply ih
    intro s found
    unfold drainEntry at found ⊢
    cases before : c.streams.find streamId with
    | none =>
      simp only [before, Option.bind_none] at found
      change c.streams.find streamId = some s at found
      rw [before] at found
      cases found
    | some s₀ =>
      obtain ⟨closing, resting, covered⟩ := idle s₀ before
      simp only [before, Option.bind_some] at found ⊢
      cases there : s₀.entry id with
      | none =>
        simp only [there] at found ⊢
        change c.streams.find streamId = some s at found
        rw [before] at found
        cases found
        refine ⟨⟨before, closing.closed, closing.unqueued⟩, resting, fun other member => ?_⟩
        rcases List.mem_cons.mp (covered other member) with rfl | more
        · rw [← Stream.entry_isSome_iff, there] at member
          cases member
        · exact more
      | some entry =>
        have still : entry.inflightSends = 0 := by
          by_contra flying
          exact resting ⟨id, entry, there, flying⟩
        simp only [there, if_pos still] at found ⊢
        have after := closing.finishPending there (some result)
        split at after
        · rw [after] at found
          cases found
        obtain ⟨closing', -⟩ := after
        rw [closing'.found] at found
        cases found
        refine ⟨closing', ?_, fun other member => ?_⟩
        · rintro ⟨other, busy, here, flying⟩
          rw [Stream.entry_removeActivePending] at here
          split at here
          · cases here
          · exact resting ⟨other, busy, here, flying⟩
        · rw [← Stream.entry_isSome_iff, Stream.entry_removeActivePending] at member
          split at member
          · cases member
          · rename_i apart
            exact (List.mem_cons.mp (covered other (Stream.entry_isSome_iff.mp member))).resolve_left apart

/-- The stream while `close` drains it. -/
def closedStream (s : Stream) : Stream := { s with state := .closed, active := false, pending := [] }

/-- The connection while `close` drains the stream. -/
def beginClose (c : Conn) (streamId : Nat) : Conn :=
  { (c.modifyStream streamId closedStream).unlinkWaiting streamId with
    unfinishedClose := c.unfinishedClose || c.hasEntries streamId }

section

variable (found : c.streams.find streamId = some s)

include found

theorem closeStream_eq (result : IoErr) :
    c.closeStream streamId result = (s.entries.map (·.id)).foldl (drainEntry result streamId)
      (c.beginClose streamId) := by
  unfold closeStream
  rw [found]
  have same : (((c.setState streamId .closed).modifyStream streamId fun s => { s with active := false }).unlinkWaiting
      streamId).modifyStream streamId (fun s => { s with pending := [] }) = c.beginClose streamId := by
    unfold beginClose setState modifyStream unlinkWaiting
    simp only [Table.modify_modify, decide_true, Bool.true_and]
    rfl
  simp only [same]
  unfold drainPending
  rw [show (c.beginClose streamId).streams.find streamId = some (closedStream s) from find_modifyStream_self found _]
  rfl

theorem closing_closedStream : Closing (c.beginClose streamId) streamId (closedStream s) :=
  ⟨find_modifyStream_self found _, rfl, rfl⟩

/-- A closed stream stays in the table exactly as long as it has frames in the send queue. -/
theorem closeStream_destroy_find (result : IoErr) :
    ((((c.closeStream streamId result).maybeDestroyStream streamId).streams.find streamId).isSome ↔ s.InFlight) ∧
      (s.InFlight → ∃ s', Closing ((c.closeStream streamId result).maybeDestroyStream streamId) streamId s' ∧
        (c.beginClose streamId).withStreams ((c.closeStream streamId result).maybeDestroyStream streamId) =
          (c.closeStream streamId result).maybeDestroyStream streamId) := by
  rw [closeStream_eq found]
  have closing := closing_closedStream found
  by_cases inFlight : s.InFlight
  · obtain ⟨⟨s', closing', inFlight'⟩, side⟩ := closing.drain_inFlight inFlight result (s.entries.map (·.id))
    have kept : ∀ d : Conn, Closing d streamId s' → d.maybeDestroyStream streamId = d := by
      intro d closing
      unfold maybeDestroyStream
      simp only [closing.found, closing.closed, ne_eq, not_true_eq_false, if_false]
      rw [if_pos (.inr (InFlight_entries inFlight'))]
    rw [kept _ closing']
    exact ⟨by simp [closing'.found, inFlight], fun _ => ⟨s', closing', side⟩⟩
  refine ⟨?_, fun flying => absurd flying inFlight⟩
  have emptied := drain_idle result (s.entries.map (·.id)) (c := c.beginClose streamId) (by
      intro s' found'
      rw [closing.found] at found'
      cases found'
      exact ⟨closing, inFlight, fun id member => member⟩)
  simp only [inFlight, iff_false, Bool.not_eq_true, Option.isSome_eq_false_iff, Option.isNone_iff_eq_none]
  generalize (s.entries.map (·.id)).foldl (drainEntry result streamId)
    (c.beginClose streamId) = d at emptied
  unfold maybeDestroyStream
  cases there : d.streams.find streamId with
  | none => exact there
  | some s' =>
    obtain ⟨closing', none_left⟩ := emptied s' there
    simp only [closing'.closed, closing'.unqueued, none_left, ne_eq, not_true_eq_false, or_self, if_false]
    exact eraseStream_find _ _

end

end Conn

end FiberGateway.Http2
