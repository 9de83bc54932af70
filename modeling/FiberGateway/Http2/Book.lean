import FiberGateway.Http2.Runs

namespace FiberGateway.Http2

open List Function LinearProbing

open Relation

/-- What the entries of the streams amount to: by stream, the entries and the queue of those not scheduled to their end;
by entry, the payload bytes in the send queue; the changes notified, the entries accepted and the frames enqueued;
whether the send queue is closed, an entry was returned while it was queued, and a frame of a queued entry failed. -/
@[ext]
structure Book where
  entries : Nat → List PendingEntry
  queue : Nat → List Nat
  flying : Nat → Nat → Nat
  changes : List (Nat × PendingChange)
  accepted : List (Nat × PendingEntry)
  frames : List SendEntry
  next : Nat
  closed : Bool
  returned : Bool
  failed : Bool

namespace Book

open Conn

def entry (b : Book) (streamId entryId : Nat) : Option PendingEntry := (b.entries streamId).find? (·.id = entryId)

/-- An entry of a stream in place of the one with its id. -/
def modifyEntry (b : Book) (streamId entryId : Nat) (f : PendingEntry → PendingEntry) : Book :=
  { b with
    entries := update b.entries streamId
      ((b.entries streamId).map fun entry => if entry.id = entryId then f entry else entry) }

theorem entry_modifyEntry (b : Book) (streamId entryId : Nat) {f : PendingEntry → PendingEntry}
    (keeps : ∀ entry, (f entry).id = entry.id) (stream id : Nat) :
    (b.modifyEntry streamId entryId f).entry stream id =
      if stream = streamId ∧ id = entryId then (b.entry stream id).map f else b.entry stream id := by
  by_cases here : stream = streamId
  · subst here
    have lookups := ({ Stream.init stream 0 with entries := b.entries stream } : Stream).entry_modifyEntry entryId f keeps id
    simpa [Book.entry, Book.modifyEntry, Stream.entry, Stream.modifyEntry] using lookups
  · simp [Book.entry, Book.modifyEntry, here]

theorem entry_filter (b : Book) (streamId entryId stream id : Nat) :
    (update b.entries streamId ((b.entries streamId).filter (·.id ≠ entryId)) stream).find? (·.id = id) =
      if stream = streamId ∧ id = entryId then none else b.entry stream id := by
  by_cases here : stream = streamId
  · subst here
    have lookups := ({ Stream.init stream 0 with entries := b.entries stream } : Stream).entry_removeActivePending entryId id
    simpa [Book.entry, Stream.entry, Stream.removeActivePending] using lookups
  · simp [Book.entry, here]

theorem entry_cons (b : Book) (streamId : Nat) (new : PendingEntry) (stream id : Nat) :
    (update b.entries streamId (new :: b.entries streamId) stream).find? (·.id = id) =
      if stream = streamId ∧ id = new.id then some new else b.entry stream id := by
  by_cases here : stream = streamId
  · subst here
    by_cases same : new.id = id
    · simp [same]
    · simp [Book.entry, same, Ne.symm same]
  · simp [Book.entry, here]

theorem sublist_update {queue : Nat → List Nat} {streamId : Nat} {line : List Nat} (shorter : line.Sublist (queue streamId))
    (stream : Nat) : (update queue streamId line stream).Sublist (queue stream) := by
  rw [update_apply]
  split
  · rename_i same
    rw [same]
    exact shorter
  · exact List.Sublist.refl _

/-- What can happen to the entries outside the scheduler. -/
inductive Step (ok : Allowed) : Book → Book → Prop
  | close (b : Book) : Step ok b { b with closed := true }
  | control {b : Book} {frame : SendEntry} (unowned : Unowned frame) (opened : b.closed = false) :
      Step ok b { b with frames := b.frames ++ [frame] }
  | finish {b : Book} {streamId entryId : Nat} {entry : PendingEntry} (result : Option IoErr)
      (there : b.entry streamId entryId = some entry) (idle : entry.inflightSends = 0)
      (whole : result = none → entry.payload = [] ∧ entry.writtenBytes = entry.totalBytes)
      (cause : b.queue streamId = [] ∨ entry.result = result ∧ (entryId ∈ b.queue streamId → entry.totalBytes ≠ 0)) :
      Step ok b { b with
        entries := update b.entries streamId ((b.entries streamId).filter (·.id ≠ entryId))
        changes := b.changes ++ [(entryId, entry.change (terminalKind result) 0 result)]
        returned := b.returned || entryId ∈ b.queue streamId }
  | fail {b : Book} {streamId entryId : Nat} {entry : PendingEntry} (err : IoErr)
      (there : b.entry streamId entryId = some entry) (unqueued : b.queue streamId = []) :
      Step ok b (b.modifyEntry streamId entryId fun entry => { entry with result := some err })
  | clear (b : Book) (streamId : Nat) : Step ok b { b with queue := update b.queue streamId [] }
  | append {b : Book} (streamId : Nat) {kind : PendingKind} {payload : List UInt8} {first last : UInt8}
      (allowed : ok kind payload first last) :
      Step ok b { b with
        entries := update b.entries streamId (.init b.next kind payload first last :: b.entries streamId)
        queue := update b.queue streamId (b.queue streamId ++ [b.next])
        accepted := b.accepted ++ [(streamId, .init b.next kind payload first last)]
        next := b.next + 1 }
  | land {b : Book} {streamId : Nat} {entry : PendingEntry} {bytes logical : Nat} (result : Option IoErr)
      (there : b.entry streamId entry.id = some entry) (busy : entry.inflightSends ≠ 0)
      (within : bytes ≤ logical) (flying : logical ≤ b.flying streamId entry.id) :
      Step ok b { b.modifyEntry streamId entry.id fun entry => { entry with
            writtenBytes := entry.writtenBytes + bytes
            result := if entry.result = none then result else entry.result
            inflightSends := entry.inflightSends - 1 } with
        flying := fun stream id => b.flying stream id - if stream = streamId ∧ id = entry.id then logical else 0
        changes := b.changes ++ writtenChange entry bytes
        failed := b.failed || (result.isSome && entry.id ∈ b.queue streamId) }

/-- A frame is cut off the entry at the head of a stream's queue and enqueued. -/
def sendFragment (b : Book) (streamId : Nat) (entry : PendingEntry) (bytes : Nat) (rest : List Nat) : Book :=
  { b.modifyEntry streamId entry.id fun entry => { entry with
        payload := entry.payload.drop bytes
        inflightSends := entry.inflightSends + 1 } with
    queue := update b.queue streamId (if bytes = entry.payload.length then rest else entry.id :: rest)
    flying := fun stream id => b.flying stream id + if stream = streamId ∧ id = entry.id then bytes else 0
    changes := b.changes ++ [(entry.id, entry.change .scheduled bytes none)]
    frames := b.frames ++ [Conn.fragment streamId entry bytes] }

/-- What can happen to the entries. -/
inductive Cut (ok : Allowed) : Book → Book → Prop
  | step {b b' : Book} (step : Step ok b b') : Cut ok b b'
  | fragment {b : Book} {streamId bytes : Nat} {entry : PendingEntry} {rest : List Nat}
      (head : b.queue streamId = entry.id :: rest) (there : b.entry streamId entry.id = some entry)
      (positive : 0 < bytes) (within : bytes ≤ entry.payload.length) (opened : b.closed = false) :
      Cut ok b (b.sendFragment streamId entry bytes rest)
  | lost {b : Book} {streamId : Nat} {entry : PendingEntry} {rest : List Nat}
      (head : b.queue streamId = entry.id :: rest) (there : b.entry streamId entry.id = some entry) (bytes : Nat) :
      Cut ok b { b.modifyEntry streamId entry.id fun entry => { entry with payload := entry.payload.drop bytes } with
        closed := true }
  | pop {b : Book} {streamId : Nat} {entry : PendingEntry} {rest : List Nat}
      (head : b.queue streamId = entry.id :: rest) (there : b.entry streamId entry.id = some entry)
      (empty : entry.payload = []) : Cut ok b { b with queue := update b.queue streamId rest }

end Book

namespace Conn

variable {ok : Allowed} {c d : Conn} {streamId bytes entryId : Nat} {s : Stream}

/-- The payload bytes of an entry in the send queue and in the hands of the send loop. -/
def flying (c : Conn) (streamId entryId : Nat) : Nat :=
  (((c.sending.toList ++ c.sendQueue).filter fun sent => sent.owner = some (streamId, entryId)).map (·.logicalBytes)).sum

def book (c : Conn) : Book where
  entries streamId := ((c.streams.find streamId).map (·.entries)).getD []
  queue streamId := ((c.streams.find streamId).map (·.pending)).getD []
  flying := c.flying
  changes := c.changes
  accepted := c.accepted
  frames := c.enqueued
  next := c.nextPendingId
  closed := c.sendQueueClosed
  returned := c.queuedReturn
  failed := c.failedQueued

section

variable (found : c.streams.find streamId = some s)

include found

theorem book_entries : c.book.entries streamId = s.entries := by
  simp [book, found]

theorem book_queue : c.book.queue streamId = s.pending := by
  simp [book, found]

theorem book_entry (entryId : Nat) : c.book.entry streamId entryId = s.entry entryId := by
  rw [Book.entry, book_entries found, Stream.entry]

theorem book_head {entry : PendingEntry} (head : s.pendingHead = some entry) :
    c.book.entry streamId entry.id = some entry ∧ ∃ rest, c.book.queue streamId = entry.id :: rest := by
  rw [book_entry found, book_queue found]
  exact Stream.pendingHead_entry head

theorem book_modify (f : Stream → Stream) : (c.modifyStream streamId f).book = { c.book with
      entries := update c.book.entries streamId (f s).entries
      queue := update c.book.queue streamId (f s).pending } := by
  refine Book.ext (funext fun other => ?_) (funext fun other => ?_) rfl rfl rfl rfl rfl rfl rfl rfl
  all_goals
    simp only [book, find_modifyStream, update_apply]
    split
    · rename_i same
      simp [same, found]
    · rfl

end

/-- A change of a stream outside its entries and its queue. -/
theorem book_modify_same (c : Conn) (streamId : Nat) {f : Stream → Stream} (same : ∀ s, (f s).entries = s.entries ∧ (f s).pending = s.pending) :
    (c.modifyStream streamId f).book = c.book := by
  cases found : c.streams.find streamId with
  | none =>
    refine Book.ext (funext fun other => ?_) (funext fun other => ?_) rfl rfl rfl rfl rfl rfl rfl rfl
    all_goals
      simp only [book, find_modifyStream]
      split
      · rename_i here
        simp [here, found]
      · rfl
  | some s =>
    rw [book_modify found, (same s).1, (same s).2, ← book_entries found, ← book_queue found]
    simp

theorem book_modifyEntry (found : c.streams.find streamId = some s) (entryId : Nat) (f : PendingEntry → PendingEntry) :
    (c.modifyStream streamId (·.modifyEntry entryId f)).book = c.book.modifyEntry streamId entryId f := by
  rw [book_modify found, Book.modifyEntry, book_entries found]
  have queue : (s.modifyEntry entryId f).pending = c.book.queue streamId := (book_queue found).symm
  rw [queue, update_eq_self]
  rfl

theorem book_streams (same : ∀ other, ((d.streams.find other).map (·.entries)).getD [] =
      ((c.streams.find other).map (·.entries)).getD [] ∧ ((d.streams.find other).map (·.pending)).getD [] =
      ((c.streams.find other).map (·.pending)).getD [])
    (rest : { d with streams := c.streams }.book = c.book) : d.book = c.book := by
  have view : d.book = { ({ d with streams := c.streams } : Conn).book with
      entries := c.book.entries
      queue := c.book.queue } :=
    Book.ext (funext fun other => (same other).1) (funext fun other => (same other).2) rfl rfl rfl rfl rfl rfl rfl rfl
  rw [view, rest]

theorem book_insert {window : Int} {streams : StreamTable}
    (made : c.streams.insert streamId (.init streamId window) = some streams) (after : d.streams = streams)
    (rest : { d with streams := c.streams }.book = c.book) : d.book = c.book := by
  have absent := (Table.insert_isSome_iff.mp (by rw [made]; rfl) : c.streams.find streamId = none ∧ _).1
  refine book_streams (fun other => ?_) rest
  rw [after, Table.find_insert made]
  split
  · rename_i same
    simp [same, absent, Stream.init]
  · exact ⟨rfl, rfl⟩

theorem book_dropStream (found : c.streams.find streamId = some s) (unqueued : s.pending = []) (ended : s.entries = []) :
    (c.dropStream streamId).book = c.book := by
  rw [dropStream_eq]
  refine book_streams (fun other => ?_) rfl
  rw [Table.find_erase]
  split
  · rename_i same
    simp [same, found, unqueued, ended]
  · exact ⟨rfl, rfl⟩

theorem Calm.book (rest : Calm c d) : ReflGen (Book.Step ok) c.book d.book := by
  have view : d.book = { c.book with closed := d.sendQueueClosed } := by
    rw [← rest.same]
    rfl
  rw [view]
  cases closed : d.sendQueueClosed with
  | true => exact .single (.close c.book)
  | false =>
    have before : c.sendQueueClosed = false := by
      by_contra was
      rw [rest.closed (by simpa using was)] at closed
      cases closed
    rw [← before]
    exact .refl

theorem still (same : d.book = c.book) : ReflGen (Book.Step ok) c.book d.book := by
  rw [same]

theorem push_book {entry : SendEntry} (unowned : Unowned entry) :
    (c.push entry).book = { c.book with frames := c.book.frames ++ [entry] } := by
  refine Book.ext rfl rfl (funext fun streamId => funext fun entryId => ?_) rfl rfl rfl rfl rfl rfl rfl
  simp [Conn.book, flying, push, unowned.owner]

theorem Atom.book (atom : Atom c d) : ReflGen (Book.Step ok) c.book d.book := by
  cases atom with
  | quiet rest => exact rest.toCalm.book
  | touch | unlink | credit => exact .refl
  | control unowned plain opened =>
    rw [push_book unowned]
    exact .single (.control unowned opened.unclosed)
  | announce next opened =>
    have view : { c.push (goawayFrame c.localGoawayLastStreamId) with
        localGoawaySent := true
        stopKeepalive := true
        closeState := next }.book = (c.push (goawayFrame c.localGoawayLastStreamId)).book := rfl
    rw [view, push_book (.goaway _)]
    exact .single (.control (.goaway _) opened.unclosed)
  | finish result found there idle whole cause =>
    rename_i streamId entryId s entry
    have view : (c.endPending streamId s entry entryId result).book = { c.book with
        entries := update c.book.entries streamId ((c.book.entries streamId).filter (·.id ≠ entryId))
        changes := c.book.changes ++ [(entryId, entry.change (terminalKind result) 0 result)]
        returned := c.book.returned || entryId ∈ c.book.queue streamId } := by
      have modified := book_modify (c := c.notify entryId (entry.change (terminalKind result) 0 result)) found
        (·.removeActivePending entryId)
      have queue : (s.removeActivePending entryId).pending =
          (c.notify entryId (entry.change (terminalKind result) 0 result)).book.queue streamId := (book_queue found).symm
      rw [queue, update_eq_self] at modified
      rw [book_entries found, book_queue found]
      exact congrArg (fun b : Book => { b with returned := c.queuedReturn || decide (entryId ∈ s.pending) }) modified
    rw [view]
    exact .single (.finish result ((book_entry found entryId).trans there) idle whole (book_queue found ▸ cause))
  | erase found closed unqueued ended => rw [book_dropStream found unqueued ended]
  | fail err found there unqueued busy clean =>
    rw [book_modifyEntry found]
    exact .single (.fail err ((book_entry found _).trans there) ((book_queue found).trans unqueued))
  | state next found running silent =>
    rename_i streamId s
    have view : (c.setState streamId next).book = c.book := book_modify_same c streamId fun _ => ⟨rfl, rfl⟩
    rw [view]
  | close found =>
    rename_i streamId s
    have view : (c.beginClose streamId).book = { c.book with queue := update c.book.queue streamId [] } := by
      have modified := book_modify found closedStream
      have entries : (closedStream s).entries = c.book.entries streamId := (book_entries found).symm
      rw [entries, update_eq_self] at modified
      exact modified
    rw [view]
    exact .single (.clear c.book streamId)
  | link found blocked =>
    unfold linkWaiting
    split
    · exact .refl
    · exact .refl
  | streamCredit found nonzero fits =>
    rename_i streamId increment s
    exact still (book_modify_same { c with credits := c.credits ++ [(streamId, increment)] } streamId fun _ => ⟨rfl, rfl⟩)
  | insertPeer made =>
    obtain ⟨-, -, streams, inserted, rfl⟩ := createPeerStream_some made
    exact still (book_insert inserted rfl rfl)
  | insertLocal made =>
    obtain ⟨-, -, streams, inserted, rfl⟩ := createLocalStream_some made
    exact still (book_insert inserted rfl rfl)

theorem flying_push (c : Conn) (sent : SendEntry) (streamId entryId : Nat) :
    (c.push sent).flying streamId entryId =
      c.flying streamId entryId + if sent.owner = some (streamId, entryId) then sent.logicalBytes else 0 := by
  by_cases owned : sent.owner = some (streamId, entryId)
  all_goals simp [flying, push, filter_append, owned, ← append_assoc]

section

variable (found : c.streams.find streamId = some s)

include found

variable {rest : List Nat}

theorem sentFragment_book {entry : PendingEntry} (pending : s.pending = entry.id :: rest) (bytes : Nat) :
    (c.sentFragment streamId entry bytes).book = c.book.sendFragment streamId entry bytes rest := by
  rw [sentFragment_eq]
  have modified := book_modify found (·.sendFragment entry bytes)
  refine Book.ext ?_ ?_ (funext fun stream => funext fun id => ?_) rfl rfl rfl rfl rfl rfl rfl
  · refine (congrArg Book.entries modified).trans ?_
    simp only [Book.sendFragment, Book.modifyEntry, book_entries found]
    rfl
  · refine (congrArg Book.queue modified).trans ?_
    simp [Book.sendFragment, Stream.sendFragment, pending]
  · refine (c.flying_push (Conn.fragment streamId entry bytes) stream id).trans ?_
    simp only [Conn.fragment, Option.some.injEq, Prod.mk.injEq, eq_comm (a := streamId), eq_comm (a := entry.id)]
    rfl

theorem splitEntry_book {entry : PendingEntry} {err : IoErr}
    (shut : ((c.splitEntry streamId entry bytes).abortConnection err).sendQueueClosed = true) :
    ((c.splitEntry streamId entry bytes).abortConnection err).book = { c.book.modifyEntry streamId entry.id fun entry =>
        { entry with payload := entry.payload.drop bytes } with closed := true } := by
  rw [← book_modifyEntry found, ← (abortConnection_quiet _ err).same]
  exact Book.ext rfl rfl rfl rfl rfl rfl rfl shut rfl rfl

theorem popPendingHead_book (pending : s.pending = entryId :: rest) :
    (c.modifyStream streamId Stream.popPendingHead).book = { c.book with
      queue := update c.book.queue streamId rest } := by
  rw [book_modify found]
  have entries : (Stream.popPendingHead s).entries = c.book.entries streamId := (book_entries found).symm
  rw [entries, update_eq_self]
  simp [Stream.popPendingHead, pending]

end

theorem Cut.book (cut : Cut c d) : ReflGen (Book.Cut ok) c.book d.book := by
  cases cut with
  | atom atom => exact atom.book.mono fun _ _ step => .step step
  | fragment found head positive opened =>
    rename_i streamId s entry
    obtain ⟨there, rest, queue⟩ := book_head found head
    rw [sentFragment_book found ((book_queue found).symm.trans queue)]
    exact .single (.fragment queue there positive (c.fragmentBytes_le s entry) opened.unclosed)
  | lost found head bytes err shut =>
    obtain ⟨there, rest, queue⟩ := book_head found head
    rw [splitEntry_book found shut]
    exact .single (.lost queue there bytes)
  | pop found head empty =>
    obtain ⟨there, rest, queue⟩ := book_head found head
    rw [popPendingHead_book found ((book_queue found).symm.trans queue)]
    exact .single (.pop queue there empty)

theorem append_book (found : c.streams.find streamId = some s) {kind : PendingKind} {payload : List UInt8}
    {first last : UInt8} (allowed : ok kind payload first last) :
    Book.Step ok c.book (c.addPending streamId kind payload first last).book := by
  have view : (c.addPending streamId kind payload first last).book = { c.book with
      entries := update c.book.entries streamId
        (.init c.book.next kind payload first last :: c.book.entries streamId)
      queue := update c.book.queue streamId (c.book.queue streamId ++ [c.book.next])
      accepted := c.book.accepted ++ [(streamId, .init c.book.next kind payload first last)]
      next := c.book.next + 1 } := by
    have modified := book_modify (c := { c with
      nextPendingId := c.nextPendingId + 1
      accepted := c.accepted ++ [(streamId, .init c.nextPendingId kind payload first last)] }) found
      (·.appendPending (.init c.nextPendingId kind payload first last))
    refine modified.trans ?_
    rw [book_entries found, book_queue found]
    rfl
  rw [view]
  exact .append streamId allowed

variable {sent : SendEntry}

theorem flying_released (released : Released c sent d) (streamId entryId : Nat) :
    c.flying streamId entryId =
      d.flying streamId entryId + if sent.owner = some (streamId, entryId) then sent.logicalBytes else 0 := by
  cases released with
  | queued first =>
    by_cases owned : sent.owner = some (streamId, entryId)
    · simp only [flying, first, filter_append, filter_cons, owned, decide_true, if_true, map_append,
        map_cons, sum_append, sum_cons]
      omega
    · simp [flying, first, owned]
  | sending busy n =>
    rename_i sent
    by_cases owned : sent.owner = some (streamId, entryId)
    · simp [flying, busy, owned, Nat.add_comm]
    · simp [flying, busy, owned]

theorem payloadWritten_le (sent : SendEntry) : sent.payloadWritten ≤ sent.logicalBytes := by
  unfold SendEntry.payloadWritten
  split <;> simp

/-- A frame that leaves the send queue without an owner is not in the book. -/
theorem drop_book (released : Released c sent d) (unowned : sent.owner = none) : d.book = c.book := by
  have flying : d.flying = c.flying := by
    funext streamId entryId
    simp [flying_released released streamId entryId, unowned]
  cases released
  all_goals exact Book.ext rfl rfl flying rfl rfl rfl rfl rfl rfl rfl

theorem Loop.book (sound : Sound c) (loop : Loop c d) : ReflGen (Book.Step ok) c.book d.book := by
  cases loop with
  | begin | start => exact .refl
  | take running first idle =>
    refine still (Book.ext rfl rfl (funext fun streamId => funext fun entryId => ?_) rfl rfl rfl rfl rfl rfl rfl)
    simp [Conn.book, flying, first, idle]
  | write busy n =>
    refine still (Book.ext rfl rfl (funext fun streamId => funext fun entryId => ?_) rfl rfl rfl rfl rfl rfl rfl)
    rename_i sent
    by_cases owned : sent.owner = some (streamId, entryId)
    all_goals simp [Conn.book, flying, busy, owned]
  | drop released unowned => exact still (drop_book released unowned)
  | land released owner there result =>
    rename_i d sent streamId entryId entry
    obtain ⟨s, found, here⟩ := lookup_found there
    have same := Stream.entry_id here
    subst same
    have busy : entry.inflightSends ≠ 0 := by
      have counted := sound.exact streamId entry.id
      rw [Sound.frames_released released, if_pos owner, inflight_found found, Stream.inflight_of_entry here] at counted
      omega
    have flown := flying_released released
    have found' := released.streams ▸ found
    have view : ((d.recordWritten streamId entry sent.payloadWritten).landSend streamId entry.id result).book =
        { c.book.modifyEntry streamId entry.id fun entry => { entry with
            writtenBytes := entry.writtenBytes + sent.payloadWritten
            result := if entry.result = none then result else entry.result
            inflightSends := entry.inflightSends - 1 } with
          flying := fun stream id => c.book.flying stream id -
            if stream = streamId ∧ id = entry.id then sent.logicalBytes else 0
          changes := c.book.changes ++ writtenChange entry sent.payloadWritten
          failed := c.book.failed || (result.isSome && entry.id ∈ c.book.queue streamId) } := by
      have modified := book_modifyEntry found' entry.id fun entry => { entry with
        writtenBytes := entry.writtenBytes + sent.payloadWritten
        result := if entry.result = none then result else entry.result
        inflightSends := entry.inflightSends - 1 }
      have before : d.book = { c.book with flying := d.flying } := by
        cases released <;> rfl
      have failed : d.queues streamId entry.id = decide (entry.id ∈ c.book.queue streamId) := by
        rw [book_queue found]
        simp [queues, found']
      rw [landSend_eq]
      refine Book.ext ?_ ?_ (funext fun stream => funext fun id => ?_) ?_ ?_ ?_ ?_ ?_ ?_ ?_
      · refine (congrArg Book.entries modified).trans ?_
        rw [before]
        rfl
      · refine (congrArg Book.queue modified).trans ?_
        rw [before]
        rfl
      · have same := flown stream id
        rw [owner] at same
        simp only [Option.some.injEq, Prod.mk.injEq, eq_comm (a := streamId), eq_comm (a := entry.id)] at same
        change d.flying stream id = c.flying stream id - _
        omega
      · exact congrArg (fun b : Book => b.changes ++ writtenChange entry sent.payloadWritten) before
      · exact (congrArg Book.accepted before :)
      · exact (congrArg Book.frames before :)
      · exact (congrArg Book.next before :)
      · exact (congrArg Book.closed before :)
      · exact (congrArg Book.returned before :)
      · rw [← failed]
        exact congrArg (fun b : Book => b.failed || (result.isSome && d.queues streamId entry.id)) before
    rw [view]
    refine .single (.land result ((book_entry found entry.id).trans here) busy (payloadWritten_le sent) ?_)
    have same := flown streamId entry.id
    rw [if_pos owner] at same
    change sent.logicalBytes ≤ c.flying streamId entry.id
    omega

theorem steps_cuts {b b' : Book} (steps : ReflGen (Book.Step ok) b b') : ReflTransGen (Book.Cut ok) b b' :=
  (steps.mono fun _ _ step => .step step).to_reflTransGen

theorem cuts_book (cuts : ReflTransGen Cut c d) : ReflTransGen (Book.Cut ok) c.book d.book :=
  ReflTransGen.lift' book (fun _ _ cut => cut.book.to_reflTransGen) _ _ cuts

theorem Tick.book (sound : Sound c) (tick : Tick ok c d) : ReflTransGen (Book.Cut ok) c.book d.book := by
  cases tick with
  | turn turn =>
    cases turn with
    | move move =>
      cases move with
      | atom atom => exact steps_cuts atom.book
      | schedule cuts => exact cuts_book cuts
    | append found running active allowed => exact .single (.step (append_book found allowed))
    | shift =>
      refine steps_cuts (still ?_)
      exact book_modify_same c _ fun _ => ⟨rfl, rfl⟩
    | initial => exact .refl
  | loop loop => exact steps_cuts (loop.book sound)

theorem ticks_book (sound : Sound c) (path : ReflTransGen (Tick ok) c d) : ReflTransGen (Book.Cut ok) c.book d.book := by
  induction path with
  | refl => exact .refl
  | tail before tick ih => exact ih.trans (tick.book (sound.ticks before))

theorem Happens.book (ready : Ready c) (happens : Happens ok c d) : ReflTransGen (Book.Cut ok) c.book d.book := by
  cases happens with
  | proceeds proceeds =>
    cases proceeds with
    | ticks path => exact ticks_book ready.sound path
    | leaves before running idle after =>
      rename_i mid last
      have left : Sound { mid with sendLoopRunning := false } :=
        (ready.sound.ticks before).keep rfl (fun _ _ => rfl) rfl rfl rfl id
      have stopped := ticks_book left after
      exact (ticks_book ready.sound before).trans stopped
  | ends ends after =>
    have ended : ReflGen (Book.Step ok) c.book _ := ends.calm.book
    exact (steps_cuts ended).trans (ticks_book (ready.sound.calm ends.calm) after)

end Conn

namespace Session

/-- A property of the book that every step keeps holds after every run. -/
theorem run_book {ok : Conn.Allowed} {P : Book → Prop} (step : ∀ {b b' : Book}, Book.Cut ok b b' → P b → P b')
    (options : Options) (start : P (Conn.init options).book) {events : List Event}
    (meet : ∀ event ∈ events, event.Meets ok) : P ((Session.init options).run events).conn.book := by
  refine (run_induction (s := Session.init options) (P := fun c => P c.book) ?_ (.init options) start meet).2
  intro c d ready happens held
  exact Conn.keeps_path (P := P) step (Conn.Happens.book ready happens) held

/-- A client that sends frames of at most four bytes. -/
def smallFrames : Options := { role := .client, maxPeerConcurrentStreams := 1, maxFrameSize := 4 }

end Session

end FiberGateway.Http2
