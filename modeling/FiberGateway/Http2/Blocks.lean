import FiberGateway.Http2.Book
import FiberGateway.Http2.Wire

namespace FiberGateway.Http2

open List Function

open Relation

namespace SendEntry

/-- The stream whose header block is not ended by the frame. -/
def opens (frame : SendEntry) : Option Nat :=
  match frame.frameHeader with
  | none => none
  | some fhr =>
    if (fhr.type = .headers ∨ fhr.type = .continuation) ∧ fhr.has kFlagEndHeaders = false then some fhr.streamId
    else none

/-- The frame is a CONTINUATION of the stream's header block. -/
def Continues (frame : SendEntry) (streamId : Nat) : Prop :=
  ∃ fhr, frame.frameHeader = some fhr ∧ fhr.type = .continuation ∧ fhr.streamId = streamId

def Follows (frame next : SendEntry) : Prop := ∀ streamId, frame.opens = some streamId → next.Continues streamId

end SendEntry

/-- A HEADERS or CONTINUATION frame that does not end its header block is followed by a CONTINUATION of the same stream,
up to the frame that does. -/
structure Blocks (frames : List SendEntry) : Prop where
  chain : frames.IsChain SendEntry.Follows
  closed : ∀ frame ∈ frames.getLast?, frame.opens = none

namespace Blocks

variable {frame : SendEntry} {frames more : List SendEntry}

theorem nil : Blocks [] := ⟨isChain_nil, fun _ last => by cases last⟩

theorem append (first : Blocks frames) (second : Blocks more) : Blocks (frames ++ more) := by
  refine ⟨first.chain.append second.chain fun last atEnd next _ streamId opened => ?_, fun last atEnd => ?_⟩
  · rw [first.closed last atEnd] at opened
    cases opened
  · cases more with
    | nil => exact first.closed last (by simpa using atEnd)
    | cons next rest => exact second.closed last (by simpa using atEnd)

/-- A frame in front that ends its block, or is continued. -/
theorem cons (rest : Blocks frames)
    (follows : ∀ streamId, frame.opens = some streamId → ∃ next behind, frames = next :: behind ∧
      next.Continues streamId) : Blocks (frame :: frames) := by
  refine ⟨isChain_cons.mpr ⟨fun next first streamId opened => ?_, rest.chain⟩, fun last atEnd => ?_⟩
  · obtain ⟨other, behind, same, continues⟩ := follows streamId opened
    rw [same] at first
    cases first
    exact continues
  · cases frames with
    | nil =>
      simp only [List.getLast?_singleton, Option.mem_some_iff] at atEnd
      subst atEnd
      by_contra opened
      obtain ⟨streamId, opened⟩ := Option.ne_none_iff_exists'.mp opened
      obtain ⟨next, behind, same, -⟩ := follows streamId opened
      cases same
    | cons next behind => exact rest.closed last (by simpa using atEnd)

theorem single (ended : frame.opens = none) : Blocks [frame] :=
  nil.cons fun streamId opened => by
    rw [ended] at opened
    cases opened

end Blocks

/-- The flag that ends a header block, in flags that are combined. -/
theorem endHeaders_or {flags last : UInt8} (ends : last &&& kFlagEndHeaders ≠ 0) :
    (flags ||| last) &&& kFlagEndHeaders ≠ 0 := by
  have distributes : (flags ||| last) &&& kFlagEndHeaders = (flags &&& kFlagEndHeaders) ||| (last &&& kFlagEndHeaders) := by
    apply UInt8.toBitVec_inj.mp
    ext i
    simp [Bool.and_or_distrib_right]
  rw [distributes]
  exact fun zero => ends (UInt8.or_eq_zero_iff.mp zero).2

namespace Conn

variable {c d : Conn} {streamId bytes other : Nat} {s : Stream} {entry : PendingEntry}

theorem fragment_data (data : entry.kind = .data) (bytes : Nat) : (fragment streamId entry bytes).opens = none := by
  simp [SendEntry.opens, fragment, data]

theorem fragment_opens (opened : (fragment streamId entry bytes).opens = some other) :
    other = streamId := by
  simp only [SendEntry.opens, fragment] at opened
  exact (Option.some.inj (Option.ite_none_right_eq_some.mp opened).2).symm

theorem fragment_last (ends : entry.lastFrameFlags &&& kFlagEndHeaders ≠ 0) (header : entry.kind = .header) :
    (fragment streamId entry entry.payload.length).opens = none := by
  simp [SendEntry.opens, fragment, header, FrameHeader.has, endHeaders_or ends]

theorem fragment_continues (header : entry.kind = .header) (begun : entry.payload.length ≠ entry.totalBytes) (bytes : Nat) :
    (fragment streamId entry bytes).Continues streamId :=
  ⟨_, rfl, by simp [header, begun], rfl⟩

end Conn

namespace Book

open Conn

/-- Header entries end their blocks. -/
def endsHeaders : Allowed := fun kind _ _ last => kind = .header → last &&& kFlagEndHeaders ≠ 0

variable {b b' : Book} {exempt more : Nat → Nat → Prop} {streamId entryId : Nat}

/-- Header entries end their blocks, and while the send queue takes frames those still queued are whole. -/
structure Whole (exempt : Nat → Nat → Prop) (b : Book) : Prop where
  flagged : ∀ streamId, ∀ entry ∈ b.entries streamId, entry.kind = .header → entry.lastFrameFlags &&& kFlagEndHeaders ≠ 0
  unbroken : b.closed = false → ∀ streamId, ∀ entryId ∈ b.queue streamId, ¬exempt streamId entryId →
    ∀ entry, b.entry streamId entryId = some entry → entry.kind = .header → entry.payload.length = entry.totalBytes

namespace Whole

theorem init (options : Options) : Whole exempt (Conn.init options).book := by
  have empty (streamId : Nat) : (Conn.init options).streams.find streamId = none :=
    LinearProbing.Table.find_init _ _ (bucketCount_roomy _) _
  refine ⟨fun streamId entry member => ?_, fun _ streamId entryId member => ?_⟩
  · simp [Conn.book, empty] at member
  · simp [Conn.book, empty] at member

theorem weaken (whole : Whole exempt b) (wider : ∀ stream id, exempt stream id → more stream id) :
    Whole more b :=
  ⟨whole.flagged, fun opened streamId entryId member apart =>
    whole.unbroken opened streamId entryId member fun exempted => apart (wider _ _ exempted)⟩

/-- Entries keep their kind, their flags and their payload. -/
theorem keep (whole : Whole exempt b) (opened : b'.closed = false → b.closed = false)
    (entries : ∀ stream, ∀ entry ∈ b'.entries stream, ∃ before ∈ b.entries stream, entry.kind = before.kind ∧
      entry.lastFrameFlags = before.lastFrameFlags)
    (queue : ∀ stream, ∀ id ∈ b'.queue stream, id ∈ b.queue stream)
    (lookups : ∀ stream id entry, id ∈ b'.queue stream → b'.entry stream id = some entry →
      ∃ before, b.entry stream id = some before ∧ entry.kind = before.kind ∧ entry.payload = before.payload ∧
        entry.totalBytes = before.totalBytes) : Whole exempt b' := by
  refine ⟨fun stream entry member header => ?_, fun unclosed stream id member apart entry there header => ?_⟩
  · obtain ⟨before, listed, kind, flags⟩ := entries stream entry member
    rw [flags]
    exact whole.flagged stream before listed (kind ▸ header)
  · obtain ⟨before, there', kind, payload, total⟩ := lookups stream id entry member there
    rw [payload, total]
    exact whole.unbroken (opened unclosed) stream id (queue stream id member) apart before there' (kind ▸ header)

variable {f : PendingEntry → PendingEntry} {entry : PendingEntry} {bytes stream : Nat} {rest : List Nat}

theorem modifyEntry_mem
    (keeps : ∀ entry, (f entry).kind = entry.kind ∧ (f entry).lastFrameFlags = entry.lastFrameFlags)
    (member : entry ∈ (b.modifyEntry streamId entryId f).entries stream) :
    ∃ before ∈ b.entries stream, entry.kind = before.kind ∧ entry.lastFrameFlags = before.lastFrameFlags := by
  change entry ∈ update b.entries streamId _ stream at member
  rw [update_apply] at member
  split at member
  · rename_i same
    subst same
    obtain ⟨before, listed, rfl⟩ := mem_map.mp member
    refine ⟨before, listed, ?_⟩
    split
    · exact keeps before
    · exact ⟨rfl, rfl⟩
  · exact ⟨entry, member, rfl, rfl⟩

theorem modifyEntry (whole : Whole exempt b)
    (keeps : ∀ entry, (f entry).id = entry.id ∧ (f entry).kind = entry.kind ∧ (f entry).lastFrameFlags = entry.lastFrameFlags)
    (same : ∀ entry, (f entry).payload = entry.payload ∧ (f entry).totalBytes = entry.totalBytes)
    (entries : b'.entries = (b.modifyEntry streamId entryId f).entries) (queue : b'.queue = b.queue)
    (closed : b'.closed = b.closed) : Whole exempt b' := by
  refine whole.keep (fun opened => closed ▸ opened) (fun stream entry member => ?_) (fun stream id member => queue ▸ member)
    fun stream id entry _ there => ?_
  · rw [entries] at member
    exact modifyEntry_mem (fun entry => (keeps entry).2) member
  · rw [Book.entry, entries] at there
    change (b.modifyEntry streamId entryId f).entry stream id = some entry at there
    rw [b.entry_modifyEntry streamId entryId fun entry => (keeps entry).1] at there
    split at there
    · obtain ⟨before, there', rfl⟩ := Option.map_eq_some_iff.mp there
      exact ⟨before, there', (keeps before).2.1, same before⟩
    · exact ⟨entry, there, rfl, rfl, rfl⟩

theorem step (step : Step endsHeaders b b') (whole : Whole exempt b) : Whole exempt b' := by
  have unchanged {b' : Book} (entries : b'.entries = b.entries) (queue : ∀ stream, ∀ id ∈ b'.queue stream, id ∈ b.queue stream)
      (opened : b'.closed = false → b.closed = false) :=
    whole.keep opened (fun stream entry member => ⟨entry, entries ▸ member, rfl, rfl⟩) queue
      fun stream id entry _ there => ⟨entry, by rw [Book.entry, ← entries]; exact there, rfl, rfl, rfl⟩
  cases step with
  | close => exact unchanged rfl (fun _ _ => id) fun opened => by cases opened
  | control => exact unchanged rfl (fun _ _ => id) id
  | clear streamId =>
    refine unchanged rfl (fun stream id member => ?_) id
    change id ∈ update b.queue streamId [] stream at member
    rw [update_apply] at member
    split at member
    · cases member
    · exact member
  | finish result there idle whole' cause =>
    rename_i streamId entryId entry
    refine whole.keep id (fun stream entry member => ?_) (fun _ _ => id) fun stream id entry _ there => ?_
    · change entry ∈ update b.entries streamId _ stream at member
      rw [update_apply] at member
      split at member
      · rename_i same
        exact ⟨entry, same ▸ mem_of_mem_filter member, rfl, rfl⟩
      · exact ⟨entry, member, rfl, rfl⟩
    · have there' := (b.entry_filter streamId entryId stream id).symm.trans there
      split at there'
      · cases there'
      · exact ⟨entry, there', rfl, rfl, rfl⟩
  | fail err there unqueued =>
    exact whole.modifyEntry (by intro; exact ⟨rfl, rfl, rfl⟩) (by intro; exact ⟨rfl, rfl⟩) rfl rfl rfl
  | append streamId allowed =>
    rename_i kind payload first last
    refine ⟨fun stream entry member header => ?_, fun opened stream id member apart entry there header => ?_⟩
    · change entry ∈ update b.entries streamId _ stream at member
      rw [update_apply] at member
      split at member
      · rename_i same
        rcases mem_cons.mp member with rfl | before
        · exact allowed header
        · exact whole.flagged streamId entry before header
      · exact whole.flagged stream entry member header
    · have there' := (b.entry_cons streamId (.init b.next kind payload first last) stream id).symm.trans there
      split at there'
      · cases there'
        rfl
      rename_i old
      refine whole.unbroken opened stream id ?_ apart entry there' header
      change id ∈ update b.queue streamId _ stream at member
      rw [update_apply] at member
      split at member
      · rename_i same
        rcases mem_append.mp member with before | new
        · exact same ▸ before
        · exact absurd ⟨same, mem_singleton.mp new⟩ old
      · exact member
  | land result there busy within flying =>
    exact whole.modifyEntry (by intro; exact ⟨rfl, rfl, rfl⟩) (by intro; exact ⟨rfl, rfl⟩) rfl rfl rfl

/-- A frame is cut off the entry at the head of the queue, which may be broken from then on, or has left the queue. -/
theorem sendFragment (whole : Whole (fun stream id => stream = streamId ∧ id = entry.id) b)
    (head : b.queue streamId = entry.id :: rest) (lined : entry.id ∉ rest)
    (there : b.entry streamId entry.id = some entry)
    (settled : entry.kind = .data ∨ bytes = entry.payload.length ∨ exempt streamId entry.id) :
    Whole exempt (b.sendFragment streamId entry bytes rest) := by
  refine ⟨fun stream other member header => ?_, fun opened stream id member apart other found header => ?_⟩
  · obtain ⟨before, listed, kind, flags⟩ := modifyEntry_mem (b := b) (by intro; exact ⟨rfl, rfl⟩) member
    rw [flags]
    exact whole.flagged stream before listed (kind ▸ header)
  · have found' := (b.entry_modifyEntry streamId entry.id (by intro; rfl) stream id).symm.trans found
    change id ∈ update b.queue streamId _ stream at member
    rw [update_apply] at member
    by_cases here : stream = streamId ∧ id = entry.id
    · obtain ⟨rfl, rfl⟩ := here
      rw [if_pos ⟨rfl, rfl⟩, there] at found'
      cases found'
      rcases settled with data | last | exempted
      · rw [show entry.kind = .header from header] at data
        cases data
      · rw [if_pos rfl, if_pos last] at member
        exact absurd member lined
      · exact absurd exempted apart
    · rw [if_neg here] at found'
      refine whole.unbroken opened stream id ?_ here other found' header
      split at member
      · rename_i same
        rw [same, head]
        split at member
        · exact mem_cons_of_mem _ member
        · exact member
      · exact member

theorem pop (whole : Whole exempt b) (head : b.queue streamId = entryId :: rest) :
    Whole exempt { b with queue := update b.queue streamId rest } := by
  refine whole.keep id (fun _ entry member => ⟨entry, member, rfl, rfl⟩) (fun stream id member => ?_)
    fun _ _ entry _ there => ⟨entry, there, rfl, rfl, rfl⟩
  change id ∈ update b.queue streamId rest stream at member
  rw [update_apply] at member
  split at member
  · rename_i same
    rw [same, head]
    exact mem_cons_of_mem _ member
  · exact member

theorem lost (whole : Whole exempt b) : Whole exempt { b.modifyEntry streamId entryId fun entry =>
    { entry with payload := entry.payload.drop bytes } with closed := true } := by
  refine ⟨fun stream entry member header => ?_, fun opened => by cases opened⟩
  obtain ⟨before, listed, kind, flags⟩ := modifyEntry_mem (b := b) (by intro; exact ⟨rfl, rfl⟩) member
  rw [flags]
  exact whole.flagged stream before listed (kind ▸ header)

theorem steps (steps : ReflGen (Step endsHeaders) b b') (whole : Whole exempt b) : Whole exempt b' := by
  cases steps with
  | refl => exact whole
  | single step => exact whole.step step

theorem atoms {c d : Conn} (path : ReflTransGen Atom c d) (whole : Whole exempt c.book) : Whole exempt d.book :=
  keeps_path (P := fun c => Whole exempt c.book) (fun atom whole => whole.steps atom.book) path whole

end Whole

end Book

namespace Stream

variable {s : Stream} {entry : PendingEntry}

theorem queuedBytes_sendFragment (there : s.entry entry.id = some entry) {bytes : Nat}
    (within : bytes ≤ entry.payload.length) : (s.sendFragment entry bytes).queuedBytes + bytes ≤ s.queuedBytes := by
  unfold queuedBytes Stream.sendFragment Stream.modifyEntry
  unfold Stream.entry at there
  simp only
  generalize s.entries = entries at there
  have shrinks (entries : List PendingEntry) : ((entries.map fun other => if other.id = entry.id then { other with
      payload := other.payload.drop bytes
      inflightSends := other.inflightSends + 1 } else other).map (·.payload.length)).sum ≤
      (entries.map (·.payload.length)).sum := by
    induction entries with
    | nil => exact le_rfl
    | cons first rest ih =>
      simp only [map_cons, sum_cons]
      split
      · simp only [length_drop]
        omega
      · omega
  induction entries with
  | nil => cases there
  | cons first rest ih =>
    have less := shrinks rest
    simp only [map_cons, sum_cons]
    by_cases here : first.id = entry.id
    · simp only [List.find?_cons, here, decide_true, Option.some.injEq] at there
      subst there
      simp only [if_true, length_drop]
      omega
    · simp only [List.find?_cons, here, decide_false] at there
      have later := ih there
      simp only [here, if_false]
      omega

end Stream

namespace Conn

variable {c d : Conn} {streamId : Nat} {s : Stream} {entry : PendingEntry}

theorem syncConnWindowWaitMembership_book (c : Conn) (streamId : Nat) :
    (c.syncConnWindowWaitMembership streamId).book = c.book := by
  unfold syncConnWindowWaitMembership linkWaiting
  split
  · rfl
  · split_ifs <;> rfl

theorem fragmentBytes_header (header : entry.kind = .header) :
    c.fragmentBytes s entry = min entry.payload.length c.peerMaxOutboundFrameSize := by
  simp [fragmentBytes, header]

/-- The scheduler is within the header block of the entry at the head of the stream's queue. -/
structure Midway (c : Conn) (s : Stream) (entry : PendingEntry) : Prop where
  head : s.pendingHead = some entry
  header : entry.kind = .header
  left : entry.payload ≠ []
  begun : entry.payload.length < entry.totalBytes
  opened : c.Opened
  limit : 0 < c.peerMaxOutboundFrameSize

theorem Midway.positive (midway : c.Midway s entry) : 0 < c.fragmentBytes s entry := by
  rw [fragmentBytes_header midway.header]
  exact lt_min (length_pos_iff.mpr midway.left) midway.limit

/-- What a call of the scheduler adds to the send queue, which starts with a CONTINUATION if one is due. -/
def Emits (due : Prop) (streamId : Nat) (c d : Conn) : Prop :=
  ∃ more, d.enqueued = c.enqueued ++ more ∧ Blocks more ∧ d.book.Whole (fun _ _ => False) ∧
    (due → ∃ next behind, more = next :: behind ∧ next.Continues streamId)

theorem Emits.none {due : Prop} (whole : d.book.Whole fun _ _ => False) (enqueued : d.enqueued = c.enqueued)
    (settled : ¬due) : Emits due streamId c d :=
  ⟨[], by rw [enqueued, append_nil], .nil, whole, fun now => absurd now settled⟩

theorem Emits.finish {due : Prop} (emits : Emits due streamId c d) (result : ScheduleResult) :
    Emits due streamId c (finishSchedule streamId result d).2 := by
  have same := d.syncConnWindowWaitMembership_book streamId
  obtain ⟨more, enqueued, blocks, whole, continues⟩ := emits
  exact ⟨more, (congrArg Book.frames same).trans enqueued, blocks, same ▸ whole, continues⟩

theorem Midway.sentFragment (streamId : Nat) (head : s.pendingHead = some entry)
    (header : entry.kind = .header) (whole : entry.payload.length ≤ entry.totalBytes) (opened : c.Opened)
    (positive : 0 < c.fragmentBytes s entry) (more : c.fragmentBytes s entry ≠ entry.payload.length) :
    (c.sentFragment streamId entry (c.fragmentBytes s entry)).Midway (s.sendFragment entry (c.fragmentBytes s entry))
      { entry with
        payload := entry.payload.drop (c.fragmentBytes s entry)
        inflightSends := entry.inflightSends + 1 } := by
  obtain ⟨there, rest, pending⟩ := Stream.pendingHead_entry head
  have limit : 0 < c.peerMaxOutboundFrameSize := by
    rw [fragmentBytes_header header] at positive
    omega
  have less := c.fragmentBytes_le s entry
  generalize c.fragmentBytes s entry = bytes at *
  have there' : (s.sendFragment entry bytes).entry entry.id = _ :=
    (s.entry_modifyEntry entry.id _ (by intro; rfl) entry.id).trans (by rw [if_pos rfl, there])
  refine ⟨?_, header, ?_, ?_, ?_, ?_⟩
  · unfold Stream.pendingHead
    rw [show (s.sendFragment entry bytes).pending = entry.id :: rest by simp [Stream.sendFragment, more, pending]]
    exact there'
  · rw [ne_eq, drop_eq_nil_iff]
    omega
  · simp only [length_drop]
    omega
  · rw [sentFragment_eq]
    exact ⟨opened.started, opened.valid, opened.running, opened.unclosed⟩
  · rw [sentFragment_eq]
    exact limit

/-- A call of the scheduler sends whole header blocks, when it starts with whole header entries or within one. -/
theorem scheduleLoop_emits (fuel : Nat) (scheduledAny : Bool) (sound : Sound c) (found : c.streams.find streamId = some s)
    (enough : s.queuedBytes < fuel)
    (start : c.book.Whole (fun _ _ => False) ∨ ∃ entry, c.Midway s entry ∧
      c.book.Whole fun stream id => stream = streamId ∧ id = entry.id) :
    Emits (∃ entry, c.Midway s entry) streamId c (scheduleLoop streamId fuel scheduledAny c).2 := by
  induction fuel generalizing c s scheduledAny with
  | zero => cases enough
  | succ fuel ih =>
    -- outside a header block all entries are whole
    have outside (settled : ¬∃ entry, c.Midway s entry) :=
      start.resolve_right fun ⟨entry, midway, _⟩ => settled ⟨entry, midway⟩
    have stop (settled : ¬∃ entry, c.Midway s entry) (result : ScheduleResult) :
        Emits (∃ entry, c.Midway s entry) streamId c (finishSchedule streamId result c).2 :=
      (Emits.none (outside settled) rfl settled).finish result
    unfold scheduleLoop
    rw [found]
    dsimp only
    split
    · rename_i none_pending
      refine stop (fun ⟨entry, midway⟩ => ?_) _
      rw [midway.head] at none_pending
      cases none_pending
    rename_i entry head
    obtain ⟨there, rest, pending⟩ := Stream.pendingHead_entry head
    have same {other : PendingEntry} (midway : c.Midway s other) := Option.some.inj (midway.head.symm.trans head)
    have data (data : entry.kind = .data) : ¬∃ entry, c.Midway s entry := fun ⟨other, midway⟩ => by
      rw [← same midway, midway.header] at data
      cases data
    have lined : entry.id ∉ rest := by
      have distinct := (sound.solid found).lined
      rw [pending] at distinct
      exact (nodup_cons.mp distinct).1
    split
    · rename_i blocked
      exact stop (data blocked.1) _
    split
    · rename_i blocked
      exact stop (data blocked.1) _
    split
    · rename_i empty
      have settled : ¬∃ entry, c.Midway s entry := fun ⟨other, midway⟩ =>
        midway.left (same midway ▸ empty)
      obtain ⟨unqueued, lookedUp⟩ := popPendingHead_filled sound found head
      have ended := maybeFinishPending_atoms unqueued (.inl (Option.isSome_iff_exists.mpr ⟨entry, lookedUp⟩))
      have popped : (c.modifyStream streamId Stream.popPendingHead).book.Whole fun _ _ => False := by
        rw [popPendingHead_book found pending]
        exact (outside settled).pop (book_queue found ▸ pending)
      exact (Emits.none (popped.atoms ended.path) (maybeFinishPending_closeSide _ streamId entry.id).enqueued
        settled).finish _
    rename_i filled
    split
    · rename_i no_bytes
      refine stop (fun ⟨other, midway⟩ => ?_) _
      have positive := midway.positive
      rw [same midway, no_bytes] at positive
      cases positive
    rename_i some_bytes
    have positive := Nat.pos_of_ne_zero some_bytes
    have within := c.fragmentBytes_le s entry
    rcases c.sendFragment_cases streamId entry (c.fragmentBytes s entry) with ⟨err, refused⟩ | ⟨opened, taken⟩
    · rw [refused]
      have settled : ¬∃ entry, c.Midway s entry := fun ⟨other, midway⟩ => by
        rw [sendFragment_opened midway.opened] at refused
        cases refused
      have shut := sound.splitEntry_shut streamId entry (c.fragmentBytes s entry) err
      refine (Emits.none ?_ ?_ settled).finish _
      · rw [splitEntry_book found shut]
        exact (outside settled).lost
      · rw [← (abortConnection_quiet _ err).same]
        rfl
    rw [taken]
    have book := sentFragment_book found pending (c.fragmentBytes s entry)
    have enqueued := congrArg Book.frames book
    have exempted : c.book.Whole fun stream id => stream = streamId ∧ id = entry.id := by
      rcases start with whole | ⟨other, midway, whole⟩
      · exact whole.weaken fun _ _ impossible => impossible.elim
      · exact same midway ▸ whole
    have head' := (book_queue found).trans pending
    have there' := (book_entry found entry.id).trans there
    dsimp only
    split
    · rename_i header
      have less := s.queuedBytes_sendFragment there within
      have sent := sound.cuts (.single (.fragment found head positive opened))
      have begun : entry.payload.length ≤ entry.totalBytes := by
        rcases start with whole | ⟨other, midway, -⟩
        · exact (whole.unbroken opened.unclosed streamId entry.id (head' ▸ mem_cons_self) id entry there'
            header).le
        · exact same midway ▸ midway.begun.le
      have inside (more : c.fragmentBytes s entry ≠ entry.payload.length) :=
        Midway.sentFragment streamId head header begun opened positive more
      obtain ⟨more, enqueued', blocks, whole, continues⟩ := ih true sent (sentFragment_find found entry _)
        (by omega) (by
          rw [book]
          by_cases last : c.fragmentBytes s entry = entry.payload.length
          · exact .inl (exempted.sendFragment head' lined there' (.inr (.inl last)))
          · exact .inr ⟨_, inside last, exempted.sendFragment head' lined there' (.inr (.inr ⟨rfl, rfl⟩))⟩)
      refine ⟨fragment streamId entry (c.fragmentBytes s entry) :: more, ?_, blocks.cons fun other opens => ?_,
        whole, fun ⟨other, midway⟩ => ⟨_, more, rfl, fragment_continues header ?_ _⟩⟩
      · rw [enqueued', show (c.sentFragment streamId entry _).enqueued = _ from enqueued]
        exact append_assoc ..
      · rw [fragment_opens opens]
        refine continues ⟨_, inside fun last => ?_⟩
        rw [last, fragment_last (exempted.flagged streamId entry ?_ header) header] at opens
        · cases opens
        · rw [book_entries found]
          exact Stream.entry_mem there
      · exact same midway ▸ midway.begun.ne
    · rename_i other
      have data' : entry.kind = .data := by
        cases kind : entry.kind with
        | data => rfl
        | header => exact absurd kind other
      refine Emits.finish ⟨[fragment streamId entry (c.fragmentBytes s entry)], enqueued,
        .single (fragment_data data' _), ?_, fun due => absurd due (data data')⟩ _
      rw [book]
      exact exempted.sendFragment head' lined there' (.inl data')

theorem Unowned.opens {frame : SendEntry} (unowned : Unowned frame) : frame.opens = none := by
  cases unowned <;> rfl

/-- What was enqueued is made of whole header blocks, and so are the entries that wait. -/
structure Framed (c : Conn) : Prop where
  blocks : Blocks c.enqueued
  whole : c.book.Whole fun _ _ => False

namespace Framed

theorem init (options : Options) : Framed (Conn.init options) := ⟨.nil, .init options⟩

theorem step (steps : ReflGen (Book.Step Book.endsHeaders) c.book d.book) (framed : Framed c) : Framed d := by
  refine ⟨?_, framed.whole.steps steps⟩
  have blocks := framed.blocks
  change Blocks d.book.frames
  generalize d.book = after at steps
  cases steps with
  | refl => exact blocks
  | single step =>
    cases step with
    | control unowned opened => exact blocks.append (.single unowned.opens)
    | _ => exact blocks

theorem tick (tick : Tick Book.endsHeaders c d) (sound : Sound c) (framed : Framed c) : Framed d := by
  cases tick with
  | turn turn =>
    cases turn with
    | move move =>
      cases move with
      | atom atom => exact framed.step atom.book
      | schedule cuts =>
        rename_i streamId
        unfold schedulePending
        split
        · exact ⟨framed.blocks, framed.whole⟩
        rename_i s found
        obtain ⟨more, enqueued, blocks, whole, -⟩ := scheduleLoop_emits (scheduleFuel s) false sound found
          (by unfold scheduleFuel; omega) (.inl framed.whole)
        exact ⟨enqueued ▸ framed.blocks.append blocks, whole⟩
    | append found running active allowed => exact framed.step (.single (append_book found allowed))
    | shift => exact framed.step (still (book_modify_same c _ fun _ => ⟨rfl, rfl⟩))
    | initial => exact ⟨framed.blocks, framed.whole⟩
  | loop loop => exact framed.step (loop.book sound)

theorem ticks (path : ReflTransGen (Tick Book.endsHeaders) c d) (sound : Sound c) (framed : Framed c) : Framed d := by
  induction path with
  | refl => exact framed
  | tail before tick ih => exact ih.tick tick (sound.ticks before)

theorem happens (happens : Happens Book.endsHeaders c d) (ready : Ready c) (framed : Framed c) : Framed d := by
  cases happens with
  | proceeds proceeds =>
    cases proceeds with
    | ticks path => exact framed.ticks path ready.sound
    | leaves before running idle after =>
      rename_i mid last
      have left : Sound { mid with sendLoopRunning := false } :=
        (ready.sound.ticks before).keep rfl (fun _ _ => rfl) rfl rfl rfl id
      have stopped := framed.ticks before ready.sound
      have halted : Framed { mid with sendLoopRunning := false } := ⟨stopped.blocks, stopped.whole⟩
      have released := halted.ticks after left
      exact ⟨released.blocks, released.whole⟩
  | ends ends after =>
    exact (framed.step ends.calm.book).ticks after (ready.sound.calm ends.calm)

end Framed

end Conn

end FiberGateway.Http2
