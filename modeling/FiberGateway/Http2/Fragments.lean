import FiberGateway.Http2.Book

namespace FiberGateway.Http2

open List Function

namespace PendingEntry

/-- What the frames of an entry are made of. -/
structure Alike (a b : PendingEntry) : Prop where
  id : a.id = b.id
  kind : a.kind = b.kind
  payload : a.payload = b.payload
  first : a.firstFrameFlags = b.firstFrameFlags
  last : a.lastFrameFlags = b.lastFrameFlags
  total : a.totalBytes = b.totalBytes

theorem Alike.refl (entry : PendingEntry) : entry.Alike entry := ⟨rfl, rfl, rfl, rfl, rfl, rfl⟩

theorem Alike.trans {a b c : PendingEntry} (first : a.Alike b) (second : b.Alike c) : a.Alike c :=
  ⟨first.id.trans second.id, first.kind.trans second.kind, first.payload.trans second.payload,
    first.first.trans second.first, first.last.trans second.last, first.total.trans second.total⟩

theorem Alike.fragment {a b : PendingEntry} (alike : a.Alike b) (streamId bytes : Nat) :
    Conn.fragment streamId a bytes = Conn.fragment streamId b bytes := by
  simp only [Conn.fragment, alike.id, alike.kind, alike.payload, alike.first, alike.last, alike.total]

/-- An entry behind its first `bytes` payload bytes. -/
def behind (entry : PendingEntry) (bytes : Nat) : PendingEntry := { entry with payload := entry.payload.drop bytes }

/-- The frames of an entry that is cut into pieces of the given sizes. -/
def chop (streamId : Nat) : PendingEntry → List Nat → List SendEntry
  | _, [] => []
  | entry, bytes :: sizes => Conn.fragment streamId entry bytes :: chop streamId (entry.behind bytes) sizes

theorem behind_behind (entry : PendingEntry) (first second : Nat) :
    (entry.behind first).behind second = entry.behind (first + second) := by
  simp [behind]

theorem chop_append (streamId : Nat) (entry : PendingEntry) (sizes : List Nat) (bytes : Nat) :
    entry.chop streamId (sizes ++ [bytes]) =
      entry.chop streamId sizes ++ [Conn.fragment streamId (entry.behind sizes.sum) bytes] := by
  induction sizes generalizing entry with
  | nil => rfl
  | cons first sizes ih =>
    simp [chop, ih, behind_behind, sum_cons]

end PendingEntry

section Keys

variable {α : Type} (key : α → Nat)

end Keys

/-- The pending entry that a frame was cut from. -/
def SendEntry.entryId (frame : SendEntry) : Nat := (frame.owner.map (·.2)).getD 0

namespace Book

open Conn

variable {ok : Allowed} {b b' : Book} {streamId entryId bytes : Nat}

/-- The entries accepted from a stream. -/
def acceptedOn (b : Book) (streamId : Nat) : List PendingEntry := (b.accepted.filter (·.1 = streamId)).map (·.2)

/-- The frames cut from an entry. -/
def framesOf (b : Book) (streamId entryId : Nat) : List SendEntry :=
  b.frames.filter fun frame => frame.owner = some (streamId, entryId)

theorem framesOf_push (b : Book) (frame : SendEntry) (streamId entryId : Nat) :
    ({ b with frames := b.frames ++ [frame] } : Book).framesOf streamId entryId =
      b.framesOf streamId entryId ++ if frame.owner = some (streamId, entryId) then [frame] else [] := by
  rw [framesOf, framesOf, filter_append]
  by_cases owner : frame.owner = some (streamId, entryId) <;> simp [owner]

/-- The frames of an accepted entry are those of its pieces, as far as they were cut off; while the send queue takes
frames a queued entry has the rest. -/
def Laid (b : Book) (streamId : Nat) (accepted : PendingEntry) : Prop :=
  ∃ sizes : List Nat, (∀ bytes ∈ sizes, 0 < bytes) ∧ sizes.sum ≤ accepted.payload.length ∧
    b.framesOf streamId accepted.id = accepted.chop streamId sizes ∧
    (b.closed = false → accepted.id ∈ b.queue streamId → ∀ entry, b.entry streamId accepted.id = some entry →
      entry.Alike (accepted.behind sizes.sum))

/-- Entries are accepted, queued and cut into frames in the order of their ids. -/
structure Sequenced (ok : Allowed) (b : Book) : Prop where
  allowed : ∀ streamId accepted, (streamId, accepted) ∈ b.accepted →
    accepted.totalBytes = accepted.payload.length ∧
      ok accepted.kind accepted.payload accepted.firstFrameFlags accepted.lastFrameFlags
  rising : (b.accepted.map (·.2.id)).Pairwise (· < ·)
  below : ∀ streamId accepted, (streamId, accepted) ∈ b.accepted → accepted.id < b.next
  owned : ∀ frame ∈ b.frames, ∀ streamId entryId, frame.owner = some (streamId, entryId) →
    ∃ accepted, (streamId, accepted) ∈ b.accepted ∧ accepted.id = entryId
  queued : ∀ streamId, ∀ entryId ∈ b.queue streamId, ∃ accepted, (streamId, accepted) ∈ b.accepted ∧ accepted.id = entryId
  lined : ∀ streamId, (b.queue streamId).Pairwise (· < ·)
  ordered : b.frames.Pairwise fun before after => ∀ streamId first second, before.owner = some (streamId, first) →
    after.owner = some (streamId, second) → first ≤ second
  ahead : ∀ frame ∈ b.frames, ∀ streamId first, frame.owner = some (streamId, first) →
    ∀ second ∈ b.queue streamId, first ≤ second
  laid : ∀ streamId accepted, (streamId, accepted) ∈ b.accepted → b.Laid streamId accepted

namespace Sequenced

theorem init (options : Options) : Sequenced ok (Conn.init options).book := by
  have empty (streamId : Nat) : (Conn.init options).book.queue streamId = [] := by
    simp [Conn.book, show (Conn.init options).streams.find streamId = none from
      LinearProbing.Table.find_init _ _ (bucketCount_roomy _) _]
  refine ⟨fun _ _ member => absurd member not_mem_nil, List.Pairwise.nil,
    fun _ _ member => absurd member not_mem_nil, fun _ member => absurd member not_mem_nil,
    fun streamId entryId member => ?_, fun streamId => ?_, List.Pairwise.nil,
    fun _ member => absurd member not_mem_nil, fun _ _ member => absurd member not_mem_nil⟩
  · rw [empty] at member
    cases member
  · rw [empty]
    exact List.Pairwise.nil

/-- A step that takes nothing but queued ids away, and leaves the queued entries as they are. -/
theorem keep (sequenced : Sequenced ok b) (accepted : b'.accepted = b.accepted) (next : b'.next = b.next)
    (frames : b'.frames = b.frames) (opened : b'.closed = false → b.closed = false)
    (queue : ∀ stream, (b'.queue stream).Sublist (b.queue stream))
    (lookups : b'.closed = false → ∀ stream id entry, id ∈ b'.queue stream → b'.entry stream id = some entry →
      ∃ before, b.entry stream id = some before ∧ entry.Alike before) : Sequenced ok b' := by
  refine ⟨accepted ▸ sequenced.allowed, accepted ▸ sequenced.rising, accepted ▸ next ▸ sequenced.below,
    accepted ▸ frames ▸ sequenced.owned, fun stream id member => accepted ▸ sequenced.queued stream id ((queue stream).subset member),
    fun stream => (sequenced.lined stream).sublist (queue stream), frames ▸ sequenced.ordered,
    fun frame member stream first owner second later =>
      sequenced.ahead frame (frames ▸ member) stream first owner second ((queue stream).subset later),
    fun stream entry member => ?_⟩
  obtain ⟨sizes, positive, within, cut, rest⟩ := sequenced.laid stream entry (accepted ▸ member)
  refine ⟨sizes, positive, within, ?_, fun unclosed queued found there => ?_⟩
  · rw [framesOf, frames]
    exact cut
  · obtain ⟨before, there', alike⟩ := lookups unclosed stream entry.id found queued there
    exact alike.trans (rest (opened unclosed) ((queue stream).subset queued) before there')

theorem modifyEntry (sequenced : Sequenced ok b) {f : PendingEntry → PendingEntry} (alike : ∀ entry, (f entry).Alike entry)
    (entries : b'.entries = (b.modifyEntry streamId entryId f).entries) (accepted : b'.accepted = b.accepted)
    (next : b'.next = b.next) (frames : b'.frames = b.frames) (closed : b'.closed = b.closed) (queue : b'.queue = b.queue) :
    Sequenced ok b' := by
  refine sequenced.keep accepted next frames (fun opened => closed ▸ opened) (fun stream => queue ▸ List.Sublist.refl _)
    fun _ stream id entry _ there => ?_
  rw [Book.entry, entries] at there
  change (b.modifyEntry streamId entryId f).entry stream id = some entry at there
  rw [b.entry_modifyEntry streamId entryId fun entry => (alike entry).id] at there
  split at there
  · obtain ⟨before, there', rfl⟩ := Option.map_eq_some_iff.mp there
    exact ⟨before, there', alike before⟩
  · exact ⟨entry, there, .refl entry⟩

theorem control (sequenced : Sequenced ok b) {frame : SendEntry} (unowned : frame.owner = none) :
    Sequenced ok { b with frames := b.frames ++ [frame] } := by
  refine ⟨sequenced.allowed, sequenced.rising, sequenced.below, fun other member stream id owner => ?_, sequenced.queued,
    sequenced.lined, ?_, fun other member stream first owner => ?_, fun stream entry member => ?_⟩
  · rcases mem_append.mp member with before | last
    · exact sequenced.owned other before stream id owner
    · rw [mem_singleton.mp last, unowned] at owner
      cases owner
  · refine pairwise_append.mpr ⟨sequenced.ordered, pairwise_singleton _ _, fun _ _ last member stream _ _ _ owner => ?_⟩
    rw [mem_singleton.mp member, unowned] at owner
    cases owner
  · rcases mem_append.mp member with before | last
    · exact sequenced.ahead other before stream first owner
    · rw [mem_singleton.mp last, unowned] at owner
      cases owner
  · obtain ⟨sizes, positive, within, cut, rest⟩ := sequenced.laid stream entry member
    refine ⟨sizes, positive, within, ?_, rest⟩
    rw [framesOf_push, unowned, if_neg (by simp), append_nil, cut]

theorem append (sequenced : Sequenced ok b) (streamId : Nat) {kind : PendingKind} {payload : List UInt8} {first last : UInt8}
    (allowed : ok kind payload first last) : Sequenced ok { b with
      entries := update b.entries streamId (.init b.next kind payload first last :: b.entries streamId)
      queue := update b.queue streamId (b.queue streamId ++ [b.next])
      accepted := b.accepted ++ [(streamId, .init b.next kind payload first last)]
      next := b.next + 1 } := by
  have members (stream id : Nat) (member : id ∈ update b.queue streamId (b.queue streamId ++ [b.next]) stream) :
      id ∈ b.queue stream ∨ stream = streamId ∧ id = b.next := by
    rw [update_apply] at member
    split at member
    · rename_i same
      subst same
      exact (mem_append.mp member).imp_right fun new => ⟨rfl, mem_singleton.mp new⟩
    · exact .inl member
  have queued_below {stream id : Nat} (member : id ∈ b.queue stream) : id < b.next := by
    obtain ⟨accepted, listed, rfl⟩ := sequenced.queued stream id member
    exact sequenced.below stream accepted listed
  have owner_below {frame : SendEntry} (member : frame ∈ b.frames) {stream id : Nat}
      (owner : frame.owner = some (stream, id)) : id < b.next := by
    obtain ⟨accepted, listed, rfl⟩ := sequenced.owned frame member stream id owner
    exact sequenced.below stream accepted listed
  refine ⟨fun stream entry member => ?_, ?_, fun stream entry member => ?_, fun frame member stream id owner => ?_,
    fun stream id member => ?_, fun stream => ?_, sequenced.ordered, fun frame member stream before owner id later => ?_,
    fun stream entry member => ?_⟩
  · rcases mem_append.mp member with before | new
    · exact sequenced.allowed stream entry before
    · cases mem_singleton.mp new
      exact ⟨rfl, allowed⟩
  · rw [map_append]
    refine pairwise_append.mpr ⟨sequenced.rising, pairwise_singleton _ _, fun id before other new => ?_⟩
    obtain ⟨⟨stream, entry⟩, listed, rfl⟩ := mem_map.mp before
    rw [mem_singleton.mp new]
    exact sequenced.below stream entry listed
  · rcases mem_append.mp member with before | new
    · exact Nat.lt_succ_of_lt (sequenced.below stream entry before)
    · cases mem_singleton.mp new
      exact Nat.lt_succ_self _
  · obtain ⟨accepted, listed, same⟩ := sequenced.owned frame member stream id owner
    exact ⟨accepted, mem_append_left _ listed, same⟩
  · rcases members stream id member with before | ⟨rfl, rfl⟩
    · obtain ⟨accepted, listed, same⟩ := sequenced.queued stream id before
      exact ⟨accepted, mem_append_left _ listed, same⟩
    · exact ⟨_, mem_append_right _ (mem_singleton_self _), rfl⟩
  · change (update b.queue streamId (b.queue streamId ++ [b.next]) stream).Pairwise (· < ·)
    rw [update_apply]
    split
    · refine pairwise_append.mpr ⟨sequenced.lined streamId, pairwise_singleton _ _, fun id before other new => ?_⟩
      rw [mem_singleton.mp new]
      exact queued_below before
    · exact sequenced.lined stream
  · rcases members stream id later with waiting | ⟨rfl, rfl⟩
    · exact sequenced.ahead frame member stream before owner id waiting
    · exact (owner_below member owner).le
  · have lookups (id : Nat) := b.entry_cons streamId (.init b.next kind payload first last) stream id
    rcases mem_append.mp member with before | new
    · have below := sequenced.below stream entry before
      obtain ⟨sizes, positive, within, cut, rest⟩ := sequenced.laid stream entry before
      refine ⟨sizes, positive, within, cut, fun opened queued found there => ?_⟩
      have there' := (lookups entry.id).symm.trans there
      rw [if_neg fun here => absurd (lt_of_eq_of_lt here.2.symm below) (lt_irrefl _)] at there'
      refine rest opened ?_ found there'
      rcases members stream entry.id queued with waiting | ⟨-, same⟩
      · exact waiting
      · exact absurd (lt_of_eq_of_lt same.symm below) (lt_irrefl _)
    · cases mem_singleton.mp new
      refine ⟨[], fun _ member => absurd member not_mem_nil, Nat.zero_le _, ?_, fun opened queued found there => ?_⟩
      · refine filter_eq_nil_iff.mpr fun frame member owner => ?_
        exact lt_irrefl _ (owner_below member (of_decide_eq_true owner))
      · have there' := (lookups b.next).symm.trans there
        rw [if_pos ⟨rfl, rfl⟩] at there'
        cases there'
        exact .refl _

theorem step (step : Step ok b b') (sequenced : Sequenced ok b) : Sequenced ok b' := by
  cases step with
  | close =>
    exact sequenced.keep rfl rfl rfl (fun opened => by cases opened) (fun _ => List.Sublist.refl _)
      fun opened => by cases opened
  | control unowned opened => exact sequenced.control unowned.owner
  | clear streamId =>
    exact sequenced.keep rfl rfl rfl id (sublist_update (nil_sublist _))
      fun _ stream id entry _ there => ⟨entry, there, .refl entry⟩
  | finish result there idle whole cause =>
    rename_i streamId entryId entry
    refine sequenced.keep rfl rfl rfl id (fun _ => List.Sublist.refl _) fun _ stream id entry _ there => ?_
    have there' := (b.entry_filter streamId entryId stream id).symm.trans there
    split at there'
    · cases there'
    · exact ⟨entry, there', .refl entry⟩
  | fail err there unqueued =>
    exact sequenced.modifyEntry (by intro; exact ⟨rfl, rfl, rfl, rfl, rfl, rfl⟩) rfl rfl rfl rfl rfl rfl
  | append streamId allowed => exact sequenced.append streamId allowed
  | land result there busy within flying =>
    exact sequenced.modifyEntry (by intro; exact ⟨rfl, rfl, rfl, rfl, rfl, rfl⟩) rfl rfl rfl rfl rfl rfl

theorem fragment (sequenced : Sequenced ok b) {entry : PendingEntry} {rest : List Nat}
    (head : b.queue streamId = entry.id :: rest) (there : b.entry streamId entry.id = some entry)
    (positive : 0 < bytes) (within : bytes ≤ entry.payload.length) (opened : b.closed = false) :
    Sequenced ok (b.sendFragment streamId entry bytes rest) := by
  have shrinks (stream : Nat) : ((b.sendFragment streamId entry bytes rest).queue stream).Sublist (b.queue stream) := by
    refine sublist_update ?_ stream
    rw [head]
    split
    · exact sublist_cons_self _ _
    · exact List.Sublist.refl _
  have queued := head ▸ mem_cons_self
  have smallest (id : Nat) (member : id ∈ b.queue streamId) : entry.id ≤ id := by
    have lined := sequenced.lined streamId
    rw [head] at lined member
    rcases mem_cons.mp member with rfl | later
    · exact le_rfl
    · exact (rel_of_pairwise_cons lined later).le
  have owner : (Conn.fragment streamId entry bytes).owner = some (streamId, entry.id) := rfl
  refine ⟨sequenced.allowed, sequenced.rising, sequenced.below, fun frame member stream id owned => ?_,
    fun stream id member => sequenced.queued stream id ((shrinks stream).subset member),
    fun stream => (sequenced.lined stream).sublist (shrinks stream), ?_,
    fun frame member stream first owned second later => ?_, fun stream accepted member => ?_⟩
  · rcases mem_append.mp member with before | last
    · exact sequenced.owned frame before stream id owned
    · rw [mem_singleton.mp last, owner] at owned
      cases owned
      exact sequenced.queued streamId entry.id queued
  · refine pairwise_append.mpr ⟨sequenced.ordered, pairwise_singleton _ _,
      fun frame before last member stream first second owned ownedLast => ?_⟩
    rw [mem_singleton.mp member, owner] at ownedLast
    cases ownedLast
    exact sequenced.ahead frame before streamId first owned entry.id queued
  · have waiting := (shrinks stream).subset later
    rcases mem_append.mp member with before | last
    · exact sequenced.ahead frame before stream first owned second waiting
    rw [mem_singleton.mp last, owner] at owned
    cases owned
    exact smallest second waiting
  · obtain ⟨sizes, sizesPositive, sum, cut, left⟩ := sequenced.laid stream accepted member
    have frames : (b.sendFragment streamId entry bytes rest).framesOf stream accepted.id = b.framesOf stream accepted.id ++
        if stream = streamId ∧ accepted.id = entry.id then [Conn.fragment streamId entry bytes] else [] := by
      refine (b.framesOf_push (Conn.fragment streamId entry bytes) stream accepted.id).trans ?_
      simp only [owner, Option.some.injEq, Prod.mk.injEq, eq_comm]
    have lookups (id : Nat) := b.entry_modifyEntry streamId entry.id
      (f := fun entry => { entry with payload := entry.payload.drop bytes, inflightSends := entry.inflightSends + 1 })
      (by intro; rfl) stream id
    by_cases here : stream = streamId ∧ accepted.id = entry.id
    · -- The entry that is cut: it has what its earlier frames left of the accepted one.
      obtain ⟨rfl, same⟩ := here
      have alike := left opened (same ▸ queued) entry (same ▸ there)
      have length : entry.payload.length = accepted.payload.length - sizes.sum := by
        rw [alike.payload, PendingEntry.behind, length_drop]
      refine ⟨sizes ++ [bytes], ?_, ?_, ?_, fun _ _ found there' => ?_⟩
      · intro size among
        rcases mem_append.mp among with before | last
        · exact sizesPositive size before
        · exact mem_singleton.mp last ▸ positive
      · rw [sum_append, sum_singleton]
        omega
      · rw [frames, if_pos ⟨rfl, same⟩, cut, PendingEntry.chop_append, alike.fragment]
      · have found' := (lookups accepted.id).symm.trans there'
        rw [if_pos ⟨rfl, same⟩, same, there] at found'
        cases found'
        refine ⟨alike.id, alike.kind, ?_, alike.first, alike.last, alike.total⟩
        rw [sum_append, sum_singleton, ← PendingEntry.behind_behind]
        exact congrArg (List.drop bytes) alike.payload
    · refine ⟨sizes, sizesPositive, sum, ?_, fun _ waiting found there' => ?_⟩
      · rw [frames, if_neg here, append_nil, cut]
      · have found' := (lookups accepted.id).symm.trans there'
        rw [if_neg here] at found'
        exact left opened ((shrinks stream).subset waiting) found found'

theorem cut (cut : Cut ok b b') (sequenced : Sequenced ok b) : Sequenced ok b' := by
  cases cut with
  | step step => exact sequenced.step step
  | fragment head there positive within opened => exact sequenced.fragment head there positive within opened
  | lost head there bytes =>
    exact sequenced.keep rfl rfl rfl (fun opened => by cases opened) (fun _ => List.Sublist.refl _)
      fun opened => by cases opened
  | pop head there empty =>
    exact sequenced.keep rfl rfl rfl id (sublist_update (head ▸ sublist_cons_self _ _))
      fun _ stream id entry _ there => ⟨entry, there, .refl entry⟩

end Sequenced

end Book

end FiberGateway.Http2
