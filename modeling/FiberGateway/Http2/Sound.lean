import FiberGateway.Http2.Atoms

namespace FiberGateway.Http2

open List Relation LinearProbing

open Option (map_some getD_some isSome_map)

namespace Stream

/-- The frames of an entry that are on their way out, as the entry counts them. -/
def inflight (s : Stream) (entryId : Nat) : Nat := ((s.entry entryId).map (·.inflightSends)).getD 0

variable {s t : Stream} {entry : PendingEntry}

theorem inflight_of_entry {entryId : Nat} (there : s.entry entryId = some entry) :
    s.inflight entryId = entry.inflightSends := by
  simp [inflight, there]

theorem inflight_of_entries (same : t.entries = s.entries) (entryId : Nat) :
    t.inflight entryId = s.inflight entryId := by
  simp [inflight, entry, same]

theorem inflight_removeActivePending (s : Stream) (id entryId : Nat) :
    (s.removeActivePending id).inflight entryId = if entryId = id then 0 else s.inflight entryId := by
  unfold inflight
  rw [entry_removeActivePending]
  split <;> rfl

theorem inflight_modifyEntry (s : Stream) (id : Nat) (f : PendingEntry → PendingEntry)
    (keeps : ∀ entry, (f entry).id = entry.id) (entryId : Nat) :
    (s.modifyEntry id f).inflight entryId =
      if entryId = id then ((s.entry id).map fun entry => (f entry).inflightSends).getD 0 else s.inflight entryId := by
  unfold inflight
  rw [entry_modifyEntry s id f keeps]
  split
  · rename_i same
    subst same
    rw [Option.map_map]
    rfl
  · rfl

variable {f : PendingEntry → PendingEntry}

theorem inflight_modifyEntry_same (s : Stream) (id : Nat)
    (keeps : ∀ entry, (f entry).id = entry.id ∧ (f entry).inflightSends = entry.inflightSends) (entryId : Nat) :
    (s.modifyEntry id f).inflight entryId = s.inflight entryId := by
  rw [inflight_modifyEntry s id f fun entry => (keeps entry).1]
  split
  · rename_i same
    subst same
    simp only [inflight, keeps]
  · rfl

theorem entry_appendPending (s : Stream) (entry : PendingEntry) (entryId : Nat) :
    (s.appendPending entry).entry entryId = if entry.id = entryId then some entry else s.entry entryId := by
  by_cases same : entry.id = entryId <;> simp [appendPending, Stream.entry, same]

theorem modifyEntry_ids (s : Stream) (id : Nat) (keeps : ∀ entry, (f entry).id = entry.id) :
    (s.modifyEntry id f).entries.map (·.id) = s.entries.map (·.id) := by
  simp only [modifyEntry, List.map_map]
  congr 1
  funext entry
  simp only [Function.comp_apply]
  split
  · exact keeps entry
  · rfl

theorem pendingHead_entry (head : s.pendingHead = some entry) :
    s.entry entry.id = some entry ∧ ∃ rest, s.pending = entry.id :: rest := by
  unfold pendingHead at head
  split at head
  · cases head
  rename_i id rest pending
  have same := entry_id head
  subst same
  exact ⟨head, rest, pending⟩

theorem entry_of_mem (named : (s.entries.map (·.id)).Nodup) (member : entry ∈ s.entries) :
    s.entry entry.id = some entry := by
  unfold Stream.entry
  generalize s.entries = entries at named member
  induction entries with
  | nil => cases member
  | cons first rest ih =>
    rw [map_cons, nodup_cons] at named
    rcases mem_cons.mp member with rfl | later
    · simp
    · have apart : first.id ≠ entry.id := fun same => named.1 (same ▸ mem_map_of_mem later)
      simpa [apart] using ih named.2 later

/-- The entries have their own ids, one that was empty from the start has nothing to send, and the queue holds distinct
ids handed out before. -/
structure Solid (next : Nat) (s : Stream) : Prop where
  named : (s.entries.map (·.id)).Nodup
  empty : ∀ entry ∈ s.entries, entry.totalBytes = 0 → entry.payload = [] ∧ entry.inflightSends = 0
  lined : s.pending.Nodup
  below : ∀ id ∈ s.pending, id < next

namespace Solid

variable {next later : Nat} {s t : Stream}

theorem mono (solid : s.Solid next) (grows : next ≤ later) : s.Solid later :=
  ⟨solid.named, solid.empty, solid.lined, fun id member => lt_of_lt_of_le (solid.below id member) grows⟩

theorem shorten (solid : s.Solid next) (entries : t.entries.Sublist s.entries) (line : t.pending.Sublist s.pending) :
    t.Solid next :=
  ⟨solid.named.sublist (entries.map _), fun entry member => solid.empty entry (entries.subset member),
    solid.lined.sublist line, fun id member => solid.below id (line.subset member)⟩

theorem modifyEntry (solid : s.Solid next) (id : Nat)
    (same : ∀ entry, (f entry).id = entry.id)
    (keeps : ∀ entry, s.entry id = some entry → (entry.totalBytes = 0 → entry.payload = [] ∧ entry.inflightSends = 0) →
      (f entry).totalBytes = 0 → (f entry).payload = [] ∧ (f entry).inflightSends = 0) :
    (s.modifyEntry id f).Solid next := by
  refine ⟨?_, fun entry member total => ?_, solid.lined, solid.below⟩
  · rw [s.modifyEntry_ids id same]
    exact solid.named
  · obtain ⟨before, there, rfl⟩ := mem_map.mp member
    by_cases here : before.id = id
    · rw [if_pos here] at total ⊢
      exact keeps before (here ▸ entry_of_mem solid.named there) (solid.empty before there) total
    · rw [if_neg here] at total ⊢
      exact solid.empty before there total

end Solid

end Stream

namespace Conn

/-- The frames of an entry in the send queue and in the hands of the send loop. -/
def frames (c : Conn) (streamId entryId : Nat) : Nat :=
  (c.sending.toList ++ c.sendQueue).countP fun sent => sent.owner = some (streamId, entryId)

def inflight (c : Conn) (streamId entryId : Nat) : Nat :=
  ((c.streams.find streamId).map (·.inflight entryId)).getD 0

variable {c : Conn} {streamId : Nat}

theorem inflight_found {s : Stream} (found : c.streams.find streamId = some s) (entryId : Nat) :
    c.inflight streamId entryId = s.inflight entryId := by
  simp [inflight, found]

variable {entryId : Nat}

theorem lookup_of_inflight (busy : c.inflight streamId entryId ≠ 0) :
    ∃ s entry, c.streams.find streamId = some s ∧ s.entry entryId = some entry := by
  unfold inflight at busy
  cases found : c.streams.find streamId with
  | none => simp [found] at busy
  | some s =>
    simp only [found, map_some, getD_some, Stream.inflight] at busy
    cases there : s.entry entryId with
    | none => simp [there] at busy
    | some entry => exact ⟨s, entry, rfl, there⟩

theorem lookup_found {entry : PendingEntry} (there : c.lookup streamId entryId = some entry) :
    ∃ s, c.streams.find streamId = some s ∧ s.entry entryId = some entry :=
  Option.bind_eq_some_iff.mp there

theorem Unowned.owner {entry : SendEntry} (unowned : Unowned entry) : entry.owner = none := by
  cases unowned <;> rfl

/-- Sending stopped only with the send queue closed. -/
def Shut (c : Conn) : Prop := c.stopSendingRequested = true → c.sendQueueClosed = true

/-- The account of the pending entries: each counts the frames it has in the send queue, only streams of the table wait
for the connection window, and a closed stream has no entries, unless one was closed before its entries had ended. -/
structure Sound (c : Conn) : Prop where
  fresh : ∀ {streamId : Nat} {s : Stream}, c.streams.find streamId = some s →
    ∀ id ∈ s.entries.map (·.id), id < c.nextPendingId
  exact : ∀ streamId entryId, c.frames streamId entryId = c.inflight streamId entryId
  tidy : c.unfinishedClose = false → ∀ {streamId : Nat} {s : Stream}, c.streams.find streamId = some s →
    s.state = .closed → s.entries = []
  waiting : ∀ streamId ∈ c.connWaitStreams, (c.streams.find streamId).isSome
  distinct : c.connWaitStreams.Nodup
  shut : c.Shut
  solid : ∀ {streamId : Nat} {s : Stream}, c.streams.find streamId = some s → s.Solid c.nextPendingId

namespace Sound

variable {c d : Conn}

theorem init (options : Options) : Sound (Conn.init options) := by
  have empty (streamId : Nat) : (Conn.init options).streams.find streamId = none :=
    Table.find_init _ _ (bucketCount_roomy _) _
  refine ⟨fun found => ?_, fun streamId entryId => ?_, fun _ => fun found => ?_, fun _ member => ?_, nodup_nil,
    (fun stopped => by cases stopped), fun found => ?_⟩
  · rw [empty] at found
    cases found
  · simp only [inflight, empty]
    rfl
  · rw [empty] at found
    cases found
  · cases member
  · rw [empty] at found
    cases found

variable {streamId : Nat} {s : Stream}

variable {f : Stream → Stream} {ok : Allowed} {sent : SendEntry}

/-- A change of one stream, with the frames of its entries counted anew. -/
theorem recount (sound : Sound c) (streams : d.streams = c.streams.modify streamId f)
    (exact : ∀ other entryId, d.frames other entryId = d.inflight other entryId) (shut : c.Shut → d.Shut)
    (waits : d.connWaitStreams.Sublist c.connWaitStreams) (later : c.nextPendingId ≤ d.nextPendingId)
    (marks : d.unfinishedClose = false → c.unfinishedClose = false)
    (ids : ∀ s, c.streams.find streamId = some s → ∀ id ∈ (f s).entries.map (·.id), id < d.nextPendingId)
    (tidy : d.unfinishedClose = false → ∀ s, c.streams.find streamId = some s → (f s).state = .closed → (f s).entries = [])
    (solid : ∀ s, c.streams.find streamId = some s → s.Solid c.nextPendingId → (f s).Solid d.nextPendingId) :
    Sound d := by
  have lookups (other : Nat) : d.streams.find other =
      if other = streamId then (c.streams.find other).map f else c.streams.find other := by
    rw [streams]
    exact Table.find_modify _ _ _ _
  have origin {other : Nat} {s' : Stream} (found : d.streams.find other = some s') :
      (other = streamId ∧ ∃ s, c.streams.find streamId = some s ∧ f s = s') ∨ c.streams.find other = some s' := by
    rw [lookups] at found
    split at found
    · rename_i same
      subst same
      exact .inl ⟨rfl, Option.map_eq_some_iff.mp found⟩
    · exact .inr found
  refine ⟨fun {other s'} found => ?_, exact, fun unmarked => fun {other s'} found closed => ?_,
    fun other member => ?_, sound.distinct.sublist waits, shut sound.shut, fun {other s'} found => ?_⟩
  · rcases origin found with ⟨-, s, before, rfl⟩ | before
    · exact ids s before
    · exact fun id member => lt_of_lt_of_le (sound.fresh before id member) later
  · rcases origin found with ⟨-, s, before, rfl⟩ | before
    · exact tidy unmarked s before closed
    · exact sound.tidy (marks unmarked) before closed
  · rw [lookups]
    have before := sound.waiting other (waits.subset member)
    split
    · rwa [isSome_map]
    · exact before
  · rcases origin found with ⟨-, s, before, rfl⟩ | before
    · exact solid s before (sound.solid before)
    · exact (sound.solid before).mono later

/-- A change of one stream: its entries keep their counts. -/
theorem modify (sound : Sound c) (streams : d.streams = c.streams.modify streamId f)
    (queue : d.sendQueue = c.sendQueue) (sending : d.sending = c.sending) (shut : c.Shut → d.Shut)
    (waits : d.connWaitStreams.Sublist c.connWaitStreams) (later : c.nextPendingId ≤ d.nextPendingId)
    (marks : d.unfinishedClose = false → c.unfinishedClose = false)
    (ids : ∀ s, c.streams.find streamId = some s → ∀ id ∈ (f s).entries.map (·.id), id < d.nextPendingId)
    (counts : ∀ s, c.streams.find streamId = some s → ∀ id, (f s).inflight id = s.inflight id)
    (tidy : d.unfinishedClose = false → ∀ s, c.streams.find streamId = some s → (f s).state = .closed → (f s).entries = [])
    (solid : ∀ s, c.streams.find streamId = some s → s.Solid c.nextPendingId → (f s).Solid d.nextPendingId) :
    Sound d := by
  refine sound.recount streams (fun other entryId => ?_) shut waits later marks ids tidy solid
  have before := sound.exact other entryId
  unfold frames at before ⊢
  rw [queue, sending, before]
  simp only [inflight, streams, Table.find_modify]
  split
  · rename_i same
    subst same
    cases found : c.streams.find other with
    | none => rfl
    | some s => exact (counts s found entryId).symm
  · rfl

theorem modifyRest (sound : Sound c) (streams : d.streams = c.streams.modify streamId f)
    (queue : d.sendQueue = c.sendQueue) (sending : d.sending = c.sending) (shut : c.Shut → d.Shut)
    (waits : d.connWaitStreams.Sublist c.connWaitStreams) (next : d.nextPendingId = c.nextPendingId)
    (marks : d.unfinishedClose = false → c.unfinishedClose = false) (same : ∀ s, (f s).entries = s.entries)
    (line : ∀ s, (f s).pending.Sublist s.pending)
    (tidy : d.unfinishedClose = false → ∀ s, c.streams.find streamId = some s → (f s).state = .closed → s.entries = []) :
    Sound d := by
  refine sound.modify streams queue sending shut waits next.ge marks (fun s found => ?_)
    (fun s _ => Stream.inflight_of_entries (same s)) (fun unmarked s found closed => ?_)
    (fun s found solid => next ▸ solid.shorten (same s ▸ List.Sublist.refl _) (line s))
  · rw [same, next]
    exact sound.fresh found
  · rw [same]
    exact tidy unmarked s found closed

theorem modifyEntry (sound : Sound c) {f : PendingEntry → PendingEntry}
    (keeps : ∀ entry, (f entry).id = entry.id ∧ (f entry).inflightSends = entry.inflightSends)
    (shrinks : ∀ entry, (f entry).totalBytes = entry.totalBytes ∧ (entry.payload = [] → (f entry).payload = [])) :
    Sound (c.modifyStream streamId (·.modifyEntry entryId f)) := by
  refine sound.modify rfl rfl rfl id (List.Sublist.refl _) le_rfl id (fun s found => ?_)
    (fun s _ => s.inflight_modifyEntry_same entryId keeps) (fun unmarked s found closed => ?_)
    (fun s found solid => solid.modifyEntry entryId (fun entry => (keeps entry).1) fun entry _ before total => by
      rw [(shrinks entry).1] at total
      rw [(keeps entry).2]
      exact ⟨(shrinks entry).2 (before total).1, (before total).2⟩)
  · rw [Stream.modifyEntry_ids s entryId fun entry => (keeps entry).1]
    exact sound.fresh found
  · simp [Stream.modifyEntry, sound.tidy unmarked found closed]

theorem keep (sound : Sound c) (streams : d.streams = c.streams) (sends : ∀ streamId entryId,
      d.frames streamId entryId = c.frames streamId entryId)
    (waits : d.connWaitStreams = c.connWaitStreams) (next : d.nextPendingId = c.nextPendingId)
    (marks : d.unfinishedClose = c.unfinishedClose) (shut : c.Shut → d.Shut) : Sound d := by
  refine ⟨fun found => ?_, fun streamId entryId => ?_, fun unmarked => fun found => ?_, fun streamId member => ?_, ?_,
    shut sound.shut, fun found => ?_⟩
  · rw [streams] at found
    rw [next]
    exact sound.fresh found
  · rw [sends, sound.exact]
    simp only [inflight, streams]
  · rw [streams] at found
    exact sound.tidy (marks ▸ unmarked) found
  · rw [streams]
    exact sound.waiting streamId (waits ▸ member)
  · rw [waits]
    exact sound.distinct
  · rw [streams] at found
    rw [next]
    exact sound.solid found

theorem calm (rest : Calm c d) (sound : Sound c) : Sound d := by
  have same := rest.same
  refine sound.keep ?_ (fun streamId entryId => ?_) ?_ ?_ ?_ fun shut stopped => ?_
  case refine_6 => exact (rest.closes stopped).elim (fun before => rest.closed (shut before)) id
  all_goals rw [← same]
  all_goals rfl

theorem frames_push (entry : SendEntry) (streamId entryId : Nat) :
    (c.push entry).frames streamId entryId =
      c.frames streamId entryId + if entry.owner = some (streamId, entryId) then 1 else 0 := by
  simp [frames, push, countP_append, countP_singleton, Nat.add_assoc]

theorem insert (sound : Sound c) {window : Int}
    (made : c.streams.insert streamId (.init streamId window) = some d.streams)
    (queue : d.sendQueue = c.sendQueue) (sending : d.sending = c.sending)
    (waits : d.connWaitStreams = c.connWaitStreams) (next : d.nextPendingId = c.nextPendingId)
    (marks : d.unfinishedClose = c.unfinishedClose) (shut : c.Shut → d.Shut) : Sound d := by
  have lookups := Table.find_insert made
  have absent := (Table.insert_isSome_iff.mp (by rw [made]; rfl) : c.streams.find streamId = none ∧ _).1
  refine ⟨fun {other s} found => ?_, fun other entryId => ?_, fun unmarked => fun {other s} found => ?_,
    fun other member => ?_, waits ▸ sound.distinct, shut sound.shut, fun {other s} found => ?_⟩
  · rw [lookups] at found
    rw [next]
    split at found
    · cases found
      exact fun id member => absurd member not_mem_nil
    · exact sound.fresh found
  · have before := sound.exact other entryId
    unfold frames at before ⊢
    rw [queue, sending, before]
    simp only [inflight, lookups]
    split
    · rename_i same
      rw [same, absent]
      rfl
    · rfl
  · rw [lookups] at found
    split at found
    · cases found
      intro closed
      cases closed
    · exact sound.tidy (marks ▸ unmarked) found
  · rw [lookups]
    have before := sound.waiting other (waits ▸ member)
    split
    · rfl
    · exact before
  · rw [lookups] at found
    rw [next]
    split at found
    · cases found
      exact ⟨nodup_nil, fun entry member => absurd member not_mem_nil, nodup_nil,
        fun id member => absurd member not_mem_nil⟩
    · exact sound.solid found

theorem drop (sound : Sound c) (found : c.streams.find streamId = some s) (ended : s.entries = []) :
    Sound (c.dropStream streamId) := by
  have lookups (other : Nat) : (c.streams.erase streamId).find other =
      if other = streamId then none else c.streams.find other := Table.find_erase _ _ _
  rw [dropStream_eq]
  refine ⟨fun {other s'} found' => ?_, fun other entryId => ?_, fun unmarked => fun {other s'} found' => ?_,
    fun other member => ?_, sound.distinct.erase streamId, sound.shut, fun {other s'} found' => ?_⟩
  · rw [lookups] at found'
    split at found'
    · cases found'
    · exact sound.fresh found'
  · refine (sound.exact other entryId).trans ?_
    simp only [inflight, lookups]
    split
    · rename_i same
      subst same
      simp [found, Stream.inflight, Stream.entry, ended]
    · rfl
  · rw [lookups] at found'
    split at found'
    · cases found'
    · exact sound.tidy unmarked found'
  · rw [sound.distinct.mem_erase_iff] at member
    rw [lookups, if_neg member.1]
    exact sound.waiting other member.2
  · rw [lookups] at found'
    split at found'
    · cases found'
    · exact sound.solid found'

theorem hasEntries_found (found : c.streams.find streamId = some s) :
    c.hasEntries streamId = decide (s.entries ≠ []) := by
  simp [hasEntries, found]

theorem atom (atom : Atom c d) (sound : Sound c) : Sound d := by
  cases atom with
  | quiet rest => exact sound.calm rest.toCalm
  | touch late => exact sound.keep rfl (fun _ _ => rfl) rfl rfl rfl id
  | control unowned plain opened =>
    refine sound.keep rfl (fun streamId entryId => ?_) rfl rfl rfl id
    simp [frames_push, unowned.owner]
  | announce next opened =>
    refine sound.keep rfl (fun streamId entryId => ?_) rfl rfl rfl id
    refine (frames_push (c := c) (goawayFrame c.localGoawayLastStreamId) streamId entryId).trans ?_
    rw [(Unowned.goaway c.localGoawayLastStreamId).owner]
    simp
  | finish result found there idle whole cause =>
    rename_i streamId entryId s entry
    have gone (s' : Stream) : (s'.removeActivePending entryId).entries.Sublist s'.entries := filter_sublist
    refine sound.modify rfl rfl rfl id (List.Sublist.refl _) le_rfl id (fun s' found' id member => ?_)
      (fun s' found' id => ?_) (fun unmarked s' found' closed => ?_)
      (fun s' found' solid => solid.shorten (gone s') (List.Sublist.refl _))
    · exact sound.fresh found' id ((gone s').map _ |>.subset member)
    · rw [found] at found'
      cases found'
      rw [Stream.inflight_removeActivePending]
      split
      · rename_i same
        rw [same, Stream.inflight_of_entry there, idle]
      · rfl
    · have ended := sound.tidy unmarked found' closed
      exact sublist_nil.mp (ended ▸ gone s')
  | erase found closed unqueued ended => exact sound.drop found ended
  | fail err found there unqueued busy clean => exact sound.modifyEntry (fun _ => ⟨rfl, rfl⟩) fun _ => ⟨rfl, id⟩
  | state next found running silent =>
    refine sound.modifyRest rfl rfl rfl id (List.Sublist.refl _) rfl (fun unmarked => (Bool.or_eq_false_iff.mp unmarked).1)
      (fun s' => rfl) (fun s' => List.Sublist.refl _) (fun unmarked s' found' closed => ?_)
    have marked := (Bool.or_eq_false_iff.mp unmarked).2
    rw [hasEntries_found found', show next = .closed from closed] at marked
    simpa using marked
  | close found =>
    refine sound.modifyRest rfl rfl rfl id erase_sublist rfl (fun unmarked => (Bool.or_eq_false_iff.mp unmarked).1)
      (fun s' => rfl) (fun s' => nil_sublist _) (fun unmarked s' found' closed => ?_)
    have marked := (Bool.or_eq_false_iff.mp unmarked).2
    rw [hasEntries_found found'] at marked
    simpa using marked
  | link found blocked =>
    rename_i streamId s
    unfold linkWaiting
    split
    · exact sound
    rename_i absent
    refine ⟨sound.fresh, sound.exact, sound.tidy, fun other member => ?_, ?_, sound.shut, sound.solid⟩
    · rcases mem_append.mp member with before | new
      · exact sound.waiting other before
      · rw [mem_singleton.mp new]
        exact Option.isSome_iff_exists.mpr ⟨s, found⟩
    · exact nodup_append.mpr ⟨sound.distinct, nodup_singleton _, fun a left b right same => absent (by
        rw [mem_singleton.mp right] at same
        exact same ▸ left)⟩
  | unlink streamId =>
    exact ⟨sound.fresh, sound.exact, sound.tidy, fun other member => sound.waiting other (mem_of_mem_erase member),
      sound.distinct.erase _, sound.shut, sound.solid⟩
  | credit fits => exact sound.keep rfl (fun _ _ => rfl) rfl rfl rfl id
  | streamCredit found nonzero fits =>
    exact sound.modifyRest rfl rfl rfl id (List.Sublist.refl _) rfl id (fun _ => rfl)
      (fun _ => List.Sublist.refl _) (fun unmarked _ => sound.tidy unmarked)
  | insertPeer made =>
    obtain ⟨-, -, streams, inserted, rfl⟩ := createPeerStream_some made
    exact sound.insert inserted rfl rfl rfl rfl rfl id
  | insertLocal made =>
    obtain ⟨-, -, streams, inserted, rfl⟩ := createLocalStream_some made
    exact sound.insert inserted rfl rfl rfl rfl rfl id

theorem append (sound : Sound c) (found : c.streams.find streamId = some s) (running : s.state ≠ .closed)
    (kind : PendingKind) (payload : List UInt8) (first last : UInt8) :
    Sound (c.addPending streamId kind payload first last) := by
  refine sound.modify rfl rfl rfl id (List.Sublist.refl _) (Nat.le_succ _) id (fun s' found' id member => ?_)
    (fun s' found' id => ?_) (fun unmarked s' found' closed => ?_) (fun s' found' solid => ?_)
  · rcases mem_cons.mp member with rfl | before
    · exact Nat.lt_succ_self _
    · exact Nat.lt_succ_of_lt (sound.fresh found' id before)
  · unfold Stream.inflight
    rw [Stream.entry_appendPending]
    split
    · rename_i same
      have absent : s'.entry id = none := by
        rw [← Option.not_isSome_iff_eq_none, Stream.entry_isSome_iff]
        intro member
        exact absurd (sound.fresh found' id member) (by rw [← same]; exact lt_irrefl _)
      rw [absent]
      rfl
    · rfl
  · rw [found] at found'
    cases found'
    exact absurd closed running
  · refine ⟨nodup_cons.mpr ⟨fun member => ?_, solid.named⟩, fun entry member total => ?_, ?_, fun id member => ?_⟩
    · exact lt_irrefl _ (sound.fresh found' _ member)
    · rcases mem_cons.mp member with rfl | before
      · exact ⟨eq_nil_of_length_eq_zero total, rfl⟩
      · exact solid.empty entry before total
    · refine nodup_append.mpr ⟨solid.lined, nodup_singleton _, fun a left b right same => ?_⟩
      have old := solid.below a left
      rw [same, mem_singleton.mp right] at old
      exact lt_irrefl _ old
    · rcases mem_append.mp member with before | new
      · exact Nat.lt_succ_of_lt (solid.below id before)
      · rw [mem_singleton.mp new]
        exact Nat.lt_succ_self _

theorem cut (cut : Cut c d) (sound : Sound c) : Sound d := by
  cases cut with
  | atom atom => exact sound.atom atom
  | fragment found head positive opened =>
    rename_i streamId s entry
    rw [sentFragment_eq]
    generalize c.fragmentBytes s entry = bytes
    have there := (Stream.pendingHead_entry head).1
    have ids (s : Stream) : (s.sendFragment entry bytes).entries.map (·.id) = s.entries.map (·.id) :=
      s.modifyEntry_ids entry.id fun _ => rfl
    refine sound.recount (f := (·.sendFragment entry bytes)) rfl (fun other entryId => ?_) id (List.Sublist.refl _) le_rfl id
      (fun s' before => ids s' ▸ sound.fresh before) (fun unmarked s' before closed => ?_) (fun s' found' solid => ?_)
    · refine (frames_push (c := c) (fragment streamId entry bytes) other entryId).trans ?_
      rw [sound.exact]
      simp only [inflight, Table.find_modify]
      by_cases same : other = streamId
      · subst same
        have count := s.inflight_modifyEntry entry.id (fun entry => { entry with
          payload := entry.payload.drop bytes
          inflightSends := entry.inflightSends + 1 }) (fun _ => rfl) entryId
        simp only [found, map_some, getD_some, if_true]
        refine Eq.trans ?_ count.symm
        by_cases here : entryId = entry.id
        · simp [here, fragment, there, Stream.inflight]
        · simp [here, fragment, Ne.symm here]
      · simp [same, fragment, Ne.symm same]
    · simp [Stream.sendFragment, Stream.modifyEntry, sound.tidy unmarked before closed]
    · rw [found] at found'
      cases found'
      have filled : entry.totalBytes ≠ 0 := fun total => by
        have within := c.fragmentBytes_le s entry
        rw [(solid.empty entry (Stream.entry_mem there) total).1] at within
        exact absurd (lt_of_lt_of_le positive within) (lt_irrefl 0)
      refine Stream.Solid.shorten (solid.modifyEntry entry.id (f := fun entry => { entry with
          payload := entry.payload.drop bytes
          inflightSends := entry.inflightSends + 1 }) (fun _ => rfl) fun other here before total => ?_)
        (List.Sublist.refl _) ?_
      · rw [there] at here
        cases here
        exact absurd total filled
      · simp only [Stream.sendFragment]
        split
        · exact tail_sublist _
        · exact List.Sublist.refl _
  | lost found head bytes err shut =>
    rename_i streamId s entry
    have split : Sound (c.splitEntry streamId entry bytes) :=
      sound.modifyEntry (fun _ => ⟨rfl, rfl⟩) fun _ => ⟨rfl, fun empty => by simp [empty]⟩
    exact split.calm (abortConnection_quiet _ err).toCalm
  | pop found head empty =>
    exact sound.modifyRest rfl rfl rfl id (List.Sublist.refl _) rfl id (fun _ => rfl)
      (fun _ => tail_sublist _) (fun unmarked _ => sound.tidy unmarked)

theorem cuts (cuts : ReflTransGen Cut c d) (sound : Sound c) : Sound d :=
  keeps_path (fun step sound => sound.cut step) cuts sound

theorem move (move : Move c d) (sound : Sound c) : Sound d := by
  cases move with
  | atom atom => exact sound.atom atom
  | schedule cuts => exact sound.cuts cuts

theorem turn (turn : Turn ok c d) (sound : Sound c) : Sound d := by
  cases turn with
  | move move => exact sound.move move
  | append found running active allowed => exact sound.append found running _ _ _ _
  | shift delta =>
    exact sound.modifyRest rfl rfl rfl id (List.Sublist.refl _) rfl id (fun _ => rfl)
      (fun _ => List.Sublist.refl _) (fun unmarked _ => sound.tidy unmarked)
  | initial => exact sound.keep rfl (fun _ _ => rfl) rfl rfl rfl id

theorem frames_released (released : Released c sent d) (streamId entryId : Nat) :
    c.frames streamId entryId =
      d.frames streamId entryId + if sent.owner = some (streamId, entryId) then 1 else 0 := by
  cases released with
  | queued first =>
    simp only [frames, first, countP_append, countP_cons, decide_eq_true_eq]
    omega
  | sending busy n =>
    simp only [frames, busy, Option.toList_some, Option.toList_none, countP_append, countP_cons,
      countP_nil, decide_eq_true_eq]
    omega

theorem land (sound : Sound c) (released : Released c sent d) {entry : PendingEntry}
    (owner : sent.owner = some (streamId, entry.id)) (there : c.lookup streamId entry.id = some entry)
    (bytes : Nat) (result : Option IoErr) :
    Sound ((d.recordWritten streamId entry bytes).landSend streamId entry.id result) := by
  have same : d.streams = c.streams ∧ d.connWaitStreams = c.connWaitStreams ∧ d.nextPendingId = c.nextPendingId ∧
      d.unfinishedClose = c.unfinishedClose ∧ d.Shut := by
    cases released <;> exact ⟨rfl, rfl, rfl, rfl, sound.shut⟩
  obtain ⟨streams, waits, next, marks, shut⟩ := same
  obtain ⟨s, found, here⟩ := lookup_found there
  rw [landSend_eq]
  have ids (s : Stream) : (s.landFragment entry.id bytes result).entries.map (·.id) = s.entries.map (·.id) :=
    s.modifyEntry_ids entry.id fun _ => rfl
  refine sound.recount (congrArg (Table.modify · streamId (·.landFragment entry.id bytes result)) streams)
    (fun other entryId => ?_) (fun _ => shut) (waits ▸ List.Sublist.refl _) next.ge (marks ▸ id) (fun s' before => ?_) (fun unmarked s' before closed => ?_)
    (fun s' before solid => ?_)
  · have count := (frames_released released other entryId).symm.trans (sound.exact other entryId)
    rw [owner] at count
    change d.frames other entryId = _
    simp only [inflight, streams, Table.find_modify] at count ⊢
    by_cases same : other = streamId
    · subst same
      have landed := s.inflight_modifyEntry entry.id (fun entry => { entry with
        writtenBytes := entry.writtenBytes + bytes
        result := if entry.result = none then result else entry.result
        inflightSends := entry.inflightSends - 1 }) (fun _ => rfl) entryId
      simp only [found, map_some, getD_some, if_true] at count ⊢
      refine Eq.trans ?_ landed.symm
      by_cases here' : entryId = entry.id
      · subst here'
        simp only [here, Stream.inflight, map_some, getD_some, if_true] at count ⊢
        omega
      · simpa [here', Ne.symm here'] using count
    · simpa [same, Ne.symm same] using count
  · rw [ids, next]
    exact sound.fresh before
  · simp [Stream.landFragment, Stream.modifyEntry, sound.tidy (marks ▸ unmarked) before closed]
  · rw [next]
    refine solid.modifyEntry entry.id (fun _ => rfl) fun other member empty total => ?_
    exact ⟨(empty total).1, by simp [(empty total).2]⟩

theorem loop (loop : Loop c d) (sound : Sound c) : Sound d := by
  cases loop with
  | begin => exact sound.keep rfl (fun _ _ => rfl) rfl rfl rfl id
  | start stopped => exact sound.keep rfl (fun _ _ => rfl) rfl rfl rfl id
  | take running first idle =>
    refine sound.keep rfl (fun streamId entryId => ?_) rfl rfl rfl id
    simp [frames, first, idle]
  | write busy n =>
    refine sound.keep rfl (fun streamId entryId => ?_) rfl rfl rfl id
    simp [frames, busy, countP_cons]
  | drop released unowned =>
    have none_less (streamId entryId : Nat) : d.frames streamId entryId = c.frames streamId entryId := by
      simp [frames_released released streamId entryId, unowned]
    cases released with
    | queued first => exact sound.keep rfl none_less rfl rfl rfl id
    | sending busy n => exact sound.keep rfl none_less rfl rfl rfl id
  | land released owner there result =>
    obtain ⟨s, found, here⟩ := lookup_found there
    have same := Stream.entry_id here
    subst same
    exact sound.land released owner there _ result

theorem tick (tick : Tick ok c d) (sound : Sound c) : Sound d := by
  cases tick with
  | turn turn => exact sound.turn turn
  | loop loop => exact sound.loop loop

end Sound

end Conn

end FiberGateway.Http2
