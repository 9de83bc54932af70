import FiberGateway.Http2.Book

namespace FiberGateway.Http2

open List LinearProbing Option Function

/-- The kinds of an entry's last change. -/
def PendingChangeKind.terminal : PendingChangeKind → Bool
  | .completed | .failed | .canceled => true
  | _ => false

theorem Conn.terminalKind_terminal (result : Option IoErr) : (Conn.terminalKind result).terminal = true := by
  unfold Conn.terminalKind
  split
  · rfl
  · split <;> rfl

theorem Conn.terminalKind_completed {result : Option IoErr} (completed : Conn.terminalKind result = .completed) :
    result = none := by
  unfold Conn.terminalKind at completed
  split at completed
  · rfl
  · split at completed <;> cases completed

namespace Book

open Conn

variable {ok : Allowed} {b b' : Book} {streamId entryId stream : Nat}

/-- The changes an entry was notified of. -/
def changesOf (b : Book) (entryId : Nat) : List PendingChange := (b.changes.filter (·.1 = entryId)).map (·.2)

/-- The bytes that changes of the kind Written report. -/
def writtenDeltas (changes : List PendingChange) : Nat := ((changes.filter (·.kind = .written)).map (·.deltaBytes)).sum

theorem changesOf_append (changes more : List (Nat × PendingChange)) (entryId : Nat) :
    ((changes ++ more).filter (·.1 = entryId)).map (·.2) =
      (changes.filter (·.1 = entryId)).map (·.2) ++ (more.filter (·.1 = entryId)).map (·.2) := by
  rw [filter_append, map_append]

theorem writtenDeltas_append (changes more : List PendingChange) :
    writtenDeltas (changes ++ more) = writtenDeltas changes + writtenDeltas more := by
  simp [writtenDeltas]

/-- The life of an accepted entry. While it runs no last change was notified; when it has ended there was exactly one,
behind all others, and its stream no longer has it. The Written changes add up to the bytes written, which are never
more than the bytes of the entry, and all of them when it completed. -/
inductive Life (b : Book) (streamId : Nat) (accepted : PendingEntry) : Prop
  | running (entry : PendingEntry) (there : b.entry streamId accepted.id = some entry)
      (total : entry.totalBytes = accepted.totalBytes)
      (unended : ∀ change ∈ b.changesOf accepted.id, change.kind.terminal = false)
      (written : writtenDeltas (b.changesOf accepted.id) = entry.writtenBytes)
      (within : entry.writtenBytes + b.flying streamId accepted.id + entry.payload.length ≤ entry.totalBytes)
  | ended (before : List PendingChange) (last : PendingChange) (gone : ∀ stream, b.entry stream accepted.id = none)
      (changes : b.changesOf accepted.id = before ++ [last]) (terminal : last.kind.terminal = true)
      (unended : ∀ change ∈ before, change.kind.terminal = false) (total : last.totalBytes = accepted.totalBytes)
      (written : writtenDeltas before = last.writtenBytes) (within : last.writtenBytes ≤ last.totalBytes)
      (whole : last.kind = .completed → last.writtenBytes = last.totalBytes)

/-- Every accepted entry has its own id and lives as it should; nothing is known of ids not handed out. -/
structure Tracked (b : Book) : Prop where
  named : (b.accepted.map (·.2.id)).Nodup
  below : ∀ streamId accepted, (streamId, accepted) ∈ b.accepted → accepted.id < b.next
  known : ∀ streamId entryId, (b.entry streamId entryId).isSome → ∃ accepted, (streamId, accepted) ∈ b.accepted ∧
    accepted.id = entryId
  unused : ∀ entryId, b.next ≤ entryId → b.changesOf entryId = [] ∧ ∀ streamId, b.flying streamId entryId = 0
  life : ∀ streamId accepted, (streamId, accepted) ∈ b.accepted → b.Life streamId accepted

namespace Tracked

theorem init (options : Options) : Tracked (Conn.init options).book := by
  have empty (streamId : Nat) : (Conn.init options).streams.find streamId = none :=
    Table.find_init _ _ (bucketCount_roomy _) _
  refine ⟨nodup_nil, fun _ _ member => absurd member not_mem_nil, fun streamId entryId found => ?_,
    fun _ _ => ⟨rfl, fun _ => rfl⟩, fun _ _ member => absurd member not_mem_nil⟩
  simp [Book.entry, Conn.book, empty] at found

theorem owner (tracked : Tracked b) {accepted : PendingEntry}
    (member : (stream, accepted) ∈ b.accepted) (found : (b.entry streamId accepted.id).isSome) : stream = streamId := by
  obtain ⟨other, there, same⟩ := tracked.known streamId accepted.id found
  have equal := inj_on_of_nodup_map tracked.named member there same.symm
  exact (Prod.mk.inj equal).1

end Tracked

variable {entry accepted : PendingEntry}

/-- Nothing changed for the entry, apart from the frames it has on their way. -/
theorem Life.transfer (life : b.Life streamId accepted)
    (entries : ∀ stream, b'.entry stream accepted.id = b.entry stream accepted.id)
    (changes : b'.changesOf accepted.id = b.changesOf accepted.id)
    (flying : b'.flying streamId accepted.id ≤ b.flying streamId accepted.id) : b'.Life streamId accepted := by
  cases life with
  | running entry there total unended written within =>
    refine .running entry ((entries streamId).trans there) total ?_ ?_ (by omega)
    · rw [changes]
      exact unended
    · rw [changes]
      exact written
  | ended before last gone same terminal unended total written within whole =>
    exact .ended before last (fun stream => (entries stream).trans (gone stream)) (changes.trans same) terminal unended total written
      within whole

/-- A step that works on one entry: the others go on as they were. -/
theorem Tracked.touch (tracked : Tracked b) (accepted : b'.accepted = b.accepted) (next : b'.next = b.next)
    (entries : ∀ stream id, ¬(stream = streamId ∧ id = entryId) → b'.entry stream id = b.entry stream id)
    (fewer : (b'.entry streamId entryId).isSome → (b.entry streamId entryId).isSome)
    (changes : ∀ id, id ≠ entryId → b'.changesOf id = b.changesOf id)
    (flying : ∀ stream id, ¬(stream = streamId ∧ id = entryId) → b'.flying stream id = b.flying stream id)
    (there : (b.entry streamId entryId).isSome)
    (life : ∀ accepted, (streamId, accepted) ∈ b.accepted → accepted.id = entryId → b'.Life streamId accepted) :
    Tracked b' := by
  obtain ⟨owned, member, same⟩ := tracked.known streamId entryId there
  have below := same ▸ tracked.below streamId owned member
  refine ⟨accepted ▸ tracked.named, accepted ▸ next ▸ tracked.below, fun stream id found => ?_, fun id unused => ?_,
    fun stream entry listed => ?_⟩
  · rw [accepted]
    by_cases here : stream = streamId ∧ id = entryId
    · obtain ⟨rfl, rfl⟩ := here
      exact tracked.known _ _ (fewer found)
    · rw [entries stream id here] at found
      exact tracked.known stream id found
  · rw [next] at unused
    have apart : id ≠ entryId := by omega
    rw [changes id apart]
    refine ⟨(tracked.unused id unused).1, fun stream => ?_⟩
    rw [flying stream id fun here => apart here.2]
    exact (tracked.unused id unused).2 stream
  · rw [accepted] at listed
    by_cases here : entry.id = entryId
    · have stream_eq := tracked.owner listed (here ▸ there)
      subst stream_eq
      exact life entry listed here
    · refine (tracked.life stream entry listed).transfer (fun other => entries other _ fun both => here both.2)
        (changes _ here) (le_of_eq (flying stream _ fun both => here both.2))

theorem Tracked.running (tracked : Tracked b) (there : b.entry streamId entryId = some entry)
    (listed : (streamId, accepted) ∈ b.accepted) (same : accepted.id = entryId) :
    entry.totalBytes = accepted.totalBytes ∧ (∀ change ∈ b.changesOf entryId, change.kind.terminal = false) ∧
      writtenDeltas (b.changesOf entryId) = entry.writtenBytes ∧
      entry.writtenBytes + b.flying streamId entryId + entry.payload.length ≤ entry.totalBytes := by
  subst same
  cases tracked.life streamId accepted listed with
  | running entry' found total unended written within =>
    rw [there] at found
    cases found
    exact ⟨total, unended, written, within⟩
  | ended before last gone =>
    rw [gone streamId] at there
    cases there

theorem Tracked.untouched (tracked : Tracked b) (same : { b' with
      queue := b.queue
      frames := b.frames
      closed := b.closed
      returned := b.returned
      failed := b.failed } = b) : Tracked b' := by
  rw [← same] at tracked
  exact ⟨tracked.named, tracked.below, tracked.known, tracked.unused, fun streamId accepted member =>
    (tracked.life streamId accepted member).transfer (fun _ => rfl) rfl le_rfl⟩

/-- A change of an entry and what it was notified of, with the bytes it has on their way. -/
theorem Tracked.modify (tracked : Tracked b) {f : PendingEntry → PendingEntry} (more : List (Nat × PendingChange))
    (there : b.entry streamId entryId = some entry) (keeps : ∀ entry, (f entry).id = entry.id)
    (accepted : b'.accepted = b.accepted) (next : b'.next = b.next)
    (entries : b'.entries = (b.modifyEntry streamId entryId f).entries) (changes : b'.changes = b.changes ++ more)
    (own : ∀ change ∈ more, change.1 = entryId ∧ change.2.kind.terminal = false)
    (flying : ∀ stream id, ¬(stream = streamId ∧ id = entryId) → b'.flying stream id = b.flying stream id)
    (total : (f entry).totalBytes = entry.totalBytes)
    (written : entry.writtenBytes + writtenDeltas (more.map (·.2)) = (f entry).writtenBytes)
    (within : entry.writtenBytes + b.flying streamId entryId + entry.payload.length ≤ entry.totalBytes → (f entry).writtenBytes + b'.flying streamId entryId + (f entry).payload.length ≤ entry.totalBytes) :
    Tracked b' := by
  have lookups (stream id : Nat) : b'.entry stream id =
      if stream = streamId ∧ id = entryId then (b.entry stream id).map f else b.entry stream id := by
    rw [← b.entry_modifyEntry streamId entryId keeps, Book.entry, entries, Book.entry]
  have added (id : Nat) : b'.changesOf id = b.changesOf id ++ (more.filter (·.1 = id)).map (·.2) := by
    rw [changesOf, changes, changesOf_append, changesOf]
  have all_own : more.filter (·.1 = entryId) = more :=
    filter_eq_self.mpr fun change member => by simpa using (own change member).1
  refine tracked.touch accepted next (fun stream id apart => by rw [lookups, if_neg apart])
    (fun _ => isSome_iff_exists.mpr ⟨entry, there⟩) (fun id apart => ?_) flying
    (isSome_iff_exists.mpr ⟨entry, there⟩) fun owner listed same => ?_
  · have none_own : more.filter (·.1 = id) = [] :=
      filter_eq_nil_iff.mpr fun change member => by simpa [(own change member).1] using Ne.symm apart
    rw [added, none_own, map_nil, append_nil]
  · obtain ⟨total', unended, written', within'⟩ := tracked.running there listed same
    subst same
    refine .running (f entry) ?_ (total.trans total') (fun change member => ?_) ?_ ?_
    · rw [lookups, if_pos ⟨rfl, rfl⟩, there]
      rfl
    · rw [added, all_own] at member
      rcases mem_append.mp member with before | new
      · exact unended change before
      · obtain ⟨pair, listed', rfl⟩ := mem_map.mp new
        exact (own pair listed').2
    · rw [added, all_own, writtenDeltas_append, written']
      exact written
    · rw [total]
      exact within within'

theorem writtenDeltas_writtenChange (entry : PendingEntry) (bytes : Nat) :
    writtenDeltas ((writtenChange entry bytes).map (·.2)) = bytes := by
  unfold writtenChange
  split
  · rename_i none_written
    simp [writtenDeltas, none_written]
  · simp [writtenDeltas, PendingEntry.change]

theorem Tracked.append (tracked : Tracked b) (streamId : Nat) (kind : PendingKind) (payload : List UInt8)
    (first last : UInt8) : Tracked { b with
      entries := update b.entries streamId (.init b.next kind payload first last :: b.entries streamId)
      queue := update b.queue streamId (b.queue streamId ++ [b.next])
      accepted := b.accepted ++ [(streamId, .init b.next kind payload first last)]
      next := b.next + 1 } := by
  have lookups (stream id : Nat) := b.entry_cons streamId (.init b.next kind payload first last) stream id
  have fresh := tracked.unused b.next le_rfl
  refine ⟨?_, fun stream owner listed => ?_, fun stream id found => ?_, fun id unused => ?_, fun stream owner listed => ?_⟩
  · rw [map_append]
    refine nodup_append.mpr ⟨tracked.named, nodup_singleton _, fun id left other right same => ?_⟩
    obtain ⟨⟨stream, owner⟩, listed, rfl⟩ := mem_map.mp left
    have below := tracked.below stream owner listed
    rw [mem_singleton.mp right] at same
    exact below.ne same
  · rcases mem_append.mp listed with before | new
    · exact Nat.lt_succ_of_lt (tracked.below stream owner before)
    · cases mem_singleton.mp new
      exact Nat.lt_succ_self _
  · have found' := (congrArg Option.isSome (lookups stream id)).symm.trans found
    split at found'
    · rename_i here
      exact ⟨.init b.next kind payload first last, mem_append_right _ (by rw [here.1]; exact mem_singleton_self _),
        here.2.symm⟩
    · obtain ⟨owner, listed, same⟩ := tracked.known stream id found'
      exact ⟨owner, mem_append_left _ listed, same⟩
  · exact tracked.unused id (Nat.le_of_succ_le unused)
  · rcases mem_append.mp listed with before | new
    · have below := tracked.below stream owner before
      refine (tracked.life stream owner before).transfer (fun other => ?_) rfl le_rfl
      exact (lookups other owner.id).trans (if_neg fun here => below.ne here.2)
    · cases mem_singleton.mp new
      refine .running (.init b.next kind payload first last) ((lookups streamId b.next).trans (if_pos ⟨rfl, rfl⟩)) rfl
        (fun change member => ?_) (congrArg writtenDeltas fresh.1) ?_
      · change change ∈ b.changesOf b.next at member
        rw [fresh.1] at member
        cases member
      · change 0 + b.flying streamId b.next + payload.length ≤ payload.length
        rw [fresh.2]
        omega

theorem Tracked.step (step : Step ok b b') (tracked : Tracked b) : Tracked b' := by
  cases step with
  | close | control | clear => exact tracked.untouched rfl
  | finish result there idle whole cause =>
    rename_i streamId entryId entry
    refine tracked.touch rfl rfl (fun stream id apart => ?_) (fun _ => ?_)
      (fun id apart => ?_) (fun _ _ _ => rfl) (isSome_iff_exists.mpr ⟨entry, there⟩) fun owner listed same => ?_
    · exact (b.entry_filter streamId entryId stream id).trans (if_neg apart)
    · exact isSome_iff_exists.mpr ⟨entry, there⟩
    · rw [changesOf, changesOf_append]
      simp [changesOf, Ne.symm apart]
    · obtain ⟨total, unended, written, within⟩ := tracked.running there listed same
      subst same
      refine .ended (b.changesOf owner.id) (entry.change (terminalKind result) 0 result)
        (fun stream => ?_) ?_ (terminalKind_terminal result) unended total written ?_ fun completed => ?_
      · refine (b.entry_filter streamId owner.id stream owner.id).trans ?_
        split
        · rfl
        rename_i apart
        by_contra found
        exact apart ⟨(tracked.owner listed (Option.ne_none_iff_isSome.mp found)).symm.trans rfl, rfl⟩
      · rw [changesOf, changesOf_append]
        simp [changesOf]
      · simp only [PendingEntry.change]
        omega
      · exact (whole (terminalKind_completed completed)).2
  | fail err there unqueued =>
    exact tracked.modify [] there (by intro; rfl) rfl rfl rfl (append_nil _).symm
      (fun _ member => absurd member not_mem_nil) (fun _ _ _ => rfl) rfl rfl fun bound => bound
  | append streamId allowed => exact tracked.append streamId _ _ _ _
  | land result there busy within flying =>
    rename_i streamId entry bytes logical
    refine tracked.modify (writtenChange entry bytes) there (by intro; rfl) rfl rfl rfl rfl
      (fun change member => ?_) (fun stream id apart => ?_) rfl ?_ fun bound => ?_
    · unfold writtenChange at member
      split at member
      · cases member
      · rw [mem_singleton.mp member]
        exact ⟨rfl, rfl⟩
    · exact (congrArg (b.flying stream id - ·) (if_neg apart)).trans (Nat.sub_zero _)
    · rw [writtenDeltas_writtenChange]
    · simp only [and_self, if_true]
      omega

theorem Tracked.cut (cut : Cut ok b b') (tracked : Tracked b) : Tracked b' := by
  cases cut with
  | step step => exact tracked.step step
  | fragment head there positive within opened =>
    rename_i streamId bytes entry rest
    refine tracked.modify [(entry.id, entry.change .scheduled bytes none)] there (by intro; rfl) rfl rfl rfl rfl
      (fun change member => ?_) (fun stream id apart => ?_) rfl rfl fun bound => ?_
    · rw [mem_singleton.mp member]
      exact ⟨rfl, rfl⟩
    · exact (congrArg (b.flying stream id + ·) (if_neg apart)).trans (Nat.add_zero _)
    · simp only [sendFragment, if_true, length_drop, and_self]
      omega
  | lost head there bytes =>
    refine tracked.modify [] there (by intro; rfl) rfl rfl rfl (append_nil _).symm
      (fun _ member => absurd member not_mem_nil) (fun _ _ _ => rfl) rfl rfl fun bound => ?_
    simp only [length_drop]
    change _ + b.flying _ _ + _ ≤ _
    omega
  | pop => exact tracked.untouched rfl

/-- An entry still queued has bytes left to write, or was empty from the start. -/
def Waiting (b : Book) (streamId entryId : Nat) : Prop :=
  ∃ entry, b.entry streamId entryId = some entry ∧ entry.result = none ∧
    (entry.writtenBytes + b.flying streamId entryId < entry.totalBytes ∨
      entry.totalBytes = 0 ∧ entry.inflightSends = 0)

/-- A change of one entry, with the bytes it has on their way: what waits goes on waiting if the entry does. -/
theorem Waiting.modify {f : PendingEntry → PendingEntry} {id : Nat} (waits : b.Waiting stream id)
    (keeps : ∀ entry, (f entry).id = entry.id) (there : b.entry streamId entryId = some entry)
    (entries : b'.entries = (b.modifyEntry streamId entryId f).entries)
    (flying : ∀ stream id, ¬(stream = streamId ∧ id = entryId) → b'.flying stream id = b.flying stream id)
    (own : stream = streamId → id = entryId → entry.result = none →
      (entry.writtenBytes + b.flying streamId entryId < entry.totalBytes ∨
        entry.totalBytes = 0 ∧ entry.inflightSends = 0) → (f entry).result = none ∧
      ((f entry).writtenBytes + b'.flying streamId entryId < (f entry).totalBytes ∨
        (f entry).totalBytes = 0 ∧ (f entry).inflightSends = 0)) : b'.Waiting stream id := by
  obtain ⟨found, there', clear, rest⟩ := waits
  have lookup : b'.entry stream id = _ := (congrArg (fun lines => (lines stream).find? (·.id = id)) entries).trans
    (b.entry_modifyEntry streamId entryId keeps stream id)
  by_cases here : stream = streamId ∧ id = entryId
  · obtain ⟨rfl, rfl⟩ := here
    cases there.symm.trans there'
    exact ⟨f entry, lookup.trans ((if_pos ⟨rfl, rfl⟩).trans (congrArg (Option.map f) there)), own rfl rfl clear rest⟩
  · exact ⟨found, lookup.trans ((if_neg here).trans there'), clear, by rwa [flying stream id here]⟩

/-- The queues hold distinct ids, and unless a frame failed while its entry was queued, an entry stays with its stream
as long as it is queued. -/
structure Queued (b : Book) : Prop where
  lined : ∀ streamId, (b.queue streamId).Nodup
  below : ∀ streamId, ∀ entryId ∈ b.queue streamId, entryId < b.next
  returned : b.failed = false → b.returned = false
  waiting : b.failed = false → ∀ streamId, ∀ entryId ∈ b.queue streamId, b.Waiting streamId entryId

namespace Queued

theorem init (options : Options) : Queued (Conn.init options).book := by
  have empty (streamId : Nat) : (Conn.init options).book.queue streamId = [] := by
    simp [Conn.book, show (Conn.init options).streams.find streamId = none from
      Table.find_init _ _ (bucketCount_roomy _) _]
  exact ⟨by simp [empty], by simp [empty], fun _ => rfl, by simp [empty]⟩

theorem shorten (queued : Queued b) (queue : ∀ streamId, (b'.queue streamId).Sublist (b.queue streamId))
    (next : b.next = b'.next) (failed : b'.failed = false → b.failed = false)
    (returned : b'.failed = false → b.returned = false → b'.returned = false)
    (waiting : b'.failed = false → ∀ streamId, ∀ entryId ∈ b'.queue streamId, b.Waiting streamId entryId →
      b'.Waiting streamId entryId) : Queued b' := by
  refine ⟨fun streamId => (queued.lined streamId).sublist (queue streamId), fun streamId entryId member => ?_,
    fun clean => returned clean (queued.returned (failed clean)), fun clean streamId entryId member => ?_⟩
  · exact next ▸ queued.below streamId entryId ((queue streamId).subset member)
  · exact waiting clean streamId entryId member
      (queued.waiting (failed clean) streamId entryId ((queue streamId).subset member))

theorem unqueued (queued : Queued b) (clean : b.failed = false) {result : Option IoErr}
    (there : b.entry streamId entryId = some entry)
    (whole : result = none → entry.payload = [] ∧ entry.writtenBytes = entry.totalBytes)
    (cause : b.queue streamId = [] ∨ entry.result = result ∧ (entryId ∈ b.queue streamId → entry.totalBytes ≠ 0)) :
    entryId ∉ b.queue streamId := by
  intro member
  obtain ⟨found, there', clear, rest⟩ := queued.waiting clean streamId entryId member
  rw [there] at there'
  cases there'
  rcases cause with empty | ⟨same, filled⟩
  · rw [empty] at member
    cases member
  · have all := (whole (same.symm.trans clear)).2
    have nonempty := filled member
    omega

theorem append (queued : Queued b) (tracked : Tracked b) (streamId : Nat) (kind : PendingKind) (payload : List UInt8)
    (first last : UInt8) : Queued { b with
      entries := update b.entries streamId (.init b.next kind payload first last :: b.entries streamId)
      queue := update b.queue streamId (b.queue streamId ++ [b.next])
      accepted := b.accepted ++ [(streamId, .init b.next kind payload first last)]
      next := b.next + 1 } := by
  have lookups (stream id : Nat) := b.entry_cons streamId (.init b.next kind payload first last) stream id
  have members (stream id : Nat) (member : id ∈ update b.queue streamId (b.queue streamId ++ [b.next]) stream) :
      id ∈ b.queue stream ∨ stream = streamId ∧ id = b.next := by
    rw [update_apply] at member
    split at member
    · rename_i same
      subst same
      exact (mem_append.mp member).imp_right fun new => ⟨rfl, mem_singleton.mp new⟩
    · exact .inl member
  refine ⟨fun stream => ?_, fun stream id member => ?_, queued.returned, fun clean stream id member => ?_⟩
  · change (update b.queue streamId (b.queue streamId ++ [b.next]) stream).Nodup
    rw [update_apply]
    split
    · refine nodup_append.mpr ⟨queued.lined streamId, nodup_singleton _, fun id left other right same => ?_⟩
      have below := queued.below streamId id left
      rw [same, mem_singleton.mp right] at below
      exact lt_irrefl _ below
    · exact queued.lined stream
  · rcases members stream id member with before | ⟨-, rfl⟩
    · exact Nat.lt_succ_of_lt (queued.below stream id before)
    · exact Nat.lt_succ_self _
  · rcases members stream id member with before | ⟨rfl, rfl⟩
    · have below := queued.below stream id before
      obtain ⟨found, there, rest⟩ := queued.waiting clean stream id before
      exact ⟨found, (lookups stream id).trans ((if_neg fun here => below.ne here.2).trans there), rest⟩
    · refine ⟨.init b.next kind payload first last, (lookups stream b.next).trans (if_pos ⟨rfl, rfl⟩), rfl, ?_⟩
      have none_flying := (tracked.unused b.next le_rfl).2 stream
      change 0 + b.flying stream b.next < payload.length ∨ payload.length = 0 ∧ 0 = 0
      omega

theorem step (step : Step ok b b') (tracked : Tracked b) (queued : Queued b) : Queued b' := by
  cases step with
  | close | control => exact ⟨queued.lined, queued.below, queued.returned, queued.waiting⟩
  | clear streamId =>
    exact queued.shorten (sublist_update (nil_sublist _)) rfl id (fun _ => id) fun _ _ _ _ waits => waits
  | finish result there idle whole cause =>
    rename_i streamId entryId entry
    refine queued.shorten (fun _ => List.Sublist.refl _) rfl id (fun clean kept => ?_)
      fun clean stream id member waits => ?_
    · have apart := queued.unqueued clean there whole cause
      simp [kept, apart]
    · obtain ⟨found, there', rest⟩ := waits
      refine ⟨found, (b.entry_filter streamId entryId stream id).trans ((if_neg fun here => ?_).trans there'), rest⟩
      obtain ⟨rfl, rfl⟩ := here
      exact queued.unqueued clean there whole cause member
  | fail err there unqueued =>
    rename_i streamId entryId entry
    refine queued.shorten (fun _ => List.Sublist.refl _) rfl id (fun _ => id) fun clean stream id member waits => ?_
    refine waits.modify (by intro; rfl) there rfl (fun _ _ _ => rfl) fun same same' => ?_
    subst same same'
    exact absurd (unqueued ▸ member) not_mem_nil
  | append streamId allowed => exact queued.append tracked streamId _ _ _ _
  | land result there busy within flying =>
    rename_i streamId entry bytes logical
    refine queued.shorten (fun _ => List.Sublist.refl _) rfl (fun clean => (Bool.or_eq_false_iff.mp clean).1)
      (fun _ => id) fun clean stream id member waits => ?_
    refine waits.modify (by intro; rfl) there rfl (fun stream id apart => ?_) fun same same' clear rest => ?_
    · exact (congrArg (b.flying stream id - ·) (if_neg apart)).trans (Nat.sub_zero _)
    · subst same same'
      have landed : result = none := by
        have passed := (Bool.or_eq_false_iff.mp clean).2
        have still_queued : entry.id ∈ b.queue stream := member
        rw [decide_eq_true still_queued, Bool.and_true] at passed
        simpa using passed
      refine ⟨by simp [clear, landed], .inl ?_⟩
      simp only [and_self, if_true]
      omega

theorem cut (cut : Cut ok b b') (tracked : Tracked b) (queued : Queued b) : Queued b' := by
  cases cut with
  | step step => exact queued.step step tracked
  | fragment head there positive within opened =>
    rename_i streamId bytes entry rest
    have lined := queued.lined streamId
    rw [head] at lined
    refine queued.shorten (sublist_update ?_) rfl id (fun _ => id) fun clean stream id member waits => ?_
    · rw [head]
      split
      · exact sublist_cons_self _ _
      · exact List.Sublist.refl _
    · refine waits.modify (by intro; rfl) there rfl (fun stream id apart => ?_) fun same same' clear _ => ?_
      · exact (congrArg (b.flying stream id + ·) (if_neg apart)).trans (Nat.add_zero _)
      subst same same'
      obtain ⟨owner, listed, same⟩ := tracked.known stream entry.id (isSome_iff_exists.mpr ⟨entry, there⟩)
      have bound := (tracked.running there listed same).2.2.2
      have shorter : bytes < entry.payload.length := by
        refine lt_of_le_of_ne within fun last => ?_
        change entry.id ∈ update b.queue stream _ stream at member
        rw [update_self, if_pos last] at member
        exact (nodup_cons.mp lined).1 member
      refine ⟨clear, .inl ?_⟩
      simp only [sendFragment, and_self, if_true]
      omega
  | lost head there bytes =>
    refine queued.shorten (fun _ => List.Sublist.refl _) rfl id (fun _ => id) fun clean stream id member waits => ?_
    exact waits.modify (by intro; rfl) there rfl (fun _ _ _ => rfl) fun _ _ clear rest => ⟨clear, rest⟩
  | pop head there empty =>
    exact queued.shorten (sublist_update (head ▸ sublist_cons_self _ _)) rfl id (fun _ => id)
      fun _ _ _ _ waits => waits

end Queued

/-- No entry went back to the pool while it was queued, and what is queued is still with its stream. -/
def Detached (b : Book) : Prop :=
  b.returned = false ∧ ∀ streamId, ∀ entryId ∈ b.queue streamId, (b.entry streamId entryId).isSome

end Book

namespace Session

/-- In every run each accepted entry has the life it should have, and unless a frame failed while a part of its entry
was still queued, no entry is reachable from its stream once it went back to the pool. -/
theorem run_entries (options : Options) (events : List Event) :
    (∀ streamId accepted, (streamId, accepted) ∈ ((Session.init options).run events).conn.accepted →
        ((Session.init options).run events).conn.book.Life streamId accepted) ∧
      (((Session.init options).run events).conn.failedQueued = false →
        ((Session.init options).run events).conn.book.Detached) := by
  obtain ⟨tracked, queued⟩ := run_book (P := fun b => b.Tracked ∧ b.Queued)
    (fun cut held => ⟨held.1.cut cut, held.2.cut cut held.1⟩) options ⟨.init options, .init options⟩
    (meets_any events)
  refine ⟨tracked.life, fun clean => ⟨queued.returned clean, fun streamId entryId member => ?_⟩⟩
  obtain ⟨entry, there, -⟩ := queued.waiting clean streamId entryId member
  exact isSome_iff_exists.mpr ⟨entry, there⟩

/-- A request with a body of seventeen bytes; the first frame of the body fails. -/
def failedBody : List Event :=
  [.startRun, .createLocalStream 1, .sendHeader 1 [0x82] false, .sendData 1 (List.replicate 17 0x61) true,
    .pollToSend, .written 64, .pollToSend, .written 9, .written 1, .pollToSend, .writeFailed .connReset]

/-- The body is returned to the pool while the stream still queues the rest of it. -/
theorem failedBody_returned : ((Session.init smallFrames).run failedBody).conn.queuedReturn = true := by
  decide +kernel

end Session

end FiberGateway.Http2
