import FiberGateway.Http2.Lifetime

/-!
What a stream keeps through everything that happens to its connection: a final state, and that it does not come back.
-/

namespace FiberGateway.Http2

open LinearProbing

/-- A condition on a stream's state that closed streams meet, and that no transition of the connection leaves. -/
structure StreamState.Final (p : StreamState → Prop) : Prop where
  closed : p .closed
  next : ∀ {state next : StreamState}, state ≠ .closed → (state.Silent → next.Silent) → p state → p next

theorem StreamState.final_silent : Final Silent :=
  ⟨.inr rfl, fun _ silent => silent⟩

theorem StreamState.final_closed : Final (· = .closed) :=
  ⟨rfl, fun running _ closed => absurd closed running⟩

open Relation

namespace Conn

variable {ok : Allowed} {c d e : Conn} {streamId : Nat} {p : StreamState → Prop}

/-- The last stream that the side opened which the stream belongs to. -/
def lastStreamId (c : Conn) (streamId : Nat) : Nat :=
  if c.isLocalStreamId streamId then c.lastLocalStreamId else c.lastPeerStreamId

/-- A stream in a final state stays in one, and no stream comes back. -/
structure Settled (p : StreamState → Prop) (c d : Conn) : Prop where
  options : d.options = c.options
  lastPeer : c.lastPeerStreamId ≤ d.lastPeerStreamId
  lastLocal : c.lastLocalStreamId ≤ d.lastLocalStreamId
  states : ∀ streamId s', d.streams.find streamId = some s' →
    (∃ s, c.streams.find streamId = some s ∧ (p s.state → p s'.state)) ∨ c.lastStreamId streamId < streamId

namespace Settled

theorem lastStreamId_le (settled : Settled p c d) (streamId : Nat) :
    c.lastStreamId streamId ≤ d.lastStreamId streamId := by
  rw [lastStreamId, lastStreamId, isLocalStreamId_eq settled.options]
  split
  · exact settled.lastLocal
  · exact settled.lastPeer

theorem keep (streams : d.streams = c.streams) (options : d.options = c.options)
    (lastPeer : d.lastPeerStreamId = c.lastPeerStreamId) (lastLocal : d.lastLocalStreamId = c.lastLocalStreamId) :
    Settled p c d :=
  ⟨options, lastPeer.ge, lastLocal.ge, fun _ s' found => .inl ⟨s', streams ▸ found, id⟩⟩

theorem refl (c : Conn) : Settled p c c := keep rfl rfl rfl rfl

theorem trans (first : Settled p c d) (second : Settled p d e) : Settled p c e := by
  refine ⟨second.options.trans first.options, first.lastPeer.trans second.lastPeer, first.lastLocal.trans second.lastLocal,
    fun streamId s' found' => ?_⟩
  rcases second.states streamId s' found' with ⟨s, found, stays⟩ | later
  · rcases first.states streamId s found with ⟨before, found, stays'⟩ | later
    · exact .inl ⟨before, found, fun met => stays (stays' met)⟩
    · exact .inr later
  · exact .inr (lt_of_le_of_lt (first.lastStreamId_le streamId) later)

theorem calm (rest : Calm c d) : Settled p c d := by
  have same := rest.same
  refine keep ?_ ?_ ?_ ?_
  all_goals
    rw [← same]
    rfl

theorem modify {f : Stream → Stream} (streams : d.streams = c.streams.modify streamId f) (options : d.options = c.options)
    (lastPeer : d.lastPeerStreamId = c.lastPeerStreamId) (lastLocal : d.lastLocalStreamId = c.lastLocalStreamId)
    (stays : ∀ s, c.streams.find streamId = some s → p s.state → p (f s).state) : Settled p c d := by
  refine ⟨options, lastPeer.ge, lastLocal.ge, fun other s' found' => .inl ?_⟩
  rw [streams, Table.find_modify] at found'
  split at found'
  · rename_i same
    subst same
    obtain ⟨s, found, rfl⟩ := Option.map_eq_some_iff.mp found'
    exact ⟨s, found, stays s found⟩
  · exact ⟨s', found', id⟩

theorem insert {s : Stream} {streams : StreamTable} (made : c.streams.insert streamId s = some streams)
    (after : d.streams = streams) (options : d.options = c.options) (lastPeer : c.lastPeerStreamId ≤ d.lastPeerStreamId)
    (lastLocal : c.lastLocalStreamId ≤ d.lastLocalStreamId) (new : c.lastStreamId streamId < streamId) : Settled p c d := by
  refine ⟨options, lastPeer, lastLocal, fun other s' found' => ?_⟩
  rw [after, Table.find_insert made] at found'
  split at found'
  · rename_i same
    subst same
    exact .inr new
  · exact .inl ⟨s', found', id⟩

theorem atom (final : StreamState.Final p) (atom : Atom c d) : Settled p c d := by
  cases atom with
  | quiet rest => exact calm rest.toCalm
  | touch | control | announce | unlink | credit => exact keep rfl rfl rfl rfl
  | finish | fail | streamCredit => exact modify rfl rfl rfl rfl fun _ _ => id
  | erase =>
    rename_i streamId s
    rw [dropStream_eq]
    refine ⟨rfl, le_rfl, le_rfl, fun other s' found' => .inl ⟨s', ?_, id⟩⟩
    rw [Table.find_erase] at found'
    split at found'
    · cases found'
    · exact found'
  | state next found running silent =>
    refine modify rfl rfl rfl rfl fun s found' => ?_
    rw [found] at found'
    cases found'
    exact final.next running silent
  | close => exact modify rfl rfl rfl rfl fun _ _ _ => final.closed
  | link =>
    unfold linkWaiting
    split
    · exact refl c
    · exact keep rfl rfl rfl rfl
  | insertPeer made =>
    rename_i streamId
    obtain ⟨⟨-, peer, later⟩, -, streams, inserted, rfl⟩ := createPeerStream_some made
    refine insert inserted rfl rfl later.le le_rfl ?_
    rw [lastStreamId, if_neg (by simp [Ledger.not_local peer])]
    exact later
  | insertLocal made =>
    rename_i streamId
    obtain ⟨⟨-, here, later⟩, -, streams, inserted, rfl⟩ := createLocalStream_some made
    refine insert inserted rfl rfl le_rfl later.le ?_
    rw [lastStreamId, if_pos here]
    exact later

theorem stage (final : StreamState.Final p) (stage : Stage c d) : Settled p c d := by
  cases stage with
  | atom atom' => exact atom final atom'
  | works works =>
    have same := works.same
    rcases works.streams with streams | ⟨streamId, f, streams, states⟩
    · exact keep streams (by rw [← same]; rfl) (by rw [← same]; rfl) (by rw [← same]; rfl)
    · refine modify streams (by rw [← same]; rfl) (by rw [← same]; rfl) (by rw [← same]; rfl) fun s _ met => ?_
      rwa [states]

theorem stages (final : StreamState.Final p) (path : ReflTransGen Stage c d) : Settled p c d := by
  induction path with
  | refl => exact refl c
  | tail _ step ih => exact ih.trans (stage final step)

theorem ticks (final : StreamState.Final p) (path : ReflTransGen (Tick ok) c d) : Settled p c d :=
  stages final (ticks_stages path)

theorem happens (final : StreamState.Final p) (happens : Happens ok c d) : Settled p c d := by
  obtain ⟨mid, ended, path⟩ := happens.stages
  refine Settled.trans ?_ (stages final path)
  cases ended with
  | refl => exact refl c
  | single ended => exact calm ended.calm

end Settled

/-- The stream has been there, and is gone or in a final state. -/
def Past (p : StreamState → Prop) (c : Conn) (streamId : Nat) : Prop :=
  streamId ≤ c.lastStreamId streamId ∧ ∀ s, c.streams.find streamId = some s → p s.state

theorem Settled.past (settled : Settled p c d) (past : c.Past p streamId) : d.Past p streamId := by
  refine ⟨past.1.trans (settled.lastStreamId_le streamId), fun s' found' => ?_⟩
  rcases settled.states streamId s' found' with ⟨s, found, stays⟩ | later
  · exact stays (past.2 s found)
  · exact absurd past.1 (Nat.not_le.mpr later)

end Conn

/-- From any point of a run on, a stream that is closed or that this side has ended stays so, and none that is gone comes
back. -/
theorem Session.run_settled (options : Options) (before after : List Event) :
    let s := (Session.init options).run before
    Conn.Settled (· = .closed) s.conn (s.run after).conn ∧ Conn.Settled StreamState.Silent s.conn (s.run after).conn := by
  intro s
  have settled {p : StreamState → Prop} (final : StreamState.Final p) : Conn.Settled p s.conn (s.run after).conn :=
    (run_induction (fun _ happens settled => settled.trans (.happens final happens)) (ready_run options before) (.refl _)
      (meets_any after)).2
  exact ⟨settled StreamState.final_closed, settled StreamState.final_silent⟩

end FiberGateway.Http2
