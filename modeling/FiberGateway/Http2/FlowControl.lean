import FiberGateway.Http2.Lifetime

namespace FiberGateway.Http2

open Relation

namespace Conn

/-- The payload bytes of an entry that is a DATA frame. -/
def dataBytes (entry : SendEntry) : Nat := if entry.frameHeader.any (·.type = .data) then entry.payload.length else 0

/-- The increment of an update of the connection's window. -/
def grant (credit : Nat × Nat) : Nat := if credit.1 = 0 then credit.2 else 0

variable {ok : Allowed} {options : Options} {c d : Conn}

/-- The window holds what was granted and not sent. It is not overdrawn, and no increment brings it over the limit. -/
def Credited (options : Options) (c : Conn) : Prop :=
  c.connSendWindow + (c.enqueued.map dataBytes).sum =
      options.initialConnectionSendWindow + (c.credits.map grant).sum ∧
    min 0 options.initialConnectionSendWindow ≤ c.connSendWindow ∧
      c.connSendWindow ≤ max options.initialConnectionSendWindow kMaxFlowControlWindow

/-- The connection keeps within its window and within the limit of the peer's streams. -/
def Within (options : Options) (c : Conn) : Prop :=
  (c.options = options ∧ c.peerActiveStreamCount ≤ options.maxPeerConcurrentStreams) ∧ Credited options c

namespace Within

theorem push (held : Within options c) {entry : SendEntry} (unsent : dataBytes entry = 0) : Within options (c.push entry) :=
  ⟨held.1, by simpa [Conn.push, unsent] using held.2.1, held.2.2⟩

theorem atom (held : Within options c) (atom : Atom c d) : Within options d := by
  cases atom with
  | quiet rest => rw [← rest.same]; exact held
  | control unowned => exact held.push (by cases unowned <;> rfl)
  | announce => exact held.push rfl
  | erase =>
    rw [dropStream_eq]
    exact ⟨⟨held.1.1, by dsimp only; split <;> have := held.1.2 <;> omega⟩, held.2⟩
  | link => unfold linkWaiting; split <;> exact held
  | @credit n fits =>
    obtain ⟨limit, balance, low, high⟩ := held
    have total : ((c.credits ++ [(0, n)]).map grant).sum = (c.credits.map grant).sum + n := by simp [grant]
    refine ⟨limit, ?_, ?_, ?_⟩ <;> dsimp only <;> omega
  | streamCredit found nonzero =>
    exact ⟨held.1, by simpa [modifyStream, grant, nonzero] using held.2.1, held.2.2⟩
  | @insertPeer _ id made =>
    have accepted : c.canAcceptPeerStream id = true := by
      by_contra refused
      simp [createPeerStream, refused] at made
    obtain ⟨-, -, _, -, rfl⟩ := createPeerStream_some made
    simp only [canAcceptPeerStream, held.1.1, Bool.and_eq_true, decide_eq_true_eq] at accepted
    exact ⟨⟨held.1.1, accepted.2⟩, held.2⟩
  | insertLocal made => obtain ⟨-, -, _, -, rfl⟩ := createLocalStream_some made; exact held
  | _ => exact held

theorem cut (held : Within options c) (cut : Cut c d) : Within options d := by
  cases cut with
  | atom atom => exact held.atom atom
  | lost found head bytes err => rw [← (abortConnection_quiet _ err).same]; exact held
  | pop => exact held
  | @fragment id s entry _ _ positive =>
    rw [sentFragment_eq]
    cases kind : entry.kind with
    | header => exact held.push (by simp [dataBytes, fragment, kind]; split <;> simp)
    | data =>
      obtain ⟨limit, balance, low, high⟩ := held
      -- the frame fits into the window, which it is taken from
      have within : c.fragmentBytes s entry ≤ c.connSendWindow.toNat := by simp [fragmentBytes, kind]
      have total : ((c.enqueued ++ [fragment id entry (c.fragmentBytes s entry)]).map dataBytes).sum =
          (c.enqueued.map dataBytes).sum + c.fragmentBytes s entry := by
        simp [dataBytes, fragment, fragmentBytes, kind]
      refine ⟨limit, ?_, ?_, ?_⟩ <;> dsimp only [Conn.push] <;> omega

theorem tick (held : Within options c) (tick : Tick ok c d) : Within options d := by
  have release {sent : SendEntry} {d : Conn} (released : Released c sent d) : Within options d := by
    cases released <;> exact held
  cases tick with
  | turn turn =>
    cases turn with
    | move move =>
      cases move with
      | atom atom => exact held.atom atom
      | schedule cuts => exact keeps_path (fun step held => held.cut step) cuts held
    | _ => exact held
  | loop loop =>
    cases loop with
    | drop released => exact release released
    | land released owner there =>
      rw [← Stream.entry_id (lookup_found there).choose_spec.2, landSend_eq]
      have kept := release released
      exact kept
    | _ => exact held

theorem happens (held : Within options c) (happens : Happens ok c d) : Within options d := by
  have ticks {c d : Conn} (path : ReflTransGen (Tick ok) c d) (held : Within options c) : Within options d :=
    keeps_path (fun step held => held.tick step) path held
  cases happens with
  | ends ends after => exact ticks after (by cases ends <;> exact held)
  | proceeds proceeds =>
    cases proceeds with
    | ticks path => exact ticks path held
    | leaves before _ _ after =>
      have stopped := ticks before held
      have last := ticks after stopped
      exact last

end Within

end Conn

namespace Session

theorem within_run (options : Options) (events : List Event) : ((Session.init options).run events).conn.Within options :=
  (run_induction (s := Session.init options) (fun _ happens held => held.happens happens) (.init options)
    ⟨⟨rfl, Nat.zero_le _⟩, rfl, min_le_right .., le_max_left ..⟩ (meets_any events)).2

/-- The connection never sends more data than the peer granted. -/
theorem run_credited (options : Options) (events : List Event) :
    ((Session.init options).run events).conn.Credited options :=
  (within_run options events).2

end Session

end FiberGateway.Http2
