import FiberGateway.Mem.BufChain

namespace FiberGateway

open List BufChain

/-- What a call on a transport did: its result, the bytes that went out or came in, and the chain afterwards. -/
structure Transfer where
  result : Except IoErr Nat
  moved : List UInt8
  chain : BufChain
  deriving DecidableEq

/-- `kMaxIov`. -/
def kMaxIov : Nat := 16

namespace TcpTransport

/-- `writev`; of what the pieces hold the socket takes as many bytes as it does, or fails. -/
def writev (chain : BufChain) (socket : Except IoErr Nat) : Except Fault Transfer :=
  let iov := chain.fillWriteIov kMaxIov
  if iov = [] then .ok ⟨.ok 0, [], chain⟩
  else
    match socket with
    | .error err => .ok ⟨.error err, [], chain⟩
    | .ok accepted =>
      let sent := (gather chain.nodes iov).take accepted
      match chain.consumeAndCompact sent.length with
      | .error fault => .error fault
      | .ok after => .ok ⟨.ok sent.length, sent, after⟩

/-- `readv_into`. The pieces come from `fill_write_iov`, so they cover what is readable. -/
def readvInto (chain : BufChain) (socket : Except IoErr (List UInt8)) : Except Fault Transfer :=
  let iov := chain.fillWriteIov kMaxIov
  if iov = [] then .ok ⟨.ok 0, [], chain⟩
  else
    match socket with
    | .error err => .ok ⟨.error err, [], chain⟩
    | .ok incoming =>
      let received := incoming.take (iov.map (·.len)).sum
      match { chain with nodes := scatter iov received chain.nodes }.commit received.length with
      | .error fault => .error fault
      | .ok after => .ok ⟨.ok received.length, received, after⟩

end TcpTransport

namespace TlsTransport

/-- `writev`: `write` on the first node that has something to read. -/
def writev (chain : BufChain) (layer : Except IoErr Nat) : Except Fault Transfer :=
  let chain := chain.dropEmptyFront
  match chain.firstReadable with
  | none => .ok ⟨.ok 0, [], chain⟩
  | some index =>
    match layer with
    | .error err => .ok ⟨.error err, [], chain⟩
    | .ok accepted =>
      let sent := ((chain.nodes[index]?.map (·.readable)).getD []).take accepted
      .ok ⟨.ok sent.length, sent, { chain with nodes := chain.nodes.modify index (·.consume sent.length) }⟩

/-- `readv_into`: `read_into` on the first node that has room. -/
def readvInto (chain : BufChain) (layer : Except IoErr (List UInt8)) : Except Fault Transfer :=
  match chain.firstWritable with
  | none => .ok ⟨.ok 0, [], chain⟩
  | some index =>
    match layer with
    | .error err => .ok ⟨.error err, [], chain⟩
    | .ok incoming =>
      let received := incoming.take ((chain.nodes[index]?.map (·.writable)).getD 0)
      .ok ⟨.ok received.length, received, { chain with nodes := chain.nodes.modify index (·.fill received) }⟩

end TlsTransport

/-- How far `write_all` got with the answers of the layer below: it returned, or it waits for the next answer. -/
structure WriteAll where
  returned : Option (Except IoErr Unit)
  wire : List UInt8
  deriving DecidableEq

/-- `write_all` over a chain. -/
def writeAll (writev : BufChain → Except IoErr Nat → Except Fault Transfer) :
    List (Except IoErr Nat) → BufChain → Except Fault WriteAll
  | answers, chain =>
    if chain.readableBytes = 0 then .ok ⟨some (.ok ()), []⟩
    else
      match answers with
      | [] => .ok ⟨none, []⟩
      | answer :: answers =>
        match writev chain answer with
        | .error fault => .error fault
        | .ok ⟨.error err, _, _⟩ => .ok ⟨some (.error err), []⟩
        | .ok ⟨.ok 0, _, _⟩ => .ok ⟨some (.error .connReset), []⟩
        | .ok ⟨.ok (_ + 1), moved, after⟩ =>
          match writeAll writev answers after with
          | .error fault => .error fault
          | .ok rest => .ok { rest with wire := moved ++ rest.wire }

variable {chain after : BufChain}

theorem writeAll_empty (writev : BufChain → Except IoErr Nat → Except Fault Transfer)
    (answers : List (Except IoErr Nat)) (none_left : chain.readableBytes = 0) :
    writeAll writev answers chain = .ok ⟨some (.ok ()), []⟩ := by
  cases answers <;> simp [writeAll, none_left]

/-- What `writev` owes when it returns `n`. -/
structure Sends (chain : BufChain) (n : Nat) (transfer : Transfer) : Prop where
  wire : transfer.moved = chain.bytes.take n
  exact : transfer.moved.length = n
  formed : transfer.chain.WellFormed
  left : transfer.chain.bytes = chain.bytes.drop n
  total : transfer.chain.readableBytes + n = chain.readableBytes

/-- What `readv_into` owes when it returns `n`: every node is left with a part of the bytes behind those it had. -/
structure Receives (chain : BufChain) (n : Nat) (transfer : Transfer) : Prop where
  exact : transfer.moved.length = n
  stored : ∃ parts, parts.length = chain.nodes.length ∧ parts.flatten = transfer.moved ∧
    transfer.chain.nodes.map IoView.readable = List.zipWith (· ++ ·) (chain.nodes.map IoView.readable) parts
  total : transfer.chain.readableBytes = chain.readableBytes + n

theorem Sends.nothing (formed : after.WellFormed) (same : after.bytes = chain.bytes)
    (total : after.readableBytes = chain.readableBytes) {result : Except IoErr Nat} :
    Sends chain 0 ⟨result, [], after⟩ :=
  ⟨rfl, rfl, formed, same, total⟩

theorem Receives.nothing (chain : BufChain) (result : Except IoErr Nat) : Receives chain 0 ⟨result, [], chain⟩ :=
  ⟨rfl, ⟨chain.nodes.map fun _ => [], by simp, by simp, (zipWith_append_nil _).symm⟩, rfl⟩

namespace TcpTransport

theorem writev_sends (formed : chain.WellFormed) (socket : Except IoErr Nat) :
    ∃ transfer, writev chain socket = .ok transfer ∧ ∀ n, transfer.result = .ok n → Sends chain n transfer := by
  unfold writev
  dsimp only
  split
  · refine ⟨_, rfl, fun n result => ?_⟩
    cases result
    exact .nothing formed rfl rfl
  cases socket with
  | error err => exact ⟨_, rfl, fun n result => by cases result⟩
  | ok accepted =>
    dsimp only
    rw [gather_fillWriteIov]
    have offered := front_prefix kMaxIov chain.nodes
    have sent : (front kMaxIov chain.nodes).take accepted <+: chain.bytes := ( take_prefix _ _).trans offered
    generalize (front kMaxIov chain.nodes).take accepted = moved at sent
    obtain ⟨after, consumed, formed', left, total⟩ := formed.consumeAndCompact sent.length_le
    rw [consumed]
    refine ⟨_, rfl, fun n result => ?_⟩
    cases result
    exact ⟨prefix_iff_eq_take.mp sent, rfl, formed', left, total⟩

/-- `write_all` returns with success exactly when all bytes are out. -/
theorem writeAll_whole (formed : chain.WellFormed) (answers : List (Except IoErr Nat)) :
    ∃ done, writeAll writev answers chain = .ok done ∧ done.wire <+: chain.bytes ∧
      (done.returned = some (.ok ()) ↔ done.wire = chain.bytes) := by
  induction answers generalizing chain with
  | nil =>
    by_cases empty : chain.bytes = []
    · exact ⟨_, writeAll_empty _ _ (by rw [formed.readable, empty]; rfl), by simp [empty]⟩
    have left := formed.readable ▸ length_pos_iff.mpr empty |>.ne'
    unfold writeAll
    rw [if_neg left]
    exact ⟨_, rfl, by simp [Ne.symm empty]⟩
  | cons answer answers ih =>
    by_cases empty : chain.bytes = []
    · exact ⟨_, writeAll_empty _ _ (by rw [formed.readable, empty]; rfl), by simp [empty]⟩
    have left : chain.readableBytes ≠ 0 := formed.readable ▸ length_pos_iff.mpr empty |>.ne'
    obtain ⟨⟨result, moved, after⟩, ran, sends⟩ := writev_sends formed answer
    unfold writeAll
    rw [if_neg left]
    dsimp only
    rw [ran]
    cases result with
    | error err => exact ⟨_, rfl, by simp [Ne.symm empty]⟩
    | ok n =>
      cases n with
      | zero => exact ⟨_, rfl, by simp [Ne.symm empty]⟩
      | succ n =>
        have sent := sends (n + 1) rfl
        obtain ⟨done, rest, before, success⟩ := ih sent.formed
        have split : chain.bytes = moved ++ after.bytes := by
          rw [show moved = chain.bytes.take (n + 1) from sent.wire, show after.bytes = _ from sent.left,
            take_append_drop]
        dsimp only
        rw [rest, split]
        exact ⟨_, rfl, prefix_append_right_inj _ |>.mpr before, success.trans (append_right_inj moved).symm⟩

/-- Bytes come in over those that are readable, and as many bytes of the room are committed as it held them before. So
they are received only if they are the same as both. -/
theorem readvInto_receives (formed : chain.WellFormed) (incoming : List UInt8) :
    (∃ transfer, readvInto chain (.ok incoming) = .ok transfer ∧
        ∀ n, transfer.result = .ok n → Receives chain n transfer) ↔
      incoming.take (front kMaxIov chain.nodes).length <+: chain.bytes ∧
        incoming.take (front kMaxIov chain.nodes).length <+: chain.room := by
  unfold readvInto
  dsimp only
  rw [fillWriteIov, fillIov_sum]
  split_ifs with none_offered
  · have empty := (chain.fillWriteIov_nil 15).mp none_offered
    have nothing : front kMaxIov chain.nodes = [] := prefix_nil.mp (empty ▸ front_prefix kMaxIov chain.nodes)
    rw [nothing]
    refine ⟨fun _ => ⟨ nil_prefix, nil_prefix⟩, fun _ => ⟨_, rfl, fun n result => ?_⟩⟩
    cases result
    exact .nothing chain _
  have within : (incoming.take (front kMaxIov chain.nodes).length).length ≤ (front kMaxIov chain.nodes).length :=
    length_take_le _ _
  generalize incoming.take (front kMaxIov chain.nodes).length = received at within
  have stored := scatter_fillIov [] chain.nodes kMaxIov received
  rw [nil_append, nil_append, length_nil] at stored
  rw [stored, commit]
  dsimp only
  split_ifs with fits
  · rw [formed.writable, BufChain.room, ← overlay_room kMaxIov received] at fits
    obtain ⟨parts, count, flat, readable⟩ := commitLoop_readable fits
    rw [overlay_room] at flat
    have lengths : ((overlay kMaxIov received chain.nodes).map IoView.readable).map List.length =
        (chain.nodes.map IoView.readable).map List.length := by
      rw [List.map_map, List.map_map]
      exact overlay_lengths kMaxIov received chain.nodes
    have nodes : (overlay kMaxIov received chain.nodes).length = chain.nodes.length := by
      simpa using congrArg List.length lengths
    constructor
    · rintro ⟨transfer, ran, receives⟩
      cases ran
      obtain ⟨-, ⟨others, many, came, stands⟩, -⟩ := receives _ rfl
      obtain ⟨untouched, same⟩ := zipWith_append_inj lengths (by simpa using count) (by simpa using many)
        (readable.symm.trans stands)
      refine ⟨(overlay_same_iff within).mp untouched, ?_⟩
      rw [← show others.flatten = received from came, ← same, flat]
      exact take_prefix _ _
    · rintro ⟨untouched, held⟩
      refine ⟨_, rfl, fun n result => ?_⟩
      cases result
      refine ⟨rfl, ⟨parts, count.trans nodes, ?_, ?_⟩, rfl⟩
      · rw [flat]
        exact (prefix_iff_eq_take.mp held).symm
      · rw [← (overlay_same_iff within).mpr untouched]
        exact readable
  · constructor
    · rintro ⟨transfer, ran, -⟩
      cases ran
    · intro both
      refine absurd ?_ fits
      rw [formed.writable]
      exact both.2.length_le

end TcpTransport

namespace TlsTransport

/-- `writev` leaves the total of readable bytes as it was. -/
theorem writev_total (chain : BufChain) (layer : Except IoErr Nat) :
    ∃ transfer, writev chain layer = .ok transfer ∧ transfer.chain.readableBytes = chain.readableBytes := by
  unfold writev
  dsimp only
  split
  · exact ⟨_, rfl, rfl⟩
  · cases layer <;> exact ⟨_, rfl, rfl⟩

theorem writev_sends (formed : chain.WellFormed) (layer : Except IoErr Nat) :
    ∃ transfer, writev chain layer = .ok transfer ∧ ∀ n, transfer.result = .ok n → (Sends chain n transfer ↔ n = 0) := by
  obtain ⟨transfer, ran, total⟩ := writev_total chain layer
  refine ⟨transfer, ran, fun n result => ⟨fun sends => ?_, fun none_sent => ?_⟩⟩
  · have less := sends.total
    omega
  · subst none_sent
    unfold writev at ran
    dsimp only at ran
    split at ran
    · cases ran
      exact .nothing formed.dropEmptyFront chain.dropEmptyFront_bytes rfl
    cases layer with
    | error err =>
      cases ran
      cases result
    | ok accepted =>
      cases ran
      have nothing := eq_nil_of_length_eq_zero (Except.ok.inj result)
      rw [nothing]
      have same : (fun view : IoView => view.consume ([] : List UInt8).length) = id :=
        funext fun view => view.consume_zero
      rw [same, modify_id]
      exact .nothing formed.dropEmptyFront chain.dropEmptyFront_bytes rfl

/-- `write_all` never succeeds with a chain that has something to send. -/
theorem writeAll_fails (formed : chain.WellFormed) (answers : List (Except IoErr Nat)) :
    ∃ done, writeAll writev answers chain = .ok done ∧ (done.returned = some (.ok ()) ↔ chain.bytes = []) := by
  have fails (left : chain.readableBytes ≠ 0) :
      ∃ done, writeAll writev answers chain = .ok done ∧ done.returned ≠ some (.ok ()) := by
    clear formed
    induction answers generalizing chain with
    | nil =>
      unfold writeAll
      rw [if_neg left]
      exact ⟨_, rfl, by simp⟩
    | cons answer answers ih =>
      obtain ⟨⟨result, moved, after⟩, ran, total⟩ := writev_total chain answer
      unfold writeAll
      rw [if_neg left]
      dsimp only
      rw [ran]
      cases result with
      | error err => exact ⟨_, rfl, by simp⟩
      | ok n =>
        cases n with
        | zero => exact ⟨_, rfl, by simp⟩
        | succ n =>
          obtain ⟨done, rest, fails⟩ := ih (show after.readableBytes ≠ 0 from total ▸ left)
          dsimp only
          rw [rest]
          exact ⟨_, rfl, fails⟩
  by_cases empty : chain.bytes = []
  · exact ⟨_, writeAll_empty _ _ (by rw [formed.readable, empty]; rfl), by simp [empty]⟩
  · obtain ⟨done, ran, failed⟩ := fails (formed.readable ▸ length_pos_iff.mpr empty |>.ne')
    exact ⟨done, ran, by simp [failed, empty]⟩

/-- The bytes are stored, but the total of readable bytes stays as it was. -/
theorem readvInto_receives (chain : BufChain) (layer : Except IoErr (List UInt8)) :
    ∃ transfer, readvInto chain layer = .ok transfer ∧
      ∀ n, transfer.result = .ok n → (Receives chain n transfer ↔ n = 0) := by
  unfold readvInto
  split
  · refine ⟨_, rfl, fun n result => ?_⟩
    cases result
    exact ⟨fun _ => rfl, fun _ => .nothing chain _⟩
  cases layer with
  | error err => exact ⟨_, rfl, fun n result => by cases result⟩
  | ok incoming =>
    refine ⟨_, rfl, fun n result => ⟨fun receives => ?_, fun none_came => ?_⟩⟩
    · have more := receives.total
      dsimp only at more
      omega
    · subst none_came
      have nothing := eq_nil_of_length_eq_zero (Except.ok.inj result)
      rw [nothing]
      have same : (fun view : IoView => view.fill []) = id := funext fun view => view.fill_nil
      rw [same, modify_id]
      exact .nothing chain _

end TlsTransport

/-- `TcpTransport::writev` and `write_all` over it keep the contract of the chain. The others keep it only if they move
nothing, and `TcpTransport::readv_into` also if the bytes that come in are the ones the chain has in both places. -/
theorem vectored_contract (chain : BufChain) (formed : chain.WellFormed) :
    (∀ socket, ∃ transfer, TcpTransport.writev chain socket = .ok transfer ∧
        ∀ n, transfer.result = .ok n → Sends chain n transfer) ∧
      (∀ answers, ∃ done, writeAll TcpTransport.writev answers chain = .ok done ∧ done.wire <+: chain.bytes ∧
        (done.returned = some (.ok ()) ↔ done.wire = chain.bytes)) ∧
      (∀ layer, ∃ transfer, TlsTransport.writev chain layer = .ok transfer ∧
        ∀ n, transfer.result = .ok n → (Sends chain n transfer ↔ n = 0)) ∧
      (∀ answers, ∃ done, writeAll TlsTransport.writev answers chain = .ok done ∧
        (done.returned = some (.ok ()) ↔ chain.bytes = [])) ∧
      (∀ incoming, (∃ transfer, TcpTransport.readvInto chain (.ok incoming) = .ok transfer ∧
          ∀ n, transfer.result = .ok n → Receives chain n transfer) ↔
        incoming.take (front kMaxIov chain.nodes).length <+: chain.bytes ∧
          incoming.take (front kMaxIov chain.nodes).length <+: chain.room) ∧
      (∀ layer, ∃ transfer, TlsTransport.readvInto chain layer = .ok transfer ∧
        ∀ n, transfer.result = .ok n → (Receives chain n transfer ↔ n = 0)) :=
  ⟨TcpTransport.writev_sends formed, TcpTransport.writeAll_whole formed, TlsTransport.writev_sends formed,
    TlsTransport.writeAll_fails formed, TcpTransport.readvInto_receives formed, TlsTransport.readvInto_receives chain⟩

/-- A chain of one node with a byte to read and room for another. -/
def oneByteChain : BufChain := ⟨[⟨[0x61, 0x00], 0, 1, by decide, by decide⟩], 1, 1, 1⟩

theorem oneByteChain_contract : oneByteChain.WellFormed ∧
    ∃ transfer, TcpTransport.writev oneByteChain (.ok 1) = .ok transfer ∧
      ∀ n, transfer.result = .ok n → Sends oneByteChain n transfer := by
  have formed : oneByteChain.WellFormed := ⟨rfl, rfl, rfl⟩
  exact ⟨formed, (vectored_contract oneByteChain formed).1 (.ok 1)⟩

/-- Over TLS the byte is sent, and `write_all` fails; over TCP a byte that comes in replaces the one to read, and the
room is committed as it was. -/
theorem oneByteChain_broken :
    writeAll TlsTransport.writev [.ok 1, .ok 1] oneByteChain = .ok ⟨some (.error .connReset), [0x61]⟩ ∧
      (TcpTransport.readvInto oneByteChain (.ok [0x62])).map (fun transfer => transfer.chain.bytes) =
        .ok [0x62, 0x00] ∧
      (TlsTransport.readvInto oneByteChain (.ok [0x62])).map (fun transfer => (transfer.chain.bytes,
        transfer.chain.readableBytes)) = .ok ([0x61, 0x62], 1) := by
  decide

end FiberGateway
