import FiberGateway.Mem.IoBuf

namespace FiberGateway

open List

/-- An `IoBuf` with the storage its view covers, committed up to `last` and read up to `pos`. -/
structure IoView where
  storage : List UInt8
  pos : Nat
  last : Nat
  pos_le : pos ≤ last
  last_le : last ≤ storage.length
  deriving DecidableEq

namespace IoView

variable {view other : IoView}

def readable (view : IoView) : List UInt8 := (view.storage.take view.last).drop view.pos

/-- What the storage holds behind the committed bytes. -/
def room (view : IoView) : List UInt8 := view.storage.drop view.last

def writable (view : IoView) : Nat := view.storage.length - view.last

theorem readable_length (view : IoView) : view.readable.length = view.last - view.pos := by
  simp [readable, view.last_le]

theorem room_length (view : IoView) : view.room.length = view.writable := by
  simp [room, writable]

def consume (view : IoView) (bytes : Nat) : IoView where
  storage := view.storage
  pos := min (view.pos + bytes) view.last
  last := view.last
  pos_le := Nat.min_le_right _ _
  last_le := view.last_le

def commit (view : IoView) (bytes : Nat) : IoView where
  storage := view.storage
  pos := view.pos
  last := min (view.last + bytes) view.storage.length
  pos_le := le_min (le_trans view.pos_le (Nat.le_add_right _ _)) (le_trans view.pos_le view.last_le)
  last_le := Nat.min_le_right _ _

/-- Bytes copied over the storage from `offset` on. -/
def overwrite (view : IoView) (offset : Nat) (bytes : List UInt8) : IoView where
  storage := view.storage.take offset ++ bytes.take (view.storage.length - offset) ++
    view.storage.drop (offset + bytes.length)
  pos := view.pos
  last := view.last
  pos_le := view.pos_le
  last_le := by
    have := view.last_le
    simp only [length_append, length_take, length_drop]
    omega

/-- Bytes stored behind the committed ones and committed. -/
def fill (view : IoView) (bytes : List UInt8) : IoView := (view.overwrite view.last bytes).commit bytes.length

@[ext]
theorem ext (storage : view.storage = other.storage) (pos : view.pos = other.pos)
    (last : view.last = other.last) : view = other := by
  cases view
  cases other
  cases storage
  cases pos
  cases last
  rfl

theorem consume_readable (view : IoView) (bytes : Nat) : (view.consume bytes).readable = view.readable.drop bytes := by
  simp only [readable, consume, drop_drop]
  rcases le_total (view.pos + bytes) view.last with short | long
  · rw [Nat.min_eq_left short]
  · rw [Nat.min_eq_right long, drop_of_length_le (by simp), drop_of_length_le (by simp; omega)]

@[simp] theorem consume_zero (view : IoView) : view.consume 0 = view := by
  ext1
  · rfl
  · exact Nat.min_eq_left view.pos_le
  · rfl

@[simp] theorem overwrite_nil (view : IoView) (offset : Nat) : view.overwrite offset [] = view := by
  ext1
  · simp [overwrite]
  · rfl
  · rfl

@[simp] theorem fill_nil (view : IoView) : view.fill [] = view := by
  rw [fill, overwrite_nil]
  ext1
  · rfl
  · rfl
  · exact Nat.min_eq_left view.last_le

theorem commit_readable {bytes : Nat} (fits : bytes ≤ view.writable) :
    (view.commit bytes).readable = view.readable ++ view.room.take bytes := by
  have pos_le := view.pos_le
  have last_le := view.last_le
  unfold writable at fits
  simp only [readable, commit, room]
  rw [Nat.min_eq_left (by omega), take_add, drop_append_of_le_length (by simp; omega)]

/-- Bytes that come in over the readable ones replace them. -/
theorem overwrite_readable {bytes : List UInt8} (fits : bytes.length ≤ view.readable.length) :
    (view.overwrite view.pos bytes).readable = bytes ++ view.readable.drop bytes.length ∧
      (view.overwrite view.pos bytes).room = view.room := by
  have pos_le := view.pos_le
  have last_le := view.last_le
  rw [readable_length] at fits
  have front : (view.storage.take view.pos).length = view.pos := by simp; omega
  have whole : bytes.take (view.storage.length - view.pos) = bytes := take_of_length_le (by omega)
  constructor
  · simp only [readable, overwrite, whole]
    rw [append_assoc, take_append, front, take_of_length_le (by omega), drop_append,
      drop_of_length_le (by omega), front, Nat.sub_self, drop_zero, nil_append, take_append,
      take_of_length_le (by omega), drop_drop, drop_take, Nat.sub_sub]
  · simp only [room, overwrite, whole]
    rw [drop_append, drop_of_length_le (by simp; omega), nil_append, drop_drop]
    congr 1
    simp
    omega

end IoView

/-- An `IoBufChain` with the totals it caches. -/
structure BufChain where
  nodes : List IoView
  size : Nat
  readableBytes : Nat
  writableBytes : Nat
  deriving DecidableEq

namespace BufChain

/-- The readable bytes, node by node. -/
def bytes (chain : BufChain) : List UInt8 := chain.nodes.flatMap IoView.readable

def room (chain : BufChain) : List UInt8 := chain.nodes.flatMap IoView.room

/-- The cached totals are the sums over the nodes. -/
structure WellFormed (chain : BufChain) : Prop where
  size : chain.size = chain.nodes.length
  readable : chain.readableBytes = chain.bytes.length
  writable : chain.writableBytes = chain.room.length

def append (chain : BufChain) (view : IoView) : BufChain where
  nodes := chain.nodes ++ [view]
  size := chain.size + 1
  readableBytes := chain.readableBytes + view.readable.length
  writableBytes := chain.writableBytes + view.writable

def prepend (chain : BufChain) (view : IoView) : BufChain where
  nodes := view :: chain.nodes
  size := chain.size + 1
  readableBytes := chain.readableBytes + view.readable.length
  writableBytes := chain.writableBytes + view.writable

/-- The loop of `consume_and_compact`: what is left of the nodes, and of the totals that go down with them. -/
def compactLoop : Nat → List IoView → Nat → Nat → List IoView × Nat × Nat
  | _, [], size, writable => ([], size, writable)
  | bytes, node :: rest, size, writable =>
    if bytes = 0 then (node :: rest, size, writable)
    else if bytes < node.readable.length then (node.consume bytes :: rest, size, writable)
    else compactLoop (bytes - node.readable.length) rest (size - 1) (writable - node.writable)

def consumeAndCompact (chain : BufChain) (bytes : Nat) : Except Fault BufChain :=
  if bytes ≤ chain.readableBytes then
    let (nodes, size, writable) := compactLoop bytes chain.nodes chain.size chain.writableBytes
    .ok ⟨nodes, size, chain.readableBytes - bytes, writable⟩
  else .error .assertion

/-- The loop of `drop_empty_front`. -/
def dropEmptyLoop : List IoView → Nat → Nat → List IoView × Nat × Nat
  | [], size, writable => ([], size, writable)
  | node :: rest, size, writable =>
    if node.readable = [] then dropEmptyLoop rest (size - 1) (writable - node.writable)
    else (node :: rest, size, writable)

def dropEmptyFront (chain : BufChain) : BufChain :=
  let (nodes, size, writable) := dropEmptyLoop chain.nodes chain.size chain.writableBytes
  ⟨nodes, size, chain.readableBytes, writable⟩

/-- The loop of `commit`. -/
def commitLoop : Nat → List IoView → List IoView
  | _, [] => []
  | bytes, node :: rest =>
    if bytes = 0 then node :: rest
    else if bytes < node.writable then node.commit bytes :: rest
    else node.commit node.writable :: commitLoop (bytes - node.writable) rest

def commit (chain : BufChain) (bytes : Nat) : Except Fault BufChain :=
  if bytes ≤ chain.writableBytes then
    .ok ⟨commitLoop bytes chain.nodes, chain.size, chain.readableBytes + bytes, chain.writableBytes - bytes⟩
  else .error .assertion

/-- A piece of the storage of a node, handed to the system. -/
structure Iovec where
  node : Nat
  offset : Nat
  len : Nat
  deriving DecidableEq

/-- The loop of `fill_write_iov` and `fill_read_iov`: at most `max` pieces, none of them empty. -/
def fillIov (offset len : IoView → Nat) : Nat → Nat → List IoView → List Iovec
  | _, _, [] => []
  | _, 0, _ => []
  | index, max + 1, node :: rest =>
    if len node = 0 then fillIov offset len (index + 1) (max + 1) rest
    else ⟨index, offset node, len node⟩ :: fillIov offset len (index + 1) max rest

/-- The readable bytes of the nodes, for a write. -/
def fillWriteIov (chain : BufChain) (max : Nat) : List Iovec :=
  fillIov IoView.pos (fun node => node.readable.length) 0 max chain.nodes

/-- The room of the nodes, for a read. -/
def fillReadIov (chain : BufChain) (max : Nat) : List Iovec := fillIov IoView.last IoView.writable 0 max chain.nodes

/-- What the pieces hold. -/
def gather (nodes : List IoView) (iov : List Iovec) : List UInt8 :=
  iov.flatMap fun piece => match nodes[piece.node]? with
    | none => []
    | some node => (node.storage.drop piece.offset).take piece.len

/-- Incoming bytes stored in the pieces, one after the other. -/
def scatter : List Iovec → List UInt8 → List IoView → List IoView
  | [], _, nodes => nodes
  | piece :: rest, bytes, nodes =>
    scatter rest (bytes.drop piece.len) (nodes.modify piece.node (·.overwrite piece.offset (bytes.take piece.len)))

/-- `first_readable`, as the index of the node. -/
def firstReadable (chain : BufChain) : Option Nat := chain.nodes.findIdx? fun node => node.readable ≠ []

def firstWritable (chain : BufChain) : Option Nat := chain.nodes.findIdx? fun node => node.writable ≠ 0

variable {chain : BufChain}

@[simp] theorem append_bytes (chain : BufChain) (view : IoView) : (chain.append view).bytes = chain.bytes ++ view.readable := by
  simp [append, bytes]

@[simp] theorem prepend_bytes (chain : BufChain) (view : IoView) : (chain.prepend view).bytes = view.readable ++ chain.bytes := by
  simp [prepend, bytes]

theorem WellFormed.append (formed : chain.WellFormed) (view : IoView) : (chain.append view).WellFormed where
  size := by simp [BufChain.append, formed.size]
  readable := by rw [append_bytes, length_append, ← formed.readable]; rfl
  writable := by simp [BufChain.append, BufChain.room, formed.writable, view.room_length]

theorem WellFormed.prepend (formed : chain.WellFormed) (view : IoView) : (chain.prepend view).WellFormed where
  size := by simp [BufChain.prepend, formed.size]
  readable := by rw [prepend_bytes, length_append, ← formed.readable, Nat.add_comm]; rfl
  writable := by simp [BufChain.prepend, BufChain.room, formed.writable, view.room_length, Nat.add_comm]

theorem compactLoop_bytes (bytes : Nat) (nodes : List IoView) (size writable : Nat) :
    (compactLoop bytes nodes size writable).1.flatMap IoView.readable = (nodes.flatMap IoView.readable).drop bytes := by
  induction nodes generalizing bytes size writable with
  | nil => simp [compactLoop]
  | cons node rest ih =>
    unfold compactLoop
    split_ifs with none_left inside
    · rw [none_left, drop_zero]
    · simp only [flatMap_cons, IoView.consume_readable]
      rw [drop_append_of_le_length inside.le]
    · rw [ih, flatMap_cons, drop_append, drop_of_length_le (Nat.not_lt.mp inside), nil_append]

theorem room_tail (node : IoView) (rest : List IoView) :
    ((node :: rest).flatMap IoView.room).length - node.writable = (rest.flatMap IoView.room).length := by
  rw [flatMap_cons, length_append, IoView.room_length, Nat.add_sub_cancel_left]

theorem compactLoop_totals (bytes : Nat) (nodes : List IoView) :
    (compactLoop bytes nodes nodes.length (nodes.flatMap IoView.room).length).2 =
      ((compactLoop bytes nodes nodes.length (nodes.flatMap IoView.room).length).1.length,
        ((compactLoop bytes nodes nodes.length (nodes.flatMap IoView.room).length).1.flatMap IoView.room).length) := by
  induction nodes generalizing bytes with
  | nil => rfl
  | cons node rest ih =>
    unfold compactLoop
    have fewer : (node :: rest).length - 1 = rest.length := rfl
    split_ifs
    · rfl
    · rfl
    · rw [fewer, room_tail]
      exact ih _

/-- Consumed bytes leave the front of the chain, and with them the nodes they filled. -/
theorem WellFormed.consumeAndCompact (formed : chain.WellFormed) {bytes : Nat} (within : bytes ≤ chain.bytes.length) :
    ∃ after, chain.consumeAndCompact bytes = .ok after ∧ after.WellFormed ∧ after.bytes = chain.bytes.drop bytes ∧
      after.readableBytes + bytes = chain.readableBytes := by
  have totals := compactLoop_totals bytes chain.nodes
  have left := compactLoop_bytes bytes chain.nodes chain.nodes.length (chain.nodes.flatMap IoView.room).length
  unfold BufChain.consumeAndCompact
  rw [if_pos (formed.readable ▸ within), formed.size, formed.writable, BufChain.room]
  refine ⟨_, rfl, ⟨(congrArg Prod.fst totals), ?_, (congrArg Prod.snd totals)⟩, left, ?_⟩
  · have lengths := congrArg List.length left
    rw [length_drop] at lengths
    change chain.readableBytes - bytes = _
    rw [formed.readable]
    exact lengths.symm
  · change chain.readableBytes - bytes + bytes = chain.readableBytes
    rw [formed.readable]
    omega

theorem dropEmptyLoop_bytes (nodes : List IoView) (size writable : Nat) :
    (dropEmptyLoop nodes size writable).1.flatMap IoView.readable = nodes.flatMap IoView.readable := by
  induction nodes generalizing size writable with
  | nil => rfl
  | cons node rest ih =>
    unfold dropEmptyLoop
    split_ifs with empty
    · rw [ih, flatMap_cons, empty, nil_append]
    · rfl

theorem dropEmptyLoop_totals (nodes : List IoView) :
    (dropEmptyLoop nodes nodes.length (nodes.flatMap IoView.room).length).2 =
      ((dropEmptyLoop nodes nodes.length (nodes.flatMap IoView.room).length).1.length,
        ((dropEmptyLoop nodes nodes.length (nodes.flatMap IoView.room).length).1.flatMap IoView.room).length) := by
  induction nodes with
  | nil => rfl
  | cons node rest ih =>
    unfold dropEmptyLoop
    split_ifs
    · rw [room_tail]
      exact ih
    · rfl

theorem dropEmptyFront_bytes (chain : BufChain) : chain.dropEmptyFront.bytes = chain.bytes :=
  dropEmptyLoop_bytes chain.nodes chain.size chain.writableBytes

theorem WellFormed.dropEmptyFront (formed : chain.WellFormed) : chain.dropEmptyFront.WellFormed := by
  have totals := dropEmptyLoop_totals chain.nodes
  have same := chain.dropEmptyFront_bytes
  refine ⟨?_, ?_, ?_⟩
  · simp only [BufChain.dropEmptyFront, formed.size, formed.writable]
    exact congrArg Prod.fst totals
  · rw [same]
    exact formed.readable
  · simp only [BufChain.dropEmptyFront, formed.size, formed.writable, BufChain.room]
    exact congrArg Prod.snd totals

/-- The readable bytes of the first `max` nodes that have any. -/
def front : Nat → List IoView → List UInt8
  | _, [] => []
  | 0, _ => []
  | max + 1, node :: rest =>
    if node.readable.length = 0 then front (max + 1) rest else node.readable ++ front max rest

theorem gather_fillIov (before rest : List IoView) (max : Nat) :
    gather (before ++ rest) (fillIov IoView.pos (fun node => node.readable.length) before.length max rest) =
      front max rest := by
  induction rest generalizing before max with
  | nil => simp [fillIov, gather, front]
  | cons node rest ih =>
    have later := ih (before ++ [node])
    rw [append_assoc, singleton_append, length_append, length_singleton] at later
    cases max with
    | zero => rfl
    | succ max =>
      unfold fillIov front
      split_ifs
      · exact later (max + 1)
      have here : (before ++ node :: rest)[before.length]? = some node := by simp
      have piece : (node.storage.drop node.pos).take node.readable.length = node.readable := by
        rw [IoView.readable_length, IoView.readable, drop_take]
      simp only [gather, flatMap_cons, here, piece]
      exact congrArg _ (later max)

theorem front_prefix (max : Nat) (nodes : List IoView) : front max nodes <+: nodes.flatMap IoView.readable := by
  induction nodes generalizing max with
  | nil => simp [front]
  | cons node rest ih =>
    cases max with
    | zero => exact nil_prefix
    | succ max =>
      unfold front
      split_ifs with empty
      · rw [flatMap_cons, eq_nil_of_length_eq_zero empty, nil_append]
        exact ih (max + 1)
      · exact prefix_append_right_inj _ |>.mpr (ih max)

/-- The pieces for a write hold the front of the readable bytes. -/
theorem gather_fillWriteIov (chain : BufChain) (max : Nat) :
    gather chain.nodes (chain.fillWriteIov max) = front max chain.nodes :=
  gather_fillIov [] chain.nodes max

theorem fillIov_nil {offset len : IoView → Nat} (index max : Nat) (nodes : List IoView) :
    fillIov offset len index (max + 1) nodes = [] ↔ ∀ node ∈ nodes, len node = 0 := by
  induction nodes generalizing index with
  | nil => simp [fillIov]
  | cons node rest ih =>
    unfold fillIov
    split_ifs with empty
    · simp [ih, empty]
    · simp [empty]

theorem fillWriteIov_nil (chain : BufChain) (max : Nat) : chain.fillWriteIov (max + 1) = [] ↔ chain.bytes = [] := by
  rw [fillWriteIov, fillIov_nil]
  simp [bytes]

/-- Incoming bytes over the readable bytes of the first `max` nodes that have any. -/
def overlay : Nat → List UInt8 → List IoView → List IoView
  | _, _, [] => []
  | 0, _, nodes => nodes
  | max + 1, bytes, node :: rest =>
    if node.readable.length = 0 then node :: overlay (max + 1) bytes rest
    else node.overwrite node.pos (bytes.take node.readable.length) ::
      overlay max (bytes.drop node.readable.length) rest

theorem scatter_fillIov (before rest : List IoView) (max : Nat) (bytes : List UInt8) :
    scatter (fillIov IoView.pos (fun node => node.readable.length) before.length max rest) bytes (before ++ rest) =
      before ++ overlay max bytes rest := by
  induction rest generalizing before max bytes with
  | nil => simp [fillIov, scatter, overlay]
  | cons node rest ih =>
    cases max with
    | zero => rfl
    | succ max =>
      unfold fillIov overlay
      split_ifs
      · have later := ih (before ++ [node]) (max + 1) bytes
        simpa using later
      have later := ih (before ++ [node.overwrite node.pos (bytes.take node.readable.length)]) max
        (bytes.drop node.readable.length)
      have stored : (before ++ node :: rest).modify before.length
          (·.overwrite node.pos (bytes.take node.readable.length)) =
          before ++ node.overwrite node.pos (bytes.take node.readable.length) :: rest := by
        rw [modify_eq_take_cons_drop (by simp)]
        simp
      simp only [scatter, stored]
      simpa using later

theorem overlay_room (max : Nat) (bytes : List UInt8) (nodes : List IoView) :
    (overlay max bytes nodes).flatMap IoView.room = nodes.flatMap IoView.room := by
  induction nodes generalizing max bytes with
  | nil => simp [overlay]
  | cons node rest ih =>
    cases max with
    | zero => rfl
    | succ max =>
      unfold overlay
      split_ifs
      · rw [flatMap_cons, ih, flatMap_cons]
      · rw [flatMap_cons, ih, flatMap_cons, (IoView.overwrite_readable (by simp)).2]

theorem overlay_lengths (max : Nat) (bytes : List UInt8) (nodes : List IoView) :
    (overlay max bytes nodes).map (fun node => node.readable.length) = nodes.map fun node => node.readable.length := by
  induction nodes generalizing max bytes with
  | nil => simp [overlay]
  | cons node rest ih =>
    cases max with
    | zero => rfl
    | succ max =>
      unfold overlay
      split_ifs
      · rw [map_cons, ih, map_cons]
      · rw [map_cons, ih, map_cons, IoView.readable_length, IoView.readable_length]
        rfl

variable {max bytes : Nat} {nodes : List IoView}

/-- The bytes that came in stand where the chain was readable. -/
theorem overlay_bytes {bytes : List UInt8} (within : bytes.length ≤ (front max nodes).length) :
    (overlay max bytes nodes).flatMap IoView.readable =
      bytes ++ (nodes.flatMap IoView.readable).drop bytes.length := by
  induction nodes generalizing max bytes with
  | nil =>
    rw [eq_nil_of_length_eq_zero (Nat.le_zero.mp within)]
    simp [overlay]
  | cons node rest ih =>
    cases max with
    | zero =>
      rw [eq_nil_of_length_eq_zero (Nat.le_zero.mp within)]
      rfl
    | succ max =>
      unfold overlay
      unfold front at within
      split_ifs at within ⊢ with empty
      · rw [flatMap_cons, flatMap_cons, eq_nil_of_length_eq_zero empty, nil_append, nil_append]
        exact ih within
      rw [length_append] at within
      rw [flatMap_cons, ih (by rw [length_drop]; omega), (IoView.overwrite_readable (by simp)).1,
        flatMap_cons, length_drop, length_take]
      rcases le_total bytes.length node.readable.length with short | long
      · rw [take_of_length_le short, drop_of_length_le short, Nat.min_eq_right short,
          Nat.sub_eq_zero_of_le short, drop_append_of_le_length short]
        simp
      · rw [Nat.min_eq_left long, drop_length, append_nil, ← append_assoc, take_append_drop,
          drop_append, drop_of_length_le long, nil_append]

/-- Bytes that come in leave the readable ones as they were only if they are the same. -/
theorem overlay_same_iff {bytes : List UInt8} (within : bytes.length ≤ (front max nodes).length) :
    (overlay max bytes nodes).map IoView.readable = nodes.map IoView.readable ↔
      bytes <+: nodes.flatMap IoView.readable := by
  have overlaid := overlay_bytes within
  rw [eq_iff_flatten_eq, List.map_map, List.map_map, ← flatMap_def, ← flatMap_def, overlaid,
    show List.map (List.length ∘ IoView.readable) _ = _ from overlay_lengths max bytes nodes]
  constructor
  · rintro ⟨same, -⟩
    exact ⟨_, same⟩
  · rintro ⟨rest, same⟩
    rw [← same, drop_append_of_le_length le_rfl, drop_length, nil_append]
    exact ⟨rfl, rfl⟩

theorem zipWith_append_nil (nodes : List IoView) :
    List.zipWith (· ++ ·) (nodes.map IoView.readable) (nodes.map fun _ => []) = nodes.map IoView.readable := by
  induction nodes with
  | nil => rfl
  | cons node rest ih => rw [map_cons, map_cons, zipWith_cons_cons, ih, append_nil]

theorem commitLoop_readable (fits : bytes ≤ (nodes.flatMap IoView.room).length) :
    ∃ parts, parts.length = nodes.length ∧ parts.flatten = (nodes.flatMap IoView.room).take bytes ∧
      (commitLoop bytes nodes).map IoView.readable = List.zipWith (· ++ ·) (nodes.map IoView.readable) parts := by
  induction nodes generalizing bytes with
  | nil => exact ⟨[], rfl, by simp, rfl⟩
  | cons node rest ih =>
    unfold commitLoop
    split_ifs with none_left inside
    · refine ⟨(node :: rest).map fun _ => [], by simp, ?_, (zipWith_append_nil _).symm⟩
      simp [none_left]
    · refine ⟨node.room.take bytes :: rest.map fun _ => [], by simp, ?_, ?_⟩
      · rw [flatMap_cons, take_append_of_le_length (by rw [IoView.room_length]; exact inside.le)]
        simp
      · rw [map_cons, map_cons, zipWith_cons_cons, zipWith_append_nil, IoView.commit_readable inside.le]
    have outside := Nat.not_lt.mp inside
    rw [flatMap_cons, length_append, IoView.room_length] at fits
    obtain ⟨parts, length, flat, readable⟩ := ih (show bytes - node.writable ≤ _ by omega)
    refine ⟨node.room :: parts, by simp [length], ?_, ?_⟩
    · have all := take_of_length_le (IoView.room_length node ▸ outside)
      rw [flatten_cons, flat, flatMap_cons, take_append, IoView.room_length, all]
    · rw [map_cons, map_cons, zipWith_cons_cons, ← readable, IoView.commit_readable le_rfl,
        take_of_length_le (IoView.room_length node).le]

theorem zipWith_append_inj {as bs ps qs : List (List UInt8)} (lengths : as.map List.length = bs.map List.length)
    (left : ps.length = as.length) (right : qs.length = bs.length)
    (same : List.zipWith (· ++ ·) as ps = List.zipWith (· ++ ·) bs qs) : as = bs ∧ ps = qs := by
  induction as generalizing bs ps qs with
  | nil =>
    have none_right : bs = [] := map_eq_nil_iff.mp lengths.symm
    subst none_right
    exact ⟨rfl, (eq_nil_of_length_eq_zero left).trans (eq_nil_of_length_eq_zero right).symm⟩
  | cons a as ih =>
    obtain ⟨b, bs, rfl⟩ := exists_cons_of_ne_nil (fun none_right => by simp [none_right] at lengths : bs ≠ [])
    obtain ⟨p, ps, rfl⟩ := exists_cons_of_length_eq_add_one left
    obtain ⟨q, qs, rfl⟩ := exists_cons_of_length_eq_add_one right
    simp only [map_cons, List.cons.injEq, zipWith_cons_cons] at lengths same
    obtain ⟨rfl, rfl⟩ := append_inj same.1 lengths.1
    obtain ⟨rfl, rfl⟩ := ih lengths.2 (Nat.succ.inj left) (Nat.succ.inj right) same.2
    exact ⟨rfl, rfl⟩

theorem fillIov_sum (index max : Nat) (nodes : List IoView) :
    ((fillIov IoView.pos (fun node => node.readable.length) index max nodes).map (·.len)).sum =
      (front max nodes).length := by
  induction nodes generalizing index max with
  | nil => simp [fillIov, front]
  | cons node rest ih =>
    cases max with
    | zero => rfl
    | succ max =>
      unfold fillIov front
      split_ifs
      · exact ih _ _
      · simp [ih]

/-- What the nodes hold. -/
def parts (chain : BufChain) : IoBufChain := chain.nodes.map IoView.readable

theorem compactLoop_parts (n : Nat) (nodes : List IoView) (size writable : Nat) :
    (compactLoop n nodes size writable).1.map IoView.readable =
      IoBufChain.consumeAndCompact n (nodes.map IoView.readable) := by
  induction nodes generalizing n size writable with
  | nil => rfl
  | cons node rest ih =>
    unfold compactLoop
    rw [map_cons, IoBufChain.consumeAndCompact]
    split_ifs
    · rfl
    · rw [map_cons, IoView.consume_readable]
    · exact ih _ _ _

theorem dropEmptyLoop_parts (nodes : List IoView) (size writable : Nat) :
    (dropEmptyLoop nodes size writable).1.map IoView.readable =
      IoBufChain.dropEmptyFront (nodes.map IoView.readable) := by
  induction nodes generalizing size writable with
  | nil => rfl
  | cons node rest ih =>
    unfold dropEmptyLoop
    rw [map_cons]
    cases held : node.readable with
    | nil => simpa [IoBufChain.dropEmptyFront] using ih _ _
    | cons byte bytes => simp [IoBufChain.dropEmptyFront, held]

/-- A call that changes a chain. -/
inductive Op
  | append (view : IoView)
  | prepend (view : IoView)
  | consume (bytes : Nat)
  | dropEmpty
  | clear

def act (chain : BufChain) : Op → Except Fault BufChain
  | .append view => .ok (chain.append view)
  | .prepend view => .ok (chain.prepend view)
  | .consume n => chain.consumeAndCompact n
  | .dropEmpty => .ok chain.dropEmptyFront
  | .clear => .ok ⟨[], 0, 0, 0⟩

/-- What the call does to the contents of the nodes. -/
def Op.move (parts : IoBufChain) : Op → Except Fault IoBufChain
  | .append view => .ok (parts ++ [view.readable])
  | .prepend view => .ok (view.readable :: parts)
  | .consume n => if n ≤ parts.readableBytes then .ok (parts.consumeAndCompact n) else .error .assertion
  | .dropEmpty => .ok parts.dropEmptyFront
  | .clear => .ok []

/-- A chain with exact totals holds the parts. -/
def Stands (chain : Except Fault BufChain) (held : Except Fault IoBufChain) : Prop :=
  chain.map parts = held ∧ ∀ after, chain = .ok after → after.WellFormed

theorem WellFormed.stands (formed : chain.WellFormed) : Stands (.ok chain) (.ok chain.parts) :=
  ⟨rfl, fun _ same => Except.ok.inj same ▸ formed⟩

theorem WellFormed.act (formed : chain.WellFormed) (op : Op) : Stands (chain.act op) (op.move chain.parts) := by
  cases op with
  | append view => simpa [BufChain.act, Op.move, parts, BufChain.append] using (formed.append view).stands
  | prepend view => exact (formed.prepend view).stands
  | consume n =>
    have total : chain.parts.readableBytes = chain.bytes.length := by
      rw [IoBufChain.readableBytes_eq, parts, bytes, flatMap_def]
    rw [BufChain.act, Op.move, total]
    split_ifs with within
    · obtain ⟨after, run, formed', -⟩ := formed.consumeAndCompact within
      have left := compactLoop_parts n chain.nodes chain.size chain.writableBytes
      rw [BufChain.consumeAndCompact, if_pos (formed.readable ▸ within)] at run
      cases run
      rw [BufChain.consumeAndCompact, if_pos (formed.readable ▸ within), parts, ← left]
      exact formed'.stands
    · rw [BufChain.consumeAndCompact, if_neg (formed.readable ▸ within)]
      exact ⟨rfl, fun _ same => by cases same⟩
  | dropEmpty =>
    have left := dropEmptyLoop_parts chain.nodes chain.size chain.writableBytes
    rw [BufChain.act, Op.move, parts, ← left]
    exact formed.dropEmptyFront.stands
  | clear => exact WellFormed.stands ⟨rfl, rfl, rfl⟩

/-- Over every sequence of calls a chain with exact totals is the list of what its nodes hold, and fails where it does. -/
theorem acts_refine (ops : List Op) : Stands (ops.foldlM act ⟨[], 0, 0, 0⟩) (ops.foldlM Op.move []) := by
  suffices ∀ chain : BufChain, chain.WellFormed → Stands (ops.foldlM act chain) (ops.foldlM Op.move chain.parts) from
    this _ ⟨rfl, rfl, rfl⟩
  induction ops with
  | nil => exact fun chain formed => formed.stands
  | cons op ops ih =>
    intro chain formed
    obtain ⟨agrees, kept⟩ := formed.act op
    rw [foldlM_cons, foldlM_cons, ← agrees]
    cases run : chain.act op with
    | error fault => exact ⟨rfl, fun _ same => by cases same⟩
    | ok after => exact ih after (kept after run)

end BufChain

end FiberGateway
