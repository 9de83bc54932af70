import FiberGateway.Http2.Fragments
import FiberGateway.Http2.PayloadCut

namespace FiberGateway.Http2

open List

/-- What a stream learns from its peer: the bytes of a header block with their place in it, the bytes of the data, and
that nothing follows. -/
inductive Delivered
  | header (offset : Nat) (byte : UInt8)
  | data (byte : UInt8)
  | endStream
  deriving DecidableEq, Repr

def Received.heardBy (streamId : Nat) : Received → Option Delivered
  | .data id _ byte => if id = streamId then some (.data byte) else none
  | .header id offset byte => if id = streamId then some (.header offset byte) else none
  | .endStream id => if id = streamId then some .endStream else none

/-- The bytes of a header block behind the first `offset` ones. -/
def headerItems (offset : Nat) (bytes : List UInt8) : List Delivered := bytes.mapIdx fun i byte => .header (offset + i) byte

def endItems (endStream : Bool) : List Delivered := if endStream then [.endStream] else []

/-- A call of `send_header` or `send_data`. -/
structure Message where
  kind : PendingKind
  payload : List UInt8
  endStream : Bool
  deriving DecidableEq, Repr

namespace Message

/-- What the peer's stream is to learn from it. -/
def items (m : Message) : List Delivered :=
  (match m.kind with
    | .header => headerItems 0 m.payload
    | .data => m.payload.map .data) ++ endItems m.endStream

def lastFrameFlags (m : Message) : UInt8 :=
  match m.kind with
  | .header => kFlagEndHeaders ||| if m.endStream then kFlagEndStream else 0
  | .data => if m.endStream then kFlagEndStream else 0

end Message

theorem dataFlags_has (length streamId : Nat) (type : FrameType) (endStream : Bool) :
    let fhr : FrameHeader := ⟨length, type, if endStream then kFlagEndStream else 0, streamId⟩
    fhr.has kFlagPadded = false ∧ fhr.has kFlagEndStream = endStream :=
  (by decide : ∀ endStream : Bool, ((if endStream then kFlagEndStream else 0) &&& kFlagPadded != 0) = false ∧
    ((if endStream then kFlagEndStream else 0) &&& kFlagEndStream != 0) = endStream) endStream

theorem headerFlags_has (length streamId : Nat) (type : FrameType) (endStream : Bool) :
    let fhr : FrameHeader := ⟨length, type, kFlagEndHeaders ||| if endStream then kFlagEndStream else 0, streamId⟩
    fhr.has kFlagPadded = false ∧ fhr.has kFlagPriority = false ∧ fhr.has kFlagEndStream = endStream ∧
      fhr.has kFlagEndHeaders = true :=
  (by decide : ∀ endStream : Bool,
    ((kFlagEndHeaders ||| if endStream then kFlagEndStream else 0) &&& kFlagPadded != 0) = false ∧
    ((kFlagEndHeaders ||| if endStream then kFlagEndStream else 0) &&& kFlagPriority != 0) = false ∧
    ((kFlagEndHeaders ||| if endStream then kFlagEndStream else 0) &&& kFlagEndStream != 0) = endStream ∧
    ((kFlagEndHeaders ||| if endStream then kFlagEndStream else 0) &&& kFlagEndHeaders != 0) = true) endStream

/-- The message that an entry was made for. -/
def PendingEntry.message (entry : PendingEntry) : Message :=
  ⟨entry.kind, entry.payload, entry.lastFrameFlags &&& kFlagEndStream != 0⟩

namespace Conn

/-- What a stream of the connection has learnt. -/
def delivered (c : Conn) (streamId : Nat) : List Delivered := c.received.filterMap (·.heardBy streamId)

theorem delivered_receive (c : Conn) (streamId : Nat) (more : List Received) :
    (c.receive more).delivered streamId = c.delivered streamId ++ more.filterMap (·.heardBy streamId) :=
  filterMap_append

theorem filterMap_mapIdx_all {α β γ : Type} (f : Nat → α → β) (g : β → Option γ) (h : Nat → α → γ) (items : List α)
    (all : ∀ i a, g (f i a) = some (h i a)) : (items.mapIdx f).filterMap g = items.mapIdx h := by
  induction items generalizing f h with
  | nil => rfl
  | cons item items ih =>
    rw [mapIdx_cons, mapIdx_cons, filterMap_cons, all]
    exact congrArg _ (ih _ _ fun i a => all (i + 1) a)

theorem heard_end (streamId : Nat) (endStream : Bool) :
    (if endStream then [Received.endStream streamId] else []).filterMap (·.heardBy streamId) = endItems endStream := by
  cases endStream <;> simp [endItems, Received.heardBy]

theorem heard_data (streamId offset : Nat) (bytes : List UInt8) (endStream : Bool) :
    (dataRecord streamId offset bytes endStream).filterMap (·.heardBy streamId) =
      bytes.map .data ++ endItems endStream := by
  rw [dataRecord, filterMap_append, heard_end,
    filterMap_mapIdx_all _ _ (fun _ byte => Delivered.data byte) bytes (by simp [Received.heardBy])]
  congr 1
  induction bytes with
  | nil => rfl
  | cons byte bytes ih => rw [mapIdx_cons, ih, map_cons]

/-- Inside a header block of the stream, or outside any block. -/
def InBlock (c : Conn) (streamId : Nat) : Option Nat → Prop
  | none => c.expectingContinuation = false ∧ c.inboundHeaderBlockBytes = 0
  | some received => c.expectingContinuation = true ∧ c.inboundHeaderStreamId = streamId ∧
      c.inboundHeaderBlockBytes = received ∧ c.inboundHeaderEndStream = false

/-- The stream takes DATA and HEADERS; `block` tells how much of a header block it has, if it has a part of one. -/
structure Listens (c : Conn) (streamId : Nat) (block : Option Nat) : Prop where
  stream : ∃ s, c.streams.find streamId = some s ∧ s.AcceptsData
  block : c.InBlock streamId block

section Frames

variable {c : Conn} {fhr : FrameHeader} {payload : List UInt8}

theorem overlap_whole (chunk : List UInt8) : overlap chunk 0 0 chunk.length = chunk := by
  simp [overlap_eq]

theorem consume_data (fhr : FrameHeader) (payload : List UInt8) (type : fhr.type = .data) (whole : fhr.length = payload.length) (bare : fhr.has kFlagPadded = false)
    (nonzero : fhr.streamId ≠ 0) (nonempty : payload ≠ []) (listens : c.Listens fhr.streamId none) :
    ∃ d, c.consumeIncomingFramePayload fhr 0 payload = (none, d) ∧
      d.delivered fhr.streamId = c.delivered fhr.streamId ++ payload.map .data ++ endItems (fhr.has kFlagEndStream) ∧
      (fhr.has kFlagEndStream = false → d.Listens fhr.streamId none) := by
  obtain ⟨⟨s, found, accepts⟩, unexpected, fresh⟩ := listens
  have awaits : c.Awaits fhr := by simp [Awaits, unexpected, type]
  have begun : c.begun fhr payload = (none, { c with incomingPadLength := 0 }) := by
    simp [begun, awaits, type, beginData, nonzero, bare]
  rw [consume_first, begun]
  simp only [andThen, deliver_data type]
  generalize cleared_eq : ({ c with incomingPadLength := 0 } : Conn) = e
  have there : e.streams.find fhr.streamId = some s := by rw [← cleared_eq]; exact found
  have padding : e.paddingBegin fhr = payload.length := by rw [← cleared_eq, paddingBegin, whole]; rfl
  have first : dataPrefix fhr = 0 := by simp [dataPrefix, bare]
  have ends : e.endsData fhr 0 payload = fhr.has kFlagEndStream := by simp [endsData, padding]
  have bytes : overlap payload 0 (dataPrefix fhr) (e.paddingBegin fhr) = payload := by
    rw [first, padding, overlap_whole]
  have record : e.dataRecordOf fhr 0 payload = dataRecord fhr.streamId 0 payload (fhr.has kFlagEndStream) := by
    rw [dataRecordOf, bytes, ends, first]
    rfl
  have delivers : e.deliversData fhr 0 payload := .inl (by rw [bytes]; exact nonempty)
  have same : e.delivered fhr.streamId = c.delivered fhr.streamId := by rw [← cleared_eq]; rfl
  cases endStream : fhr.has kFlagEndStream with
  | false =>
    rw [endStream] at ends
    refine ⟨_, deliverData_middle there accepts delivers ends, ?_, fun _ => ⟨⟨s, there, accepts⟩, ?_⟩⟩
    · rw [delivered_receive, record, heard_data, same, endStream, append_assoc]
    · rw [← cleared_eq]
      exact ⟨unexpected, fresh⟩
  | true =>
    refine ⟨_, deliverData_accepted there accepts delivers, ?_, fun ended => by cases ended⟩
    rw [delivered, (maybeDestroyStream_closeSide _ _).sendSide.received]
    refine (delivered_receive e fhr.streamId (e.dataRecordOf fhr 0 payload)).trans ?_
    rw [record, heard_data, same, endStream, append_assoc]

theorem createPeerStream_pad (c : Conn) (streamId pad : Nat) : { c with incomingPadLength := pad }.createPeerStream streamId =
    (c.createPeerStream streamId).map fun d => { d with incomingPadLength := pad } := by
  unfold createPeerStream insertStream
  dsimp only
  change (if (!c.canAcceptPeerStream streamId || (c.streams.find streamId).isSome) = true then _ else _) = _
  split
  · rfl
  · split <;> rfl

end Frames

section Entries

variable {c : Conn} {streamId : Nat} {entry : PendingEntry}

variable {bytes offset : Nat} {sizes : List Nat} {endStream : Bool}

/-- The sizes of the pieces that an entry is cut into. -/
structure Pieces (entry : PendingEntry) (sizes : List Nat) : Prop where
  positive : ∀ bytes ∈ sizes, 0 < bytes
  small : ∀ bytes ∈ sizes, bytes < 2 ^ 24
  whole : sizes.sum = entry.payload.length

section

variable (pieces : Pieces entry (bytes :: sizes))

include pieces

theorem Pieces.behind : Pieces (entry.behind bytes) sizes := by
  refine ⟨fun size member => pieces.positive size (mem_cons_of_mem _ member),
    fun size member => pieces.small size (mem_cons_of_mem _ member), ?_⟩
  have whole := pieces.whole
  rw [sum_cons] at whole
  rw [PendingEntry.behind, length_drop]
  omega

theorem Pieces.first : 0 < bytes ∧ bytes ≤ entry.payload.length ∧ (entry.payload.take bytes).length = bytes ∧
      entry.payload.take bytes ≠ [] := by
  have positive := pieces.positive bytes mem_cons_self
  have whole := pieces.whole
  rw [sum_cons] at whole
  have length : (entry.payload.take bytes).length = bytes := length_take_of_le (by omega)
  exact ⟨positive, by omega, length, ne_nil_of_length_pos (by omega)⟩

/-- The last piece is the one that takes all that is left. -/
theorem Pieces.last : bytes = entry.payload.length ↔ sizes = [] := by
  have whole := pieces.whole
  rw [sum_cons] at whole
  constructor
  · intro all
    cases sizes with
    | nil => rfl
    | cons size sizes =>
      have positive := pieces.positive size (mem_cons_of_mem _ mem_cons_self)
      rw [sum_cons] at whole
      omega
  · intro none_left
    rw [none_left, sum_nil] at whole
    exact whole

end

end Entries

end Conn

end FiberGateway.Http2
