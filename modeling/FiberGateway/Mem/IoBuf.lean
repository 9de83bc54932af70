import Mathlib

namespace FiberGateway

open List

/-- Result codes of the transports and of everything built on them. -/
inductive IoErr
  | wouldBlock | interrupted | invalid | badFd | busy | notFound | addrInUse | addrNotAvailable
  | connAborted | connReset | connRefused | timedOut | notConnected | already | permission
  | brokenPipe | noMem | notSupported | canceled | unknown
  deriving DecidableEq, Repr

/-- How a call can fail to produce its value: an `IoErr` handed to the caller, a failed
`FIBER_ASSERT`, or a model loop that was given too little fuel. -/
inductive Fault
  | io (err : IoErr)
  | assertion
  | outOfFuel
  deriving DecidableEq, Repr

/-- `std::numeric_limits<std::size_t>::max()`. -/
def kMaxSize : Nat := 2 ^ 64 - 1

/-- A view of one reference counted storage block: the bytes committed since `view_begin_`, the
read position among them, and the room the view has in all. Bytes before `pos` stay readable
through pointers taken earlier. -/
structure IoBuf where
  data : List UInt8
  pos : Nat
  viewSize : Nat
  pos_le : pos ≤ data.length
  data_le : data.length ≤ viewSize

namespace IoBuf

/-- Size of `ControlBlock`, which shares the allocation with the storage. -/
def controlBlockSize : Nat := 16

def readable (buf : IoBuf) : List UInt8 := buf.data.drop buf.pos

def writable (buf : IoBuf) : Nat := buf.viewSize - buf.data.length

/-- Only whole allocations are ever asked for their capacity. -/
def capacity (buf : IoBuf) : Nat := buf.viewSize

def allocate (capacity : Nat) : Option IoBuf :=
  if capacity = 0 then none
  else if capacity > kMaxSize - controlBlockSize then none
  else some ⟨[], 0, capacity, le_rfl, Nat.zero_le _⟩

/-- Copy bytes behind the committed ones and commit them; what does not fit is not copied. -/
def fill (buf : IoBuf) (bytes : List UInt8) : IoBuf where
  data := buf.data ++ bytes.take buf.writable
  pos := buf.pos
  viewSize := buf.viewSize
  pos_le := by
    have := buf.pos_le
    simp only [length_append]
    omega
  data_le := by
    have := buf.data_le
    simp only [writable, length_append, length_take]
    omega

def consume (buf : IoBuf) (bytes : Nat) : IoBuf where
  data := buf.data
  pos := min (buf.pos + bytes) buf.data.length
  viewSize := buf.viewSize
  pos_le := Nat.min_le_right _ _
  data_le := buf.data_le

@[simp] theorem fill_viewSize (buf : IoBuf) (bytes : List UInt8) :
    (buf.fill bytes).viewSize = buf.viewSize := rfl

@[simp] theorem consume_viewSize (buf : IoBuf) (bytes : Nat) :
    (buf.consume bytes).viewSize = buf.viewSize := rfl

@[simp] theorem consume_data (buf : IoBuf) (bytes : Nat) : (buf.consume bytes).data = buf.data := rfl

@[simp] theorem consume_writable (buf : IoBuf) (bytes : Nat) :
    (buf.consume bytes).writable = buf.writable := rfl

variable {buf : IoBuf}

theorem fill_data {bytes : List UInt8} (fits : bytes.length ≤ buf.writable) :
    (buf.fill bytes).data = buf.data ++ bytes := by
  simp only [fill, take_of_length_le fits]

theorem fill_writable {bytes : List UInt8} (fits : bytes.length ≤ buf.writable) :
    (buf.fill bytes).writable = buf.writable - bytes.length := by
  simp only [writable, fill_data fits, length_append, fill_viewSize]
  omega

theorem fill_readable {bytes : List UInt8} (fits : bytes.length ≤ buf.writable) :
    (buf.fill bytes).readable = buf.readable ++ bytes := by
  simp only [readable, fill_data fits]
  exact drop_append_of_le_length buf.pos_le

theorem consume_readable (buf : IoBuf) (bytes : Nat) :
    (buf.consume bytes).readable = buf.readable.drop bytes := by
  simp only [readable, consume, drop_drop]
  rcases le_total (buf.pos + bytes) buf.data.length with short | long
  · rw [Nat.min_eq_left short]
  · rw [Nat.min_eq_right long, drop_length, drop_of_length_le long]

theorem readable_length (buf : IoBuf) : buf.readable.length = buf.data.length - buf.pos := by
  simp [readable]

theorem allocate_eq_some {capacity : Nat} (run : allocate capacity = some buf) :
    buf.data = [] ∧ buf.pos = 0 ∧ buf.viewSize = capacity ∧ 0 < capacity := by
  unfold allocate at run
  split at run
  · simp at run
  split at run
  · simp at run
  · cases run
    exact ⟨rfl, rfl, rfl, by omega⟩

end IoBuf

/-- A buffer chain, as the readable bytes of its nodes from `head_` on. -/
abbrev IoBufChain := List (List UInt8)

namespace IoBufChain

def dropEmptyFront : IoBufChain → IoBufChain
  | [] => []
  | [] :: rest => dropEmptyFront rest
  | (byte :: bytes) :: rest => (byte :: bytes) :: rest

def consumeAndCompact : Nat → IoBufChain → IoBufChain
  | _, [] => []
  | bytes, node :: rest =>
    if bytes = 0 then node :: rest
    else if bytes < node.length then node.drop bytes :: rest
    else consumeAndCompact (bytes - node.length) rest

def readableBytes (chain : IoBufChain) : Nat := (chain.map List.length).sum

@[simp] theorem dropEmptyFront_flatten (chain : IoBufChain) :
    (dropEmptyFront chain).flatten = chain.flatten := by
  fun_induction dropEmptyFront chain with
  | case1 => rfl
  | case2 rest ih => simpa using ih
  | case3 => rfl

theorem dropEmptyFront_cases (chain : IoBufChain) :
    (dropEmptyFront chain = [] ∧ chain.flatten = []) ∨
      ∃ byte bytes rest, dropEmptyFront chain = (byte :: bytes) :: rest := by
  fun_induction dropEmptyFront chain with
  | case1 => exact Or.inl ⟨rfl, rfl⟩
  | case2 rest ih => simpa using ih
  | case3 byte bytes rest => exact Or.inr ⟨byte, bytes, rest, rfl⟩

@[simp] theorem consumeAndCompact_flatten (bytes : Nat) (chain : IoBufChain) :
    (consumeAndCompact bytes chain).flatten = chain.flatten.drop bytes := by
  fun_induction consumeAndCompact bytes chain with
  | case1 => simp
  | case2 node rest => simp
  | case3 bytes node rest positive inside =>
    simp only [flatten_cons, drop_append_of_le_length inside.le]
  | case4 bytes node rest positive outside ih =>
    rw [ih, flatten_cons, drop_append,
      drop_of_length_le (show node.length ≤ bytes by omega), nil_append]

@[simp] theorem readableBytes_eq (chain : IoBufChain) : chain.readableBytes = chain.flatten.length := by
  simp [readableBytes]

end IoBufChain

/-- What a connection will read from its peer: the successive reads the transport can serve.
A read that asks for less than the first of them leaves its remainder for the next one, and an
exhausted transport reads zero bytes. -/
structure Transport where
  reads : List (List UInt8)
  nonempty : [] ∉ reads

namespace Transport

def bytes (transport : Transport) : List UInt8 := transport.reads.flatten

def read (transport : Transport) (len : Nat) : List UInt8 × Transport :=
  match transport.reads, transport.nonempty with
  | [], _ => ([], transport)
  | segment :: rest, nonempty =>
    if inside : len < segment.length then
      (segment.take len, ⟨segment.drop len :: rest, by
        simp only [mem_cons, not_or] at nonempty ⊢
        refine ⟨fun empty => ?_, nonempty.2⟩
        have := congrArg List.length empty
        simp only [length_nil, length_drop] at this
        omega⟩)
    else (segment, ⟨rest, fun member => nonempty (mem_cons_of_mem _ member)⟩)

theorem read_bytes (transport : Transport) (len : Nat) :
    (transport.read len).1 ++ (transport.read len).2.bytes = transport.bytes := by
  obtain ⟨reads, nonempty⟩ := transport
  cases reads with
  | nil => rfl
  | cons segment rest =>
    simp only [read, bytes]
    split
    · simp [← append_assoc]
    · simp

theorem read_length_le (transport : Transport) (len : Nat) : (transport.read len).1.length ≤ len := by
  obtain ⟨reads, nonempty⟩ := transport
  cases reads with
  | nil => simp [read]
  | cons segment rest =>
    simp only [read]
    split
    · simp only [length_take]; omega
    · simp only; omega

theorem read_eq_nil {transport : Transport} {len : Nat} (positive : 0 < len)
    (empty : (transport.read len).1 = []) : transport.bytes = [] := by
  obtain ⟨reads, nonempty⟩ := transport
  cases reads with
  | nil => rfl
  | cons segment rest =>
    simp only [mem_cons, not_or] at nonempty
    have room := length_pos_iff.mpr (Ne.symm nonempty.1)
    simp only [read] at empty
    split at empty
    · have := congrArg List.length empty
      simp only [length_take, length_nil] at this
      omega
    · exact absurd empty.symm nonempty.1

end Transport

end FiberGateway
