import Mathlib

namespace FiberGateway.Json

/-- The address of an object of the collected heap. -/
abbrev Addr := Nat

inductive GcMark
  | mark0 | mark1
  deriving DecidableEq, Repr

def flipMark : GcMark → GcMark
  | .mark0 => .mark1
  | .mark1 => .mark0

inductive JsValue
  | undefined
  | null
  | boolean (b : Bool)
  | integer (i : Int)
  | float (f : UInt64)
  | heapString (gc : Addr)
  | nativeString (ns : List UInt8)
  | array (gc : Addr)
  | object (gc : Addr)
  | iterator (gc : Addr)
  | exception (gc : Addr)
  | nativeBinary (nb : List UInt8)
  | heapBinary (gc : Addr)
  deriving DecidableEq, Repr

inductive GcStringEncoding
  | byte | utf16
  deriving DecidableEq, Repr

structure GcString where
  encoding : GcStringEncoding
  units : List UInt16
  deriving DecidableEq, Repr

structure GcArray where
  elems : List JsValue := []
  capacity : Nat
  version : Nat := 0
  deriving DecidableEq, Repr

/-- An occupied entry, with its index in `entries`. -/
structure GcObjectEntry where
  slot : Nat
  key : Addr
  value : JsValue
  deriving DecidableEq, Repr

/-- An object: the occupied entries along `next_order`, and the chain of free ones. The buckets only speed up the
search for a key. -/
structure GcObject where
  order : List GcObjectEntry := []
  free : List Nat := []
  entryCount : Nat := 0
  entryCapacity : Nat
  version : Nat := 0
  deriving DecidableEq, Repr

structure GcException where
  position : Int
  name : Option Addr
  message : Option Addr
  metaValue : JsValue
  deriving DecidableEq, Repr

inductive GcIteratorKind
  | array | object
  deriving DecidableEq, Repr

inductive GcIteratorMode
  | keys | values | entries
  deriving DecidableEq, Repr

structure GcIterator where
  kind : GcIteratorKind
  mode : GcIteratorMode
  expectedVersion : Nat
  usingSnapshot : Bool := false
  array : Option Addr := none
  object : Option Addr := none
  index : Nat := 0
  cursor : Option Nat := none
  snapshotKeys : List Addr := []
  snapshotIndex : Nat := 0
  currentKey : JsValue := .undefined
  currentValue : JsValue := .undefined
  hasCurrent : Bool := false
  deriving DecidableEq, Repr

inductive GcBody
  | string (str : GcString)
  | binary (data : List UInt8)
  | array (arr : GcArray)
  | object (obj : GcObject)
  | exception (exc : GcException)
  | iterator (iter : GcIterator)
  deriving DecidableEq, Repr

/-- The `sizeof` of the six structures on a 64-bit target. -/
def GcBody.sizeOf : GcBody → Nat
  | .string _ => 48
  | .binary _ => 32
  | .array _ => 48
  | .object _ => 96
  | .exception _ => 64
  | .iterator _ => 152

structure GcCell where
  mark : GcMark
  size : Nat
  body : GcBody
  deriving DecidableEq, Repr

/-- The heap: the objects linked from `head`, in that order, each at its address. -/
structure GcHeap where
  objects : List (Addr × GcCell) := []
  distinct : (objects.map Prod.fst).Nodup := by simp
  bytes : Nat := 0
  threshold : Nat := 2 ^ 20
  liveMark : GcMark := .mark0

namespace GcHeap

def addrs (heap : GcHeap) : List Addr := heap.objects.map Prod.fst

def cell (heap : GcHeap) (a : Addr) : Option GcCell := heap.objects.lookup a

def body (heap : GcHeap) (a : Addr) : Option GcBody := (heap.cell a).map (·.body)

def stringAt (heap : GcHeap) (a : Addr) : Option GcString :=
  match heap.body a with
  | some (.string str) => some str
  | _ => none

/-- `gc_alloc_raw` and `gc_link`: a new object at an address the allocator has free. -/
def alloc (heap : GcHeap) (a : Addr) (body : GcBody) : GcHeap :=
  if fresh : a ∈ heap.addrs then heap
  else
    { heap with
      objects := (a, ⟨flipMark heap.liveMark, body.sizeOf, body⟩) :: heap.objects
      distinct := List.nodup_cons.mpr ⟨fresh, heap.distinct⟩
      bytes := heap.bytes + body.sizeOf }

end GcHeap

end FiberGateway.Json
