import Mathlib.Logic.Function.Basic
import SRPC.LittleEndian

/-!
# Chunks of a marshal

A chunk is a window into a reference-counted block of raw bytes, which several
marshals may share.  A failed `assert` or `verify`, or an access to a block that
has been freed, makes a function return `none`.
-/

/-- What follows a step that did not fail. -/
theorem SRPC.some_bind {α β : Type} (value : α) (next : α → Option β) :
    (some value >>= next) = next value := rfl

theorem SRPC.bind_eq_some_iff {α β : Type} {value : Option α} {next : α → Option β} {result : β} :
    (value >>= next) = some result ↔ ∃ middle, value = some middle ∧ next middle = some result :=
  Option.bind_eq_some_iff

namespace SRPC.Marshalling

/-- A `raw_bytes` object.  It is freed when its reference count drops to
zero. -/
structure RawBytes where
  ptr : Nat → Byte
  size : Nat
  refcnt : Int

def minSize : Nat := 8192

/-- The `raw_bytes` by address, and the first unused address. -/
structure Heap where
  next : Nat
  rawBytes : Nat → RawBytes

/-- A heap without blocks; fresh memory holds `0xA5`. -/
def blankHeap : Heap := ⟨0, fun _ => ⟨fun _ => 0xA5, 0, 0⟩⟩

/-- A place in a block. -/
abbrev Cell := Nat × Nat

namespace Heap

def byte (heap : Heap) (cell : Cell) : Byte := (heap.rawBytes cell.1).ptr cell.2

def update (heap : Heap) (data : Nat) (change : RawBytes → RawBytes) : Heap :=
  { heap with
    rawBytes := Function.update heap.rawBytes data (change (heap.rawBytes data)) }

/-- `memcpy` into a block. -/
def store (heap : Heap) (data offset : Nat) (bytes : List Byte) : Heap :=
  heap.update data fun block =>
    { block with
      ptr := fun i =>
        if offset ≤ i then (bytes[i - offset]?).getD (block.ptr i)
        else block.ptr i }

/-- `memcpy` out of a block. -/
def load (heap : Heap) (data offset count : Nat) : List Byte :=
  (List.range' offset count).map fun i => heap.byte (data, i)

/-- Writes through a pointer into a block. -/
def poke (heap : Heap) (cell : Cell) (value : Byte) : Option Heap :=
  if 0 < (heap.rawBytes cell.1).refcnt ∧
      cell.2 < (heap.rawBytes cell.1).size then
    some (heap.store cell.1 cell.2 [value])
  else
    none

/-- `ref_copy`. -/
def refCopy (heap : Heap) (data : Nat) : Heap :=
  heap.update data fun block => { block with refcnt := block.refcnt + 1 }

def dropRef (heap : Heap) (data : Nat) : Heap :=
  heap.update data fun block => { block with refcnt := block.refcnt - 1 }

/-- `release`, which verifies the new count. -/
def release (heap : Heap) (data : Nat) : Option Heap :=
  if 0 ≤ (heap.rawBytes data).refcnt - 1 then some (heap.dropRef data) else none

/-- `new raw_bytes(size)`. -/
def newRawBytes (heap : Heap) (size : Nat) : Nat × Heap :=
  (heap.next,
    { (heap.update heap.next fun block =>
        { block with size := max size minSize, refcnt := 1 }) with
      next := heap.next + 1 })

/-- The address of a new `chunk` object. -/
def newAddress (heap : Heap) : Nat × Heap := (heap.next, { heap with next := heap.next + 1 })

end Heap

/-- `Marshal::chunk` at its address, with the address of its block. -/
structure Chunk where
  addr : Nat
  data : Nat
  readIdx : Nat
  writeIdx : Nat
  deriving DecidableEq, Repr

/-- The part of `::read` and `::write` that the kernel decides: at most the
requested and at most `0x7ffff000` bytes, or `-1`. -/
def kernelResult (requested : Nat) (answer : Int) : Int :=
  max (-1) (min answer (min requested 0x7ffff000))

/-- Conversion of a `ssize_t` to `int`. -/
def toI32 (value : Int) : Int := (BitVec.ofInt 32 value).toInt

namespace Chunk

/-- The two assertions made on entry and exit of the chunk functions, for a
block that has not been freed. -/
def Valid (heap : Heap) (chunk : Chunk) : Prop :=
  0 < (heap.rawBytes chunk.data).refcnt ∧
    chunk.writeIdx ≤ (heap.rawBytes chunk.data).size ∧ chunk.readIdx ≤ chunk.writeIdx

instance (heap : Heap) (chunk : Chunk) : Decidable (chunk.Valid heap) :=
  inferInstanceAs (Decidable (_ ∧ _))

def size (heap : Heap) (chunk : Chunk) : Nat := (heap.rawBytes chunk.data).size

/-- `chunk(p, n)`, and `chunk()` for no bytes. -/
def new (heap : Heap) (bytes : List Byte) : Chunk × Heap :=
  let (data, heap) := heap.newRawBytes bytes.length
  let (addr, heap) := heap.newAddress
  (⟨addr, data, 0, bytes.length⟩, heap.store data 0 bytes)

/-- `shared_copy` into a chunk of its own over the same block. -/
def sharedCopy (heap : Heap) (chunk : Chunk) : Option (Chunk × Heap) :=
  let (addr, heap) := heap.newAddress
  let heap := heap.refCopy chunk.data
  if chunk.Valid heap then some ({ chunk with addr := addr }, heap) else none

/-- `~chunk`. -/
def delete (heap : Heap) (chunk : Chunk) : Option Heap := heap.release chunk.data

def contentSize (heap : Heap) (chunk : Chunk) : Option Nat :=
  if chunk.Valid heap then some (chunk.writeIdx - chunk.readIdx) else none

/-- `chunk::set_bookmark`, which passes over one byte. -/
def setBookmark (heap : Heap) (chunk : Chunk) : Option (Cell × Chunk) := do
  guard (chunk.Valid heap)
  let cell := (chunk.data, chunk.writeIdx)
  let chunk := { chunk with writeIdx := chunk.writeIdx + 1 }
  guard (chunk.Valid heap)
  return (cell, chunk)

def write (heap : Heap) (chunk : Chunk) (bytes : List Byte) :
    Option (Nat × Heap × Chunk) := do
  guard (chunk.Valid heap)
  let nWrite := min bytes.length (chunk.size heap - chunk.writeIdx)
  let heap := heap.store chunk.data chunk.writeIdx (bytes.take nWrite)
  let chunk := { chunk with writeIdx := chunk.writeIdx + nWrite }
  guard (chunk.Valid heap)
  return (nWrite, heap, chunk)

def read (heap : Heap) (chunk : Chunk) (n : Nat) :
    Option (List Byte × Chunk) := do
  guard (chunk.Valid heap)
  let nRead := min n (chunk.writeIdx - chunk.readIdx)
  let bytes := heap.load chunk.data chunk.readIdx nRead
  let chunk := { chunk with readIdx := chunk.readIdx + nRead }
  guard (chunk.Valid heap)
  return (bytes, chunk)

def peek (heap : Heap) (chunk : Chunk) (n : Nat) : Option (List Byte) := do
  guard (chunk.Valid heap)
  let nPeek := min n (chunk.writeIdx - chunk.readIdx)
  return heap.load chunk.data chunk.readIdx nPeek

/-- `chunk::discard`. -/
def discard (heap : Heap) (chunk : Chunk) (n : Nat) :
    Option (Nat × Chunk) := do
  guard (chunk.Valid heap)
  let nDiscard := min n (chunk.writeIdx - chunk.readIdx)
  let chunk := { chunk with readIdx := chunk.readIdx + nDiscard }
  guard (chunk.Valid heap)
  return (nDiscard, chunk)

/-- `write_to_fd`: the count returned, the bytes the kernel has accepted and
the chunk.  Only the write index is asserted here. -/
def writeToFd (heap : Heap) (chunk : Chunk) (answer : Int) :
    Option (Int × List Byte × Chunk) := do
  guard (0 < (heap.rawBytes chunk.data).refcnt)
  guard (chunk.writeIdx ≤ chunk.size heap)
  let result := kernelResult (chunk.writeIdx - chunk.readIdx) answer
  let sent := heap.load chunk.data chunk.readIdx result.toNat
  let cnt := toI32 result
  let chunk :=
    if cnt > 0 then { chunk with readIdx := chunk.readIdx + cnt.toNat }
    else chunk
  guard (chunk.writeIdx ≤ chunk.size heap)
  return (cnt, sent, chunk)

/-- `read_from_fd`: the kernel takes what it delivers from `incoming` and
returns the count; the rest of `incoming` is returned. -/
def readFromFd (heap : Heap) (chunk : Chunk) (incoming : List Byte)
    (answer : Int) : Option (Int × List Byte × Heap × Chunk) := do
  guard (chunk.Valid heap)
  if chunk.writeIdx < chunk.size heap then
    let result := kernelResult (min (chunk.size heap - chunk.writeIdx) incoming.length) answer
    let heap := heap.store chunk.data chunk.writeIdx (incoming.take result.toNat)
    let cnt := toI32 result
    let chunk :=
      if cnt > 0 then { chunk with writeIdx := chunk.writeIdx + cnt.toNat }
      else chunk
    guard (chunk.Valid heap)
    return (cnt, incoming.drop result.toNat, heap, chunk)
  else
    return (0, incoming, heap, chunk)

def fullyWritten (heap : Heap) (chunk : Chunk) : Option Bool :=
  if chunk.Valid heap then some (chunk.writeIdx == chunk.size heap) else none

def fullyRead (heap : Heap) (chunk : Chunk) : Option Bool :=
  if chunk.Valid heap then some (chunk.readIdx == chunk.size heap) else none

end Chunk

end SRPC.Marshalling
