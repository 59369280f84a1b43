import SRPC.ByteSource
import SRPC.Marshal
import SRPC.SparseInt

/-!
# Wire types and their stream operators

The types that have `operator<<` and `operator>>` for a marshal.  A `double` is its
bit pattern.
-/

namespace SRPC.Marshalling

open LittleEndian SparseInt ByteSource

/-- The types that are written as they lie in memory. -/
inductive Scalar
  | i8
  | i16
  | i32
  | i64
  | u8
  | u16
  | u32
  | u64
  | double
  deriving DecidableEq, Repr

/-- `sizeof`. -/
def Scalar.size : Scalar → Nat
  | .i8 => 1
  | .i16 => 2
  | .i32 => 4
  | .i64 => 8
  | .u8 => 1
  | .u16 => 2
  | .u32 => 4
  | .u64 => 8
  | .double => 8

/-- The types with an `operator<<`. -/
inductive WireType
  | scalar (kind : Scalar)
  | v32
  | v64
  | string
  | pair (first second : WireType)
  | vector (element : WireType)
  | list (element : WireType)
  | set (element : WireType)
  | map (key value : WireType)
  | unorderedSet (element : WireType)
  | unorderedMap (key value : WireType)
  deriving DecidableEq, Repr

/-- A set or map is a list of its elements. -/
def Value : WireType → Type
  | .scalar kind => BitVec (8 * kind.size)
  | .v32 => BitVec 32
  | .v64 => BitVec 64
  | .string => List Byte
  | .pair first second => Value first × Value second
  | .vector element => List (Value element)
  | .list element => List (Value element)
  | .set element => List (Value element)
  | .map key value => List (Value key × Value value)
  | .unorderedSet element => List (Value element)
  | .unorderedMap key value => List (Value key × Value value)

def Value.decEq : (type : WireType) → DecidableEq (Value type)
  | .scalar kind => inferInstanceAs (DecidableEq (BitVec (8 * kind.size)))
  | .v32 => inferInstanceAs (DecidableEq (BitVec 32))
  | .v64 => inferInstanceAs (DecidableEq (BitVec 64))
  | .string => inferInstanceAs (DecidableEq (List Byte))
  | .pair first second =>
    @instDecidableEqProd _ _ (decEq first) (decEq second)
  | .vector element | .list element | .set element | .unorderedSet element =>
    @instDecidableEqList _ (decEq element)
  | .map key value | .unorderedMap key value =>
    @instDecidableEqList _ (@instDecidableEqProd _ _ (decEq key) (decEq value))

instance (type : WireType) : DecidableEq (Value type) := Value.decEq type

section Operators

/-- `verify(m.write(p, n) == n)`. -/
def putBytes (bytes : List Byte) : StateT (Heap × Marshal) Option Unit :=
  fun (heap, m) => do
    let (n, heap, m) ← m.write heap bytes
    guard (n = bytes.length)
    return ((), heap, m)

def putV64 (val : BitVec 64) : StateT (Heap × Marshal) Option Unit := putBytes (writeV64 val)

/-- The length of a string or container, which is written as a `v64`. -/
def putLength (length : Nat) : StateT (Heap × Marshal) Option Unit :=
  putV64 (BitVec.ofNat 64 length)

/-- `operator<<` of a container: its length and its elements. -/
def putItems {α : Type} (putItem : α → StateT (Heap × Marshal) Option Unit)
    (items : List α) : StateT (Heap × Marshal) Option Unit := do
  putLength items.length
  items.forM putItem

/-- `operator<<`. -/
def put : (type : WireType) → Value type →
    StateT (Heap × Marshal) Option Unit
  | .scalar kind, value => putBytes (toBytes kind.size value)
  | .v32, value => putBytes (writeV32 value)
  | .v64, value => putV64 value
  | .string, (value : List Byte) => do
    putLength value.length
    if 0 < value.length then putBytes value
  | .pair first second, (x, y) => do
    put first x
    put second y
  | .vector element, items => putItems (put element) items
  | .list element, items => putItems (put element) items
  | .set element, items => putItems (put element) items
  | .map key value, items =>
    putItems (fun item => do put key item.1; put value item.2) items
  | .unorderedSet element, items => putItems (put element) items
  | .unorderedMap key value, items =>
    putItems (fun item => do put key item.1; put value item.2) items

variable {State : Type} (source : ByteSource State)

/-- `verify(m.read(&v, sizeof(v)) == sizeof(v))`. -/
def getWord (size : Nat) : Reader State (BitVec (8 * size)) := do
  let bytes ← source.readExactly size
  return ofBytes (8 * size) bytes

/-- `operator>>` of a sparse integer into a buffer of `capacity` bytes; more
bytes than that overflow the buffer. -/
def getSparse {w : Nat} (capacity : Nat)
    (loadInt : List Byte → Option (BitVec w)) : Reader State (BitVec w) := do
  let byte0 ← source.peekByte
  StateT.lift (guard (bufSize byte0 ≤ capacity))
  let buf ← source.readExactly (bufSize byte0)
  StateT.lift (loadInt buf)

/-- The length of a string or container, which is read as an `i64`. -/
def getLength : Reader State Int := do
  let length ← getWord source 8
  return length.toInt

/-- The number of rounds of `for (int i = 0; i < v_len; i++)`; the counter
overflows if there are too many. -/
def rounds (length : Int) : Option Nat :=
  if length < 2 ^ 31 then some length.toNat else none

def pushBack {α : Type} (items : List α) (item : α) : List α := items ++ [item]

/-- `insert` into a set. -/
def insertItem {α : Type} [DecidableEq α] (items : List α) (item : α) : List α :=
  if item ∈ items then items else items ++ [item]

/-- `insert_into_map`, which keeps the entry a key already has. -/
def insertIntoMap {α β : Type} [DecidableEq α] (items : List (α × β))
    (item : α × β) : List (α × β) :=
  if item.1 ∈ items.map Prod.fst then items else items ++ [item]

/-- `operator>>` of a container: its length and that many elements. -/
def getItems {α : Type} (getItem : Reader State α)
    (insert : List α → α → List α) : Reader State (List α) := do
  let length ← getLength source
  let n ← StateT.lift (rounds length)
  collect getItem insert n []

/-- `operator>>` of the key and the value of an entry. -/
def getEntry {α β : Type} (getKey : Reader State α)
    (getValue : Reader State β) : Reader State (α × β) := do
  let key ← getKey
  let value ← getValue
  return (key, value)

/-- `operator>>` of a string. -/
def getString : Reader State (List Byte) := do
  let length ← getLength source
  -- `resize` does not accept a negative length.
  StateT.lift (guard (0 ≤ length))
  if 0 < length then source.readExactly length.toNat else pure []

/-- `operator>>` of a vector: `reserve` does not accept a negative length. -/
def getVector {α : Type} (getItem : Reader State α) : Reader State (List α) := do
  let length ← getLength source
  StateT.lift (guard (0 ≤ length))
  let n ← StateT.lift (rounds length)
  collect getItem pushBack n []

/-- `operator>>`. -/
def get : (type : WireType) → Reader State (Value type)
  | .scalar kind => getWord source kind.size
  | .v32 => getSparse source 5 loadI32
  | .v64 => getSparse source 9 loadI64
  | .string => getString source
  | .pair first second => getEntry (get first) (get second)
  | .vector element => getVector source (get element)
  | .list element => getItems source (get element) pushBack
  | .set element => getItems source (get element) insertItem
  | .map key value =>
    getItems source (getEntry (get key) (get value)) insertIntoMap
  | .unorderedSet element => getItems source (get element) insertItem
  | .unorderedMap key value =>
    getItems source (getEntry (get key) (get value)) insertIntoMap

end Operators

/-- A marshal as a source of bytes. -/
def marshalSource : ByteSource (Heap × Marshal) where
  read n state := do
    let (bytes, heap, m) ← state.2.read state.1 n
    return (bytes, heap, m)
  peek n state := state.2.peek state.1 n

end SRPC.Marshalling
