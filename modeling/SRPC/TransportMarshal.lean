import SRPC.ByteArea
import SRPC.WireTypes

/-!
# Packet buffers and `TransportMarshal`

On the DPDK path a packet is assembled directly in a packet buffer: the
marshal is a cursor into it.  Writing beyond the room of a buffer and using a
marshal without a buffer fail.
-/

namespace SRPC.Dpdk

open LittleEndian Marshalling

/-- `sizeof(rte_ether_hdr)`. -/
def ipHdrOffset : Nat := 14

/-- Together with `sizeof(rte_ipv4_hdr)`. -/
def udpHdrOffset : Nat := 34

/-- Together with `sizeof(rte_udp_hdr)`. -/
def dataOffset : Nat := 42

/-- The room for data in a buffer of `RTE_MBUF_DEFAULT_BUF_SIZE`. -/
def dataRoom : Nat := 2048

structure Mbuf where
  data : ByteArea
  dataLen : BitVec 16
  pktLen : BitVec 32

/-- All buffers that were ever allocated.  A buffer is known by its number. -/
structure Pool where
  mbuf : Nat → Mbuf
  next : Nat

namespace Pool

/-- `rte_pktmbuf_alloc`, with what the buffer happens to hold. -/
def alloc (pool : Pool) (data : ByteArea) : Nat × Pool :=
  (pool.next, ⟨Function.update pool.mbuf pool.next ⟨data, 0, 0⟩, pool.next + 1⟩)

/-- `rte_memcpy` into a buffer. -/
def store (pool : Pool) (id offset : Nat) (bytes : List Byte) : Pool :=
  { pool with
    mbuf := Function.update pool.mbuf id
      { pool.mbuf id with data := (pool.mbuf id).data.store offset bytes } }

def setLen (pool : Pool) (id length : Nat) : Pool :=
  { pool with
    mbuf := Function.update pool.mbuf id
      { pool.mbuf id with
        dataLen := BitVec.ofNat 16 length
        pktLen := BitVec.ofNat 32 length } }

end Pool

/-- A cursor into the packet buffer, and the place of a bookmark. -/
structure TransportMarshal where
  reqData : Option Nat
  bookMarkOffset : Nat
  bookMarkLen : Nat
  offset : Nat

/-- `TransportMarshal()`. -/
def TransportMarshal.empty : TransportMarshal := ⟨none, 0, 0, dataOffset⟩

namespace TransportMarshal

abbrev Action := StateT (Pool × TransportMarshal) Option Unit

/-- Fails outside the room of the buffer. -/
def storeAt (offset : Nat) (bytes : List Byte) : Action := fun (pool, m) => do
  let id ← m.reqData
  guard (offset + bytes.length ≤ dataRoom)
  return ((), pool.store id offset bytes, m)

def attach (req : Nat) : Action := fun (pool, _) =>
  some ((), pool, ⟨some req, 0, 0, dataOffset + 1⟩)

/-- `allot_buffer`, which is also what the constructor does. -/
def allotBuffer (req : Nat) : Action := do
  attach req
  storeAt dataOffset [0x09]

/-- `allot_buffer_x`, which leaves the packet type alone. -/
def allotBufferX (req : Nat) : Action := attach req

def write (bytes : List Byte) : Action := fun (pool, m) => do
  let (_, pool, m) ← storeAt m.offset bytes (pool, m)
  return ((), pool, { m with offset := m.offset + bytes.length })

def setBookMark (n : Nat) : Action := fun (pool, m) =>
  some ((), pool, { m with
    bookMarkOffset := m.offset
    bookMarkLen := n
    offset := m.offset + n })

def writeBookMark (bytes : List Byte) : Action := fun (pool, m) =>
  storeAt m.bookMarkOffset bytes (pool, m)

/-- Computed in `int` and used as a word of four bytes. -/
def contentSize (m : TransportMarshal) : BitVec 32 :=
  BitVec.ofInt 32 ((m.offset : Int) - dataOffset - m.bookMarkLen - 1)

def padding : Action := fun (pool, m) =>
  if m.offset < 64 then do
    let (_, pool, m) ← storeAt m.offset (List.replicate (64 - m.offset) 0) (pool, m)
    return ((), pool, { m with offset := 64 })
  else
    some ((), pool, m)

def setLen : Action := fun (pool, m) => do
  let id ← m.reqData
  return ((), pool.setLen id m.offset, m)

/-- `htons` of a length. -/
def lengthField (length : Nat) : List Byte := toBytes 2 (swap16 (BitVec.ofNat 16 length))

/-- `format_header`. -/
def formatHeader : Action := fun state => do
  let (_, pool, m) ← padding state
  let (_, pool, m) ← storeAt m.bookMarkOffset (toBytes 4 m.contentSize) (pool, m)
  let (_, pool, m) ← setLen (pool, m)
  let (_, pool, m) ← storeAt (ipHdrOffset + 2) (lengthField (m.offset - ipHdrOffset)) (pool, m)
  storeAt (udpHdrOffset + 4) (lengthField (m.offset - udpHdrOffset)) (pool, m)

/-- The packet type is the first byte behind the headers. -/
def setPktType (pktType : Byte) : Action := storeAt dataOffset [pktType]

def setPktTypeSm : Action := setPktType 0x07

def setPktTypeBg : Action := setPktType 0x0a

def setPktTypeSt : Action := setPktType 0x09

def isTypeSt (pool : Pool) (m : TransportMarshal) : Option Bool := do
  let id ← m.reqData
  return (pool.mbuf id).data dataOffset == 0x09

/-- The length of a string or container, as a word of eight bytes. -/
def putLength (length : Nat) : Action := write (toBytes 8 (BitVec.ofNat 64 length))

def putItems {α : Type} (putItem : α → Action) (items : List α) : Action := do
  putLength items.length
  items.forM putItem

/-- `operator<<`.  There are no sparse integers on this path. -/
def put : (type : WireType) → Value type → Action
  | .scalar kind, value => write (toBytes kind.size value)
  | .v32, value => write (toBytes 4 value)
  | .v64, value => write (toBytes 8 value)
  | .string, (value : List Byte) => do
    putLength value.length
    if 0 < value.length then write value
  | .pair first second, (x, y) => do
    put first x
    put second y
  | .vector element, items => putItems (put element) items
  | .list element, items => putItems (put element) items
  | .set element, items => putItems (put element) items
  | .map key value, items =>
    putItems (fun item => do put key item.1; put value item.2) items
  | .unorderedSet element, items => putItems (put element) items
  | .unorderedMap key value, items =>
    putItems (fun item => do put key item.1; put value item.2) items

end TransportMarshal

namespace Pool

variable (pool : Pool) (id offset : Nat)

@[simp]
theorem data_store (bytes : List Byte) :
    ((pool.store id offset bytes).mbuf id).data = (pool.mbuf id).data.store offset bytes := by
  simp [store]

@[simp]
theorem data_setLen (length : Nat) :
    ((pool.setLen id length).mbuf id).data = (pool.mbuf id).data := by
  simp [setLen]

variable {other : Nat}

theorem store_of_ne (ne : other ≠ id) (bytes : List Byte) :
    (pool.store id offset bytes).mbuf other = pool.mbuf other := by
  simp [store, ne]

theorem setLen_of_ne (ne : other ≠ id) (length : Nat) :
    (pool.setLen id length).mbuf other = pool.mbuf other := by
  simp [setLen, ne]

@[simp]
theorem store_nil : pool.store id offset [] = pool := by
  simp [store]

theorem store_store (first second : List Byte) :
    (pool.store id offset first).store id (offset + first.length) second =
      pool.store id offset (first ++ second) := by
  simp [store, ByteArea.store_append]

end Pool

namespace TransportMarshal

variable {pool : Pool} {m : TransportMarshal} {id offset : Nat} {bytes : List Byte}

theorem storeAt_eq (buffer : m.reqData = some id) (room : offset + bytes.length ≤ dataRoom) :
    storeAt offset bytes (pool, m) = some ((), pool.store id offset bytes, m) := by
  simp only [storeAt, buffer, some_bind, guard, room, if_true]
  rfl

variable {pool' : Pool} {m' : TransportMarshal}

theorem storeAt_marshal (stored : storeAt offset bytes (pool, m) = some ((), pool', m')) :
    m' = m := by
  simp only [storeAt, bind_eq_some_iff] at stored
  obtain ⟨_, _, _, _, same⟩ := stored
  cases same
  rfl

theorem write_eq (buffer : m.reqData = some id) :
    write bytes (pool, m) =
      if m.offset + bytes.length ≤ dataRoom then
        some ((), pool.store id m.offset bytes, { m with offset := m.offset + bytes.length })
      else none := by
  split
  · rename_i room
    simp only [write, storeAt_eq buffer room, some_bind]
    rfl
  · rename_i full
    simp only [write, storeAt, buffer, some_bind,
      guard, full, if_false]
    rfl

theorem write_eq_some (buffer : m.reqData = some id)
    (wrote : write bytes (pool, m) = some ((), pool', m')) :
    m.offset + bytes.length ≤ dataRoom ∧
      pool' = pool.store id m.offset bytes ∧
        m' = { m with offset := m.offset + bytes.length } := by
  rw [write_eq buffer] at wrote
  split at wrote
  · cases wrote
    exact ⟨‹_›, rfl, rfl⟩
  · cases wrote

/-- With a buffer the action writes these bytes. -/
def Writes (action : Action) (bytes : List Byte) : Prop :=
  ∀ pool m id, m.reqData = some id → m.offset ≤ dataRoom → action (pool, m) = write bytes (pool, m)

namespace Writes

variable {first second : Action} {before after : List Byte}

theorem content (bytes : List Byte) : Writes (write bytes) bytes := fun _ _ _ _ _ => rfl

theorem nothing : Writes (pure ()) [] := by
  intro pool m id buffer room
  rw [write_eq buffer, List.length_nil, Nat.add_zero, if_pos room, Pool.store_nil]
  rfl

theorem andThen (one : Writes first before) (two : Writes second after) :
    Writes (first >>= fun _ => second) (before ++ after) := by
  intro pool m id buffer room
  show (first (pool, m) >>= fun result => second result.2) = _
  rw [one pool m id buffer room, write_eq buffer, write_eq buffer, List.length_append]
  by_cases enough : m.offset + before.length ≤ dataRoom
  · have rest := two (pool.store id m.offset before)
      { m with offset := m.offset + before.length } id buffer enough
    have wrote := rest.trans (write_eq (m := { m with offset := m.offset + before.length }) buffer)
    rw [Pool.store_store, Nat.add_assoc] at wrote
    rw [if_pos enough]
    exact wrote
  · rw [if_neg enough, if_neg (by omega)]
    rfl

end Writes

theorem write_bind {second : Action} {after : List Byte}
    (two : Writes second after) (before : List Byte)
    (buffer : m.reqData = some id) (room : m.offset ≤ dataRoom) :
    (write before (pool, m) >>= fun result => second result.2) =
      write (before ++ after) (pool, m) := (Writes.content before).andThen two pool m id buffer room

def encodeLength (length : Nat) : List Byte := toBytes 8 (BitVec.ofNat 64 length)

/-- The bytes `operator<<` writes. -/
def encode : (type : WireType) → Value type → List Byte
  | .scalar kind, value => toBytes kind.size value
  | .v32, value => toBytes 4 value
  | .v64, value => toBytes 8 value
  | .string, (value : List Byte) => encodeLength value.length ++ value
  | .pair first second, (x, y) => encode first x ++ encode second y
  | .vector element, (items : List (Value element))
  | .list element, (items : List (Value element)) | .set element, (items : List (Value element))
  | .unorderedSet element, (items : List (Value element)) =>
    encodeLength items.length ++ items.flatMap (encode element)
  | .map key value, (items : List (Value key × Value value))
  | .unorderedMap key value, (items : List (Value key × Value value)) =>
    encodeLength items.length ++ items.flatMap fun item => encode key item.1 ++ encode value item.2

section Operators

variable {m : Type → Type} [Monad m]

/-- `operator<<` over any way to write bytes. -/
def putWith (write : List Byte → m Unit) :
    (type : WireType) → Value type → m Unit
  | .scalar kind, value => write (toBytes kind.size value)
  | .v32, value => write (toBytes 4 value)
  | .v64, value => write (toBytes 8 value)
  | .string, (value : List Byte) => do
    write (encodeLength value.length)
    if 0 < value.length then write value
  | .pair first second, (x, y) => do
    putWith write first x
    putWith write second y
  | .vector element, (items : List (Value element))
  | .list element, (items : List (Value element)) | .set element, (items : List (Value element))
  | .unorderedSet element, (items : List (Value element)) => do
    write (encodeLength items.length)
    items.forM (putWith write element)
  | .map key value, (items : List (Value key × Value value))
  | .unorderedMap key value, (items : List (Value key × Value value)) => do
    write (encodeLength items.length)
    items.forM fun item => do
      putWith write key item.1
      putWith write value item.2

variable {write : List Byte → m Unit} {P : m Unit → List Byte → Prop}

theorem forM_induction {α : Type} {action : α → m Unit}
    {encoding : α → List Byte} (nothing : P (pure ()) [])
    (andThen : ∀ {first second before after}, P first before →
      P second after → P (first >>= fun _ => second) (before ++ after))
    (items : List α) (each : ∀ item, P (action item) (encoding item)) :
    P (items.forM action) (items.flatMap encoding) := by
  induction items with
  | nil => exact nothing
  | cons item items ih => exact andThen (each item) ih

theorem putWith_induction (content : ∀ bytes, P (write bytes) bytes) (nothing : P (pure ()) [])
    (andThen : ∀ {first second before after}, P first before →
      P second after → P (first >>= fun _ => second) (before ++ after))
    (type : WireType) (value : Value type) : P (putWith write type value) (encode type value) := by
  induction type with
  | scalar kind | v32 | v64 => exact content _
  | string =>
    refine andThen (content _) ?_
    by_cases empty : 0 < List.length (α := Byte) value
    · rw [if_pos empty]
      exact content _
    · rw [if_neg empty]
      have none : value = ([] : List Byte) := List.length_eq_zero_iff.mp (by omega)
      rw [none]
      exact nothing
  | pair first second firstHolds secondHolds =>
    exact andThen (firstHolds value.1) (secondHolds value.2)
  | vector element ih | list element ih | set element ih | unorderedSet element ih =>
    exact andThen (content _) (forM_induction nothing andThen _ ih)
  | map key value keyHolds valueHolds | unorderedMap key value keyHolds valueHolds =>
    exact andThen (content _) (forM_induction nothing andThen _ fun item =>
      andThen (keyHolds item.1) (valueHolds item.2))

end Operators

theorem put_eq_putWith (type : WireType) (value : Value type) :
    put type value = putWith write type value := by
  induction type with
  | scalar kind | v32 | v64 | string => rfl
  | pair first second firstEq secondEq =>
    show (put first value.1 >>= fun _ => put second value.2) = _
    rw [firstEq, secondEq]
    rfl
  | vector element ih | list element ih | set element ih | unorderedSet element ih =>
    simp only [put, putWith, putItems, funext ih]
    rfl
  | map key value keyEq valueEq | unorderedMap key value keyEq valueEq =>
    simp only [put, putWith, putItems, keyEq, valueEq]
    rfl

theorem put_writes (type : WireType) (value : Value type) :
    Writes (put type value) (encode type value) := by
  rw [put_eq_putWith]
  exact putWith_induction Writes.content Writes.nothing (fun one two => one.andThen two) type value

end TransportMarshal

end SRPC.Dpdk
