import SRPC.FormatHeader

/-!
# Packets while they are assembled

Between `begin_request` and `end_request` a packet consists of its type, the
reserved size and what was written so far.  `format_header` then fills in the
size of the padded body and the length of the packet.
-/

namespace SRPC.Dpdk

open LittleEndian Marshalling TransportMarshal

/-- Where the body of a request or reply begins: behind the packet type and the
reserved size. -/
def bodyOffset : Nat := dataOffset + 5

/-- The length of a body with its padding. -/
def paddedLength (length : Nat) : Nat := max length (64 - bodyOffset)

/-- A complete packet with this type and body, padded to 64 bytes. -/
structure Mbuf.Carries (mbuf : Mbuf) (pktType : Byte) (body : List Byte) : Prop where
  type : mbuf.data dataOffset = pktType
  size : mbuf.data.load (dataOffset + 1) 4 = toBytes 4 (BitVec.ofNat 32 (paddedLength body.length))
  content : mbuf.data.load bodyOffset (paddedLength body.length) =
    body ++ List.replicate (64 - bodyOffset - body.length) 0
  length : mbuf.dataLen = BitVec.ofNat 16 (max (bodyOffset + body.length) 64)

/-- The marshal is behind this body in a buffer that begins with this type. -/
structure Assembling (pool : Pool) (m : TransportMarshal) (pkt : Nat)
    (pktType : Byte) (body : List Byte) : Prop where
  marshal : m = { marked pkt with offset := bodyOffset + body.length }
  room : bodyOffset + body.length ≤ dataRoom
  type : (pool.mbuf pkt).data dataOffset = pktType
  body : (pool.mbuf pkt).data.load bodyOffset body.length = body

/-- The addresses and ports of a packet: those of the IPv4 header are followed
by those of the UDP header. -/
def Mbuf.addresses (mbuf : Mbuf) : List Byte := mbuf.data.load (ipHdrOffset + 12) 12

def Mbuf.macs (mbuf : Mbuf) : List Byte := mbuf.data.load 0 12

/-- Nothing but one buffer changes, and in this not the addresses. -/
structure Pool.OnlyChanges (pool : Pool) (pkt : Nat) (later : Pool) : Prop where
  next : later.next = pool.next
  mbuf : ∀ other, other ≠ pkt → later.mbuf other = pool.mbuf other
  addresses : (later.mbuf pkt).addresses = (pool.mbuf pkt).addresses
  macs : (later.mbuf pkt).macs = (pool.mbuf pkt).macs

variable {pool middle last : Pool} {m : TransportMarshal} {pkt : Nat}
  {pktType : Byte} {body : List Byte}

namespace Pool.OnlyChanges

theorem refl (pool : Pool) (pkt : Nat) : pool.OnlyChanges pkt pool :=
  ⟨rfl, fun _ _ => rfl, rfl, rfl⟩

theorem trans (first : pool.OnlyChanges pkt middle)
    (second : middle.OnlyChanges pkt last) : pool.OnlyChanges pkt last :=
  ⟨second.next.trans first.next, fun other ne => (second.mbuf other ne).trans (first.mbuf other ne),
    second.addresses.trans first.addresses, second.macs.trans first.macs⟩

theorem store (pool : Pool) (pkt : Nat) {offset : Nat} (bytes : List Byte)
    (outside : udpHdrOffset + 4 ≤ offset ∨
      (ipHdrOffset ≤ offset ∧ offset + bytes.length ≤ ipHdrOffset + 12)) :
    pool.OnlyChanges pkt (pool.store pkt offset bytes) := by
  rw [udpHdrOffset, ipHdrOffset] at outside
  refine ⟨rfl, fun _ ne => pool.store_of_ne pkt offset ne bytes, ?_, ?_⟩
  · rw [Mbuf.addresses, Pool.data_store, ByteArea.load_store_of_outside]
    · rfl
    · rw [ipHdrOffset]
      omega
  · rw [Mbuf.macs, Pool.data_store, ByteArea.load_store_of_outside]
    · rfl
    · omega

theorem setType (pool : Pool) (pkt : Nat) (pktType : Byte) :
    pool.OnlyChanges pkt (pool.store pkt dataOffset [pktType]) :=
  store pool pkt _ (.inl (by decide))

theorem setLen (pool : Pool) (pkt length : Nat) :
    pool.OnlyChanges pkt (pool.setLen pkt length) := by
  refine ⟨rfl, fun _ ne => pool.setLen_of_ne pkt ne length, ?_, ?_⟩
  · rw [Mbuf.addresses, Pool.data_setLen]
    rfl
  · rw [Mbuf.macs, Pool.data_setLen]
    rfl

theorem formatPool {m : TransportMarshal} (pool : Pool) (pkt : Nat)
    (offset : udpHdrOffset + 4 ≤ m.offset) (mark : udpHdrOffset + 4 ≤ m.bookMarkOffset) :
    pool.OnlyChanges pkt (m.formatPool pool pkt) :=
  ((((store pool pkt _ (.inl offset)).trans (store _ pkt _ (.inl mark))).trans
    (setLen _ pkt _)).trans (store _ pkt _ (.inr (by rw [length_lengthField]; decide)))).trans
        (store _ pkt _ (.inl (Nat.le_refl _)))

end Pool.OnlyChanges

namespace Assembling

theorem start (type : (pool.mbuf pkt).data dataOffset = pktType) :
    Assembling pool (marked pkt) pkt pktType [] := ⟨rfl, by decide, type, rfl⟩

section

variable (assembling : Assembling pool m pkt pktType body)

include assembling

theorem later (same : middle.mbuf pkt = pool.mbuf pkt) : Assembling middle m pkt pktType body :=
  ⟨assembling.marshal, assembling.room, by rw [same, assembling.type],
    by rw [same, assembling.body]⟩

theorem write (bytes : List Byte) (room : bodyOffset + (body ++ bytes).length ≤ dataRoom) :
    ∃ later m', TransportMarshal.write bytes (pool, m) = some ((), later, m') ∧
      Assembling later m' pkt pktType (body ++ bytes) ∧
      pool.OnlyChanges pkt later := by
  have buffer : m.reqData = some pkt := by rw [assembling.marshal]; rfl
  have offset : m.offset = bodyOffset + body.length := by
    rw [assembling.marshal]
  have enough : m.offset + bytes.length ≤ dataRoom := by
    rw [offset, Nat.add_assoc, ← List.length_append]
    exact room
  refine ⟨pool.store pkt m.offset bytes, { m with offset := m.offset + bytes.length },
    by rw [write_eq buffer, if_pos enough], ⟨?_, room, ?_, ?_⟩, .store pool pkt bytes (.inl ?_)⟩
  · rw [offset, assembling.marshal, List.length_append, Nat.add_assoc]
  · rw [Pool.data_store, ByteArea.store_of_outside, assembling.type]
    left
    rw [offset, bodyOffset]
    omega
  · rw [Pool.data_store, List.length_append, ByteArea.load_add, ← offset,
      ByteArea.load_store, ByteArea.load_store_of_outside (.inl (by omega)), assembling.body]
  · rw [offset, bodyOffset, dataOffset, udpHdrOffset]
    omega

theorem does {action : Action} {bytes : List Byte} (writes : Writes action bytes)
    (room : bodyOffset + (body ++ bytes).length ≤ dataRoom) :
    ∃ later m', action (pool, m) = some ((), later, m') ∧
      Assembling later m' pkt pktType (body ++ bytes) ∧
      pool.OnlyChanges pkt later := by
  have buffer : m.reqData = some pkt := by rw [assembling.marshal]; rfl
  have inside : m.offset ≤ dataRoom := by
    rw [assembling.marshal]
    exact assembling.room
  rw [writes pool m pkt buffer inside]
  exact assembling.write bytes room

theorem contentSize_padded : m.padded.contentSize = BitVec.ofNat 32 (paddedLength body.length) := by
  have whole : ((max (bodyOffset + body.length) 64 : Nat) : Int) - dataOffset -
      (4 : Nat) - 1 = (paddedLength body.length : Nat) := by
    simp only [paddedLength, bodyOffset, dataOffset]
    omega
  rw [assembling.marshal]
  show BitVec.ofInt 32 _ = _
  rw [← BitVec.ofInt_natCast, ← whole]
  rfl

end

theorem load_formatArea (mark : m.bookMarkOffset = dataOffset + 1)
    (area : ByteArea) {offset n : Nat} (behind : bodyOffset ≤ offset) :
    (m.formatArea area).load offset n = (m.padArea area).load offset n := by
  simp only [bodyOffset, dataOffset] at behind
  unfold formatArea
  rw [ByteArea.load_store_of_outside, ByteArea.load_store_of_outside,
    ByteArea.load_store_of_outside]
  · rw [mark, length_toBytes, dataOffset]
    omega
  · rw [length_lengthField, ipHdrOffset]
    omega
  · rw [length_lengthField, udpHdrOffset]
    omega

theorem load_size (mark : m.bookMarkOffset = dataOffset + 1) (area : ByteArea) :
    (m.formatArea area).load (dataOffset + 1) 4 = toBytes 4 m.padded.contentSize := by
  unfold formatArea
  rw [mark, ByteArea.load_store_of_outside, ByteArea.load_store_of_outside,
    ByteArea.load_store_take (by rw [length_toBytes]),
    List.take_of_length_le (by rw [length_toBytes])]
  · rw [length_lengthField]
    decide
  · rw [length_lengthField]
    decide

theorem load_padArea (offset : m.offset = bodyOffset + body.length)
    {area : ByteArea} (written : area.load bodyOffset body.length = body) :
    (m.padArea area).load bodyOffset (paddedLength body.length) =
      body ++ List.replicate (64 - bodyOffset - body.length) 0 := by
  have whole : paddedLength body.length = body.length + (64 - bodyOffset - body.length) := by
    rw [paddedLength]
    omega
  have zeros : 64 - bodyOffset - body.length =
      (List.replicate (64 - m.offset) (0 : Byte)).length := by
    rw [List.length_replicate, offset]
    omega
  rw [whole, ByteArea.load_add, padArea,
    ByteArea.load_store_of_outside (.inl (by omega)), written, ← offset, zeros,
    ByteArea.load_store, List.length_replicate]

@[simp]
theorem dataLen_store (pool : Pool) (pkt offset : Nat) (bytes : List Byte) :
    ((pool.store pkt offset bytes).mbuf pkt).dataLen = (pool.mbuf pkt).dataLen := by
  simp [Pool.store]

/-- `format_header` completes the packet. -/
theorem format (assembling : Assembling pool m pkt pktType body) :
    ∃ later, formatHeader (pool, m) = some ((), later, m.padded) ∧
      (later.mbuf pkt).Carries pktType body ∧ pool.OnlyChanges pkt later := by
  have buffer : m.reqData = some pkt := by rw [assembling.marshal]; rfl
  have mark : m.bookMarkOffset = dataOffset + 1 := by
    rw [assembling.marshal]
    rfl
  have offset : m.offset = bodyOffset + body.length := by
    rw [assembling.marshal]
  have room : m.bookMarkOffset + 4 ≤ dataRoom := by
    rw [mark]
    decide
  have behind : udpHdrOffset + 4 ≤ m.offset := by
    rw [offset, bodyOffset, dataOffset, udpHdrOffset]
    omega
  refine ⟨_, formatHeader_eq buffer room, ⟨?_, ?_, ?_, ?_⟩,
    .formatPool pool pkt behind (by rw [mark]; decide)⟩
  · rw [data_formatPool, formatArea_of_not_lengthByte, mark,
      ByteArea.store_of_outside (.inl (by decide)), assembling.type]
    simp only [LengthByte, mark, offset, bodyOffset, dataOffset, ipHdrOffset, udpHdrOffset]
    omega
  · rw [data_formatPool, load_size mark, assembling.contentSize_padded]
  · rw [data_formatPool, load_formatArea mark _ (Nat.le_refl _),
      load_padArea offset assembling.body]
  · simp [formatPool, Pool.setLen, padded, offset]

end Assembling

/-- The id of a packet, and its method id or error code. -/
def idBytes (xid : BitVec 64) (code : BitVec 32) : List Byte := toBytes 8 xid ++ toBytes 4 code

theorem length_idBytes (xid : BitVec 64) (code : BitVec 32) : (idBytes xid code).length = 12 := by
  simp [idBytes, length_toBytes]

theorem start_ids {xid : BitVec 64} {code : BitVec 32} {action : Action} {base : Pool}
    (begins : action (pool, m) = TransportMarshal.write (idBytes xid code) (middle, marked pkt))
    (type : (middle.mbuf pkt).data dataOffset = pktType) (only : base.OnlyChanges pkt middle) :
    ∃ later m', action (pool, m) = some ((), later, m') ∧
      Assembling later m' pkt pktType (idBytes xid code) ∧
      base.OnlyChanges pkt later := by
  obtain ⟨later, m', eq, assembling, more⟩ :=
    (Assembling.start type).write (idBytes xid code) (by
      rw [List.nil_append, length_idBytes]
      decide)
  exact ⟨later, m', begins.trans eq, assembling, only.trans more⟩

theorem store_type (pool : Pool) (pkt : Nat) (pktType : Byte) :
    ((pool.store pkt dataOffset [pktType]).mbuf pkt).data dataOffset = pktType := by
  rw [Pool.data_store]
  have stored : (pool.mbuf pkt).data.store dataOffset [pktType]
      (dataOffset + 0) = [pktType][0] := ByteArea.store_of_inside (by simp)
  exact stored

theorem beginRequest_assembling (pool : Pool) (m : TransportMarshal)
    (pkt : Nat) (xid : BitVec 64) (rpcId : BitVec 32) :
    ∃ later m', beginRequest pkt xid rpcId (pool, m) = some ((), later, m') ∧
      Assembling later m' pkt 0x09 (idBytes xid rpcId) ∧
      pool.OnlyChanges pkt later :=
  start_ids (beginRequest_eq pkt xid rpcId) (store_type ..)
    ((Pool.OnlyChanges.setType ..).trans (.setType ..))

theorem Assembling.sizeReply (assembling : Assembling pool m pkt pktType body) :
    ∃ later, sizeReply (pool, m) = some ((), later, m) ∧
      Assembling later m pkt pktType body ∧ pool.OnlyChanges pkt later := by
  have buffer : m.reqData = some pkt := by rw [assembling.marshal]; rfl
  have mark : m.bookMarkOffset = dataOffset + 1 := by
    rw [assembling.marshal]
    rfl
  have room : m.bookMarkOffset + (toBytes 4 m.contentSize).length ≤ dataRoom := by
    rw [mark, length_toBytes]
    decide
  refine ⟨_, storeAt_eq buffer room, ⟨assembling.marshal, assembling.room,
    ?_, ?_⟩, .store pool pkt _ (.inl (by rw [mark]; decide))⟩
  · rw [Pool.data_store, mark, ByteArea.store_of_outside (.inl (by decide)), assembling.type]
  · rw [Pool.data_store, mark, ByteArea.load_store_of_outside, assembling.body]
    right
    rw [length_toBytes]
    decide

namespace TransportConnection

variable (conn : TransportConnection) (pool : Pool) (data : ByteArea)

theorem next_makePktHeader (pkt : Nat) : (conn.makePktHeader pool pkt).next = pool.next := by
  unfold makePktHeader
  induction conn.headerFields generalizing pool with
  | nil => rfl
  | cons field fields ih => exact ih _

variable {other : Nat}

theorem makePktHeader_of_ne (ne : other ≠ pkt) :
    (conn.makePktHeader pool pkt).mbuf other = pool.mbuf other := by
  unfold makePktHeader
  induction conn.headerFields generalizing pool with
  | nil => rfl
  | cons field fields ih =>
    exact (ih _).trans (pool.store_of_ne pkt field.1 ne field.2)

theorem next_getNewPkt : (conn.getNewPkt pool data).2.next = pool.next + 1 :=
  conn.next_makePktHeader _ _

theorem getNewPkt_of_ne (ne : other ≠ pool.next) :
    (conn.getNewPkt pool data).2.mbuf other = pool.mbuf other := by
  refine (conn.makePktHeader_of_ne _ ne).trans ?_
  simp [ne]

end TransportConnection

section Reply

variable (m : TransportMarshal) (conn : TransportConnection) (data : ByteArea)
  {req : TransportMarshal} {reqPkt : Nat} (xid : BitVec 64) (errorCode : BitVec 32)

theorem beginReply_assembling_st (buffer : req.reqData = some reqPkt)
    (single : (pool.mbuf reqPkt).data dataOffset = 0x09) :
    ∃ later m', beginReply conn data req xid errorCode (pool, m) = some ((), later, m') ∧
      Assembling later m' reqPkt 0x09 (idBytes xid errorCode) ∧
      pool.OnlyChanges reqPkt later :=
  start_ids (beginReply_of_st conn data xid errorCode buffer single) single (.refl ..)

theorem beginReply_assembling_bg (buffer : req.reqData = some reqPkt)
    (background : (pool.mbuf reqPkt).data dataOffset ≠ 0x09) :
    ∃ later m', beginReply conn data req xid errorCode (pool, m) = some ((), later, m') ∧
      Assembling later m' pool.next 0x0a (idBytes xid errorCode) ∧
      (conn.getNewPkt pool data).2.OnlyChanges pool.next later :=
  start_ids (beginReply_of_bg conn data xid errorCode buffer background)
    (store_type ..) ((Pool.OnlyChanges.setType ..).trans (.setType ..))

end Reply

end SRPC.Dpdk
