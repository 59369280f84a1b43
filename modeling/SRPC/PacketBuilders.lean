import SRPC.TransportMarshal

/-!
# Builders of packets

`make_pkt_header` writes the addresses of a connection into a new buffer.
Requests, replies and the packets that open a connection are then assembled
behind the headers, and `format_header` completes them.
-/

namespace SRPC.Dpdk

open LittleEndian Marshalling

structure NetAddress where
  mac : Vector Byte 6
  ip : BitVec 32
  port : BitVec 16
  deriving DecidableEq

/-- The address words are kept as they go over the wire, the ports in the order
of the host. -/
structure TransportConnection where
  connId : BitVec 64
  outAddr : NetAddress
  srcAddr : NetAddress
  udpPort : BitVec 16
  connected : Bool
  deriving DecidableEq

/-- Bytes, and their offset in the packet. -/
abbrev Field := Nat × List Byte

def genEthHeader (srcMac dstMac : Vector Byte 6) : List Field :=
  [(0, dstMac.toList), (6, srcMac.toList), (12, toBytes 2 (swap16 (0x0800 : BitVec 16)))]

def genIpv4Header (srcIp dstIp : BitVec 32) (dataSize : Nat) : List Field :=
  [(ipHdrOffset, [0x45]), (ipHdrOffset + 1, [0]),
    (ipHdrOffset + 6, toBytes 2 (swap16 (0x4000 : BitVec 16))),
    (ipHdrOffset + 8, [64]), (ipHdrOffset + 9, [17]), (ipHdrOffset + 4, toBytes 2 (4 : BitVec 16)),
    (ipHdrOffset + 12, toBytes 4 srcIp), (ipHdrOffset + 16, toBytes 4 dstIp),
    (ipHdrOffset + 2, toBytes 2 (swap16 (BitVec.ofNat 16 (28 + dataSize))))]

def genUdpHeader (srcPort dstPort : BitVec 16) (dataSize : Nat) : List Field :=
  [(udpHdrOffset, toBytes 2 (swap16 srcPort)), (udpHdrOffset + 2, toBytes 2 (swap16 dstPort)),
    (udpHdrOffset + 4, toBytes 2 (swap16 (BitVec.ofNat 16 (8 + dataSize))))]

namespace TransportConnection

/-- The fields `make_pkt_header` writes. -/
def headerFields (conn : TransportConnection) : List Field :=
  genEthHeader conn.srcAddr.mac conn.outAddr.mac ++
    genIpv4Header conn.srcAddr.ip conn.outAddr.ip 0 ++ genUdpHeader conn.udpPort conn.outAddr.port 0

/-- `make_pkt_header`. -/
def makePktHeader (conn : TransportConnection) (pool : Pool) (pkt : Nat) : Pool :=
  conn.headerFields.foldl (fun pool field => pool.store pkt field.1 field.2) pool

/-- `get_new_pkt`, with what the new buffer happens to hold. -/
def getNewPkt (conn : TransportConnection) (pool : Pool) (data : ByteArea) : Nat × Pool :=
  let (pkt, pool) := pool.alloc data
  (pkt, conn.makePktHeader pool pkt)

end TransportConnection

structure Argument where
  type : WireType
  value : Value type

namespace TransportMarshal

def putArgument (argument : Argument) : Action := put argument.type argument.value

/-- The marshal of `UDPClient::begin_request`. -/
def beginRequest (pkt : Nat) (xid : BitVec 64) (rpcId : BitVec 32) :
    Action := do
  allotBuffer pkt
  setPktTypeSt
  setBookMark 4
  put (.scalar .i64) xid
  put (.scalar .i32) rpcId

/-- The buffer of a reply: that of the request if it is of the type handled by
one thread, else a new one. -/
def replyBuffer (conn : TransportConnection) (data : ByteArea)
    (req : TransportMarshal) : Action := fun (pool, m) => do
  if ← isTypeSt pool req then
    let pkt ← req.reqData
    allotBufferX pkt (pool, m)
  else
    let (pkt, pool) := conn.getNewPkt pool data
    (do allotBuffer pkt; setPktTypeBg : Action) (pool, m)

/-- The marshal of `UDPConnection::begin_reply`. -/
def beginReply (conn : TransportConnection) (data : ByteArea)
    (req : TransportMarshal) (xid : BitVec 64) (errorCode : BitVec 32) :
    Action := do
  replyBuffer conn data req
  setBookMark 4
  put (.scalar .i64) xid
  put (.scalar .i32) errorCode

/-- What `UDPConnection::end_reply` does before `format_header`. -/
def sizeReply : Action := fun (pool, m) =>
  writeBookMark (toBytes 4 m.contentSize) (pool, m)

def conReq : List Byte := 0x02 :: List.replicate 63 0

/-- `con_ack`, with the assigned port as it lies in memory. -/
def conAck (udpPort : BitVec 16) : List Byte := 0x03 :: (toBytes 2 udpPort ++ List.replicate 61 0)

/-- The packet `DpdkTransport::connect` sends; it draws another buffer that it
does not use. -/
def connectPacket (conn : TransportConnection) (unused data : ByteArea) :
    Action := fun (pool, _) => do
  let (_, pool) := conn.getNewPkt pool unused
  let (pkt, pool) := conn.getNewPkt pool data
  (do allotBuffer pkt; setPktTypeSm; write conReq : Action) (pool, empty)

/-- The packet `send_ack` sends, from the configured port of the server. -/
def ackPacket (conn : TransportConnection) (data : ByteArea) :
    Action := fun (pool, _) => do
  let (pkt, pool) := conn.getNewPkt pool data
  (do
    allotBuffer pkt
    storeAt udpHdrOffset (toBytes 2 (swap16 conn.srcAddr.port))
    setPktTypeSm
    write (conAck conn.udpPort) : Action) (pool, empty)

end TransportMarshal

/-- What a packet is built for. -/
inductive Builder
  | request (xid : BitVec 64) (rpcId : BitVec 32) (arguments : List Argument)
  | reply (req : TransportMarshal) (xid : BitVec 64) (errorCode : BitVec 32)
      (results : List Argument)
  | connect (unused : ByteArea)
  | ack

namespace Builder

open TransportMarshal

/-- Everything that is done to a packet before `format_header`. -/
def assemble (conn : TransportConnection) (data : ByteArea) : Builder → Action
  | .request xid rpcId arguments => do
    fun (pool, m) =>
      let (pkt, pool) := conn.getNewPkt pool data
      beginRequest pkt xid rpcId (pool, m)
    arguments.forM putArgument
  | .reply req xid errorCode results => do
    beginReply conn data req xid errorCode
    results.forM putArgument
    sizeReply
  | .connect unused => connectPacket conn unused data
  | .ack => ackPacket conn data

end Builder

theorem data_foldl_store (fields : List Field) (pool : Pool) (pkt : Nat) :
    ((fields.foldl (fun pool field => pool.store pkt field.1 field.2) pool).mbuf pkt).data =
      fields.foldl (fun area field => area.store field.1 field.2) (pool.mbuf pkt).data := by
  induction fields generalizing pool with
  | nil => rfl
  | cons field fields ih =>
    rw [List.foldl_cons, ih, Pool.data_store, List.foldl_cons]

variable {fields : List Field}

theorem load_foldl_store {from_ n : Nat}
    (outside : ∀ field ∈ fields, from_ + n ≤ field.1 ∨ field.1 + field.2.length ≤ from_)
    (area : ByteArea) :
    (fields.foldl (fun area field => ByteArea.store area field.1 field.2)
      area).load from_ n = area.load from_ n := by
  induction fields generalizing area with
  | nil => rfl
  | cons field fields ih =>
    rw [List.foldl_cons, ih fun other member =>
      outside other (List.mem_cons_of_mem _ member)]
    exact ByteArea.load_store_of_outside (outside field List.mem_cons_self)

theorem load_foldl_store_field {index offset : Nat} {bytes : List Byte}
    (found : fields[index]? = some (offset, bytes))
    (outside : ∀ field ∈ fields.drop (index + 1),
      offset + bytes.length ≤ field.1 ∨ field.1 + field.2.length ≤ offset) (area : ByteArea) :
    (fields.foldl (fun area field => ByteArea.store area field.1 field.2)
      area).load offset bytes.length = bytes := by
  obtain ⟨inside, found⟩ := List.getElem?_eq_some_iff.mp found
  rw [← List.take_append_drop index fields, List.foldl_append,
    List.drop_eq_getElem_cons inside, found, List.foldl_cons,
    load_foldl_store outside, ByteArea.load_store]

theorem load_getNewPkt (conn : TransportConnection) (pool : Pool) (data : ByteArea) :
    ((conn.getNewPkt pool data).2.mbuf pool.next).data.load 0 4 =
      conn.outAddr.mac.toList.take 4 := by
  show (((conn.makePktHeader _ pool.next).mbuf pool.next).data).load 0 4 = _
  unfold TransportConnection.makePktHeader TransportConnection.headerFields genEthHeader
  rw [data_foldl_store, List.cons_append, List.cons_append, List.foldl_cons, load_foldl_store]
  · apply ByteArea.load_store_take
    rw [Vector.length_toList]
    decide
  · simp [genIpv4Header, genUdpHeader, ipHdrOffset, udpHdrOffset]

namespace TransportMarshal

variable {pool : Pool} {m : TransportMarshal}

theorem bind_apply {first second : Action} {state next : Pool × TransportMarshal}
    (firstEq : first state = some ((), next)) :
    (first >>= fun _ => second) state = second next := by
  show (first state >>= fun result => second result.2) = _
  rw [firstEq]
  rfl

/-- The marshal behind the reserved size. -/
def marked (pkt : Nat) : TransportMarshal := ⟨some pkt, dataOffset + 1, 4, dataOffset + 5⟩

theorem marked_room (pkt : Nat) : (marked pkt).offset ≤ dataRoom := by
  show dataOffset + 5 ≤ dataRoom
  decide

theorem setPktType_eq {id : Nat} (buffer : m.reqData = some id) (pktType : Byte) :
    setPktType pktType (pool, m) = some ((), pool.store id dataOffset [pktType], m) :=
  storeAt_eq buffer (by rw [List.length_singleton]; decide)

theorem allotBuffer_eq (pkt : Nat) :
    allotBuffer pkt (pool, m) =
      some ((), pool.store pkt dataOffset [0x09], ⟨some pkt, 0, 0, dataOffset + 1⟩) :=
  (bind_apply rfl).trans (setPktType_eq rfl 0x09)

theorem putIds_writes (xid : BitVec 64) (code : BitVec 32) :
    Writes (do put (.scalar .i64) xid; put (.scalar .i32) code) (toBytes 8 xid ++ toBytes 4 code) :=
  (put_writes (.scalar .i64) xid).andThen (put_writes (.scalar .i32) code)

def encodeArgument (argument : Argument) : List Byte := encode argument.type argument.value

theorem putArguments_writes (arguments : List Argument) :
    Writes (arguments.forM putArgument) (arguments.flatMap encodeArgument) :=
  forM_induction Writes.nothing (fun one two => one.andThen two) arguments
    fun argument => put_writes argument.type argument.value

theorem beginRequest_eq (pkt : Nat) (xid : BitVec 64) (rpcId : BitVec 32) :
    beginRequest pkt xid rpcId (pool, m) = write (toBytes 8 xid ++ toBytes 4 rpcId)
        ((pool.store pkt dataOffset [0x09]).store pkt dataOffset [0x09], marked pkt) := by
  refine (bind_apply (allotBuffer_eq pkt)).trans ?_
  refine (bind_apply (setPktType_eq rfl 0x09)).trans ?_
  refine (bind_apply rfl).trans ?_
  exact putIds_writes xid rpcId _ (marked pkt) pkt rfl (marked_room pkt)

variable (conn : TransportConnection) (data : ByteArea) {req : TransportMarshal}
  {pkt : Nat} (xid : BitVec 64) (errorCode : BitVec 32)

theorem beginReply_of_st (buffer : req.reqData = some pkt)
    (single : (pool.mbuf pkt).data dataOffset = 0x09) :
    beginReply conn data req xid errorCode (pool, m) =
      write (toBytes 8 xid ++ toBytes 4 errorCode) (pool, marked pkt) := by
  have attached : replyBuffer conn data req (pool, m) =
      some ((), pool, ⟨some pkt, 0, 0, dataOffset + 1⟩) := by
    simp [replyBuffer, isTypeSt, buffer, single, allotBufferX, attach]
  refine (bind_apply attached).trans ?_
  refine (bind_apply rfl).trans ?_
  exact putIds_writes xid errorCode _ (marked pkt) pkt rfl (marked_room pkt)

theorem beginReply_of_bg (buffer : req.reqData = some pkt)
    (background : (pool.mbuf pkt).data dataOffset ≠ 0x09) :
    beginReply conn data req xid errorCode (pool, m) = write (toBytes 8 xid ++ toBytes 4 errorCode)
        (((conn.getNewPkt pool data).2.store pool.next dataOffset [0x09]).store
          pool.next dataOffset [0x0a], marked pool.next) := by
  have attached : replyBuffer conn data req (pool, m) =
      some ((), ((conn.getNewPkt pool data).2.store pool.next dataOffset
        [0x09]).store pool.next dataOffset [0x0a], ⟨some pool.next, 0, 0, dataOffset + 1⟩) := by
    have other : isTypeSt pool req = some false := by
      simpa [isTypeSt, buffer] using background
    simp only [replyBuffer, other, some_bind]
    exact (bind_apply (allotBuffer_eq _)).trans (setPktType_eq rfl 0x0a)
  refine (bind_apply attached).trans ?_
  refine (bind_apply rfl).trans ?_
  exact putIds_writes xid errorCode _ (marked pool.next) pool.next rfl (marked_room pool.next)

end TransportMarshal

end SRPC.Dpdk
