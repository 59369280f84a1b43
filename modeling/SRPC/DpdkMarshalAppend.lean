import SRPC.ReplyAssembly
import SRPC.TcpMarshalAppend
import SRPC.TcpRequests

/-!
# Appending a marshal to a packet

In the DPDK build `operator<<` copies the bytes of a marshal to the cursor of
the packet and leaves the cursor where it is.
-/

namespace SRPC.Dpdk

open Marshalling TransportMarshal

/-- `m.read(this->get_offset(), m.content_size())`. -/
def TransportMarshal.readAtOffset (pool : Pool) (tm : TransportMarshal)
    (heap : Heap) (m : Marshal) : Option (Pool × Heap × Marshal) := do
  let n ← m.getContentSize heap
  let (bytes, heap, m) ← m.read heap n
  let (_, pool, _) ← storeAt tm.offset bytes (pool, tm)
  return (pool, heap, m)

/-- `Client::operator<<(Marshal&)` and `UDPClient::operator<<(Marshal&)`. -/
def UdpClient.putMarshal (client : UdpClient) (pool : Pool) (heap : Heap)
    (m : Marshal) : Option (Pool × Heap × Marshal × UdpClient) :=
  if client.status = .connected then do
    let (pool, heap, m) ← client.currentReq.readAtOffset pool heap m
    return (pool, heap, m, client)
  else
    some (pool, heap, m, client)

namespace UdpConnection

/-- `ServerConnection::operator<<(Marshal&)`. -/
def putMarshal (sconn : UdpConnection) (pool : Pool) (heap : Heap)
    (m : Marshal) : Option (Pool × Heap × Marshal × UdpConnection) := do
  let (pool, heap, m) ← sconn.currentReply.readAtOffset pool heap m
  return (pool, heap, m, sconn)

/-- `UDPConnection::operator<<(Marshal&)`, whose body is commented out. -/
def ignoreMarshal (sconn : UdpConnection) (pool : Pool) (heap : Heap)
    (m : Marshal) : Option (Pool × Heap × Marshal × UdpConnection) := some (pool, heap, m, sconn)

end UdpConnection

/-- The bytes of a marshal are at the end of the request, and whatever is
written later comes behind them and is counted with them. -/
def RequestAppends (result : Option (Pool × Heap × Marshal × UdpClient))
    (pkt : Nat) (body content : List Byte) : Prop :=
  ∃ pool heap m client, result = some (pool, heap, m, client) ∧
    m.content heap = [] ∧
    Assembling pool client.currentReq pkt 0x09 (body ++ content) ∧
    ∀ values, bodyOffset + (body ++ content ++ values.flatMap encodeArgument).length ≤ dataRoom →
      ∀ tries, ∃ later last, ((client.putAll pool values).bind fun state =>
          state.2.endRequest state.1 tries) = some (later, last) ∧
        (later.mbuf pkt).Carries 0x09 (body ++ content ++ values.flatMap encodeArgument)

def ReplyAppends (result : Option (Pool × Heap × Marshal × UdpConnection))
    (pkt : Nat) (pktType : Byte) (body content : List Byte) : Prop :=
  ∃ pool heap m sconn, result = some (pool, heap, m, sconn) ∧
    m.content heap = [] ∧
    Assembling pool sconn.currentReply pkt pktType (body ++ content) ∧
    ∀ values, bodyOffset + (body ++ content ++ values.flatMap encodeArgument).length ≤ dataRoom →
      ∀ tries, ∃ later last, ((sconn.putAll pool values).bind fun state =>
          state.2.endReply state.1 tries) = some (later, last) ∧
        (later.mbuf pkt).Carries 0x0a (body ++ content ++ values.flatMap encodeArgument)

/-- The client is assembling a request in this buffer. -/
structure UdpClient.Requests (client : UdpClient) (pool : Pool) (pkt : Nat)
    (body : List Byte) : Prop where
  connected : client.status = .connected
  rings : 0 < client.nrInrings
  assembling : Assembling pool client.currentReq pkt 0x09 body

/-- A reply is being built, in the buffer of its request or in a new one. -/
structure UdpConnection.Replies (sconn : UdpConnection) (pool : Pool)
    (pkt : Nat) (pktType : Byte) (body : List Byte) : Prop where
  rings : 0 < sconn.nrInrings
  known : pktType = 0x09 ∨ pktType = 0x0a
  assembling : Assembling pool sconn.currentReply pkt pktType body

variable {pool : Pool} {heap : Heap} {m : Marshal} {pkt : Nat} {pktType : Byte} {body : List Byte}
  {tm : TransportMarshal}

theorem readAtOffset_nothing (assembling : Assembling pool tm pkt pktType body)
    (sound : Sound heap m) (empty : m.content heap = []) :
    ∃ heap' m', tm.readAtOffset pool heap m = some (pool, heap', m') ∧
      m'.content heap' = [] := by
  have size := sound.length_content
  rw [empty, List.length_nil] at size
  obtain ⟨heap', m', readEq, -, shrinks, -⟩ := sound.read_eq m.contentSize
  rw [empty, List.take_nil] at readEq
  have buffer : tm.reqData = some pkt := by rw [assembling.marshal]; rfl
  have room : tm.offset + ([] : List Byte).length ≤ dataRoom := by
    rw [assembling.marshal]
    exact assembling.room
  refine ⟨heap', m', ?_, by rw [shrinks.content, empty, List.drop_nil]⟩
  rw [readAtOffset, sound.getContentSize_eq]
  simp only [some_bind, readEq, storeAt_eq buffer room, Pool.store_nil]
  rfl

theorem Assembling.content_eq_nil {later : Pool} {content : List Byte}
    (assembling : Assembling pool tm pkt pktType body)
    (appended : Assembling later tm pkt pktType (body ++ content)) : content = [] := by
  have offset := congrArg TransportMarshal.offset (assembling.marshal.symm.trans appended.marshal)
  simp only [List.length_append] at offset
  exact List.length_eq_zero_iff.mp (by omega)

theorem UdpClient.Requests.putMarshal_iff {client : UdpClient}
    (requests : client.Requests pool pkt body) (sound : Sound heap m) :
    RequestAppends (client.putMarshal pool heap m) pkt body (m.content heap) ↔
      m.content heap = [] := by
  obtain ⟨connected, rings, assembling⟩ := requests
  rw [putMarshal, if_pos connected]
  constructor
  · rintro ⟨pool', heap', m', client', putEq, -, appended, -⟩
    obtain ⟨state, -, same⟩ := bind_eq_some_iff.mp putEq
    cases same
    exact assembling.content_eq_nil appended
  · intro empty
    obtain ⟨heap', m', readEq, drained⟩ := readAtOffset_nothing assembling sound empty
    rw [empty]
    refine ⟨pool, heap', m', client, by rw [readEq]; rfl, drained,
      by rw [List.append_nil]; exact assembling, fun values room tries => ?_⟩
    rw [List.append_nil] at room ⊢
    obtain ⟨filled, currentReq, putEq, whole⟩ := putAll_connected connected assembling values room
    let complete : UdpClient := { client with currentReq := currentReq }
    have completeRings : 0 < complete.nrInrings := rings
    obtain ⟨later, m'', number, endEq, carries, -⟩ :=
      endRequest_assembling completeRings whole tries
    exact ⟨later, _, by rw [putEq, Option.bind_some]; exact endEq, carries⟩

namespace UdpConnection

variable {sconn : UdpConnection}

theorem Replies.ends (replies : sconn.Replies pool pkt pktType body) (values : List Argument)
    (room : bodyOffset + (body ++ values.flatMap encodeArgument).length ≤ dataRoom) (tries : Nat) :
    ∃ later last, ((sconn.putAll pool values).bind fun state =>
        state.2.endReply state.1 tries) = some (later, last) ∧
      (later.mbuf pkt).Carries 0x0a (body ++ values.flatMap encodeArgument) := by
  obtain ⟨rings, known, assembling⟩ := replies
  obtain ⟨filled, currentReply, putEq, whole, -⟩ := putAll_assembling assembling values room
  let complete : UdpConnection := { sconn with currentReply := currentReply }
  have completeRings : 0 < complete.nrInrings := rings
  have completed : Assembling filled complete.currentReply pkt pktType
      (body ++ values.flatMap encodeArgument) := whole
  rw [putEq, Option.bind_some]
  rcases known with rfl | rfl
  · obtain ⟨later, m', endEq, carries, -⟩ := endReply_st completed tries
    exact ⟨later, _, endEq, carries⟩
  · obtain ⟨later, m', number, endEq, carries, -⟩ := endReply_bg completeRings completed tries
    exact ⟨later, _, endEq, carries⟩

theorem Replies.putMarshal_iff (replies : sconn.Replies pool pkt pktType body)
    (sound : Sound heap m) :
    ReplyAppends (sconn.putMarshal pool heap m) pkt pktType body
      (m.content heap) ↔ m.content heap = [] := by
  rw [putMarshal]
  constructor
  · rintro ⟨pool', heap', m', sconn', putEq, -, appended, -⟩
    obtain ⟨state, -, same⟩ := bind_eq_some_iff.mp putEq
    cases same
    exact replies.assembling.content_eq_nil appended
  · intro empty
    obtain ⟨heap', m', readEq, drained⟩ := readAtOffset_nothing replies.assembling sound empty
    rw [empty]
    refine ⟨pool, heap', m', sconn, by rw [readEq]; rfl, drained,
      by rw [List.append_nil]; exact replies.assembling, fun values room tries => ?_⟩
    rw [List.append_nil] at room ⊢
    exact replies.ends values room tries

theorem Replies.ignoreMarshal_iff (replies : sconn.Replies pool pkt pktType body) :
    ReplyAppends (sconn.ignoreMarshal pool heap m) pkt pktType body
      (m.content heap) ↔ m.content heap = [] := by
  constructor
  · rintro ⟨pool', heap', m', sconn', putEq, drained, -⟩
    cases putEq
    exact drained
  · intro empty
    rw [empty]
    refine ⟨pool, heap, m, sconn, rfl, empty,
      by rw [List.append_nil]; exact replies.assembling, fun values room tries => ?_⟩
    rw [List.append_nil] at room ⊢
    exact replies.ends values room tries

end UdpConnection

/-- A marshal is appended to a packet of a TCP connection unless it is empty and
there is room in the last chunk of the output, and to one of a DPDK connection
only if it is empty. -/
theorem marshal_appended_iff {sender : Tcp.Sender} {queued body : List Byte}
    (opened : sender.Open queued body) {m : Marshal} (sound : Sound sender.heap m)
    (apart : Apart sender.out.toChain m.toChain)
    {pool : Pool} {client : UdpClient} {reqPkt : Nat} {request : List Byte}
    (requests : client.Requests pool reqPkt request)
    {sconn : UdpConnection} {replyPkt : Nat} {pktType : Byte}
    {reply : List Byte} (replies : sconn.Replies pool replyPkt pktType reply)
    {heap : Heap} {other : Marshal} (otherSound : Sound heap other) :
    (Tcp.Sender.Appends (sender.clientPutMarshal .connected m) queued body (m.content sender.heap) ↔
      m.content sender.heap ≠ [] ∨ sender.OutFull) ∧
    (Tcp.Sender.Appends (sender.putMarshal m) queued body (m.content sender.heap) ↔
      m.content sender.heap ≠ [] ∨ sender.OutFull) ∧
    (RequestAppends (client.putMarshal pool heap other) reqPkt request
        (other.content heap) ↔ other.content heap = []) ∧
    (ReplyAppends (sconn.putMarshal pool heap other) replyPkt pktType reply
        (other.content heap) ↔ other.content heap = []) ∧
    (ReplyAppends (sconn.ignoreMarshal pool heap other) replyPkt pktType reply
        (other.content heap) ↔ other.content heap = []) :=
  ⟨opened.putMarshal_iff sound apart, opened.putMarshal_iff sound apart,
    requests.putMarshal_iff otherSound, replies.putMarshal_iff otherSound,
    replies.ignoreMarshal_iff⟩

theorem marshal_appended_sample :
    ∃ sender : Tcp.Sender, ∃ client : UdpClient, ∃ sconn : UdpConnection,
      ∃ pool body, sender.Open [] body ∧
      client.Requests pool samplePool.next (idBytes 0 1) ∧
      sconn.Replies pool samplePool.next 0x09 (idBytes 0 1) ∧
      Sound twoBlocks (blockMarshal 2 3) ∧
      (Tcp.Sender.Appends (sender.putMarshal Marshal.empty) [] body [] ↔
        ([] : List Byte) ≠ [] ∨ sender.OutFull) ∧
      ¬ RequestAppends (client.putMarshal pool twoBlocks (blockMarshal 2 3))
        samplePool.next (idBytes 0 1) [2, 3, 4] := by
  obtain ⟨sender, -, opened⟩ := (Tcp.Sender.idle_new blankHeap).beginPacket_eq
    (put_puts (.scalar .i8) (7 : BitVec 8))
  obtain ⟨pool, currentReq, -, assembling, -⟩ :=
    @UdpClient.beginRequest_connected
      ((UdpClient.new 2).connect sampleConnection) sampleConnection samplePool
      rfl rfl (fun _ => 0) 1
  have requests : UdpClient.Requests
      { (UdpClient.new 2).connect sampleConnection with
        currentReq := currentReq } pool samplePool.next (idBytes 0 1) :=
    ⟨rfl, Nat.two_pos, assembling⟩
  have replies : UdpConnection.Replies
      ⟨sampleConnection, 2, currentReq, []⟩ pool samplePool.next 0x09
      (idBytes 0 1) := ⟨Nat.two_pos, .inl rfl, assembling⟩
  have apart : Apart sender.out.toChain Marshal.empty.toChain :=
    fun _ _ _ member => absurd member List.not_mem_nil
  have held : (blockMarshal 2 3).content twoBlocks = [2, 3, 4] := by decide
  obtain ⟨-, tcp, udp, -⟩ := marshal_appended_iff opened
    (sound_empty sender.heap) apart requests replies blockMarshal_sound.2
  rw [held] at udp
  exact ⟨sender, _, _, pool, _, opened, requests, replies, blockMarshal_sound.2,
    tcp, fun appends => absurd (udp.mp appends) (by decide)⟩

def emptyAppend : Option (Tcp.Sender × Marshal) :=
  (Tcp.beginRequest (Tcp.Sender.new blankHeap) 0 1).bind fun sender =>
    sender.clientPutMarshal .connected Marshal.empty

def threeBytesAppend : Option (List Byte) := do
  let (_, pool, client) ← ((UdpClient.new 2).connect
    sampleConnection).beginRequest samplePool (fun _ => 0) 1
  let (pool, _, _, client) ← client.putMarshal pool twoBlocks (blockMarshal 2 3)
  let (pool, client) ← client.put pool ⟨.scalar .i8, (9 : BitVec 8)⟩
  let (pool, _) ← client.endRequest pool 0
  return (pool.mbuf samplePool.next).data.load (bodyOffset + 12) 4

/-- Appending an empty marshal fails on TCP, and on DPDK the bytes of a marshal
are gone. -/
theorem marshal_not_appended :
    emptyAppend.isNone ∧ (blockMarshal 2 3).content twoBlocks = [2, 3, 4] ∧
      threeBytesAppend = some [9, 0, 0, 0] := by
  decide +kernel

end SRPC.Dpdk
