import SRPC.RequestDispatch

/-! # Whole replies -/

namespace SRPC.Dpdk

open LittleEndian Marshalling TransportMarshal

namespace UdpConnection

variable {sconn : UdpConnection} {pool : Pool} {pkt : Nat} {pktType : Byte} {body : List Byte}

theorem putAll_assembling (assembling : Assembling pool sconn.currentReply pkt pktType body)
    (results : List Argument)
    (room : bodyOffset + (body ++ results.flatMap encodeArgument).length ≤ dataRoom) :
    ∃ later currentReply, sconn.putAll pool results =
        some (later, { sconn with currentReply := currentReply }) ∧
      Assembling later currentReply pkt pktType (body ++ results.flatMap encodeArgument) ∧
      pool.OnlyChanges pkt later := by
  obtain ⟨later, m, eq, rest⟩ := assembling.does (putArguments_writes results) room
  exact ⟨later, m, by rw [putAll_eq, eq]; rfl, rest⟩

variable {req m : TransportMarshal} {reqPkt : Nat} {begun base : Pool}

theorem reply_of_begun {draw : Draw} {xid : BitVec 64} {errorCode : BitVec 32}
    (beginEq : TransportMarshal.beginReply sconn.conn draw.data req xid
      errorCode (pool, sconn.currentReply) = some ((), begun, m))
    (started : Assembling begun m pkt pktType body)
    (only : base.OnlyChanges pkt begun) (results : List Argument)
    (room : bodyOffset + (body ++ results.flatMap encodeArgument).length ≤ dataRoom) :
    ∃ filled m', sconn.reply pool draw req xid errorCode results =
        ({ sconn with currentReply := m' } : UdpConnection).endReply filled draw.tries ∧
      Assembling filled m' pkt pktType (body ++ results.flatMap encodeArgument) ∧
      base.OnlyChanges pkt filled := by
  let opened : UdpConnection := { sconn with currentReply := m }
  have openAssembling : Assembling begun opened.currentReply pkt pktType body := started
  obtain ⟨filled, m', putEq, whole, more⟩ := putAll_assembling openAssembling results room
  refine ⟨filled, m', ?_, whole, only.trans more⟩
  simp only [reply, UdpConnection.beginReply, beginEq, some_bind]
  show (opened.putAll begun results).bind _ = _
  rw [putEq]
  rfl

theorem reply_st (sconn : UdpConnection) (buffer : req.reqData = some reqPkt)
    (single : (pool.mbuf reqPkt).data dataOffset = 0x09) (draw : Draw)
    (xid : BitVec 64) (errorCode : BitVec 32) (results : List Argument)
    (room : bodyOffset + (idBytes xid errorCode ++
      results.flatMap encodeArgument).length ≤ dataRoom) :
    ∃ later sconn', sconn.reply pool draw req xid errorCode results = some (later, sconn') ∧
      (later.mbuf reqPkt).Carries 0x0a (idBytes xid errorCode ++ results.flatMap encodeArgument) ∧
      pool.OnlyChanges reqPkt later := by
  obtain ⟨begun, m, beginEq, started, only⟩ := beginReply_assembling_st
    sconn.currentReply sconn.conn draw.data xid errorCode buffer single
  obtain ⟨filled, m', replyEq, whole, more⟩ := reply_of_begun beginEq started only results room
  let complete : UdpConnection := { sconn with currentReply := m' }
  have assembling : Assembling filled complete.currentReply reqPkt 0x09
      (idBytes xid errorCode ++ results.flatMap encodeArgument) := whole
  obtain ⟨later, m'', endEq, carries, last⟩ := endReply_st assembling draw.tries
  exact ⟨later, _, replyEq.trans endEq, carries, more.trans last⟩

theorem reply_bg (sconn : UdpConnection) (rings : 0 < sconn.nrInrings)
    (buffer : req.reqData = some reqPkt)
    (background : (pool.mbuf reqPkt).data dataOffset ≠ 0x09) (draw : Draw)
    (xid : BitVec 64) (errorCode : BitVec 32) (results : List Argument)
    (room : bodyOffset + (idBytes xid errorCode ++
      results.flatMap encodeArgument).length ≤ dataRoom) :
    ∃ later sconn' number, sconn.reply pool draw req xid errorCode results = some (later, sconn') ∧
      sconn'.outBufring = sconn.outBufring ++ [(number, pool.next)] ∧
      (later.mbuf pool.next).Carries 0x0a (idBytes xid errorCode ++
        results.flatMap encodeArgument) ∧
      (sconn.conn.getNewPkt pool draw.data).2.OnlyChanges pool.next later := by
  obtain ⟨begun, m, beginEq, started, only⟩ := beginReply_assembling_bg
    sconn.currentReply sconn.conn draw.data xid errorCode buffer background
  obtain ⟨filled, m', replyEq, whole, more⟩ := reply_of_begun beginEq started only results room
  let complete : UdpConnection := { sconn with currentReply := m' }
  have completeRings : 0 < complete.nrInrings := rings
  have assembling : Assembling filled complete.currentReply pool.next 0x0a
      (idBytes xid errorCode ++ results.flatMap encodeArgument) := whole
  obtain ⟨later, m'', number, endEq, carries, last⟩ :=
    endReply_bg completeRings assembling draw.tries
  exact ⟨later, _, number, replyEq.trans endEq, rfl, carries, more.trans last⟩

end UdpConnection

end SRPC.Dpdk
