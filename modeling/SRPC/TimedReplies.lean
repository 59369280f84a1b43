import SRPC.ReplyAssembly
import SRPC.UdpFutureSteps

/-!
# The bytes of a reply that its future gets

With `LATENCY` a server appends the timestamp of the request to the reply.  In
every build `format_header` counts the bytes behind the size field, padding
included, and `UDPClient::handle_read` copies that many less 8 from behind the
error code on.
-/

namespace SRPC.Dpdk

open LittleEndian Marshalling TransportMarshal ByteSource

/-- A `UDPConnection` with what is compiled in with `LATENCY`. -/
structure TimedConnection where
  latency : Bool
  sconn : UdpConnection
  timestamps : Nat → BitVec 64
  replyIdx : BitVec 64

namespace TimedConnection

/-- `reply_idx % 32`. -/
def slot (timed : TimedConnection) : Nat := timed.replyIdx.toNat % 32

/-- `req->m >> timestamps[reply_idx % 32]`. -/
def readTimestamp (timed : TimedConnection) (pool : Pool)
    (req : TransportMarshal) : Option (Nat → BitVec 64) :=
  if timed.latency then
    (TransportMarshal.get mbufSource (.scalar .u64) (pool, req)).map fun result =>
      Function.update timed.timestamps timed.slot result.1
  else
    some timed.timestamps

/-- `current_reply << timestamps[reply_idx % 32]`. -/
def putTimestamp (timed : TimedConnection) : Action :=
  if timed.latency then put (.scalar .u64) (timed.timestamps timed.slot)
  else pure ()

/-- What `begin_reply` writes. -/
def putIds (xid : BitVec 64) (errorCode : BitVec 32) : Action := do
  setBookMark 4
  put (.scalar .i64) xid
  put (.scalar .i32) errorCode

def beginReply (timed : TimedConnection) (pool : Pool) (data : ByteArea)
    (req : TransportMarshal) (xid : BitVec 64) (errorCode : BitVec 32) :
    Option (Pool × TimedConnection) := do
  let (_, pool, m) ← replyBuffer timed.sconn.conn data req (pool, timed.sconn.currentReply)
  let timestamps ← timed.readTimestamp pool req
  let (_, pool, m) ← putIds xid errorCode (pool, m)
  return (pool, { timed with
    sconn := { timed.sconn with currentReply := m }
    timestamps := timestamps })

def endReply (timed : TimedConnection) (pool : Pool) (tries : Nat) :
    Option (Pool × TimedConnection) := do
  let (_, pool, m) ← sizeReply (pool, timed.sconn.currentReply)
  let (_, pool, m) ← timed.putTimestamp (pool, m)
  let (_, pool, m) ← formatHeader (pool, m)
  if ← isTypeSt pool m then
    let (_, pool, m) ← setPktTypeBg (pool, m)
    return (pool, { timed with
      sconn := { timed.sconn with currentReply := m } })
  else
    guard (0 < timed.sconn.nrInrings)
    let pkt ← m.reqData
    return (pool, { timed with
      sconn := { timed.sconn with
        currentReply := m
        outBufring := timed.sconn.outBufring ++ [(tries % timed.sconn.nrInrings, pkt)] }
      replyIdx := timed.replyIdx + 1 })

def reply (timed : TimedConnection) (pool : Pool) (draw : Draw)
    (req : TransportMarshal) (xid : BitVec 64) (errorCode : BitVec 32)
    (results : List Argument) : Option (Pool × TimedConnection) := do
  let (pool, timed) ← timed.beginReply pool draw.data req xid errorCode
  let (pool, sconn) ← timed.sconn.putAll pool results
  ({ timed with sconn := sconn } : TimedConnection).endReply pool draw.tries

/-- The timestamp behind the results, if there is one. -/
def timestampBytes (timed : TimedConnection) : List Byte :=
  if timed.latency then toBytes 8 (timed.timestamps timed.slot) else []

end TimedConnection

/-- The offsets between which `handle_read` copies the packet into the reply of
its future: `reply_.write(get_offset(), reply_size - sizeof(i64))`. -/
def UdpClient.copiedRange (pool : Pool) (pkt : Nat) : Option (Nat × Nat) := do
  let (_, pool, m) ← allotBuffer pkt (pool, .empty)
  let ((replySize, _, _), _, m) ← readIds mbufSource (pool, m)
  return (m.offset, m.offset + (replySize.signExtend 64 - 8).toNat)

/-- The bytes from behind the error code to the end of the packet are copied. -/
def UdpClient.CopiesResults (pool : Pool) (pkt : Nat) : Prop :=
  UdpClient.copiedRange pool pkt = some (bodyOffset + 12, (pool.mbuf pkt).dataLen.toNat)

instance (pool : Pool) (pkt : Nat) : Decidable (UdpClient.CopiesResults pool pkt) :=
  inferInstanceAs (Decidable (_ = _))

namespace TimedConnection

variable {timed : TimedConnection} {pool begun : Pool} {pkt reqPkt : Nat}
  {pktType : Byte} {body : List Byte} {req m : TransportMarshal}

theorem readTimestamp_isSome (buffer : req.reqData = some reqPkt)
    (stamped : timed.latency = true → req.offset + 8 ≤ dataRoom) (pool : Pool) :
    ∃ timestamps, timed.readTimestamp pool req = some timestamps := by
  cases latency : timed.latency with
  | false => exact ⟨timed.timestamps, by simp [readTimestamp, latency]⟩
  | true =>
    have enough : min 8 (dataRoom - req.offset) = 8 := by
      have := stamped latency
      omega
    refine ⟨Function.update timed.timestamps timed.slot
      (ofBytes 64 ((pool.mbuf reqPkt).data.load req.offset 8)), ?_⟩
    simp only [readTimestamp, latency, if_true]
    have readEq : mbufSource.read 8 (pool, req) =
        some ((pool.mbuf reqPkt).data.load req.offset 8, pool,
          { req with offset := req.offset + 8 }) := by
      simp [mbufSource, buffer, enough]
    have got : TransportMarshal.get mbufSource (.scalar .u64) (pool, req) =
        some (ofBytes 64 ((pool.mbuf reqPkt).data.load req.offset 8), pool,
          { req with offset := req.offset + 8 }) := by
      refine bind_eq_some.mpr ⟨_, _, ?_, rfl⟩
      show (mbufSource.read 8 (pool, req)).bind _ = _
      rw [readEq]
      simp [guard, ByteArea.length_load, Scalar.size]
    rw [got]
    rfl

variable {xid : BitVec 64} {errorCode : BitVec 32}

theorem beginReply_eq {data : ByteArea}
    (beginEq : TransportMarshal.beginReply timed.sconn.conn data req xid
      errorCode (pool, timed.sconn.currentReply) = some ((), begun, m))
    (buffer : req.reqData = some reqPkt)
    (stamped : timed.latency = true → req.offset + 8 ≤ dataRoom) :
    ∃ timestamps, timed.beginReply pool data req xid errorCode =
      some (begun, { timed with
        sconn := { timed.sconn with currentReply := m }
        timestamps := timestamps }) := by
  obtain ⟨⟨_, attached, m'⟩, attachEq, putEq⟩ := bind_eq_some_iff.mp
    (show (replyBuffer timed.sconn.conn data req (pool, timed.sconn.currentReply)).bind
        (fun result => putIds xid errorCode result.2) = _ from beginEq)
  obtain ⟨timestamps, readEq⟩ := readTimestamp_isSome buffer stamped attached
  refine ⟨timestamps, ?_⟩
  have idsEq : putIds xid errorCode (attached, m') = some ((), begun, m) := putEq
  simp only [beginReply, attachEq, readEq, idsEq, some_bind]
  rfl

theorem putTimestamp_assembling (assembling : Assembling pool m pkt pktType body)
    (room : bodyOffset + (body ++ timed.timestampBytes).length ≤ dataRoom) :
    ∃ later m', timed.putTimestamp (pool, m) = some ((), later, m') ∧
      Assembling later m' pkt pktType (body ++ timed.timestampBytes) := by
  cases latency : timed.latency with
  | false =>
    refine ⟨pool, m, by simp only [putTimestamp, latency]; rfl, ?_⟩
    simpa [timestampBytes, latency] using assembling
  | true =>
    have bytes : timed.timestampBytes = toBytes 8 (timed.timestamps timed.slot) := by
      simp [timestampBytes, latency]
    rw [bytes] at room ⊢
    obtain ⟨later, m', putEq, whole, _⟩ := assembling.does
      (put_writes (.scalar .u64) (timed.timestamps timed.slot)) room
    exact ⟨later, m', by simpa [putTimestamp, latency] using putEq, whole⟩

theorem endReply_carries (rings : 0 < timed.sconn.nrInrings)
    (assembling : Assembling pool timed.sconn.currentReply pkt pktType body)
    (known : pktType = 0x09 ∨ pktType = 0x0a)
    (room : bodyOffset + (body ++ timed.timestampBytes).length ≤ dataRoom) (tries : Nat) :
    ∃ later timed', timed.endReply pool tries = some (later, timed') ∧
      (later.mbuf pkt).Carries 0x0a (body ++ timed.timestampBytes) := by
  obtain ⟨sized, sizeEq, sizedAssembling, _⟩ := assembling.sizeReply
  obtain ⟨stampedPool, m, putEq, whole⟩ := putTimestamp_assembling sizedAssembling room
  obtain ⟨formatted, formatEq, carries, _⟩ := whole.format
  have buffer : m.padded.reqData = some pkt := by rw [whole.marshal]; rfl
  rcases known with rfl | rfl
  · have single : isTypeSt formatted m.padded = some true := by
      simp [isTypeSt, buffer, carries.type]
    refine ⟨formatted.store pkt dataOffset [0x0a],
      { timed with sconn := { timed.sconn with currentReply := m.padded } },
      ?_, carries.retype 0x0a⟩
    simp only [endReply, sizeEq, putEq, formatEq, single, setPktTypeBg,
      setPktType_eq buffer, some_bind, if_true]
    rfl
  · have background : isTypeSt formatted m.padded = some false := by
      simp [isTypeSt, buffer, carries.type]
    refine ⟨formatted, { timed with
      sconn := { timed.sconn with
        currentReply := m.padded
        outBufring := timed.sconn.outBufring ++ [(tries % timed.sconn.nrInrings, pkt)] }
      replyIdx := timed.replyIdx + 1 }, ?_, carries⟩
    simp only [endReply, sizeEq, putEq, formatEq, background, buffer, guard,
      rings, some_bind, if_true]
    rfl

theorem beginReply_started (timed : TimedConnection) (pool : Pool)
    (data : ByteArea) (buffer : req.reqData = some reqPkt) (xid : BitVec 64)
    (errorCode : BitVec 32) :
    ∃ begun m pktType, TransportMarshal.beginReply timed.sconn.conn data req xid
        errorCode (pool, timed.sconn.currentReply) = some ((), begun, m) ∧
      Assembling begun m (if (pool.mbuf reqPkt).data dataOffset = 0x09 then
        reqPkt else pool.next) pktType (idBytes xid errorCode) ∧
      (pktType = 0x09 ∨ pktType = 0x0a) := by
  by_cases single : (pool.mbuf reqPkt).data dataOffset = 0x09
  · obtain ⟨begun, m, beginEq, started, _⟩ := beginReply_assembling_st
      timed.sconn.currentReply timed.sconn.conn data xid errorCode buffer single
    exact ⟨begun, m, 0x09, beginEq, by rwa [if_pos single], .inl rfl⟩
  · obtain ⟨begun, m, beginEq, started, _⟩ := beginReply_assembling_bg
      timed.sconn.currentReply timed.sconn.conn data xid errorCode buffer single
    exact ⟨begun, m, 0x0a, beginEq, by rwa [if_neg single], .inr rfl⟩

theorem reply_of_begun {draw : Draw} (rings : 0 < timed.sconn.nrInrings)
    (beginEq : TransportMarshal.beginReply timed.sconn.conn draw.data req xid
      errorCode (pool, timed.sconn.currentReply) = some ((), begun, m))
    (buffer : req.reqData = some reqPkt)
    (stamped : timed.latency = true → req.offset + 8 ≤ dataRoom)
    (started : Assembling begun m pkt pktType body) (known : pktType = 0x09 ∨ pktType = 0x0a)
    (results : List Argument)
    (room : bodyOffset + (body ++ results.flatMap encodeArgument).length +
      (if timed.latency then 8 else 0) ≤ dataRoom) :
    ∃ later timed' stamp, timed.reply pool draw req xid errorCode results = some (later, timed') ∧
      (later.mbuf pkt).Carries 0x0a (body ++ results.flatMap encodeArgument ++ stamp) ∧
      stamp.length = if timed.latency then 8 else 0 := by
  obtain ⟨timestamps, timedEq⟩ := beginReply_eq beginEq buffer stamped
  let opened : UdpConnection := { timed.sconn with currentReply := m }
  have openAssembling : Assembling begun opened.currentReply pkt pktType body := started
  obtain ⟨filled, m', putEq, whole, _⟩ :=
    UdpConnection.putAll_assembling openAssembling results (by omega)
  let complete : TimedConnection := { timed with
    sconn := { opened with currentReply := m' }
    timestamps := timestamps }
  have stampLength : complete.timestampBytes.length =
      if timed.latency then 8 else 0 := by
    show (if timed.latency then toBytes 8 _ else []).length = _
    split <;> simp [length_toBytes]
  have completeRings : 0 < complete.sconn.nrInrings := rings
  have assembling : Assembling filled complete.sconn.currentReply pkt pktType
      (body ++ results.flatMap encodeArgument) := whole
  obtain ⟨later, timed', endEq, carries⟩ := endReply_carries completeRings
    assembling known (by rw [List.length_append, stampLength]; omega) draw.tries
  refine ⟨later, timed', complete.timestampBytes, ?_, carries, stampLength⟩
  simp only [reply, timedEq, some_bind]
  show (opened.putAll begun results).bind _ = _
  rw [putEq]
  exact endEq

end TimedConnection

namespace UdpClient

variable {pool : Pool} {pkt : Nat} {pktType : Byte} {body : List Byte}

theorem copiedRange_eq (pool : Pool) (pkt : Nat) :
    copiedRange pool pkt = some (bodyOffset + 12, bodyOffset + 12 +
      ((ofBytes 32 ((pool.mbuf pkt).data.load (dataOffset + 1) 4)).signExtend 64 - 8).toNat) := by
  have readEq := readIds_mbuf (pool.store pkt dataOffset [0x09]) pkt
  rw [replyHeader_store_type] at readEq
  simp only [copiedRange, allotBuffer_eq, readEq, some_bind]
  rfl

theorem copied_length {size : BitVec 32} (ids : 8 ≤ size.toInt) :
    (size.signExtend 64 - 8).toNat = size.toNat - 8 := by
  have positive : size.msb = false := by
    rw [BitVec.toInt_eq_msb_cond] at ids
    split at ids
    · have := size.isLt
      omega
    · simp_all
  have eight : BitVec.toNat (8 : BitVec 64) = 8 := rfl
  rw [BitVec.toInt_eq_toNat_of_msb positive] at ids
  rw [BitVec.signExtend_eq_setWidth_of_msb_false positive, BitVec.toNat_sub,
    BitVec.toNat_setWidth, eight]
  omega

theorem copiedRange_of_carries (carries : (pool.mbuf pkt).Carries pktType body)
    (room : bodyOffset + body.length ≤ dataRoom) :
    copiedRange pool pkt = some (bodyOffset + 12, (pool.mbuf pkt).dataLen.toNat + 4) := by
  have small : 17 ≤ paddedLength body.length ∧
      paddedLength body.length ≤ dataRoom := by
    simp only [paddedLength, bodyOffset, dataOffset, dataRoom] at room ⊢
    omega
  have size : ofBytes 32 ((pool.mbuf pkt).data.load (dataOffset + 1) 4) =
      BitVec.ofNat 32 (paddedLength body.length) := by
    rw [carries.size]
    exact ofBytes_toBytes _ (Nat.le_refl _)
  have number : (BitVec.ofNat 32 (paddedLength body.length)).toNat = paddedLength body.length := by
    rw [BitVec.toNat_ofNat, Nat.mod_eq_of_lt]
    rw [dataRoom] at small
    omega
  have ids : 8 ≤ (BitVec.ofNat 32 (paddedLength body.length)).toInt := by
    rw [dataRoom] at small
    rw [BitVec.toInt_eq_toNat_cond, number, if_pos (by omega)]
    omega
  rw [copiedRange_eq, size, copied_length ids, number, carries.dataLen_toNat room]
  congr 2
  omega

end UdpClient

/-- The packet of the reply reaches the client, where the copy begins behind
the error code and ends four bytes behind the packet, in every build and for all
results that fit: the size counts the error code, whose bytes are not subtracted
from it. -/
theorem TimedConnection.reply_copied_past_packet (timed : TimedConnection)
    (pool : Pool) (draw : Draw) (req : TransportMarshal) (reqPkt : Nat)
    (buffer : req.reqData = some reqPkt) (rings : 0 < timed.sconn.nrInrings)
    (stamped : timed.latency = true → req.offset + 8 ≤ dataRoom)
    (xid : BitVec 64) (errorCode : BitVec 32) (results : List Argument)
    (room : bodyOffset + (idBytes xid errorCode ++ results.flatMap encodeArgument).length +
        (if timed.latency then 8 else 0) ≤ dataRoom) :
    ∃ later timed' pkt, timed.reply pool draw req xid errorCode results = some (later, timed') ∧
      pkt = (if (pool.mbuf reqPkt).data dataOffset = 0x09 then reqPkt
        else pool.next) ∧
      ∀ client rx, (later.mbuf pkt).Reaches (client.mbuf rx) →
        UdpClient.copiedRange client rx =
          some (bodyOffset + 12, (client.mbuf rx).dataLen.toNat + 4) ∧
        (UdpClient.CopiesResults client rx ↔ False) := by
  obtain ⟨begun, m, pktType, beginEq, started, known⟩ :=
    timed.beginReply_started pool draw.data buffer xid errorCode
  obtain ⟨later, timed', stamp, replyEq, carries, length⟩ :=
    reply_of_begun rings beginEq buffer stamped started known results room
  have fits : bodyOffset + (idBytes xid errorCode ++
      results.flatMap encodeArgument ++ stamp).length ≤ dataRoom := by
    rw [List.length_append, length]
    omega
  refine ⟨later, timed', _, replyEq, rfl, fun client rx reaches => ?_⟩
  have range := UdpClient.copiedRange_of_carries (carries.reaches fits reaches) fits
  refine ⟨range, fun exact_ => ?_, False.elim⟩
  have ends := (Prod.mk.inj (Option.some.inj (range.symm.trans exact_))).2
  omega

def sampleTimed : TimedConnection := ⟨true, ⟨sampleConnection, 1, .empty, []⟩, fun _ => 0, 40⟩

def sampleRequestPool (pktType : Byte) : Pool :=
  ⟨fun _ => ⟨fun address => if address = dataOffset then pktType else 0, 64, 64⟩, 1⟩

/-- The client copies up to byte 75 of a packet of 71 bytes. -/
theorem sampleTimed_copied_past_packet :
    (sampleTimed.reply (sampleRequestPool 0x09) ⟨fun _ => 0, 0⟩
        ⟨some 0, dataOffset + 1, 4, bodyOffset + 12⟩ 7 0 [⟨.scalar .i32, (5 : BitVec 32)⟩]).map
      (fun result => (UdpClient.copiedRange result.1 0, (result.1.mbuf 0).dataLen.toNat,
        decide (UdpClient.CopiesResults result.1 0))) = some (some (59, 75), 71, false) := by
  decide +kernel

/-- The reply to a background request, with two results and its timestamp. -/
theorem reply_copied_past_packet_sample :
    ∃ later timed' pkt, sampleTimed.reply (sampleRequestPool 0x0a) ⟨fun _ => 0, 0⟩
        ⟨some 0, dataOffset + 1, 4, bodyOffset + 12⟩ 7 0
        [⟨.scalar .i32, 5#32⟩, ⟨.string, ([1, 2, 3] : List Byte)⟩] = some (later, timed') ∧
      pkt = 1 ∧
      ∀ client rx, (later.mbuf pkt).Reaches (client.mbuf rx) →
        UdpClient.copiedRange client rx =
          some (bodyOffset + 12, (client.mbuf rx).dataLen.toNat + 4) ∧
        (UdpClient.CopiesResults client rx ↔ False) :=
  sampleTimed.reply_copied_past_packet (sampleRequestPool 0x0a) ⟨fun _ => 0, 0⟩
    ⟨some 0, dataOffset + 1, 4, bodyOffset + 12⟩ 0 rfl (by decide)
    (fun _ => by decide) 7 0 [⟨.scalar .i32, 5#32⟩, ⟨.string, ([1, 2, 3] : List Byte)⟩] (by decide)

end SRPC.Dpdk
