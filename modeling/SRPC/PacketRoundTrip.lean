import SRPC.TransportCodec
import SRPC.UdpRequestCalls

/-!
# Requests arrive as they were sent

The server takes the size, the ids and the arguments out of the packet that
`begin_request`, `operator<<` and `end_request` have built.
-/

namespace SRPC.Dpdk

open LittleEndian Marshalling TransportMarshal ByteSource List

namespace UdpClient

def putAll (client : UdpClient) (pool : Pool) :
    List Argument → Option (Pool × UdpClient)
  | [] => some (pool, client)
  | argument :: arguments => do
    let (pool, client) ← client.put pool argument
    client.putAll pool arguments

/-- `begin_request`, `operator<<` of all arguments and `end_request`. -/
def sendRequest (client : UdpClient) (pool : Pool) (data : ByteArea)
    (rpcId : BitVec 32) (arguments : List Argument) (tries : Nat) :
    Option (Pool × UdpClient) := do
  let (_, pool, client) ← client.beginRequest pool data rpcId
  let (pool, client) ← client.putAll pool arguments
  client.endRequest pool tries

variable {client : UdpClient} {pool : Pool} {pkt : Nat} {body : List Byte}

theorem putAll_eq (connected : client.status = .connected) (arguments : List Argument) :
    client.putAll pool arguments = (arguments.forM putArgument (pool, client.currentReq)).map
      fun result => (result.2.1, { client with currentReq := result.2.2 }) := by
  induction arguments generalizing client pool with
  | nil => rfl
  | cons argument arguments ih =>
    rw [putAll, put, if_pos connected]
    change _ = ((putArgument argument (pool, client.currentReq)).bind
      fun result => arguments.forM putArgument result.2).map _
    cases putArgument argument (pool, client.currentReq) with
    | none => rfl
    | some result => exact ih connected

theorem putAll_connected (connected : client.status = .connected)
    (assembling : Assembling pool client.currentReq pkt 0x09 body) (arguments : List Argument)
    (room : bodyOffset + (body ++ arguments.flatMap encodeArgument).length ≤ dataRoom) :
    ∃ later currentReq, client.putAll pool arguments =
        some (later, { client with currentReq := currentReq }) ∧
      Assembling later currentReq pkt 0x09 (body ++ arguments.flatMap encodeArgument) := by
  obtain ⟨later, m, eq, whole, -⟩ := assembling.does (putArguments_writes arguments) room
  exact ⟨later, m, by rw [putAll_eq connected, eq]; rfl, whole⟩

theorem sendRequest_connected (client : UdpClient) (pool : Pool)
    (connected : client.status = .connected) (conn : client.conn ≠ none)
    (rings : 0 < client.nrInrings) (data : ByteArea) (rpcId : BitVec 32)
    (arguments : List Argument) (tries : Nat)
    (fits : bodyOffset + (idBytes client.xidCounter rpcId ++
      arguments.flatMap encodeArgument).length ≤ dataRoom) :
    ∃ later sender ring, client.sendRequest pool data rpcId arguments tries = some (later, sender) ∧
      sender.outBufring = client.outBufring ++ [(ring, pool.next)] ∧
      (later.mbuf pool.next).Carries 0x09 (idBytes client.xidCounter rpcId ++
        arguments.flatMap encodeArgument) := by
  obtain ⟨transport, connEq⟩ := Option.ne_none_iff_exists'.mp conn
  obtain ⟨pool₁, m₁, beginEq, begun, -⟩ := beginRequest_connected pool connected connEq data rpcId
  let opened : UdpClient := { client.newFuture with
    currentReq := m₁, currentXid := client.xidCounter }
  have openConnected : opened.status = .connected := connected
  have openAssembling : Assembling pool₁ opened.currentReq pool.next 0x09
      (idBytes client.xidCounter rpcId) := begun
  obtain ⟨pool₂, m₂, putEq, whole⟩ := putAll_connected openConnected openAssembling arguments fits
  let filled : UdpClient := { opened with currentReq := m₂ }
  have filledRings : 0 < filled.nrInrings := rings
  have filledAssembling : Assembling pool₂ filled.currentReq pool.next 0x09
      (idBytes client.xidCounter rpcId ++ arguments.flatMap encodeArgument) := whole
  obtain ⟨later, m₃, ring, endEq, carries, -⟩ :=
    endRequest_assembling filledRings filledAssembling tries
  refine ⟨later, { filled with
    currentReq := m₃
    outBufring := filled.outBufring ++ [(ring, pool.next)] }, ring, ?_, rfl,
    carries⟩
  simp only [sendRequest, beginEq, some_bind]
  show (opened.putAll pool₁ arguments).bind _ = _
  rw [putEq]
  exact endEq

end UdpClient

section Reading

variable {State : Type} (source : ByteSource State)

def getArgument (type : WireType) : Reader State Argument := do
  let value ← TransportMarshal.get source type
  return ⟨type, value⟩

/-- The arguments that a handler of these types takes. -/
def getArguments : List WireType → Reader State (List Argument)
  | [] => pure []
  | type :: types => do
    let argument ← getArgument source type
    let arguments ← getArguments types
    return argument :: arguments

/-- `>>` of a size, an id and a code, as requests and replies begin. -/
def readIds : Reader State (BitVec 32 × BitVec 64 × BitVec 32) := do
  let size ← getWord source 4
  let xid ← getWord source 8
  let code ← getWord source 4
  return (size, xid, code)

/-- `>> req_size >> xid >> rpc_id` and `>>` of the arguments. -/
def readRequest (types : List WireType) :
    Reader State (BitVec 32 × BitVec 64 × BitVec 32 × List Argument) := do
  let reqSize ← getWord source 4
  let xid ← getWord source 8
  let rpcId ← getWord source 4
  let arguments ← getArguments source types
  return (reqSize, xid, rpcId, arguments)

variable {source} {related : ∀ α : Type, Reader State α → Reader (List Byte) α → Prop}

theorem getArguments_related (respects : source.Respects related) (types : List WireType) :
    related _ (getArguments source types) (getArguments ByteSource.list types) := by
  induction types with
  | nil => exact respects.pure _
  | cons type types ih =>
    exact respects.bind
      (respects.bind (TransportMarshal.get_related respects type) fun _ =>
        respects.pure _) fun _ =>
      respects.bind ih fun _ => respects.pure _

theorem readIds_related (respects : source.Respects related) :
    related _ (readIds source) (readIds ByteSource.list) :=
  respects.bind (getWord_related respects (by decide)) fun _ =>
    respects.bind (getWord_related respects (by decide)) fun _ =>
      respects.bind (getWord_related respects (by decide)) fun _ =>
        respects.pure _

theorem readRequest_related (respects : source.Respects related) (types : List WireType) :
    related _ (readRequest source types) (readRequest ByteSource.list types) :=
  respects.bind (getWord_related respects (by decide)) fun _ =>
    respects.bind (getWord_related respects (by decide)) fun _ =>
      respects.bind (getWord_related respects (by decide)) fun _ =>
        respects.bind (getArguments_related respects types) fun _ =>
          respects.pure _

variable {arguments : List Argument}

/-- The arguments are read back. -/
theorem getArguments_encode (proper : ∀ argument ∈ arguments, Proper argument.type argument.value)
    (short : (arguments.flatMap encodeArgument).length < 2 ^ 31) (stream : List Byte) :
    getArguments ByteSource.list (arguments.map Argument.type)
      (arguments.flatMap encodeArgument ++ stream) = some (arguments, stream) := by
  induction arguments with
  | nil => rfl
  | cons argument arguments ih =>
    rw [flatMap_cons, length_append] at short
    have first := TransportMarshal.get_encode (proper argument mem_cons_self)
      (short_of_length (show (encodeArgument argument).length < 2 ^ 31 by omega))
      (arguments.flatMap encodeArgument ++ stream)
    have rest := ih (fun other member =>
      proper other (mem_cons_of_mem _ member)) (by omega)
    rw [flatMap_cons, append_assoc]
    exact bind_eq_some.mpr ⟨argument, _,
      bind_eq_some.mpr ⟨_, _, first, rfl⟩, bind_eq_some.mpr ⟨_, _, rest, rfl⟩⟩

theorem readIds_toBytes (size : BitVec 32) (xid : BitVec 64)
    (code : BitVec 32) (stream : List Byte) :
    readIds ByteSource.list (toBytes 4 size ++ (idBytes xid code ++ stream)) =
        some ((size, xid, code), stream) := by
  rw [idBytes, append_assoc]
  exact bind_eq_some.mpr ⟨_, _, getWord_toBytes 4 size _,
    bind_eq_some.mpr ⟨_, _, getWord_toBytes 8 xid _,
      bind_eq_some.mpr ⟨_, _, getWord_toBytes 4 code _, rfl⟩⟩⟩

theorem readRequest_encode (reqSize : BitVec 32) (xid : BitVec 64) (rpcId : BitVec 32)
    (proper : ∀ argument ∈ arguments, Proper argument.type argument.value)
    (short : (arguments.flatMap encodeArgument).length < 2 ^ 31) (stream : List Byte) :
    readRequest ByteSource.list (arguments.map Argument.type)
      (toBytes 4 reqSize ++ (idBytes xid rpcId ++ (arguments.flatMap encodeArgument ++ stream))) =
          some ((reqSize, xid, rpcId, arguments), stream) := by
  rw [idBytes, append_assoc]
  exact bind_eq_some.mpr ⟨_, _, getWord_toBytes 4 reqSize _,
    bind_eq_some.mpr ⟨_, _, getWord_toBytes 8 xid _,
      bind_eq_some.mpr ⟨_, _, getWord_toBytes 4 rpcId _,
        bind_eq_some.mpr ⟨_, _, getArguments_encode proper short stream,
          rfl⟩⟩⟩⟩

end Reading

variable {pktType : Byte} {mbuf : Mbuf}

theorem Mbuf.Carries.load {body : List Byte} (carries : mbuf.Carries pktType body)
    (room : bodyOffset + body.length ≤ dataRoom) :
    ∃ rest, mbuf.data.load (dataOffset + 1) (dataRoom - (dataOffset + 1)) =
      toBytes 4 (BitVec.ofNat 32 (paddedLength body.length)) ++ (body ++ rest) := by
  have inside : bodyOffset + paddedLength body.length ≤ dataRoom := by
    have short : bodyOffset ≤ 64 ∧ 64 ≤ dataRoom := by decide
    rw [paddedLength]
    omega
  have split : dataRoom - (dataOffset + 1) = 4 + (paddedLength body.length +
      (dataRoom - bodyOffset - paddedLength body.length)) := by
    rw [bodyOffset] at inside ⊢
    omega
  rw [split, ByteArea.load_add, carries.size]
  show ∃ rest, _ ++ mbuf.data.load bodyOffset _ = _
  rw [ByteArea.load_add, carries.content, append_assoc]
  exact ⟨_, rfl⟩

/-- The network brings the bytes of a packet into a buffer of the receiver,
which may hold anything behind them. -/
structure Mbuf.Arrives (sent received : Mbuf) : Prop where
  dataLen : received.dataLen = sent.dataLen
  bytes : received.data.load 0 sent.dataLen.toNat = sent.data.load 0 sent.dataLen.toNat

theorem Mbuf.Carries.dataLen_toNat {body : List Byte} (carries : mbuf.Carries pktType body)
    (room : bodyOffset + body.length ≤ dataRoom) :
    mbuf.dataLen.toNat = bodyOffset + paddedLength body.length := by
  rw [carries.length, BitVec.toNat_ofNat, paddedLength]
  simp only [bodyOffset, dataOffset, dataRoom] at room ⊢
  omega

/-- A packet may also arrive with other addresses in its headers. -/
structure Mbuf.Reaches (sent received : Mbuf) : Prop where
  dataLen : received.dataLen = sent.dataLen
  bytes : received.data.load dataOffset (sent.dataLen.toNat - dataOffset) =
    sent.data.load dataOffset (sent.dataLen.toNat - dataOffset)

variable {sent received : Mbuf}

theorem Mbuf.Arrives.reaches (arrives : sent.Arrives received)
    (headers : dataOffset ≤ sent.dataLen.toNat) : sent.Reaches received :=
  ⟨arrives.dataLen, ByteArea.load_of_load arrives.bytes (Nat.zero_le _) (by omega)⟩

theorem Mbuf.Carries.reaches {body : List Byte} (carries : sent.Carries pktType body)
    (room : bodyOffset + body.length ≤ dataRoom) (reaches : sent.Reaches received) :
    received.Carries pktType body := by
  have length := carries.dataLen_toNat room
  have offsets : dataOffset + 5 = bodyOffset := rfl
  have same {offset n : Nat} (behind : dataOffset ≤ offset)
      (inside : offset + n ≤ bodyOffset + paddedLength body.length) :
      received.data.load offset n = sent.data.load offset n :=
    ByteArea.load_of_load reaches.bytes behind (by omega)
  refine ⟨?_, ?_, ?_, by rw [reaches.dataLen, carries.length]⟩
  · have first : received.data.load dataOffset 1 = sent.data.load dataOffset 1 :=
      same (Nat.le_refl _) (by omega)
    rw [← carries.type]
    simpa [ByteArea.load] using first
  · rw [same (by omega) (by omega), carries.size]
  · rw [same (by omega) (Nat.le_refl _), carries.content]

/-- What the client puts into a packet the server takes out of it, and the size
it reads is the number of bytes behind it, with the padding. -/
theorem packet_codec_roundTrip (client : UdpClient) (pool : Pool)
    (connected : client.status = .connected) (conn : client.conn ≠ none)
    (rings : 0 < client.nrInrings) (data : ByteArea) (rpcId : BitVec 32)
    (arguments : List Argument) (tries : Nat)
    (proper : ∀ argument ∈ arguments, Proper argument.type argument.value)
    (fits : bodyOffset + (idBytes client.xidCounter rpcId ++
      arguments.flatMap encodeArgument).length ≤ dataRoom) :
    ∃ later sender ring pkt, client.sendRequest pool data rpcId arguments tries =
        some (later, sender) ∧
      sender.outBufring = client.outBufring ++ [(ring, pkt)] ∧
      ∀ (server : Pool) (rx : Nat) (m : TransportMarshal),
        (later.mbuf pkt).Arrives (server.mbuf rx) →
        ∃ reqSize m',
          (do allotBufferX rx
              readRequest mbufSource (arguments.map Argument.type) :
            Reader (Pool × TransportMarshal) _) (server, m) =
              some ((reqSize, client.xidCounter, rpcId, arguments), server, m') ∧
          reqSize.toNat = (server.mbuf rx).dataLen.toNat - bodyOffset := by
  obtain ⟨later, sender, ring, sendEq, enqueued, carries⟩ :=
    client.sendRequest_connected pool connected conn rings data rpcId arguments tries fits
  refine ⟨later, sender, ring, pool.next, sendEq, enqueued, ?_⟩
  intro server rx m arrives
  have headers : dataOffset ≤ (later.mbuf pool.next).dataLen.toNat := by
    rw [carries.dataLen_toNat fits, bodyOffset]
    omega
  have received := carries.reaches fits (arrives.reaches headers)
  obtain ⟨rest, loaded⟩ := received.load fits
  have short : (arguments.flatMap encodeArgument).length < 2 ^ 31 := by
    rw [length_append, dataRoom] at fits
    omega
  have decoded := readRequest_encode (BitVec.ofNat 32 (paddedLength
    (idBytes client.xidCounter rpcId ++
      arguments.flatMap encodeArgument).length)) client.xidCounter rpcId proper short rest
  have simulated := readRequest_related (Simulates.respects (mbufSource_holds server rx))
    (arguments.map Argument.type) (server, ⟨some rx, 0, 0, dataOffset + 1⟩) _
    ⟨rfl, rfl, loaded.symm⟩
  rw [append_assoc, decoded] at simulated
  obtain ⟨⟨server', m'⟩, readEq, rfl, -⟩ := simulated
  refine ⟨_, m', bind_eq_some.mpr ⟨(), _, rfl, readEq⟩, ?_⟩
  rw [received.dataLen_toNat fits, BitVec.toNat_ofNat, Nat.add_sub_cancel_left, Nat.mod_eq_of_lt]
  simp only [paddedLength, bodyOffset, dataOffset, dataRoom] at fits ⊢
  omega

def sampleArguments : List Argument :=
  [⟨.string, ([0x61] : List Byte)⟩,
    ⟨.map .v32 (.vector .v64), ([(7#32, [2#64, 3#64])] : List (BitVec 32 × List (BitVec 64)))⟩]

theorem sampleArguments_proper : ∀ argument ∈ sampleArguments,
    Proper argument.type argument.value := by
  intro argument member
  simp only [sampleArguments, mem_cons, not_mem_nil, or_false]
    at member
  rcases member with rfl | rfl
  · trivial
  · refine ⟨nodup_singleton _, fun item _ => ⟨trivial, ?_⟩⟩
    exact fun _ _ => trivial

theorem packet_codec_roundTrip_sample :
    ∃ later sender ring pkt, ((UdpClient.new 2).connect sampleConnection).sendRequest samplePool
        (fun _ => 0) 9 sampleArguments 0 = some (later, sender) ∧
      sender.outBufring = [(ring, pkt)] ∧
      ∀ (server : Pool) (rx : Nat) (m : TransportMarshal),
        (later.mbuf pkt).Arrives (server.mbuf rx) →
        ∃ reqSize m',
          (do allotBufferX rx
              readRequest mbufSource (sampleArguments.map Argument.type) :
            Reader (Pool × TransportMarshal) _) (server, m) =
              some ((reqSize, 0, 9, sampleArguments), server, m') ∧
          reqSize.toNat = (server.mbuf rx).dataLen.toNat - bodyOffset :=
  packet_codec_roundTrip ((UdpClient.new 2).connect sampleConnection)
    samplePool rfl (by decide) (by decide) (fun _ => 0) 9 sampleArguments 0
    sampleArguments_proper (by decide)

end SRPC.Dpdk
