import SRPC.PacketAddresses
import SRPC.ReplyAssembly

/-! # Agreement of the two dispatchers -/

namespace SRPC.Dpdk

open LittleEndian Marshalling TransportMarshal ByteSource

/-- The packet holds a request from the other end of `conn`. -/
structure Mbuf.Requests (mbuf : Mbuf) (conn : TransportConnection)
    (pktType : Byte) (xid : BitVec 64) (rpcId : BitVec 32) (arguments : List Argument) : Prop where
  room : bodyOffset + (idBytes xid rpcId ++ arguments.flatMap encodeArgument).length ≤ dataRoom
  proper : ∀ argument ∈ arguments, Proper argument.type argument.value
  carries : mbuf.Carries pktType (idBytes xid rpcId ++ arguments.flatMap encodeArgument)
  addresses : mbuf.addresses = addressBytes conn.outAddr.ip conn.srcAddr.ip
    conn.outAddr.port conn.udpPort

/-- The packet holds a request. -/
structure Mbuf.Asks (mbuf : Mbuf) (pktType : Byte) (xid : BitVec 64)
    (rpcId : BitVec 32) (arguments : List Argument) : Prop where
  room : bodyOffset + (idBytes xid rpcId ++ arguments.flatMap encodeArgument).length ≤ dataRoom
  proper : ∀ argument ∈ arguments, Proper argument.type argument.value
  carries : mbuf.Carries pktType (idBytes xid rpcId ++ arguments.flatMap encodeArgument)

theorem Mbuf.Requests.asks {mbuf : Mbuf} {conn : TransportConnection}
    {pktType : Byte} {xid : BitVec 64} {rpcId : BitVec 32} {arguments : List Argument}
    (request : mbuf.Requests conn pktType xid rpcId arguments) :
    mbuf.Asks pktType xid rpcId arguments := ⟨request.room, request.proper, request.carries⟩

section Reading

variable {pool : Pool} {rx : Nat} {pktType : Byte} {xid : BitVec 64}
  {rpcId : BitVec 32} {arguments : List Argument}

theorem Mbuf.Asks.readIds (request : (pool.mbuf rx).Asks pktType xid rpcId arguments) :
    ∃ size req rest, readIds mbufSource (pool, ⟨some rx, 0, 0, dataOffset + 1⟩) =
        some ((size, xid, rpcId), pool, req) ∧
      dataOffset < req.offset ∧
      HoldsBytes pool rx (pool, req) (arguments.flatMap encodeArgument ++ rest) := by
  obtain ⟨rest, loaded⟩ := request.carries.load request.room
  rw [List.append_assoc] at loaded
  have simulated := readIds_related (Simulates.respects (mbufSource_holds pool rx))
    (pool, ⟨some rx, 0, 0, dataOffset + 1⟩) _ ⟨rfl, rfl, loaded.symm⟩
  rw [readIds_toBytes] at simulated
  obtain ⟨⟨_, req⟩, readEq, held⟩ := simulated
  obtain rfl : _ = pool := held.1
  refine ⟨_, req, rest, readEq, ?_, held⟩
  have whole := congrArg List.length loaded
  have remaining := congrArg List.length held.2.2
  simp only [ByteArea.length_load, List.length_append, length_toBytes,
    length_idBytes] at whole remaining
  simp only [dataRoom, dataOffset] at whole remaining ⊢
  omega

variable {req : TransportMarshal}

theorem TransportMarshal.HoldsBytes.setType {bytes : List Byte}
    (held : HoldsBytes pool rx (pool, req) bytes) (behind : dataOffset < req.offset)
    (newType : Byte) :
    HoldsBytes (pool.store rx dataOffset [newType]) rx
      (pool.store rx dataOffset [newType], req) bytes := by
  refine ⟨rfl, held.2.1, ?_⟩
  rw [held.2.2, Pool.data_store, ByteArea.load_store_of_outside]
  right
  rw [List.length_singleton]
  exact behind

theorem Handler.run_eq {handler : Handler} {rest : List Byte}
    (inputs : handler.inputs = arguments.map Argument.type)
    (proper : ∀ argument ∈ arguments, Proper argument.type argument.value)
    (short : (arguments.flatMap encodeArgument).length < 2 ^ 31)
    (held : HoldsBytes pool rx (pool, req) (arguments.flatMap encodeArgument ++ rest))
    (sconn : UdpConnection) (draw : Draw) (xid : BitVec 64) :
    ∃ req', req'.reqData = some rx ∧
      handler.run sconn pool draw req xid =
        sconn.reply pool draw req' xid 0 (handler.call arguments) := by
  have simulated := getArguments_related (Simulates.respects (mbufSource_holds pool rx))
    (arguments.map Argument.type) (pool, req) _ held
  rw [getArguments_encode proper short] at simulated
  obtain ⟨⟨_, req'⟩, readEq, same, buffer, -⟩ := simulated
  obtain rfl : _ = pool := same
  refine ⟨req', buffer, ?_⟩
  simp only [Handler.run, inputs, readEq, some_bind]

end Reading

section Dispatch

variable {handlers : Handlers} {sconn : UdpConnection} {pool : Pool} {rx : Nat}
  {xid : BitVec 64} {rpcId : BitVec 32} {arguments : List Argument} {handler : Handler}

/-- The body of the reply of a handler. -/
def Handler.replyBody (handler : Handler) (xid : BitVec 64)
    (arguments : List Argument) : List Byte :=
  idBytes xid 0 ++ (handler.call arguments).flatMap encodeArgument

/-- The handler takes these arguments and its results fit into a packet. -/
structure Handler.Serves (handler : Handler) (xid : BitVec 64)
    (arguments : List Argument) : Prop where
  inputs : handler.inputs = arguments.map Argument.type
  room : bodyOffset + (handler.replyBody xid arguments).length ≤ dataRoom

theorem Mbuf.Asks.short {mbuf : Mbuf} {pktType : Byte}
    (request : mbuf.Asks pktType xid rpcId arguments) :
    (arguments.flatMap encodeArgument).length < 2 ^ 31 := by
  have room := request.room
  rw [List.length_append, dataRoom] at room
  omega

section

variable (request : (pool.mbuf rx).Requests sconn.conn 0x09 xid rpcId arguments)

include request

end

/-- A job that runs later finds its buffer as it was. -/
def Undisturbed (handler : Handler) (pool : Pool) (rx : Nat) :
    JobTime → Prop
  | .atOnce => True
  | .later data => handler.attr = .normal → data = (pool.mbuf rx).data

theorem Mbuf.Requests.retype {conn : TransportConnection} {pktType : Byte}
    (request : (pool.mbuf rx).Requests conn pktType xid rpcId arguments) (newType : Byte) :
    ((pool.store rx dataOffset [newType]).mbuf rx).Requests conn newType xid rpcId arguments :=
  ⟨request.room, request.proper, request.carries.retype newType,
    (Pool.OnlyChanges.setType pool rx newType).addresses.trans request.addresses⟩

end Dispatch

end SRPC.Dpdk
