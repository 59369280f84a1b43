import SRPC.PacketAssembly

/-!
# `UDPClient`

A request is a future that is entered into `pending_fu_` and a packet that is
assembled in `current_req`, in calls of `begin_request`, `operator<<` and
`end_request`.
-/

namespace SRPC.Dpdk

open LittleEndian Marshalling TransportMarshal

inductive Status
  | new
  | connected
  | closed
  deriving DecidableEq, Repr

/-- A future with the bytes of its reply, its reference count and the number of
times it was notified. -/
structure Future where
  xid : BitVec 64
  errorCode : BitVec 32
  reply : List Byte
  ready : Bool
  refCnt : Int
  notified : Nat
  deriving DecidableEq, Repr

/-- `outBufring` lists the rings and buffers of all calls that enqueued one on
the connection. -/
structure UdpClient where
  status : Status
  conn : Option TransportConnection
  nrInrings : Nat
  xidCounter : BitVec 64
  pendingFu : BitVec 64 → Option Nat
  futures : List Future
  currentReq : TransportMarshal
  currentXid : BitVec 64
  outBufring : List (Nat × Nat)

namespace UdpClient

def new (nrInrings : Nat) : UdpClient :=
  ⟨.new, none, nrInrings, 0, fun _ => none, [], .empty, 0, []⟩

/-- `connect`, with the connection that the transport returns. -/
def connect (client : UdpClient) (conn : TransportConnection) : UdpClient :=
  { client with status := .connected, conn := some conn, outBufring := [] }

/-- `new Future` in `begin_request`, entered into `pending_fu_` and copied for
the caller. -/
def newFuture (client : UdpClient) : UdpClient :=
  { client with
    xidCounter := client.xidCounter + 1
    pendingFu := Function.update client.pendingFu client.xidCounter (some client.futures.length)
    futures := client.futures ++ [⟨client.xidCounter, 0, [], false, 2, 0⟩] }

/-- `begin_request`, with what the new buffer happens to hold.  The result is
the place of the future, or nothing for `nullptr`. -/
def beginRequest (client : UdpClient) (pool : Pool) (data : ByteArea)
    (rpcId : BitVec 32) : Option (Option Nat × Pool × UdpClient) :=
  if client.status = .connected then do
    let xid := client.xidCounter
    let conn ← client.conn
    let (pkt, pool) := conn.getNewPkt pool data
    let (_, pool, currentReq) ←
      TransportMarshal.beginRequest pkt xid rpcId (pool, client.currentReq)
    return (some client.futures.length, pool,
      { client.newFuture with currentReq := currentReq, currentXid := xid })
  else
    some (none, pool, client)

/-- `Client::operator<<`. -/
def put (client : UdpClient) (pool : Pool) (argument : Argument) : Option (Pool × UdpClient) :=
  if client.status = .connected then do
    let (_, pool, currentReq) ← putArgument argument (pool, client.currentReq)
    return (pool, { client with currentReq := currentReq })
  else
    some (pool, client)

/-- `end_request`, which finds a ring with room at this try. -/
def endRequest (client : UdpClient) (pool : Pool) (tries : Nat) :
    Option (Pool × UdpClient) := do
  let (_, pool, currentReq) ← formatHeader (pool, client.currentReq)
  guard (0 < client.nrInrings)
  let ring := (client.currentXid.toNat + tries) % client.nrInrings
  let pkt ← currentReq.reqData
  return (pool, { client with
    currentReq := currentReq
    outBufring := client.outBufring ++ [(ring, pkt)] })

end UdpClient

/-- `UDPConnection`, with the marshal of the reply that is assembled. -/
structure UdpConnection where
  conn : TransportConnection
  nrInrings : Nat
  currentReply : TransportMarshal
  outBufring : List (Nat × Nat)

namespace UdpConnection

def beginReply (sconn : UdpConnection) (pool : Pool) (data : ByteArea)
    (req : TransportMarshal) (xid : BitVec 64) (errorCode : BitVec 32) :
    Option (Pool × UdpConnection) := do
  let (_, pool, currentReply) ← TransportMarshal.beginReply sconn.conn data req
    xid errorCode (pool, sconn.currentReply)
  return (pool, { sconn with currentReply := currentReply })

/-- `UDPConnection::operator<<`. -/
def put (sconn : UdpConnection) (pool : Pool) (result : Argument) :
    Option (Pool × UdpConnection) := do
  let (_, pool, currentReply) ← putArgument result (pool, sconn.currentReply)
  return (pool, { sconn with currentReply := currentReply })

/-- `end_reply`.  A reply in the buffer of its request is left to
`process_requests`, any other is enqueued at this try. -/
def endReply (sconn : UdpConnection) (pool : Pool) (tries : Nat) :
    Option (Pool × UdpConnection) := do
  let (_, pool, m) ← sizeReply (pool, sconn.currentReply)
  let (_, pool, m) ← formatHeader (pool, m)
  if ← isTypeSt pool m then
    let (_, pool, m) ← setPktTypeBg (pool, m)
    return (pool, { sconn with currentReply := m })
  else
    guard (0 < sconn.nrInrings)
    let pkt ← m.reqData
    return (pool, { sconn with
      currentReply := m
      outBufring := sconn.outBufring ++ [(tries % sconn.nrInrings, pkt)] })

end UdpConnection

end SRPC.Dpdk
