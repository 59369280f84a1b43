import SRPC.DispatchAgreement

/-!
# The poll of a server connection

`UDPConnection::handle_read` takes requests from the rings of a connection and
answers them.
-/

namespace SRPC.Dpdk

open LittleEndian Marshalling TransportMarshal ByteSource

/-- An entry of `request_array`, with the entry of `pkt_array`. -/
structure PolledRequest where
  pkt : Nat
  xid : BitVec 64
  m : TransportMarshal

/-- When each job runs, and what its reply draws. -/
structure PollSchedule where
  time : Nat → JobTime
  draw : Nat → Draw

/-- A request as it was sent, and the buffer it came in. -/
structure Incoming where
  mbuf : Nat
  xid : BitVec 64
  rpcId : BitVec 32
  arguments : List Argument

namespace Incoming

/-- The request lies in its buffer, and its handler can serve it. -/
structure Waits (request : Incoming) (handlers : Handlers)
    (conn : TransportConnection) (pool : Pool) : Prop where
  requests : (pool.mbuf request.mbuf).Requests conn 0x0a request.xid request.rpcId request.arguments
  allocated : request.mbuf < pool.next
  serves : ∀ handler ∈ handlers request.rpcId, handler.Serves request.xid request.arguments

/-- The body of the reply: that of the handler, or `ENOENT`. -/
def replyBody (handlers : Handlers) (request : Incoming) : List Byte :=
  match handlers request.rpcId with
  | some handler => handler.replyBody request.xid request.arguments
  | none => idBytes request.xid enoent

/-- The job of the request runs before the next request is looked at. -/
def atOnce (handlers : Handlers) (schedule : PollSchedule) (request : Incoming) : Bool :=
  match handlers request.rpcId with
  | some handler =>
    match handler.attr, schedule.time request.mbuf with
    | .normal, .later _ => false
    | _, _ => true
  | none => true

/-- The reply to the request, from this end of `conn`. -/
structure RepliedBy (handlers : Handlers) (conn : TransportConnection)
    (request : Incoming) (reply : Mbuf) : Prop where
  carries : reply.Carries 0x0a (request.replyBody handlers)
  addresses : reply.addresses = addressBytes conn.srcAddr.ip conn.outAddr.ip
    conn.udpPort conn.outAddr.port

end Incoming

end SRPC.Dpdk
