import SRPC.PacketRoundTrip
import SRPC.UdpReplyCalls

/-!
# The two dispatchers of a server

A request of type `RR` is handled by the thread that received it, in the buffer
it came in.  A request of type `RR_BG` is handed to `UDPConnection::handle_read`
of a poll thread, which answers in a new buffer.
-/

namespace SRPC.Dpdk

open LittleEndian Marshalling TransportMarshal ByteSource

/-- `fast` handlers run where they are called, all others through
`run_async`. -/
inductive HandlerAttr
  | fast
  | normal
  deriving DecidableEq

/-- A handler as it is generated around a function of the service. -/
structure Handler where
  attr : HandlerAttr
  inputs : List WireType
  call : List Argument → List Argument

/-- `us_handlers_`. -/
abbrev Handlers := BitVec 32 → Option Handler

/-- When the thread pool runs a job: before the caller of `run_async` goes on,
or after the caller is done with the buffer of the request, which holds these
bytes by then. -/
inductive JobTime
  | atOnce
  | later (data : ByteArea)

/-- What a reply draws on besides the request: the bytes of a new buffer and
the try at which it is enqueued. -/
structure Draw where
  data : ByteArea
  tries : Nat

def enoent : BitVec 32 := 2

namespace UdpConnection

def putAll (sconn : UdpConnection) (pool : Pool) :
    List Argument → Option (Pool × UdpConnection)
  | [] => some (pool, sconn)
  | result :: results => do
    let (pool, sconn) ← sconn.put pool result
    sconn.putAll pool results

theorem putAll_eq (sconn : UdpConnection) (pool : Pool) (results : List Argument) :
    sconn.putAll pool results = (results.forM putArgument (pool, sconn.currentReply)).map
      fun result => (result.2.1, { sconn with currentReply := result.2.2 }) := by
  induction results generalizing sconn pool with
  | nil => rfl
  | cons result results ih =>
    rw [putAll, put]
    change _ = ((putArgument result (pool, sconn.currentReply)).bind
      fun result => results.forM putArgument result.2).map _
    cases putArgument result (pool, sconn.currentReply) with
    | none => rfl
    | some state => exact ih ..

/-- `begin_reply`, `operator<<` of all results and `end_reply`. -/
def reply (sconn : UdpConnection) (pool : Pool) (draw : Draw)
    (req : TransportMarshal) (xid : BitVec 64) (errorCode : BitVec 32)
    (results : List Argument) : Option (Pool × UdpConnection) := do
  let (pool, sconn) ← sconn.beginReply pool draw.data req xid errorCode
  let (pool, sconn) ← sconn.putAll pool results
  sconn.endReply pool draw.tries

end UdpConnection

/-- The handler decodes the arguments and replies. -/
def Handler.run (handler : Handler) (sconn : UdpConnection) (pool : Pool)
    (draw : Draw) (req : TransportMarshal) (xid : BitVec 64) :
    Option (Pool × UdpConnection) := do
  let (arguments, pool, req) ← getArguments mbufSource handler.inputs (pool, req)
  sconn.reply pool draw req xid 0 (handler.call arguments)

/-- The fields of the headers that `swap_udp_addresses` exchanges. -/
def swappedFields (data : ByteArea) : List Field :=
  [(6, data.load 0 6), (0, data.load 6 6), (ipHdrOffset + 12, data.load (ipHdrOffset + 16) 4),
    (ipHdrOffset + 16, data.load (ipHdrOffset + 12) 4),
    (udpHdrOffset, data.load (udpHdrOffset + 2) 2), (udpHdrOffset + 2, data.load udpHdrOffset 2)]

/-- `swap_udp_addresses`. -/
def swapUdpAddresses (pool : Pool) (pkt : Nat) : Pool :=
  (swappedFields (pool.mbuf pkt).data).foldl (fun pool field => pool.store pkt field.1 field.2) pool

/-- What `UDPConnection::handle_read` does with one packet, and the packet that
is enqueued for it.  The buffer of the request is freed at the end. -/
def handleRead (handlers : Handlers) (sconn : UdpConnection) (time : JobTime)
    (pool : Pool) (rx : Nat) (draw : Draw) : Option Mbuf := do
  let (_, pool, req) ← allotBufferX rx (pool, .empty)
  let ((_, xid, rpcId), pool, req) ← readIds mbufSource (pool, req)
  let (_, pool, req) ← setPktTypeBg (pool, req)
  let (pool, sconn) ← match handlers rpcId with
    | some handler => match handler.attr, time with
      | .normal, .later data =>
        let reused := { pool.mbuf rx with data := data }
        handler.run sconn { pool with
          mbuf := Function.update pool.mbuf rx reused } draw req xid
      | _, _ => handler.run sconn pool draw req xid
    | none => sconn.reply pool draw req xid enoent []
  let (_, pkt) ← sconn.outBufring.getLast?
  return pool.mbuf pkt

end SRPC.Dpdk
