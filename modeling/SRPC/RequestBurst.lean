import SRPC.BackgroundPoll
import SRPC.EventLoop

/-!
# A burst of received packets

`process_requests` answers a request of type `RR` in its own buffer, puts one of
type `RR_BG` into the ring of its connection and frees a packet of an unknown
connection.
-/

namespace SRPC.Dpdk

open LittleEndian Marshalling TransportMarshal ByteSource

def Mbuf.connId (mbuf : Mbuf) : BitVec 64 :=
  connIdOf (ofBytes 32 (mbuf.data.load (ipHdrOffset + 12) 4))
    (ofBytes 16 (mbuf.data.load udpHdrOffset 2)) (ofBytes 16 (mbuf.data.load (udpHdrOffset + 2) 2))

def Mbuf.pktType (mbuf : Mbuf) : Byte := mbuf.data dataOffset

/-- The context of a thread.  `sconn` and `inBufring` are those that a
connection has for this thread, and `req` is the marshal of the `Request`. -/
structure RxThread where
  pool : Pool
  outConnections : BitVec 64 → Option Nat
  sconn : Nat → Option UdpConnection
  inBufring : Nat → List Nat
  txBufs : List Nat
  nbTx : Nat
  freed : List Nat
  droppedPackets : Nat
  req : TransportMarshal

/-- What a burst meets: the handlers, when jobs run, what replies draw on, the
answers of a ring, and what is done with a session packet. -/
structure BurstEnvironment where
  handlers : Handlers
  schedule : PollSchedule
  answers : Nat → Nat → Bool
  session : Nat → RxThread → Option RxThread

namespace RxThread

/-- Looks up the connection of the packet. -/
def find (thread : RxThread) (rx : Nat) : Option Nat :=
  thread.outConnections (thread.pool.mbuf rx).connId

def drop (thread : RxThread) (rx : Nat) : RxThread :=
  { thread with
    freed := thread.freed ++ [rx]
    droppedPackets := thread.droppedPackets + 1 }

/-- The branch for a request of type `RR` on a connection.  Without a handler
the iterator behind the last one is dereferenced. -/
def answer (env : BurstEnvironment) (thread : RxThread) (rx index : Nat) :
    Option RxThread := do
  let (_, pool, req) ← allotBufferX rx (thread.pool, thread.req)
  let ((_, xid, rpcId), pool, req) ← readIds mbufSource (pool, req)
  let handler ← env.handlers rpcId
  let sconn ← thread.sconn index
  let (pool, sconn) ← match handler.attr, env.schedule.time rx with
    | .normal, .later _ => some (pool, sconn)
    | _, _ => handler.run sconn pool (env.schedule.draw rx) req xid
  if thread.nbTx < thread.txBufs.length then
    return { thread with
      pool := swapUdpAddresses pool rx
      sconn := Function.update thread.sconn index (some sconn)
      txBufs := thread.txBufs.set thread.nbTx rx
      nbTx := thread.nbTx + 1
      req := req }
  else none

/-- The branch for a request of type `RR_BG` on a connection. -/
def enqueue (env : BurstEnvironment) (thread : RxThread) (rx index : Nat) : RxThread :=
  if EventLoop.enqueues (env.answers rx) 1000001 0 then
    { thread with
      inBufring := Function.update thread.inBufring index (thread.inBufring index ++ [rx]) }
  else
    thread.drop rx

/-- One round of `process_requests`. -/
def processPacket (env : BurstEnvironment) (thread : RxThread) (rx : Nat) : Option RxThread :=
  if PktType.rr ≤ (thread.pool.mbuf rx).pktType then
    match thread.find rx with
    | none => some (thread.drop rx)
    | some index =>
      if (thread.pool.mbuf rx).pktType = PktType.rr then
        thread.answer env rx index
      else if (thread.pool.mbuf rx).pktType = PktType.rrBg then
        some (thread.enqueue env rx index)
      else
        some thread
  else if (thread.pool.mbuf rx).pktType = PktType.sm then
    env.session rx thread
  else
    some { thread with droppedPackets := thread.droppedPackets + 1 }

def answers (thread : RxThread) (packet : Incoming) : Bool :=
  (thread.find packet.mbuf).isSome && (thread.pool.mbuf packet.mbuf).pktType == PktType.rr

def queues (thread : RxThread) (index : Nat) (packet : Incoming) : Bool :=
  thread.find packet.mbuf == some index && (thread.pool.mbuf packet.mbuf).pktType == PktType.rrBg

/-- The connection of the packet is unknown. -/
def strange (thread : RxThread) (packet : Incoming) : Bool := (thread.find packet.mbuf).isNone

/-- A packet of type `RR` or `RR_BG`, for which the ring has room.  If it is to
be answered a handler does so at once. -/
structure Receives (env : BurstEnvironment) (thread : RxThread) (packet : Incoming) : Prop where
  pktType : (thread.pool.mbuf packet.mbuf).pktType = PktType.rr ∨
    (thread.pool.mbuf packet.mbuf).pktType = PktType.rrBg
  ring : env.answers packet.mbuf 0 = true
  served : ∀ index, thread.find packet.mbuf = some index →
    (thread.pool.mbuf packet.mbuf).pktType = PktType.rr →
      (thread.pool.mbuf packet.mbuf).Asks PktType.rr packet.xid packet.rpcId packet.arguments ∧
      (thread.sconn index).isSome ∧
      ∃ handler, env.handlers packet.rpcId = some handler ∧
        handler.Serves packet.xid packet.arguments ∧ packet.atOnce env.handlers env.schedule = true

/-- The reply has taken the place of the request. -/
structure AnsweredIn (env : BurstEnvironment) (thread : RxThread)
    (packet : Incoming) (reply : Mbuf) : Prop where
  carries : reply.Carries PktType.rrBg (packet.replyBody env.handlers)
  exchanges : reply.Exchanges (thread.pool.mbuf packet.mbuf)

/-- Every packet of the burst is answered, queued or freed. -/
structure Processes (env : BurstEnvironment) (thread : RxThread)
    (burst : List Incoming) (after : RxThread) : Prop where
  sent : after.txBufs.take after.nbTx = (burst.filter thread.answers).map Incoming.mbuf
  replies : ∀ packet ∈ burst.filter thread.answers,
    thread.AnsweredIn env packet (after.pool.mbuf packet.mbuf)
  rings : ∀ index, after.inBufring index = thread.inBufring index ++
    (burst.filter (thread.queues index)).map Incoming.mbuf
  freed : after.freed = thread.freed ++ (burst.filter thread.strange).map Incoming.mbuf
  dropped : after.droppedPackets = thread.droppedPackets + (burst.filter thread.strange).length

end RxThread

end SRPC.Dpdk
