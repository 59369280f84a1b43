import SRPC.HostConnections

/-!
# The event loop of a transport thread

A round of `ev_loop` receives a burst, processes its packets one by one, takes
new connections from the ring of the thread and transmits what was answered.
-/

namespace SRPC.Dpdk

open LittleEndian

/-- A received buffer with what `process_requests` looks at: the addresses, the
packet type, the byte and the word behind it, and the `rpc_id` of a request. -/
structure RxPacket where
  mbuf : Nat
  srcIp : BitVec 32
  dstIp : BitVec 32
  srcPort : BitVec 16
  dstPort : BitVec 16
  pktType : Byte
  reqType : Byte
  ackPort : BitVec 16
  rpcId : BitVec 32
  deriving DecidableEq, Repr

namespace PktType

def rr : Byte := 0x09

def rrBg : Byte := 0x0a

def sm : Byte := 0x07

end PktType

namespace ReqType

def con : Byte := 0x02

def conAck : Byte := 0x03

end ReqType

namespace RxPacket

/-- The id under which the packet looks for its connection. -/
def connId (packet : RxPacket) : BitVec 64 := connIdOf packet.srcIp packet.srcPort packet.dstPort

def session (packet : RxPacket) (message : Message) : Packet :=
  ⟨packet.srcIp, packet.dstIp, packet.srcPort, packet.dstPort, message⟩

end RxPacket

/-- Where the thread is in its round. -/
inductive LoopPhase
  | receiving
  | processing (rest : List RxPacket)
  | managing
  | transmitting

/-- `outConnections` is the table of the thread, `sconn` says which connections
have a server connection, `smTaken` counts what was taken from the ring for new
connections, `queued` lists what is in `in_bufring`, and `lost` are the buffers
that are in no place any more. -/
structure EventLoop where
  host : Host
  threadId : Nat
  handlers : BitVec 32 → Bool
  sconn : Nat → Bool
  outConnections : BitVec 64 → Option Nat
  smTaken : Nat
  phase : LoopPhase
  received : List Nat
  txBufs : List Nat
  queued : List (Nat × Nat)
  freed : List Nat
  transmitted : List Nat
  lost : List Nat
  droppedPackets : Nat

/-- The thread goes on, with the burst it receives and the answers of the ring
to its tries; `handle_read` takes packets of a connection; or another thread
does something. -/
inductive LoopInput
  | goOn (burst : List RxPacket) (answers : Nat → Bool)
  | consume (conn count : Nat)
  | elsewhere (input : HostInput)

namespace EventLoop

def start (threadId numThreads : Nat) (serving : Bool)
    (handlers : BitVec 32 → Bool) : EventLoop where
  host := Host.new numThreads serving
  threadId := threadId
  handlers := handlers
  sconn := fun _ => false
  outConnections := fun _ => none
  smTaken := 0
  phase := .receiving
  received := []
  txBufs := []
  queued := []
  freed := []
  transmitted := []
  lost := []
  droppedPackets := 0

/-- The loop around `rte_ring_sp_enqueue`: the tries that are left, and the
number of the next one. -/
def enqueues (answers : Nat → Bool) : Nat → Nat → Bool
  | 0, _ => false
  | tries + 1, ret => answers ret || enqueues answers tries (ret + 1)

def free (loop : EventLoop) (mbuf : Nat) : EventLoop := { loop with freed := loop.freed ++ [mbuf] }

/-- The buffer is in no place any more. -/
def lose (loop : EventLoop) (mbuf : Nat) : EventLoop := { loop with lost := loop.lost ++ [mbuf] }

def drop (loop : EventLoop) : EventLoop := { loop with droppedPackets := loop.droppedPackets + 1 }

/-- The tables of the host change.  A connection that `accept` enters has server
connections. -/
def manage (network : Network) (loop : EventLoop) (input : HostInput) :
    Option EventLoop := do
  let (_, host) ← loop.host.step network input
  let index := loop.host.tables.conns.length
  let accepts := match input with
    | .receive _ => decide (index < host.tables.conns.length)
    | _ => false
  return { loop with
    host := host
    sconn := Function.update loop.sconn index (accepts || loop.sconn index) }

/-- What `process_requests` does with a request or reply. -/
def dispatch (loop : EventLoop) (answers : Nat → Bool) (packet : RxPacket) : Option EventLoop :=
  match loop.outConnections packet.connId with
  | none => some (loop.free packet.mbuf).drop
  | some index =>
    if packet.pktType = PktType.rr then
      -- Without a handler the iterator behind the last one is dereferenced.
      if loop.handlers packet.rpcId && loop.sconn index then
        some { loop with txBufs := loop.txBufs ++ [packet.mbuf] }
      else none
    else if packet.pktType = PktType.rrBg then
      if enqueues answers 1000001 0 then
        some { loop with queued := loop.queued ++ [(index, packet.mbuf)] }
      else
        some (loop.free packet.mbuf).drop
    else
      some (loop.lose packet.mbuf)

/-- The `switch` over the type of a session packet. -/
def processSession (network : Network) (loop : EventLoop) (packet : RxPacket) : Option EventLoop :=
  if packet.reqType = ReqType.conAck then
    loop.manage network (.receive (packet.session (.conAck packet.ackPort)))
  else if packet.reqType = ReqType.con then
    loop.manage network (.receive (packet.session .con))
  else
    some loop

/-- What `process_requests` does with a packet. -/
def processPacket (network : Network) (loop : EventLoop)
    (answers : Nat → Bool) (packet : RxPacket) : Option EventLoop :=
  if PktType.rr ≤ packet.pktType then loop.dispatch answers packet
  else if packet.pktType = PktType.sm then
    (loop.processSession network packet).map fun loop => loop.lose packet.mbuf
  else
    some (loop.lose packet.mbuf).drop

/-- `accept` waits for the lock that `connect` holds. -/
def Waits (loop : EventLoop) (packet : RxPacket) : Prop :=
  packet.pktType = PktType.sm ∧ packet.reqType = ReqType.con ∧
    loop.host.serving = true ∧ loop.host.dialling.isSome = true

instance (loop : EventLoop) (packet : RxPacket) : Decidable (loop.Waits packet) :=
  inferInstanceAs (Decidable (_ ∧ _ ∧ _ ∧ _))

/-- `process_sm_req`: at most eight connections are entered. -/
def processSmReq (loop : EventLoop) : EventLoop :=
  let ring := (loop.host.tables.smRings[loop.threadId]?).getD []
  let taken := (ring.drop loop.smTaken).take 8
  { loop with
    smTaken := loop.smTaken + taken.length
    outConnections := taken.foldl (fun table index =>
      match loop.host.tables.conns[index]? with
      | none => table
      | some conn => Function.update table conn.connId (some index))
      loop.outConnections }

/-- `rte_ring_sc_dequeue_burst` on the ring of a connection: what is taken and
what stays. -/
def dequeueBurst (conn : Nat) :
    Nat → List (Nat × Nat) → List Nat × List (Nat × Nat)
  | 0, queued => ([], queued)
  | _, [] => ([], [])
  | count + 1, (index, mbuf) :: queued =>
    if index = conn then
      let (taken, rest) := dequeueBurst conn count queued
      (mbuf :: taken, rest)
    else
      let (taken, rest) := dequeueBurst conn (count + 1) queued
      (taken, (index, mbuf) :: rest)

/-- A step of the thread, or of another one meanwhile. -/
def step (network : Network) (loop : EventLoop) :
    LoopInput → Option (List Empty × EventLoop)
  | .goOn burst answers => do
    match loop.phase with
    | .receiving =>
      return ([], { loop with
        phase := .processing burst
        received := loop.received ++ burst.map RxPacket.mbuf
        txBufs := if burst.isEmpty then loop.txBufs else [] })
    | .processing [] => return ([], { loop with phase := .managing })
    | .processing (packet :: rest) =>
      if loop.Waits packet then return ([], loop)
      else
        let loop ← loop.processPacket network answers packet
        return ([], { loop with phase := .processing rest })
    | .managing =>
      return ([], { loop.processSmReq with phase := .transmitting })
    | .transmitting =>
      return ([], { loop with
        phase := .receiving
        transmitted := loop.transmitted ++ loop.txBufs
        txBufs := [] })
  | .consume conn count =>
    let (taken, rest) := dequeueBurst conn (min count 32) loop.queued
    some ([], { loop with queued := rest, freed := loop.freed ++ taken })
  | .elsewhere input => do
    let loop ← loop.manage network input
    return ([], loop)

/-- The buffers of the burst that are not yet processed. -/
def pending (loop : EventLoop) : List Nat :=
  match loop.phase with
  | .processing rest => rest.map RxPacket.mbuf
  | _ => []

/-- The buffers that the loop has and those it has given away. -/
def held (loop : EventLoop) : List Nat :=
  loop.pending ++ loop.txBufs ++ loop.queued.map Prod.snd ++ loop.freed ++ loop.transmitted

/-- Every buffer is in as many places as it was received times. -/
def Conserved (loop : EventLoop) : Prop := loop.received.Perm loop.held

/-- The packet is one that `process_requests` disposes of. -/
def Handles (loop : EventLoop) (packet : RxPacket) : Prop :=
  PktType.rr ≤ packet.pktType ∧
  ∀ index ∈ loop.outConnections packet.connId,
    (packet.pktType = PktType.rr ∧ loop.handlers packet.rpcId = true ∧
      loop.sconn index = true) ∨ packet.pktType = PktType.rrBg

/-- The step does not lose a buffer. -/
def Disposes (network : Network) (loop : EventLoop) : LoopInput → Prop
  | .goOn _ _ =>
    match loop.phase with
    | .processing (packet :: _) => loop.Waits packet ∨ loop.Handles packet
    | _ => True
  | .consume _ _ => True
  | .elsewhere input => (loop.host.step network input).isSome

end EventLoop

end SRPC.Dpdk
