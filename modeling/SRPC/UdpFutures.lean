import SRPC.PacketRoundTrip
import SRPC.SettlementLedger

/-!
# Futures of a `UDPClient`

A future is entered into `pending_fu_` by `begin_request`.  It leaves it when
`handle_read` finds a reply with its xid, or when `close` invalidates all that
are pending, and is notified then.
-/

namespace SRPC.Dpdk

open LittleEndian Marshalling TransportMarshal ByteSource
open SettlementLedger (Event)

def enotconn : BitVec 32 := 107

/-- What happens to a future that was taken out of `pending_fu_`: it gets its
error code and the bytes of the reply, is notified and released. -/
def Future.settle (fu : Future) (code : BitVec 32) (bytes : List Byte) : Future :=
  { fu with
    errorCode := code
    reply := fu.reply ++ bytes
    ready := true
    refCnt := fu.refCnt - 1
    notified := fu.notified + 1 }

/-- What a reply begins with, behind its type. -/
structure ReplyHeader where
  size : BitVec 32
  xid : BitVec 64
  errorCode : BitVec 32

def Mbuf.replyHeader (mbuf : Mbuf) : ReplyHeader where
  size := ofBytes 32 (mbuf.data.load (dataOffset + 1) 4)
  xid := ofBytes 64 (mbuf.data.load bodyOffset 8)
  errorCode := ofBytes 32 (mbuf.data.load (bodyOffset + 8) 4)

namespace UdpClient

/-- Notifies the future and drops the reference of `pending_fu_`. -/
def settle (client : UdpClient) (index : Nat) (code : BitVec 32)
    (bytes : List Byte) : Option UdpClient := do
  let fu ← client.futures[index]?
  guard (0 < fu.refCnt)
  return { client with
    futures := client.futures.set index (fu.settle code bytes) }

/-- `reply_.write(get_offset(), reply_size - sizeof(i64))`, behind the error
code, reads nothing but the buffer. -/
def CopiesInside (replySize : BitVec 32) : Prop :=
  8 ≤ replySize.toInt ∧ bodyOffset + 12 + (replySize.toNat - 8) ≤ dataRoom

instance (replySize : BitVec 32) : Decidable (CopiesInside replySize) :=
  inferInstanceAs (Decidable (_ ∧ _))

/-- What `handle_read` does with one packet.  The size counts the bytes from the
xid on, of which only those of the xid are subtracted: with a size below 8 the
difference wraps around. -/
def takeReply (client : UdpClient) (pool : Pool) (pkt : Nat) :
    Option (Pool × UdpClient) := do
  let (_, pool, m) ← allotBuffer pkt (pool, .empty)
  let ((replySize, xid, errorCode), pool, m) ← readIds mbufSource (pool, m)
  match client.pendingFu xid with
  | none => return (pool, client)
  | some index =>
    guard (CopiesInside replySize)
    let bytes := (pool.mbuf pkt).data.load m.offset (replySize.toNat - 8)
    let client := { client with
      pendingFu := Function.update client.pendingFu xid none }
    let client ← client.settle index errorCode bytes
    return (pool, client)

def takeReplies (client : UdpClient) (pool : Pool) : List Nat → Option (Pool × UdpClient)
  | [] => some (pool, client)
  | pkt :: pkts => do
    let (pool, client) ← client.takeReply pool pkt
    client.takeReplies pool pkts

/-- `handle_read`, with the packets it dequeues from all rings. -/
def handleRead (client : UdpClient) (pool : Pool) (pkts : List Nat) : Option (Pool × UdpClient) :=
  if client.status = .connected then client.takeReplies pool pkts
  else some (pool, client)

/-- The replies that find their xids pending, each of which ends that, are
copied from inside their buffers. -/
def Copies : (BitVec 64 → Option Nat) → List ReplyHeader → Prop
  | _, [] => True
  | pendingFu, reply :: replies => (pendingFu reply.xid ≠ none → CopiesInside reply.size) ∧
      Copies (Function.update pendingFu reply.xid none) replies

instance decidableCopies : ∀ pendingFu replies, Decidable (Copies pendingFu replies)
  | _, [] => inferInstanceAs (Decidable True)
  | pendingFu, reply :: replies =>
    have := decidableCopies (Function.update pendingFu reply.xid none) replies
    inferInstanceAs (Decidable ((_ → _) ∧ _))

/-- The futures of `pending_fu_`, each of which is found under its own xid. -/
def pendingEntries (client : UdpClient) : List Nat :=
  (List.range client.futures.length).filter fun index =>
    client.futures[index]?.any fun fu => client.pendingFu fu.xid = some index

/-- The loop of `invalidate_pending_futures`. -/
def invalidate (client : UdpClient) : List Nat → Option UdpClient
  | [] => some client
  | index :: indices => do
    let client ← client.settle index enotconn []
    client.invalidate indices

def invalidatePendingFutures (client : UdpClient) : Option UdpClient :=
  { client with pendingFu := fun _ => none }.invalidate client.pendingEntries

def close (client : UdpClient) : Option UdpClient :=
  { client with status := .closed }.invalidatePendingFutures

/-- `RefCounted::release` of a future. -/
def release (client : UdpClient) (index : Nat) : Option UdpClient := do
  let fu ← client.futures[index]?
  guard (0 < fu.refCnt)
  return { client with
    futures := client.futures.set index { fu with refCnt := fu.refCnt - 1 } }

end UdpClient

/-- A client, the buffers of its host and the futures to which the callers of
`begin_request` still hold their reference. -/
structure ClientHost where
  pool : Pool
  client : UdpClient
  held : List Nat

inductive ClientInput
  | connect (conn : TransportConnection)
  | beginRequest (data : ByteArea) (rpcId : BitVec 32)
  | put (argument : Argument)
  | endRequest (tries : Nat)
  /-- A packet arrives from the network. -/
  | receive (mbuf : Mbuf)
  | handleRead (pkts : List Nat)
  | close
  /-- A caller releases the future it was given. -/
  | release (index : Nat)

namespace ClientHost

def new (nrInrings : Nat) (pool : Pool) : ClientHost := ⟨pool, .new nrInrings, []⟩

/-- A packet comes from the network. -/
def receive (host : ClientHost) (mbuf : Mbuf) : ClientHost :=
  { host with
    pool := ⟨Function.update host.pool.mbuf host.pool.next mbuf, host.pool.next + 1⟩ }

/-- What the packets say, before they are read. -/
def headers (host : ClientHost) (pkts : List Nat) : List ReplyHeader :=
  pkts.map fun pkt => (host.pool.mbuf pkt).replyHeader

def answer (reply : ReplyHeader) : Event (BitVec 64) (BitVec 32) :=
  .answered reply.xid reply.errorCode

/-- A step, with what it is to do to the requests.  A client that is not
connected accepts no request and looks at no reply. -/
def step (host : ClientHost) : ClientInput →
    Option (List (Event (BitVec 64) (BitVec 32)) × ClientHost)
  | .connect conn =>
    some ([], { host with client := host.client.connect conn })
  | .beginRequest data rpcId => do
    let (future, pool, client) ← host.client.beginRequest host.pool data rpcId
    let events := if host.client.status = .connected then [.opened host.client.xidCounter] else []
    return (events, ⟨pool, client, future.toList ++ host.held⟩)
  | .put argument => do
    let (pool, client) ← host.client.put host.pool argument
    return ([], ⟨pool, client, host.held⟩)
  | .endRequest tries => do
    let (pool, client) ← host.client.endRequest host.pool tries
    return ([], ⟨pool, client, host.held⟩)
  | .receive mbuf => some ([], host.receive mbuf)
  | .handleRead pkts => do
    let (pool, client) ← host.client.handleRead host.pool pkts
    let events := if host.client.status = .connected then (host.headers pkts).map answer else []
    return (events, ⟨pool, client, host.held⟩)
  | .close => do
    let client ← host.client.close
    return ([.abandoned enotconn], { host with client := client })
  | .release index => do
    let client ← host.client.release index
    return ([], { host with
      client := client
      held := host.held.erase index })

/-- A packet is there for every call that writes into it and has the room, what
is copied of a reply is inside its buffer, and a reference is only released by
its holder. -/
def Allows (host : ClientHost) : ClientInput → Prop
  | .connect _ => True
  | .beginRequest _ _ => host.client.futures.length < 2 ^ 64
  | .put argument => host.client.status = .connected →
      host.client.currentReq.reqData ≠ none ∧
        host.client.currentReq.offset + (encodeArgument argument).length ≤ dataRoom
  | .endRequest _ => host.client.currentReq.reqData ≠ none ∧
      host.client.currentReq.bookMarkOffset + 4 ≤ dataRoom ∧
        0 < host.client.nrInrings
  | .receive _ => True
  | .handleRead pkts => host.client.status = .connected →
      UdpClient.Copies host.client.pendingFu (host.headers pkts)
  | .close => True
  | .release index => index ∈ host.held

instance decidableAllows (host : ClientHost) :
    ∀ input, Decidable (host.Allows input)
  | .connect _ | .receive _ | .close => inferInstanceAs (Decidable True)
  | .beginRequest _ _ => inferInstanceAs (Decidable (_ < _))
  | .put _ => inferInstanceAs (Decidable (_ → _ ∧ _))
  | .endRequest _ => inferInstanceAs (Decidable (_ ∧ _ ∧ _))
  | .handleRead _ => inferInstanceAs (Decidable (_ → _))
  | .release index => inferInstanceAs (Decidable (index ∈ host.held))

end ClientHost

end SRPC.Dpdk
