import SRPC.TcpConnection
import SRPC.TcpSender
import SRPC.TransitionRuns

/-!
# Requests on their way from a `TCPClient` to a `TCPConnection`

The callers, the poll threads and the handlers take steps in any order that the
lock of the output marshal admits, and the kernel accepts and delivers the bytes
in any portions.
-/

namespace SRPC.Tcp

open LittleEndian SparseInt Marshalling PacketStream

/-- `TCPClient::begin_request` on the output marshal. -/
def beginRequest (client : Sender) (xid : BitVec 64) (rpcId : BitVec 32) : Option Sender :=
  client.beginPacket do
    putV64 xid
    Marshalling.put (.scalar .i32) rpcId

def endRequest (client : Sender) : Option Sender := client.endPacket

/-- The client, the bytes on the wire and the connection. -/
structure RequestPath where
  client : Sender
  xidCounter : BitVec 64
  wire : List Byte
  server : Connection

inductive RequestInput
  | beginRequest (rpcId : BitVec 32)
  | put (type : WireType) (value : Value type)
  | endRequest
  | handleWrite (answers : List Int)
  | handleRead (answers : List Int) (stack : Nat → Nat → Byte)
  | readRequest (index n : Nat)
  | deleteRequest (index : Nat)

namespace RequestPath

def new (clientHeap serverHeap : Heap) : RequestPath :=
  ⟨Sender.new clientHeap, 0, [], Connection.new serverHeap⟩

/-- A step, with the bytes of the requests that the server extracts. -/
def step (path : RequestPath) :
    RequestInput → Option (List (List Byte) × RequestPath)
  | .beginRequest rpcId => do
    let client ← Tcp.beginRequest path.client path.xidCounter rpcId
    return ([], { path with
      client := client
      xidCounter := path.xidCounter + 1 })
  | .put type value => do
    let client ← path.client.put type value
    return ([], { path with client := client })
  | .endRequest => do
    let client ← Tcp.endRequest path.client
    return ([], { path with client := client })
  | .handleWrite answers => do
    let (sent, client) ← path.client.handleWrite answers
    return ([], { path with client := client, wire := path.wire ++ sent })
  | .handleRead answers stack => do
    let (bodies, wire, server) ← path.server.handleRead path.wire answers stack
    return (bodies, { path with wire := wire, server := server })
  | .readRequest index n => do
    let server ← path.server.readRequest index n
    return ([], { path with server := server })
  | .deleteRequest index => do
    let server ← path.server.deleteRequest index
    return ([], { path with server := server })

def inBytes (path : RequestPath) : List Byte := path.server.in_.content path.server.heap

def outBytes (path : RequestPath) : List Byte := path.client.out.content path.client.heap

/-- How a step moves the bytes on their way.  The kernel decides how many of
them `handle_write` and `handle_read` move. -/
def Moves (path next : RequestPath) : RequestInput → Prop
  | .handleWrite answers => next.inBytes = path.inBytes ∧ ∃ n,
      KernelMoves (fun left => left ≠ 0) answers path.outBytes.length n ∧
        next.wire = path.wire ++ path.outBytes.take n
  | .handleRead answers _ => ∃ n, next.wire = path.wire.drop n ∧
      Reads answers n path.wire path.inBytes next.inBytes
  | _ => next.inBytes = path.inBytes ∧ next.wire = path.wire

/-- The number of bytes that `handle_read` reads is 0 as an `int` only if it
reads none. -/
def Counts (path : RequestPath) : RequestInput → Prop
  | .handleRead answers stack => ∀ result ∈ path.step (.handleRead answers stack),
      toI32 (path.wire.length - result.2.wire.length : Nat) = 0 → result.2.wire = path.wire
  | _ => True

instance decidableCounts (path : RequestPath) : ∀ input, Decidable (path.Counts input)
  | .handleRead answers stack => inferInstanceAs
      (Decidable (∀ result ∈ path.step (.handleRead answers stack), _ → _))
  | .beginRequest _ | .put _ _ | .endRequest | .handleWrite _ | .readRequest _ _
  | .deleteRequest _ => inferInstanceAs (Decidable True)

end RequestPath

/-- What the callers have asked for: the requests that have ended, in order,
and the one that is being written. -/
structure Issued where
  calls : List Call
  building : Option Call

namespace Issued

def nothing : Issued := ⟨[], none⟩

/-- What was issued after an input. -/
def next (issued : Issued) : RequestInput → Issued
  | .beginRequest rpcId =>
    { issued with
      building := some ⟨BitVec.ofNat 64 issued.calls.length, toBytes 4 rpcId⟩ }
  | .put type value =>
    { issued with
      building := issued.building.map fun call =>
        { call with rest := call.rest ++ encode type value } }
  | .endRequest => ⟨issued.calls ++ issued.building.toList, none⟩
  | _ => issued

/-- The caller who has the lock writes or ends a request of fewer than `2 ^ 31`
bytes, and handlers have the requests they were given. -/
def Allows (issued : Issued) (path : RequestPath) : RequestInput → Prop
  | .beginRequest _ => path.client.outL = false
  | .put _ _ => path.client.outL = true
  | .endRequest => path.client.outL = true ∧
      ∀ call ∈ issued.building, call.body.length < 2 ^ 31
  | .handleWrite _ => path.client.outL = false
  | .handleRead _ _ => True
  | .readRequest index _ => index < path.server.requests.length
  | .deleteRequest index => index < path.server.requests.length

instance decidableAllows (issued : Issued) (path : RequestPath) :
    ∀ input, Decidable (issued.Allows path input)
  | .beginRequest _ | .put _ _ => inferInstanceAs (Decidable (_ = _))
  | .endRequest => inferInstanceAs (Decidable (_ ∧ _))
  | .handleWrite _ => inferInstanceAs (Decidable (_ = _))
  | .handleRead _ _ => inferInstanceAs (Decidable True)
  | .readRequest _ _ | .deleteRequest _ => inferInstanceAs (Decidable (_ < _))

end Issued

end SRPC.Tcp
