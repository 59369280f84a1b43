import SRPC.TcpReplyDelivery
import SRPC.TcpRequestFraming

/-!
# Sessions of a `TCPClient` with a `TCPConnection`

A session adds the way back to the path of the requests.  Handlers answer the
requests they were given in any order.
-/

namespace SRPC.Tcp

open LittleEndian SparseInt Marshalling PacketStream

/-- `TCPConnection::begin_reply` on the output marshal. -/
def beginReply (server : Sender) (req : Request) (errorCode : BitVec 32) : Option Sender :=
  server.beginPacket do
    putV64 req.xid
    Marshalling.put .v32 errorCode

def endReply (server : Sender) : Option Sender := server.endPacket

/-- `wire` carries the replies; the wire of the requests belongs to their
path. -/
structure Session where
  requests : RequestPath
  server : Sender
  wire : List Byte
  client : Client

inductive SessionInput
  | request (input : RequestInput)
  | beginReply (index : Nat) (errorCode : BitVec 32)
  | putReply (type : WireType) (value : Value type)
  | endReply
  | sendReplies (answers : List Int)
  | receiveReplies (answers : List Int) (stack : Nat → Nat → Byte)

namespace Session

def new (clientOut serverIn serverOut clientIn : Heap) : Session :=
  ⟨RequestPath.new clientOut serverIn, Sender.new serverOut, [], Client.new clientIn⟩

/-- The future of the request that `begin_request` begins. -/
def addFuture (session : Session) : RequestInput → Client
  | .beginRequest _ => session.client.newFuture session.requests.xidCounter
  | _ => session.client

/-- A step, with the ids of the futures that the client notifies. -/
def step (session : Session) :
    SessionInput → Option (List (BitVec 64) × Session)
  | .request input => do
    let (_, requests) ← session.requests.step input
    return ([], { session with
      requests := requests
      client := session.addFuture input })
  | .beginReply index errorCode => do
    let req ← session.requests.server.requests[index]?
    let server ← Tcp.beginReply session.server req errorCode
    return ([], { session with server := server })
  | .putReply type value => do
    let server ← session.server.put type value
    return ([], { session with server := server })
  | .endReply => do
    let server ← Tcp.endReply session.server
    return ([], { session with server := server })
  | .sendReplies answers => do
    let (sent, server) ← session.server.handleWrite answers
    return ([], { session with
      server := server
      wire := session.wire ++ sent })
  | .receiveReplies answers stack => do
    let (notified, wire, client) ← session.client.handleRead session.wire answers stack
    return (notified, { session with wire := wire, client := client })

def inBytes (session : Session) : List Byte := session.client.in_.content session.client.heap

def outBytes (session : Session) : List Byte := session.server.out.content session.server.heap

/-- How a step moves the bytes of the replies, and those of the requests. -/
def Moves (session next : Session) : SessionInput → Prop
  | .request input => next.inBytes = session.inBytes ∧ next.wire = session.wire ∧
      session.requests.Moves next.requests input
  | .sendReplies answers => next.inBytes = session.inBytes ∧ ∃ n,
      KernelMoves (fun left => left ≠ 0) answers session.outBytes.length n ∧
        next.wire = session.wire ++ session.outBytes.take n
  | .receiveReplies answers _ => ∃ n, next.wire = session.wire.drop n ∧
      Reads answers n session.wire session.inBytes next.inBytes
  | _ => next.inBytes = session.inBytes ∧ next.wire = session.wire

/-- The number of bytes that `handle_read` of the client reads is 0 as an `int`
only if it reads none. -/
def Counts (session : Session) : SessionInput → Prop
  | .receiveReplies answers stack => ∀ result ∈ session.step (.receiveReplies answers stack),
      toI32 (session.wire.length - result.2.wire.length : Nat) = 0 →
        result.2.wire = session.wire
  | _ => True

instance decidableCounts (session : Session) : ∀ input, Decidable (session.Counts input)
  | .receiveReplies answers stack => inferInstanceAs
      (Decidable (∀ result ∈ session.step (.receiveReplies answers stack), _ → _))
  | .request _ | .beginReply _ _ | .putReply _ _ | .endReply
  | .sendReplies _ => inferInstanceAs (Decidable True)

end Session

def Issued.begun (issued : Issued) : List Call := issued.calls ++ issued.building.toList

/-- What callers and handlers have asked for: the requests, the replies that
have ended, in order, and the one that is being written. -/
structure Ledger where
  issued : Issued
  replies : List Reply
  building : Option Reply

namespace Ledger

def nothing : Ledger := ⟨Issued.nothing, [], none⟩

def begun (ledger : Ledger) : List Reply := ledger.replies ++ ledger.building.toList

/-- What was issued and answered after an input. -/
def next (ledger : Ledger) : SessionInput → Ledger
  | .request input => { ledger with issued := ledger.issued.next input }
  | .beginReply index errorCode =>
    { ledger with building := some ⟨BitVec.ofNat 64 index, errorCode, []⟩ }
  | .putReply type value =>
    { ledger with
      building := ledger.building.map fun reply =>
        { reply with result := reply.result ++ encode type value } }
  | .endReply =>
    { ledger with
      replies := ledger.replies ++ ledger.building.toList
      building := none }
  | .sendReplies _ => ledger
  | .receiveReplies _ _ => ledger

/-- At most `2 ^ 48` requests are begun. -/
def HasRoom (ledger : Ledger) : RequestInput → Prop
  | .beginRequest _ => ledger.issued.begun.length < 2 ^ 48
  | _ => True

/-- The steps that the locks admit.  A handler answers a request that was
extracted and not answered before, with a reply of fewer than `2 ^ 31`
bytes. -/
def Allows (ledger : Ledger) (session : Session) : SessionInput → Prop
  | .request input => ledger.issued.Allows session.requests input ∧
      ledger.HasRoom input
  | .beginReply index _ => session.server.outL = false ∧
      index < session.requests.server.requests.length ∧
        ∀ reply ∈ ledger.replies, reply.xid ≠ BitVec.ofNat 64 index
  | .putReply _ _ => session.server.outL = true
  | .endReply => session.server.outL = true ∧
      ∀ reply ∈ ledger.building, reply.body.length < 2 ^ 31
  | .sendReplies _ => session.server.outL = false
  | .receiveReplies _ _ => True

instance decidableHasRoom (ledger : Ledger) :
    ∀ input, Decidable (ledger.HasRoom input)
  | .beginRequest _ => inferInstanceAs (Decidable (_ < _))
  | .put _ _ | .endRequest | .handleWrite _ | .handleRead _ _ | .readRequest _ _
  | .deleteRequest _ => inferInstanceAs (Decidable True)

instance decidableAllows (ledger : Ledger) (session : Session) :
    ∀ input, Decidable (ledger.Allows session input)
  | .request _ => inferInstanceAs (Decidable (_ ∧ _))
  | .beginReply _ _ => inferInstanceAs (Decidable (_ ∧ _ ∧ _))
  | .putReply _ _ => inferInstanceAs (Decidable (_ = _))
  | .endReply => inferInstanceAs (Decidable (_ ∧ _))
  | .sendReplies _ => inferInstanceAs (Decidable (_ = _))
  | .receiveReplies _ _ => inferInstanceAs (Decidable True)

end Ledger

def sessionStep (state : Session × Ledger) (input : SessionInput) :
    Option (List (BitVec 64) × Session × Ledger) := do
  let (notified, session) ← state.1.step input
  return (notified, session, state.2.next input)

namespace Issued

variable {issued : Issued}

/-- The ids of the requests count up from 0. -/
def Numbered (issued : Issued) : Prop :=
  issued.begun.map Call.xid = (List.range issued.begun.length).map (BitVec.ofNat 64)

theorem begun_beginRequest (free : issued.building = none) (rpcId : BitVec 32) :
    (issued.next (.beginRequest rpcId)).begun = issued.begun ++
      [⟨BitVec.ofNat 64 issued.begun.length, toBytes 4 rpcId⟩] := by
  simp [begun, next, free]

theorem Numbered.beginRequest (numbered : issued.Numbered)
    (free : issued.building = none) (rpcId : BitVec 32) :
    (issued.next (.beginRequest rpcId)).Numbered := by
  rw [Numbered, begun_beginRequest free, List.map_append, numbered,
    List.length_append, List.length_singleton, List.range_succ, List.map_append]
  rfl

variable {input : RequestInput}

theorem xids_next (other : ∀ rpcId, input ≠ .beginRequest rpcId) :
    (issued.next input).begun.map Call.xid = issued.begun.map Call.xid := by
  cases input with
  | beginRequest rpcId => exact absurd rfl (other rpcId)
  | put type value =>
    cases building : issued.building <;> simp [begun, next, building]
  | endRequest => simp [begun, next]
  | handleWrite | handleRead | readRequest | deleteRequest => rfl

theorem length_begun_next (other : ∀ rpcId, input ≠ .beginRequest rpcId) :
    (issued.next input).begun.length = issued.begun.length := by
  have same : (issued.next input).begun.map Call.xid = issued.begun.map Call.xid := xids_next other
  simpa using congrArg List.length same

theorem Numbered.next (numbered : issued.Numbered) (other : ∀ rpcId, input ≠ .beginRequest rpcId) :
    (issued.next input).Numbered := by
  rw [Numbered, xids_next other, length_begun_next other, numbered]

theorem Numbered.xid_eq (numbered : issued.Numbered) {index : Nat} {call : Call}
    (found : issued.begun[index]? = some call) : call.xid = BitVec.ofNat 64 index := by
  have atIndex := congrArg (fun xids => xids[index]?) numbered
  have inside := lt_of_getElem? found
  simpa [found, List.getElem?_range inside] using atIndex

end Issued

variable {path : RequestPath} {complete coming unread : List Call} {arrived queued : List Byte}

theorem InTransit.length_requests {issued : Issued}
    (transit : InTransit path issued complete coming unread arrived queued) :
    path.server.requests.length = complete.length :=
  transit.holds.requests.length_eq.trans transit.unread.length_eq

theorem InTransit.request_xid {issued : Issued}
    (transit : InTransit path issued complete coming unread arrived queued)
    (numbered : issued.Numbered) (few : issued.begun.length ≤ 2 ^ 48) {index : Nat}
    {request : Request} (found : path.server.requests[index]? = some request) :
    request.xid = BitVec.ofNat 64 index := by
  obtain ⟨left, leftFound, carries⟩ := forall₂_getElem transit.holds.requests.flip found
  obtain ⟨call, callFound, xid, _⟩ := forall₂_getElem transit.unread.flip leftFound
  have inside := lt_of_getElem? callFound
  have begun : issued.begun[index]? = some call := by
    rw [Issued.begun, transit.calls, List.append_assoc, List.getElem?_append_left inside, callFound]
  have number := numbered.xid_eq begun
  rw [← xid] at number
  refine (carries.xid ?_).trans number
  have bound := lt_of_getElem? begun
  refine fun lost => Nat.not_lt.mpr lost.le_toNat ?_
  rw [number, BitVec.toNat_ofNat]
  omega

end SRPC.Tcp
