import SRPC.TcpClient
import SRPC.TcpRequestFraming
import SRPC.UdpFutures

/-!
# Calls of a `TCPClient` that may be closed

`begin_request` looks twice whether the client is connected, before and after it
has entered a future: another thread may close the client at any time.  A caller
that is refused still holds the lock until `end_request`.
-/

namespace SRPC.Tcp

open Marshalling

/-- Where the thread is that holds `out_l_`: between the two looks at `status_`
with a future under this number, behind the header of a request, or refused. -/
inductive CallerPc
  | idle
  | entered (xid : BitVec 64) (rpcId : BitVec 32)
  | writing
  | refused
  deriving DecidableEq, Repr

/-- A client, and where its caller is in `begin_request`. -/
structure CallingClient where
  status : Dpdk.Status
  sender : Sender
  receiver : Client
  xidCounter : BitVec 64
  caller : CallerPc

/-- What `begin_request` has found: the bytes in `out_`, and `pending_fu_`
without the future it enters itself. -/
structure Begun where
  queued : List Byte
  others : BitVec 64 → Option Nat

/-- Other threads take futures out of `pending_fu_`. -/
def Begun.after (begun : Begun) (pendingFu : BitVec 64 → Option Nat) : Begun :=
  { begun with
    others := fun xid =>
      if pendingFu xid = none then none else begun.others xid }

/-- A call that was refused, after its `end_request`. -/
structure RefusedCall where
  begun : Begun
  after : CallingClient

/-- The output and `pending_fu_` are as before the call. -/
structure RefusedCall.SendsNothing (call : RefusedCall) : Prop where
  out : call.after.sender.out.content call.after.sender.heap = call.begun.queued
  pendingFu : call.after.receiver.pendingFu = call.begun.others
  outL : call.after.sender.outL = false

/-- `closes` is `close` up to `status_ = CLOSED`, which `invalidates` follows at
any later time. -/
inductive CallInput
  | connect
  | beginRequest (rpcId : BitVec 32)
  | checkAgain
  | put (type : WireType) (value : Value type)
  | endRequest
  | handleWrite (answers : List Int)
  | handleRead (wire : List Byte) (answers : List Int) (stack : Nat → Nat → Byte)
  | closes
  | invalidates

/-- `invalidate_pending_futures`. -/
def Client.invalidatePendingFutures (client : Client) : Client :=
  { client with
    pendingFu := fun _ => none
    futures := client.futures.mapIdx fun index fu =>
      if client.pendingFu fu.xid = some index then
        { fu with errorCode := Dpdk.enotconn, notified := fu.notified + 1 }
      else
        fu }

namespace CallingClient

def new (outHeap inHeap : Heap) : CallingClient where
  status := .new
  sender := Sender.new outHeap
  receiver := Client.new inHeap
  xidCounter := 0
  caller := .idle

/-- `begin_request` up to the second look at `status_`. -/
def beginRequest (client : CallingClient) (rpcId : BitVec 32) : CallingClient :=
  let client := { client with sender.outL := true }
  if client.status = .connected then
    let xid := client.xidCounter
    { client with
      receiver := client.receiver.newFuture xid
      xidCounter := xid + 1
      caller := .entered xid rpcId }
  else
    { client with caller := .refused }

/-- `begin_request` from the second look at `status_` on. -/
def checkAgain (client : CallingClient) (xid : BitVec 64)
    (rpcId : BitVec 32) : Option CallingClient :=
  if client.status = .connected then do
    let sender ← Tcp.beginRequest client.sender xid rpcId
    return { client with sender := sender, caller := .writing }
  else
    some { client with
      receiver.pendingFu := Function.update client.receiver.pendingFu xid none
      caller := .refused }

def endRequest (client : CallingClient) : Option CallingClient := do
  let sender ← Tcp.endRequest client.sender
  return { client with sender := sender, caller := .idle }

end CallingClient

/-- A client, with what the caller who holds `out_l_` has found. -/
structure Calls where
  client : CallingClient
  begun : Begun

namespace Calls

def new (outHeap inHeap : Heap) : Calls := ⟨CallingClient.new outHeap inHeap, ⟨[], fun _ => none⟩⟩

/-- A thread that needs `out_l_` does nothing while another holds it. -/
def step (calls : Calls) : CallInput → Option (List RefusedCall × Calls)
  | .connect =>
    if calls.client.status = .connected then none
    else some ([], { calls with client.status := .connected })
  | .beginRequest rpcId =>
    if calls.client.sender.outL then some ([], calls)
    else some ([], ⟨calls.client.beginRequest rpcId,
      calls.client.sender.out.content calls.client.sender.heap, calls.client.receiver.pendingFu⟩)
  | .checkAgain =>
    match calls.client.caller with
    | .entered xid rpcId => do
      let client ← calls.client.checkAgain xid rpcId
      return ([], { calls with client := client })
    | _ => some ([], calls)
  | .put type value =>
    match calls.client.caller with
    | .writing =>
      if calls.client.status = .connected then do
        let sender ← calls.client.sender.put type value
        return ([], { calls with client.sender := sender })
      else
        some ([], calls)
    | _ => some ([], calls)
  | .endRequest =>
    match calls.client.caller with
    | .writing => do
      let client ← calls.client.endRequest
      return ([], { calls with client := client })
    | .refused => do
      let client ← calls.client.endRequest
      return ([⟨calls.begun, client⟩], { calls with client := client })
    | _ => some ([], calls)
  | .handleWrite answers =>
    if calls.client.status = .connected ∧ calls.client.sender.outL = false then
      do
        let (_, sender) ← calls.client.sender.handleWrite answers
        return ([], { calls with client.sender := sender })
    else
      some ([], calls)
  | .handleRead wire answers stack =>
    if calls.client.status = .connected then do
      let (_, _, receiver) ← calls.client.receiver.handleRead wire answers stack
      return ([], ⟨{ calls.client with receiver := receiver },
        calls.begun.after receiver.pendingFu⟩)
    else
      some ([], calls)
  | .closes => some ([], { calls with client.status := .closed })
  | .invalidates =>
    let receiver := calls.client.receiver.invalidatePendingFutures
    some ([], ⟨{ calls.client with receiver := receiver }, calls.begun.after receiver.pendingFu⟩)

/-- `connect` is not called on a connected client, the number of a new request
is not that of a pending one, and no reply makes `handle_read` fail. -/
def Allows (calls : Calls) : CallInput → Prop
  | .connect => calls.client.status ≠ .connected
  | .beginRequest _ =>
    calls.client.receiver.pendingFu calls.client.xidCounter = none
  | .handleRead wire answers stack =>
    (calls.client.receiver.handleRead wire answers stack).isSome
  | _ => True

instance decidableAllows (calls : Calls) :
    ∀ input, Decidable (calls.Allows input)
  | .connect => inferInstanceAs (Decidable (_ ≠ _))
  | .beginRequest _ | .handleRead _ _ _ => inferInstanceAs (Decidable (_ = _))
  | .checkAgain | .put _ _ | .endRequest | .handleWrite _ | .closes
  | .invalidates => inferInstanceAs (Decidable True)

end Calls

end SRPC.Tcp
