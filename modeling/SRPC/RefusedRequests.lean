import SRPC.TcpCalls

/-!
# Refused requests

A `TCPClient` that refuses a request gives the lock back in `end_request` and
has changed nothing.  `UDPClient::end_request` does not know that the request
was refused and enqueues whatever buffer is the current one.
-/

namespace SRPC

open TransitionRuns Function

namespace Tcp

open Marshalling

/-- Futures are taken out of `pending_fu_`. -/
def Drops (before after : BitVec 64 → Option Nat) : Prop :=
  ∀ xid, after xid = before xid ∨ after xid = none

theorem Drops.refl (table : BitVec 64 → Option Nat) : Drops table table := fun _ => .inl rfl

theorem Drops.trans {first second third : BitVec 64 → Option Nat}
    (one : Drops first second) (two : Drops second third) : Drops first third := by
  intro xid
  obtain same | gone := two xid
  · rw [same]
    exact one xid
  · exact .inr gone

theorem drops_update (table : BitVec 64 → Option Nat) (xid : BitVec 64) :
    Drops table (update table xid none) := by
  intro other
  by_cases same : other = xid
  · exact .inr (by rw [same, update_self])
  · exact .inl (update_of_ne same _ _)

namespace Client

variable {client later : Client} {notified : List (BitVec 64)}

theorem takeReply_drops {stack : Nat → Byte} {packetSize : BitVec 64}
    (taken : client.takeReply stack packetSize = some (notified, later)) :
    Drops client.pendingFu later.pendingFu := by
  simp only [takeReply, bind_eq_some_iff] at taken
  obtain ⟨⟨xid, heap, in_⟩, -, ⟨errorCode, heap', in'⟩, -, taken⟩ := taken
  split at taken
  · cases taken
    exact Drops.refl _
  · simp only [bind_eq_some_iff] at taken
    obtain ⟨fu, -, -, -, ⟨n, heap, reply, in_⟩, -, taken⟩ := taken
    cases taken
    exact drops_update _ _

variable {stack : Nat → Nat → Byte}

theorem replyLoop_drops {fuel : Nat}
    (looped : replyLoop stack fuel client = some (notified, later)) :
    Drops client.pendingFu later.pendingFu := by
  induction fuel generalizing client notified with
  | zero => cases looped
  | succ fuel ih =>
    simp only [replyLoop, bind_eq_some_iff]
      at looped
    obtain ⟨next, -, looped⟩ := looped
    split at looped
    · cases looped
      exact Drops.refl _
    · simp only [bind_eq_some_iff] at looped
      obtain ⟨⟨first, middle⟩, taken, ⟨rest, last⟩, loopEq, same⟩ := looped
      cases same
      exact (takeReply_drops taken).trans (ih loopEq)

theorem handleRead_drops {wire left : List Byte} {answers : List Int}
    (read : client.handleRead wire answers stack = some (notified, left, later)) :
    Drops client.pendingFu later.pendingFu := by
  simp only [handleRead, bind_eq_some_iff] at read
  obtain ⟨⟨n, results, rest, heap, in_⟩, -, read⟩ := read
  split at read
  · cases read
    exact Drops.refl _
  · simp only [bind_eq_some_iff] at read
    obtain ⟨⟨shown, last⟩, loopEq, same⟩ := read
    cases same
    have dropped := replyLoop_drops loopEq
    exact dropped

end Client

/-- The bytes in `out_`, whoever has the lock. -/
def Sender.Quiet (sender : Sender) (queued : List Byte) : Prop :=
  { sender with outL := false }.Idle queued

theorem Sender.endPacket_unmarked {sender : Sender} (unmarked : sender.bmark = none) :
    sender.endPacket = some { sender with outL := false } := by
  rw [Sender.endPacket, unmarked]

/-- What holds while the caller is at this point. -/
def CallFits (client : CallingClient) (begun : Begun) : CallerPc → Prop
  | .idle => ∃ queued, client.sender.Idle queued
  | .entered xid _ => client.sender.Quiet begun.queued ∧
      client.sender.outL = true ∧ begun.others xid = none ∧
      ∀ other ≠ xid, client.receiver.pendingFu other = begun.others other
  | .writing => ∃ queued body, client.sender.Open queued body
  | .refused => client.sender.Quiet begun.queued ∧
      client.sender.outL = true ∧ client.receiver.pendingFu = begun.others

/-- The caller is where the client says, and refused calls sent nothing. -/
structure Orderly (log : List RefusedCall) (calls : Calls) : Prop where
  caller : CallFits calls.client calls.begun calls.client.caller
  log : ∀ call ∈ log, call.SendsNothing

theorem orderly_new (outHeap inHeap : Heap) : Orderly [] (Calls.new outHeap inHeap) :=
  ⟨⟨[], Sender.idle_new outHeap⟩, by simp⟩

variable {log : List RefusedCall} {calls : Calls} {begun : Begun} {caller : CallerPc}

theorem CallFits.idle_of_free {client : CallingClient} (fits : CallFits client begun caller)
    (free : client.sender.outL = false) : caller = .idle ∧ ∃ queued, client.sender.Idle queued := by
  match caller, fits with
  | .idle, idle => exact ⟨rfl, idle⟩
  | .entered _ _, ⟨_, taken, _⟩ => cases free.symm.trans taken
  | .writing, ⟨_, _, opened⟩ => cases free.symm.trans opened.outL
  | .refused, ⟨_, taken, _⟩ => cases free.symm.trans taken

theorem CallFits.receive {client : CallingClient} (fits : CallFits client begun caller)
    {receiver : Client} (drops : Drops client.receiver.pendingFu receiver.pendingFu) :
    CallFits { client with receiver := receiver } (begun.after receiver.pendingFu) caller := by
  have agrees : ∀ xid, client.receiver.pendingFu xid = begun.others xid →
      receiver.pendingFu xid = (begun.after receiver.pendingFu).others xid := by
    intro xid same
    simp only [Begun.after]
    split
    · assumption
    · rename_i kept
      rw [← same]
      exact (drops xid).resolve_right kept
  match caller, fits with
  | .idle, idle => exact idle
  | .writing, opened => exact opened
  | .entered xid _, ⟨quiet, taken, fresh, others⟩ =>
    refine ⟨quiet, taken, ?_, fun other different =>
      agrees other (others other different)⟩
    simp only [Begun.after]
    split
    · rfl
    · exact fresh
  | .refused, ⟨quiet, taken, same⟩ =>
    exact ⟨quiet, taken, funext fun xid => agrees xid (congrFun same xid)⟩

theorem CallFits.setStatus {client : CallingClient} (fits : CallFits client begun caller)
    (status : Dpdk.Status) : CallFits { client with status := status } begun caller := by
  match caller, fits with
  | .idle, idle => exact idle
  | .entered _ _, entered => exact entered
  | .writing, opened => exact opened
  | .refused, refused => exact refused

section

variable (orderly : Orderly log calls)

include orderly

theorem Orderly.beginRequest (free : calls.client.sender.outL = false)
    (fresh : calls.client.receiver.pendingFu calls.client.xidCounter = none) (rpcId : BitVec 32) :
    Orderly log ⟨calls.client.beginRequest rpcId,
      calls.client.sender.out.content calls.client.sender.heap,
      calls.client.receiver.pendingFu⟩ := by
  obtain ⟨-, queued, idle⟩ := orderly.caller.idle_of_free free
  have quiet : ({ calls.client.sender with outL := true } : Sender).Quiet
      (calls.client.sender.out.content calls.client.sender.heap) :=
    ⟨idle.sound, rfl, idle.writeCnt, idle.bmark, rfl⟩
  refine ⟨?_, orderly.log⟩
  simp only [CallingClient.beginRequest]
  split
  · exact ⟨quiet, rfl, fresh, fun other different =>
      update_of_ne different _ _⟩
  · exact ⟨quiet, rfl, rfl⟩

theorem Orderly.checkAgain {xid : BitVec 64} {rpcId : BitVec 32}
    (callerEq : calls.client.caller = .entered xid rpcId) :
    ∃ client, calls.client.checkAgain xid rpcId = some client ∧
      Orderly log { calls with client := client } := by
  have fits := orderly.caller
  rw [callerEq] at fits
  obtain ⟨quiet, taken, fresh, others⟩ := fits
  rw [CallingClient.checkAgain]
  split
  · obtain ⟨sender, beginEq, opened⟩ :=
      Sender.Idle.beginPacket_eq quiet (beginRequest_puts xid rpcId)
    have begunEq : Tcp.beginRequest calls.client.sender xid rpcId = some sender := beginEq
    rw [begunEq]
    exact ⟨_, rfl, ⟨_, _, opened⟩, orderly.log⟩
  · refine ⟨_, rfl, ⟨quiet, taken, ?_⟩, orderly.log⟩
    show update calls.client.receiver.pendingFu xid none = calls.begun.others
    funext other
    by_cases same : other = xid
    · rw [same, fresh, update_self]
    · rw [update_of_ne same, others other same]

theorem Orderly.endRequest_refused (callerEq : calls.client.caller = .refused) :
    ∃ client, calls.client.endRequest = some client ∧
      Orderly (log ++ [⟨calls.begun, client⟩]) { calls with client := client } := by
  have fits := orderly.caller
  rw [callerEq] at fits
  obtain ⟨quiet, taken, same⟩ := fits
  have unmarked : calls.client.sender.bmark = none := quiet.bmark
  rw [CallingClient.endRequest, Tcp.endRequest, Sender.endPacket_unmarked unmarked]
  refine ⟨_, rfl, ⟨_, quiet⟩, fun call member => ?_⟩
  obtain old | isNew := List.mem_append.mp member
  · exact orderly.log call old
  · rw [List.mem_singleton.mp isNew]
    exact ⟨quiet.content, same, rfl⟩

theorem Orderly.endRequest_writing (callerEq : calls.client.caller = .writing) :
    ∃ client, calls.client.endRequest = some client ∧
      Orderly log { calls with client := client } := by
  have fits := orderly.caller
  rw [callerEq] at fits
  obtain ⟨queued, body, opened⟩ := fits
  obtain ⟨sender, endEq, idle⟩ := opened.endPacket_eq
  rw [CallingClient.endRequest, Tcp.endRequest, endEq]
  exact ⟨_, rfl, ⟨_, idle⟩, orderly.log⟩

theorem Orderly.put (callerEq : calls.client.caller = .writing) (type : WireType)
    (value : Value type) :
    ∃ sender, calls.client.sender.put type value = some sender ∧
      Orderly log { calls with client.sender := sender } := by
  have fits := orderly.caller
  rw [callerEq] at fits
  obtain ⟨queued, body, opened⟩ := fits
  obtain ⟨sender, putEq, opened⟩ := opened.put_eq type value
  refine ⟨sender, putEq, ?_, orderly.log⟩
  show CallFits _ _ calls.client.caller
  rw [callerEq]
  exact ⟨_, _, opened⟩

theorem Orderly.handleWrite (free : calls.client.sender.outL = false) (answers : List Int) :
    ∃ sent sender, calls.client.sender.handleWrite answers = some (sent, sender) ∧
      Orderly log { calls with client.sender := sender } := by
  obtain ⟨callerEq, queued, idle⟩ := orderly.caller.idle_of_free free
  obtain ⟨n, sender, writeEq, -, idle⟩ := idle.handleWrite_eq answers
  refine ⟨_, sender, writeEq, ?_, orderly.log⟩
  show CallFits _ _ calls.client.caller
  rw [callerEq]
  exact ⟨_, idle⟩

end

/-- Every step keeps the caller in order. -/
theorem step_orderly (log : List RefusedCall) (calls : Calls)
    (input : CallInput) (orderly : Orderly log calls) (allowed : calls.Allows input) :
    ∃ refused next, calls.step input = some (refused, next) ∧
      Orderly (log ++ refused) next := by
  have same : Orderly (log ++ []) calls := by rwa [List.append_nil]
  cases input with
  | connect =>
    rw [Calls.step, if_neg allowed]
    exact ⟨_, _, rfl, same.caller.setStatus _, same.log⟩
  | beginRequest rpcId =>
    rw [Calls.step]
    split
    · exact ⟨_, _, rfl, same⟩
    · rename_i free
      exact ⟨_, _, rfl, same.beginRequest (Bool.eq_false_of_not_eq_true free) allowed rpcId⟩
  | checkAgain =>
    rw [Calls.step]
    split
    · rename_i callerEq
      obtain ⟨client, checkEq, later⟩ := same.checkAgain callerEq
      rw [checkEq]
      exact ⟨_, _, rfl, later⟩
    · exact ⟨_, _, rfl, same⟩
  | put type value =>
    rw [Calls.step]
    split
    · rename_i callerEq
      obtain ⟨sender, putEq, later⟩ := same.put callerEq type value
      rw [putEq]
      split
      · exact ⟨_, _, rfl, later⟩
      · exact ⟨_, _, rfl, same⟩
    · exact ⟨_, _, rfl, same⟩
  | endRequest =>
    rw [Calls.step]
    split
    · rename_i callerEq
      obtain ⟨client, endEq, later⟩ := same.endRequest_writing callerEq
      rw [endEq]
      exact ⟨_, _, rfl, later⟩
    · rename_i callerEq
      obtain ⟨client, endEq, later⟩ := orderly.endRequest_refused callerEq
      rw [endEq]
      exact ⟨_, _, rfl, later⟩
    · exact ⟨_, _, rfl, same⟩
  | handleWrite answers =>
    rw [Calls.step]
    split
    · rename_i writable
      obtain ⟨sent, sender, writeEq, later⟩ := same.handleWrite writable.2 answers
      rw [writeEq]
      exact ⟨_, _, rfl, later⟩
    · exact ⟨_, _, rfl, same⟩
  | handleRead wire answers stack =>
    obtain ⟨⟨events, left, receiver⟩, readEq⟩ := Option.isSome_iff_exists.mp allowed
    rw [Calls.step, readEq]
    split
    · exact ⟨_, _, rfl, same.caller.receive (Client.handleRead_drops readEq), same.log⟩
    · exact ⟨_, _, rfl, same⟩
  | closes => exact ⟨_, _, rfl, same.caller.setStatus _, same.log⟩
  | invalidates =>
    exact ⟨_, _, rfl, same.caller.receive fun _ => .inr rfl, same.log⟩

end Tcp

namespace Dpdk

/-- What a refused request may have changed at a `UDPClient`, which has no lock
for its requests. -/
structure UdpClient.SendsNothing (before after : UdpClient) : Prop where
  outBufring : after.outBufring = before.outBufring
  pendingFu : after.pendingFu = before.pendingFu

theorem UdpClient.beginRequest_refused {client : UdpClient}
    (unconnected : client.status ≠ .connected) (pool : Pool) (data : ByteArea) (rpcId : BitVec 32) :
    client.beginRequest pool data rpcId = some (none, pool, client) := if_neg unconnected

theorem UdpClient.endRequest_enqueues {client after : UdpClient} {pool later : Pool} {tries : Nat}
    (ended : client.endRequest pool tries = some (later, after)) :
    ∃ ring pkt, after.outBufring = client.outBufring ++ [(ring, pkt)] := by
  simp only [UdpClient.endRequest, bind_eq_some_iff] at ended
  obtain ⟨⟨_, formatted, currentReq⟩, -, -, -, pkt, -, same⟩ := ended
  cases same
  exact ⟨_, _, rfl⟩

end Dpdk

/-- A refused request sends nothing if the client is a `TCPClient`.  If it is a
`UDPClient`, `end_request` fails or enqueues a buffer. -/
theorem refused_request_sends_nothing_on_tcp_only
    (outHeap inHeap : Marshalling.Heap) (inputs : List Tcp.CallInput) :
    (Admissible Tcp.Calls.step Tcp.Calls.Allows (Tcp.Calls.new outHeap inHeap) inputs →
      ∃ log calls, run Tcp.Calls.step (Tcp.Calls.new outHeap inHeap) inputs = some (log, calls) ∧
        ∀ call ∈ log, call.SendsNothing) ∧
    (∀ nrInrings pool inputs log host, run Dpdk.ClientHost.step
        (Dpdk.ClientHost.new nrInrings pool) inputs = some (log, host) →
      host.client.status ≠ .connected → ∀ data rpcId tries,
        host.client.beginRequest host.pool data rpcId = some (none, host.pool, host.client) ∧
        ¬ ∃ later after, host.client.endRequest host.pool tries = some (later, after) ∧
            host.client.SendsNothing after) := by
  refine ⟨fun admissible => ?_, ?_⟩
  · obtain ⟨log, calls, runEq, orderly⟩ := run_of_admissible
      Tcp.step_orderly [] (Tcp.orderly_new outHeap inHeap) inputs admissible
    exact ⟨log, calls, runEq, orderly.log⟩
  · intro nrInrings pool inputs log host _ unconnected data rpcId tries
    refine ⟨Dpdk.UdpClient.beginRequest_refused unconnected _ _ _, ?_⟩
    rintro ⟨later, after, ended, nothing⟩
    obtain ⟨ring, pkt, enqueued⟩ := Dpdk.UdpClient.endRequest_enqueues ended
    rw [nothing.outBufring] at enqueued
    simp at enqueued

/-- A request is sent, and then the client is closed between the two looks of
the next one and stays so. -/
def Tcp.closedMeanwhile : List Tcp.CallInput :=
  [.connect, .beginRequest 7, .checkAgain, .put (.scalar .u8) (5#8),
    .endRequest, .handleWrite [20], .beginRequest 8, .closes, .checkAgain,
    .invalidates, .endRequest, .beginRequest 9, .endRequest]

theorem Tcp.closedMeanwhile_admissible :
    Admissible Tcp.Calls.step Tcp.Calls.Allows
      (Tcp.Calls.new Marshalling.blankHeap Marshalling.blankHeap) Tcp.closedMeanwhile := by
  decide +kernel

theorem refused_request_sends_nothing_closedMeanwhile :
    ∃ log calls, run Tcp.Calls.step (Tcp.Calls.new Marshalling.blankHeap Marshalling.blankHeap)
        Tcp.closedMeanwhile = some (log, calls) ∧
      ∀ call ∈ log, call.SendsNothing :=
  (refused_request_sends_nothing_on_tcp_only _ _ _).1 Tcp.closedMeanwhile_admissible

/-- A request is sent and the client is closed.  The next request is refused, and
its `end_request` enqueues the buffer of the first one again. -/
theorem refused_request_sends_again :
    ((run Dpdk.ClientHost.step (Dpdk.ClientHost.new 2 Dpdk.samplePool)
        [.connect Dpdk.sampleConnection, .beginRequest (fun _ => 0) 7,
          .endRequest 0, .close]).bind fun result =>
      (result.2.client.beginRequest result.2.pool (fun _ => 0) 8).bind fun begun =>
          (begun.2.2.endRequest begun.2.1 0).map fun ended =>
            (begun.1, begun.2.2.outBufring, ended.2.outBufring)) =
      some (none, [(0, 0)], [(0, 0), (0, 0)]) := by
  decide +kernel

end SRPC
