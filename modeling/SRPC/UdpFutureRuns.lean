import SRPC.UdpFutureSteps

/-! # Every request of a `UDPClient` is completed once -/

namespace SRPC.Dpdk

open LittleEndian Marshalling TransportMarshal ByteSource SettlementLedger
open TransitionRuns

namespace ClientHost

namespace Holds

variable {log : FutureLog} {host : ClientHost}

section

variable (holds : host.Holds log)

include holds

theorem beginRequest (data : ByteArea) (rpcId : BitVec 32)
    (more : host.client.futures.length < 2 ^ 64) :
    ∃ events later, host.step (.beginRequest data rpcId) =
      some (events, later) ∧ later.Holds (log ++ events) := by
  by_cases connected : host.client.status = .connected
  · obtain ⟨conn, connEq⟩ := Option.ne_none_iff_exists'.mp (holds.conn connected)
    obtain ⟨pool, currentReq, beginEq, -, -⟩ :=
      UdpClient.beginRequest_connected host.pool connected connEq data rpcId
    let begun : UdpClient := { host.client.newFuture with
      currentReq := currentReq, currentXid := host.client.xidCounter }
    have entered : (⟨pool, begun, host.client.futures.length :: host.held⟩ :
        ClientHost).Holds (log ++ [.opened host.client.xidCounter]) :=
      (holds.newFuture more).keep pool rfl rfl rfl holds.conn
    refine ⟨_, _, ?_, entered⟩
    simp only [step, beginEq, if_pos connected, some_bind]
    rfl
  · refine ⟨[], host, ?_, by simpa using holds⟩
    simp only [step, UdpClient.beginRequest, if_neg connected, some_bind]
    rfl

theorem put (argument : Argument) (allowed : host.Allows (.put argument)) :
    ∃ later, host.step (.put argument) = some ([], later) ∧
      later.Holds log := by
  by_cases connected : host.client.status = .connected
  · obtain ⟨buffer, room⟩ := allowed connected
    obtain ⟨pkt, buffer⟩ := Option.ne_none_iff_exists'.mp buffer
    have writes := put_writes argument.type argument.value host.pool
      host.client.currentReq pkt buffer (Nat.le_of_add_right_le room)
    have putEq : putArgument argument (host.pool, host.client.currentReq) =
        TransportMarshal.write (encodeArgument argument)
          (host.pool, host.client.currentReq) := writes
    rw [write_eq buffer, if_pos room] at putEq
    let written : TransportMarshal := { host.client.currentReq with
      offset := host.client.currentReq.offset + (encodeArgument argument).length }
    have kept : ClientHost.Holds log ⟨host.pool.store pkt
        host.client.currentReq.offset (encodeArgument argument),
          { host.client with currentReq := written }, host.held⟩ :=
      holds.keep _ rfl rfl rfl holds.conn
    refine ⟨_, ?_, kept⟩
    simp only [step, UdpClient.put, if_pos connected, putEq, some_bind]
    rfl
  · refine ⟨host, ?_, holds⟩
    simp only [step, UdpClient.put, if_neg connected, some_bind]
    rfl

theorem endRequest (tries : Nat) (allowed : host.Allows (.endRequest tries)) :
    ∃ later, host.step (.endRequest tries) = some ([], later) ∧
      later.Holds log := by
  obtain ⟨buffer, room, rings⟩ := allowed
  obtain ⟨pkt, buffer⟩ := Option.ne_none_iff_exists'.mp buffer
  have padded : host.client.currentReq.padded.reqData = some pkt := buffer
  let ring := (host.client.currentXid.toNat + tries) % host.client.nrInrings
  have kept : ClientHost.Holds log
      ⟨host.client.currentReq.formatPool host.pool pkt, { host.client with
        currentReq := host.client.currentReq.padded
        outBufring := host.client.outBufring ++ [(ring, pkt)] }, host.held⟩ :=
    holds.keep _ rfl rfl rfl holds.conn
  refine ⟨_, ?_, kept⟩
  simp only [step, UdpClient.endRequest, formatHeader_eq buffer room, padded,
    guard, if_pos rings, some_bind]
  rfl

theorem handleRead (pkts : List Nat) (allowed : host.Allows (.handleRead pkts)) :
    ∃ events later, host.step (.handleRead pkts) = some (events, later) ∧
      later.Holds (log ++ events) := by
  by_cases connected : host.client.status = .connected
  · obtain ⟨pool, client, takeEq, taken⟩ := holds.takeReplies pkts (allowed connected)
    refine ⟨_, _, ?_, taken⟩
    simp only [step, UdpClient.handleRead, if_pos connected, takeEq, some_bind]
    rfl
  · refine ⟨[], host, ?_, by simpa using holds⟩
    simp only [step, UdpClient.handleRead, if_neg connected, some_bind]
    rfl

/-- Every step keeps the ledger. -/
theorem step (input : ClientInput) (allowed : host.Allows input) :
    ∃ events later, host.step input = some (events, later) ∧
      later.Holds (log ++ events) := by
  cases input with
  | connect conn =>
    have kept : ClientHost.Holds log { host with client := host.client.connect conn } :=
      holds.keep _ rfl rfl rfl fun _ => Option.some_ne_none conn
    exact ⟨[], _, rfl, by simpa using kept⟩
  | beginRequest data rpcId => exact holds.beginRequest data rpcId allowed
  | put argument =>
    obtain ⟨later, putEq, kept⟩ := holds.put argument allowed
    exact ⟨[], later, putEq, by simpa using kept⟩
  | endRequest tries =>
    obtain ⟨later, endEq, kept⟩ := holds.endRequest tries allowed
    exact ⟨[], later, endEq, by simpa using kept⟩
  | receive mbuf =>
    have kept : ClientHost.Holds log (host.receive mbuf) := holds.keep _ rfl rfl rfl holds.conn
    exact ⟨[], _, rfl, by simpa using kept⟩
  | handleRead pkts => exact holds.handleRead pkts allowed
  | close =>
    obtain ⟨client, closeEq, closed⟩ := holds.close
    refine ⟨[.abandoned enotconn], _, ?_, closed⟩
    simp only [ClientHost.step, closeEq, some_bind]
    rfl
  | release index =>
    obtain ⟨client, releaseEq, released⟩ := holds.release allowed
    refine ⟨[], ⟨host.pool, client, host.held.erase index⟩, ?_,
      by simpa using released⟩
    simp only [ClientHost.step, releaseEq, some_bind]
    rfl

theorem nodup_openedKeys : (openedKeys log).Nodup := by
  rw [List.nodup_iff_getElem?_ne_getElem?]
  intro first second less inside same
  have short := holds.count
  obtain ⟨fu, found⟩ : ∃ fu, host.client.futures[first]? = some fu :=
    ⟨_, List.getElem?_eq_getElem (by omega)⟩
  obtain ⟨other, otherFound⟩ : ∃ fu, host.client.futures[second]? = some fu :=
    ⟨_, List.getElem?_eq_getElem (by omega)⟩
  rw [(holds.reflects found).opened, (holds.reflects otherFound).opened, Option.some_inj] at same
  exact Nat.ne_of_lt less (holds.index_unique found otherFound same)

end

end Holds

/-- What the ledger of a client says about the future of a request. -/
structure Describes (log : FutureLog) (host : ClientHost) (index : Nat) (fu : Future) : Prop where
  opened : (openedKeys log)[index]? = some fu.xid
  pending : host.client.pendingFu fu.xid = some index ↔ settlement log fu.xid index = none
  notified : fu.notified = (settlement log fu.xid index).isSome.toNat
  errorCode : ∀ code ∈ settlement log fu.xid index, fu.errorCode = code
  refCnt : fu.refCnt = (decide (host.client.pendingFu fu.xid =
    some index)).toNat + (decide (index ∈ host.held)).toNat

end ClientHost

open ClientHost

/-- In every run of a client, the requests it accepts have different xids.
`pending_fu_` holds exactly the futures whose request was neither answered nor
invalidated since, each under its xid.  Each future is notified once if it was,
with the code of the first answer or with `ENOTCONN`, and has one reference
while it is pending and one while its caller holds it.  After `close` nothing is
pending and every future was notified. -/
theorem requests_completed_once (nrInrings : Nat) (pool : Pool) (inputs : List ClientInput)
    (admissible : Admissible ClientHost.step ClientHost.Allows (.new nrInrings pool) inputs) :
    ∃ log host, run ClientHost.step (.new nrInrings pool) inputs = some (log, host) ∧
      (openedKeys log).Nodup ∧
      host.client.futures.length = (openedKeys log).length ∧
      (∀ index fu, host.client.futures[index]? = some fu →
        Describes log host index fu) ∧
      (∀ xid index, host.client.pendingFu xid = some index →
        ∃ fu, host.client.futures[index]? = some fu ∧ fu.xid = xid) ∧
      (log.getLast? = some (.abandoned enotconn) →
        (∀ xid, host.client.pendingFu xid = none) ∧
          ∀ fu ∈ host.client.futures, fu.notified = 1) := by
  have preserved (log : FutureLog) (host : ClientHost) (input : ClientInput)
      (holds : host.Holds log) (allowed : host.Allows input) := holds.step input allowed
  obtain ⟨log, host, runEq, holds⟩ := run_of_admissible preserved []
    (Holds.new nrInrings pool) inputs admissible
  rw [List.nil_append] at holds
  refine ⟨log, host, runEq, holds.nodup_openedKeys, holds.count, ?_, ?_, ?_⟩
  · intro index fu found
    have reflects := holds.reflects found
    have pending : host.client.pendingFu fu.xid = some index ↔
        settlement log fu.xid index = none := by
      rw [holds.pending]
      exact ⟨fun ⟨_, _, _, isOpen⟩ => isOpen, fun isOpen => ⟨fu, found, rfl, isOpen⟩⟩
    refine ⟨reflects.opened, pending, reflects.notified, ?_, ?_⟩
    · intro code settled
      rw [reflects.errorCode, Option.mem_def.mp settled]
      rfl
    · rw [reflects.refCnt]
      simp only [pending, ← Option.isNone_iff_eq_none, Bool.decide_eq_true]
  · intro xid index pending
    obtain ⟨fu, found, xidEq, -⟩ := holds.pending.mp pending
    exact ⟨fu, found, xidEq⟩
  · intro closed
    have settled {index : Nat} {fu : Future} (found : host.client.futures[index]? = some fu) :
        (settlement log fu.xid index).isSome :=
      isSome_settlement closed (holds.reflects found).inside fu.xid
    refine ⟨fun xid => ?_, fun fu member => ?_⟩
    · rw [Option.eq_none_iff_forall_ne_some]
      intro index pending
      obtain ⟨fu, found, rfl, isOpen⟩ := holds.pending.mp pending
      have unsettled := settled found
      rw [isOpen] at unsettled
      contradiction
    · obtain ⟨index, found⟩ := List.getElem?_of_mem member
      rw [(holds.reflects found).notified, settled found, Bool.toNat_true]

def sampleReply (size : BitVec 32) (xid : BitVec 64) (errorCode : BitVec 32) : Mbuf where
  data := ByteArea.store (fun _ => 0) dataOffset (0x0a :: (toBytes 4 size ++ idBytes xid errorCode))
  dataLen := 64
  pktLen := 64

/-- The first reply finds no request, and its size is wrong.  The second answers
a request, and the third answers it again. -/
def sampleInputs : List ClientInput :=
  [.connect sampleConnection, .receive (sampleReply 3 1 5), .handleRead [0],
    .beginRequest (fun _ => 0) 7, .put ⟨.scalar .i32, 1#32⟩, .endRequest 0,
    .beginRequest (fun _ => 0) 8, .endRequest 0, .receive (sampleReply 17 1 4),
    .receive (sampleReply 2 1 6), .handleRead [3, 4], .release 1, .close,
    .beginRequest (fun _ => 0) 9, .endRequest 0]

theorem requests_completed_once_sample :
    ∃ log host, run ClientHost.step (.new 2 samplePool) sampleInputs = some (log, host) ∧
      log = [.answered 1 5, .opened 0, .opened 1, .answered 1 4, .answered 1 6,
        .abandoned enotconn] ∧
      (host.client.futures.map fun fu => (fu.xid, fu.errorCode, fu.notified, fu.refCnt)) =
        [(0, enotconn, 1, 1), (1, 4, 1, 0)] ∧
      (∀ index fu, host.client.futures[index]? = some fu → Describes log host index fu) ∧
      ∀ xid, host.client.pendingFu xid = none := by
  obtain ⟨log, host, runEq, -, -, described, -, closed⟩ :=
    requests_completed_once 2 samplePool sampleInputs (by decide +kernel)
  have logged : (run ClientHost.step (.new 2 samplePool) sampleInputs).map (·.1) =
      some [.answered 1 5, .opened 0, .opened 1, .answered 1 4, .answered 1 6,
        .abandoned enotconn] := by
    decide +kernel
  have futures : (run ClientHost.step (.new 2 samplePool) sampleInputs).map (fun result =>
      result.2.client.futures.map fun fu => (fu.xid, fu.errorCode, fu.notified, fu.refCnt)) =
      some [(0, enotconn, 1, 1), (1, 4, 1, 0)] := by
    decide +kernel
  rw [runEq, Option.map_some, Option.some_inj] at logged futures
  subst logged
  exact ⟨_, host, runEq, rfl, futures, described, (closed rfl).1⟩

end SRPC.Dpdk
