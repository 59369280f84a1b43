import SRPC.UdpFutures

/-! # Futures and the ledger of requests -/

namespace SRPC.Dpdk

open LittleEndian Marshalling TransportMarshal ByteSource SettlementLedger

abbrev FutureLog := List (Event (BitVec 64) (BitVec 32))

/-- The future shows what the ledger says about the request with this number. -/
structure Future.Reflects (fu : Future) (log : FutureLog) (held : List Nat)
    (index : Nat) : Prop where
  xid : fu.xid = BitVec.ofNat 64 index
  opened : (openedKeys log)[index]? = some fu.xid
  errorCode : fu.errorCode = (settlement log fu.xid index).getD 0
  ready : fu.ready = (settlement log fu.xid index).isSome
  notified : fu.notified = (settlement log fu.xid index).isSome.toNat
  refCnt : fu.refCnt = (settlement log fu.xid index).isNone.toNat + (decide (index ∈ held)).toNat

namespace Future.Reflects

variable {fu : Future} {log : FutureLog} {held : List Nat} {index : Nat}

section

variable (reflects : fu.Reflects log held index)

include reflects

theorem inside : index < (openedKeys log).length := lt_of_getElem? reflects.opened

theorem opened_append (events : FutureLog) :
    (openedKeys (log ++ events))[index]? = some fu.xid := by
  rw [openedKeys_append, List.getElem?_append_left reflects.inside, reflects.opened]

theorem append {events : FutureLog}
    (same : settlement (log ++ events) fu.xid index = settlement log fu.xid index) :
    fu.Reflects (log ++ events) held index where
  xid := reflects.xid
  opened := reflects.opened_append events
  errorCode := by rw [same, reflects.errorCode]
  ready := by rw [same, reflects.ready]
  notified := by rw [same, reflects.notified]
  refCnt := by rw [same, reflects.refCnt]

theorem settle {events : FutureLog} {code : BitVec 32} (bytes : List Byte)
    (isOpen : settlement log fu.xid index = none)
    (settled : settlement (log ++ events) fu.xid index = some code) :
    (fu.settle code bytes).Reflects (log ++ events) held index := by
  have later : settlement (log ++ events) (fu.settle code bytes).xid index = some code := settled
  refine ⟨reflects.xid, reflects.opened_append events, ?_, ?_, ?_, ?_⟩
  · rw [later]
    rfl
  · rw [later]
    rfl
  · rw [later, Future.settle, reflects.notified, isOpen]
    rfl
  · rw [later, Future.settle, reflects.refCnt, isOpen]
    simp

theorem refCnt_pos (isOpen : settlement log fu.xid index = none) : 0 < fu.refCnt := by
  rw [reflects.refCnt, isOpen]
  have nonneg : (0 : Int) ≤ (decide (index ∈ held)).toNat := Int.natCast_nonneg _
  simp only [Option.isNone_none, Bool.toNat_true]
  omega

end

end Future.Reflects

/-- With these events the future is settled, or they do not concern it. -/
def Future.Becomes (fu : Future) (log events : FutureLog) (index : Nat) (later : Future) : Prop :=
  (later = fu ∧ settlement (log ++ events) fu.xid index = settlement log fu.xid index) ∨
  ∃ code bytes, later = fu.settle code bytes ∧
    settlement log fu.xid index = none ∧ settlement (log ++ events) fu.xid index = some code

namespace Future.Becomes

variable {fu later : Future} {log events : FutureLog} {held : List Nat} {index : Nat}

theorem xid (becomes : fu.Becomes log events index later) : later.xid = fu.xid := by
  rcases becomes with ⟨rfl, -⟩ | ⟨code, bytes, rfl, -⟩ <;> rfl

theorem reflects (becomes : fu.Becomes log events index later)
    (reflects : fu.Reflects log held index) : later.Reflects (log ++ events) held index := by
  rcases becomes with ⟨rfl, same⟩ | ⟨code, bytes, rfl, isOpen, settled⟩
  · exact reflects.append same
  · exact reflects.settle bytes isOpen settled

theorem open_before (becomes : fu.Becomes log events index later)
    (isOpen : settlement (log ++ events) fu.xid index = none) :
    settlement log fu.xid index = none := by
  rcases becomes with ⟨-, same⟩ | ⟨code, bytes, -, before, -⟩
  · exact same.symm.trans isOpen
  · exact before

end Future.Becomes

namespace ClientHost

/-- The ledger describes the client and the references its callers hold. -/
structure Holds (log : FutureLog) (host : ClientHost) : Prop where
  count : host.client.futures.length = (openedKeys log).length
  bound : host.client.futures.length ≤ 2 ^ 64
  counter : host.client.xidCounter = BitVec.ofNat 64 host.client.futures.length
  reflects : ∀ {index : Nat} {fu : Future},
    host.client.futures[index]? = some fu → fu.Reflects log host.held index
  pending : ∀ {xid : BitVec 64} {index : Nat}, host.client.pendingFu xid = some index ↔
      ∃ fu, host.client.futures[index]? = some fu ∧ fu.xid = xid ∧ settlement log xid index = none
  heldOld : ∀ index ∈ host.held, index < host.client.futures.length
  heldNodup : host.held.Nodup
  conn : host.client.status = .connected → host.client.conn ≠ none

namespace Holds

variable {log : FutureLog} {host : ClientHost}

theorem new (nrInrings : Nat) (pool : Pool) : (ClientHost.new nrInrings pool).Holds [] where
  count := rfl
  bound := Nat.zero_le _
  counter := rfl
  reflects found := by simp [ClientHost.new, UdpClient.new] at found
  pending := by simp [ClientHost.new, UdpClient.new]
  heldOld _ member := by simp [ClientHost.new] at member
  heldNodup := List.nodup_nil
  conn connected := by simp [ClientHost.new, UdpClient.new] at connected

theorem index_unique (holds : host.Holds log) {first second : Nat}
    {fu other : Future} (found : host.client.futures[first]? = some fu)
    (otherFound : host.client.futures[second]? = some other)
    (same : fu.xid = other.xid) : first = second := by
  rw [(holds.reflects found).xid, (holds.reflects otherFound).xid] at same
  have inside := lt_of_getElem? found
  have otherInside := lt_of_getElem? otherFound
  have bound := holds.bound
  have numbers := congrArg BitVec.toNat same
  rw [BitVec.toNat_ofNat, BitVec.toNat_ofNat, Nat.mod_eq_of_lt (by omega),
    Nat.mod_eq_of_lt (by omega)] at numbers
  exact numbers

variable {client : UdpClient}

theorem keep (holds : host.Holds log) (pool : Pool) (futures : client.futures = host.client.futures)
    (pendingFu : client.pendingFu = host.client.pendingFu)
    (counter : client.xidCounter = host.client.xidCounter)
    (conn : client.status = .connected → client.conn ≠ none) :
    (⟨pool, client, host.held⟩ : ClientHost).Holds log where
  count := futures ▸ holds.count
  bound := futures ▸ holds.bound
  counter := by rw [counter, futures, holds.counter]
  reflects found := holds.reflects (futures ▸ found)
  pending := by
    rw [pendingFu, futures]
    exact holds.pending
  heldOld := futures ▸ holds.heldOld
  heldNodup := holds.heldNodup
  conn := conn

theorem become (holds : host.Holds log) {events : FutureLog} {pool : Pool}
    (noneOpened : openedKeys events = [])
    (length : client.futures.length = host.client.futures.length)
    (becomes : ∀ {index : Nat} {later : Future}, client.futures[index]? = some later →
        ∃ fu, host.client.futures[index]? = some fu ∧
          fu.Becomes log events index later)
    (pending : ∀ {xid : BitVec 64} {index : Nat}, client.pendingFu xid = some index ↔
        host.client.pendingFu xid = some index ∧
          settlement (log ++ events) xid index = none)
    (counter : client.xidCounter = host.client.xidCounter)
    (conn : client.status = .connected → client.conn ≠ none) :
    (⟨pool, client, host.held⟩ : ClientHost).Holds (log ++ events) where
  count := by
    rw [openedKeys_append, noneOpened, List.append_nil, length, holds.count]
  bound := length ▸ holds.bound
  counter := by rw [counter, holds.counter, length]
  reflects found := by
    obtain ⟨fu, before, becomes⟩ := becomes found
    exact becomes.reflects (holds.reflects before)
  pending := by
    intro xid index
    rw [pending, holds.pending]
    constructor
    · rintro ⟨⟨fu, before, rfl, -⟩, isOpen⟩
      have inside : index < client.futures.length := length ▸ lt_of_getElem? before
      have found := List.getElem?_eq_getElem inside
      obtain ⟨fu', before', becomes⟩ := becomes found
      rw [before, Option.some_inj] at before'
      subst before'
      exact ⟨_, found, becomes.xid, isOpen⟩
    · rintro ⟨later, found, rfl, isOpen⟩
      obtain ⟨fu, before, becomes⟩ := becomes found
      exact ⟨⟨fu, before, becomes.xid.symm, becomes.xid ▸
        becomes.open_before (becomes.xid ▸ isOpen)⟩, isOpen⟩
  heldOld := length ▸ holds.heldOld
  heldNodup := holds.heldNodup
  conn := conn

end Holds

end ClientHost

end SRPC.Dpdk
