import SRPC.IndexedLists
import SRPC.UdpFutureInvariant

/-! # Steps of a `UDPClient` -/

namespace SRPC.Dpdk

open LittleEndian Marshalling TransportMarshal ByteSource SettlementLedger Function List

theorem readIds_mbuf (pool : Pool) (pkt : Nat) :
    readIds mbufSource (pool, ⟨some pkt, 0, 0, dataOffset + 1⟩) =
      some (((pool.mbuf pkt).replyHeader.size, (pool.mbuf pkt).replyHeader.xid,
        (pool.mbuf pkt).replyHeader.errorCode), pool, ⟨some pkt, 0, 0, bodyOffset + 12⟩) := rfl

theorem replyHeader_store_type (pool : Pool) (pkt other : Nat) (pktType : Byte) :
    ((pool.store pkt dataOffset [pktType]).mbuf other).replyHeader =
      (pool.mbuf other).replyHeader := by
  by_cases same : other = pkt
  · subst same
    simp only [Mbuf.replyHeader, Pool.data_store]
    rw [ByteArea.load_store_of_outside (.inr (by simp)),
      ByteArea.load_store_of_outside (.inr (by simp [bodyOffset])),
      ByteArea.load_store_of_outside (.inr (by simp [bodyOffset]))]
  · rw [pool.store_of_ne pkt dataOffset same]

namespace ClientHost.Holds

variable {log : FutureLog} {host : ClientHost} {index : Nat} {fu : Future}

theorem xid_ne_counter (holds : host.Holds log) (more : host.client.futures.length < 2 ^ 64)
    (found : host.client.futures[index]? = some fu) : fu.xid ≠ host.client.xidCounter := by
  rw [(holds.reflects found).xid, holds.counter]
  intro same
  have inside := lt_of_getElem? found
  have numbers := congrArg BitVec.toNat same
  rw [BitVec.toNat_ofNat, BitVec.toNat_ofNat, Nat.mod_eq_of_lt (by omega),
    Nat.mod_eq_of_lt more] at numbers
  omega

/-- `begin_request` opens a request. -/
theorem newFuture (holds : host.Holds log) (more : host.client.futures.length < 2 ^ 64) :
    (⟨host.pool, host.client.newFuture, host.client.futures.length ::
      host.held⟩ : ClientHost).Holds (log ++ [.opened host.client.xidCounter]) := by
  have grown : openedKeys (log ++ [.opened host.client.xidCounter]) =
      openedKeys log ++ [host.client.xidCounter] := openedKeys_append ..
  have fresh : settlement (log ++ [.opened host.client.xidCounter])
      host.client.xidCounter host.client.futures.length = none := by
    rw [holds.count]
    exact settlement_opened ..
  have old {index : Nat} {fu : Future} (found : host.client.futures[index]? = some fu) :
      settlement (log ++ [.opened host.client.xidCounter]) fu.xid index =
        settlement log fu.xid index := settlement_append_opened (holds.reflects found).inside ..
  have notHeld : host.client.futures.length ∉ host.held := fun member =>
    absurd (holds.heldOld _ member) (Nat.lt_irrefl _)
  refine ⟨?_, ?_, ?_, ?_, ?_, ?_, nodup_cons.mpr ⟨notHeld, holds.heldNodup⟩, holds.conn⟩
  · rw [grown, length_append, ← holds.count]
    exact length_append
  · rw [UdpClient.newFuture, length_append, length_singleton]
    exact more
  · rw [UdpClient.newFuture, length_append, length_singleton, holds.counter, BitVec.ofNat_add]
    rfl
  · intro index fu found
    rcases getElem?_concat_eq_some found with before | ⟨rfl, rfl⟩
    · have reflects := (holds.reflects before).append (old before)
      refine { reflects with refCnt := ?_ }
      have other : index ≠ host.client.futures.length := Nat.ne_of_lt (lt_of_getElem? before)
      simpa [other] using reflects.refCnt
    · refine ⟨holds.counter, ?_, ?_, ?_, ?_, ?_⟩
      · rw [grown, getElem?_append_right (Nat.le_of_eq holds.count.symm), holds.count, Nat.sub_self]
        rfl
      all_goals rw [fresh]
      all_goals simp
  · intro xid index
    show update host.client.pendingFu host.client.xidCounter _ xid = some index ↔ _
    by_cases same : xid = host.client.xidCounter
    · subst same
      rw [update_self, Option.some_inj]
      constructor
      · rintro rfl
        exact ⟨_, getElem?_concat_length, rfl, fresh⟩
      · rintro ⟨fu, found, xidEq, -⟩
        rcases getElem?_concat_eq_some found with before | ⟨rfl, -⟩
        · exact absurd xidEq (holds.xid_ne_counter more before)
        · rfl
    · rw [update_of_ne same, holds.pending]
      constructor
      · rintro ⟨fu, found, rfl, isOpen⟩
        exact ⟨fu, getElem?_append_of_some _ found, rfl, (old found).trans isOpen⟩
      · rintro ⟨fu, found, rfl, isOpen⟩
        rcases getElem?_concat_eq_some found with before | ⟨-, rfl⟩
        · exact ⟨fu, before, rfl, (old before).symm.trans isOpen⟩
        · exact absurd rfl same
  · intro index member
    rw [UdpClient.newFuture, length_append, length_singleton]
    rcases mem_cons.mp member with rfl | before
    · exact Nat.lt_succ_self _
    · exact Nat.lt_succ_of_lt (holds.heldOld index before)

variable {reply : ReplyHeader}

theorem becomes_answered (holds : host.Holds log) (found : host.client.futures[index]? = some fu)
    (other : fu.xid = reply.xid → host.client.pendingFu reply.xid ≠ some index) :
    fu.Becomes log [answer reply] index fu := by
  have inside := (holds.reflects found).inside
  refine .inl ⟨rfl, ?_⟩
  rw [answer, settlement_append_answered inside]
  cases settled : settlement log fu.xid index with
  | some code => rfl
  | none =>
    have differs : reply.xid ≠ fu.xid := fun same => other same.symm
      (holds.pending.mpr ⟨fu, found, same.symm, same ▸ settled⟩)
    rw [if_neg differs]
    rfl

theorem answer_unknown (holds : host.Holds log) (pool : Pool)
    (unknown : host.client.pendingFu reply.xid = none) :
    (⟨pool, host.client, host.held⟩ : ClientHost).Holds (log ++ [answer reply]) := by
  have unchanged {index : Nat} {fu : Future} (found : host.client.futures[index]? = some fu) :
      fu.Becomes log [answer reply] index fu :=
    holds.becomes_answered found fun _ => by simp [unknown]
  refine holds.become rfl rfl (fun found => ⟨_, found, unchanged found⟩) ?_ rfl holds.conn
  intro xid index
  refine ⟨fun pending => ⟨pending, ?_⟩, And.left⟩
  obtain ⟨fu, found, rfl, isOpen⟩ := holds.pending.mp pending
  rw [answer, settlement_append_answered (holds.reflects found).inside, isOpen, if_neg]
  · rfl
  · intro same
    rw [same, pending] at unknown
    contradiction

theorem answer_pending (holds : host.Holds log) (pool : Pool)
    (pending : host.client.pendingFu reply.xid = some index)
    (found : host.client.futures[index]? = some fu) (bytes : List Byte) :
    (⟨pool, { host.client with
      pendingFu := update host.client.pendingFu reply.xid none
      futures := host.client.futures.set index (fu.settle reply.errorCode bytes) },
      host.held⟩ : ClientHost).Holds (log ++ [answer reply]) := by
  obtain ⟨_, found', xidEq, isOpen⟩ := holds.pending.mp pending
  rw [found, Option.some_inj] at found'
  subst found'
  have answered {other : Nat} {fu' : Future} (otherFound : host.client.futures[other]? = some fu') :
      settlement (log ++ [answer reply]) fu'.xid other = (settlement log fu'.xid other).or
          (if reply.xid = fu'.xid then some reply.errorCode else none) :=
    settlement_append_answered (holds.reflects otherFound).inside ..
  refine holds.become rfl (length_set ..) ?_ ?_ rfl holds.conn
  · intro other later otherFound
    rcases getElem?_set_eq_some otherFound with ⟨rfl, rfl⟩ | ⟨ne, before⟩
    · refine ⟨fu, found, .inr ⟨reply.errorCode, bytes, rfl, xidEq ▸ isOpen, ?_⟩⟩
      rw [answered found, xidEq, isOpen, if_pos rfl]
      rfl
    · refine ⟨later, before, holds.becomes_answered before fun _ same => ?_⟩
      rw [pending, Option.some_inj] at same
      exact ne same.symm
  · intro xid other
    show update host.client.pendingFu reply.xid none xid = some other ↔ _
    by_cases same : xid = reply.xid
    · subst same
      rw [update_self]
      refine ⟨(nomatch ·), ?_⟩
      rintro ⟨still, unsettled⟩
      rw [pending, Option.some_inj] at still
      subst still
      rw [← xidEq, answered found, if_pos xidEq.symm] at unsettled
      simp at unsettled
    · rw [update_of_ne same]
      refine ⟨fun still => ⟨still, ?_⟩, And.left⟩
      obtain ⟨fu', otherFound, rfl, unsettled⟩ := holds.pending.mp still
      rw [answered otherFound, unsettled, if_neg (Ne.symm same)]
      rfl

theorem settle_eq {client : UdpClient} (found : client.futures[index]? = some fu)
    (counted : 0 < fu.refCnt) (code : BitVec 32) (bytes : List Byte) :
    client.settle index code bytes = some { client with
      futures := client.futures.set index (fu.settle code bytes) } := by
  simp [UdpClient.settle, found, guard, counted]

/-- A reply settles the open request with its id. -/
theorem takeReply (holds : host.Holds log) (pkt : Nat)
    (copies : host.client.pendingFu (host.pool.mbuf pkt).replyHeader.xid ≠ none →
      UdpClient.CopiesInside (host.pool.mbuf pkt).replyHeader.size) :
    ∃ client, host.client.takeReply host.pool pkt =
        some (host.pool.store pkt dataOffset [0x09], client) ∧
      client.pendingFu = update host.client.pendingFu (host.pool.mbuf pkt).replyHeader.xid none ∧
      (⟨host.pool.store pkt dataOffset [0x09], client, host.held⟩ :
        ClientHost).Holds (log ++ [answer (host.pool.mbuf pkt).replyHeader]) := by
  have readEq := readIds_mbuf (host.pool.store pkt dataOffset [0x09]) pkt
  rw [replyHeader_store_type] at readEq
  generalize (host.pool.mbuf pkt).replyHeader = reply at copies readEq ⊢
  cases known : host.client.pendingFu reply.xid with
  | none =>
    refine ⟨host.client, ?_, (update_eq_self_iff.mpr known.symm).symm, holds.answer_unknown _ known⟩
    simp only [UdpClient.takeReply, allotBuffer_eq, readEq, known, some_bind]
    rfl
  | some index =>
    obtain ⟨fu, found, xid, isOpen⟩ := holds.pending.mp known
    have counted := (holds.reflects found).refCnt_pos (xid ▸ isOpen)
    let bytes := ((host.pool.store pkt dataOffset [0x09]).mbuf pkt).data.load
      (bodyOffset + 12) (reply.size.toNat - 8)
    let taken : UdpClient := { host.client with
      pendingFu := update host.client.pendingFu reply.xid none }
    have takenFound : taken.futures[index]? = some fu := found
    refine ⟨_, ?_, rfl, holds.answer_pending _ known found bytes⟩
    simp only [UdpClient.takeReply, allotBuffer_eq, readEq, known, guard,
      copies (by simp [known]), if_true, some_bind]
    show (taken.settle index reply.errorCode bytes).bind _ = _
    rw [settle_eq takenFound counted]
    rfl

theorem takeReplies (holds : host.Holds log) (pkts : List Nat)
    (copies : UdpClient.Copies host.client.pendingFu (host.headers pkts)) :
    ∃ pool client, host.client.takeReplies host.pool pkts = some (pool, client) ∧
      (⟨pool, client, host.held⟩ : ClientHost).Holds (log ++ (host.headers pkts).map answer) := by
  induction pkts generalizing log host with
  | nil => exact ⟨host.pool, host.client, rfl, by simpa [headers] using holds⟩
  | cons pkt pkts ih =>
    obtain ⟨first, others⟩ := copies
    obtain ⟨client, takeEq, pendingFu, taken⟩ := holds.takeReply pkt first
    let host' : ClientHost := ⟨host.pool.store pkt dataOffset [0x09], client, host.held⟩
    have same : host'.headers pkts = host.headers pkts :=
      map_congr_left fun other _ => replyHeader_store_type host.pool pkt other _
    obtain ⟨pool, last, restEq, final⟩ := @ih _ host' taken (by rw [pendingFu, same]; exact others)
    rw [same, append_assoc] at final
    refine ⟨pool, last, ?_, final⟩
    simp only [UdpClient.takeReplies, takeEq, some_bind]
    exact restEq

theorem invalidate_eq (client : UdpClient) {indices : List Nat} (distinct : indices.Nodup)
    (counted : ∀ index ∈ indices, ∃ fu, client.futures[index]? = some fu ∧
      0 < fu.refCnt) :
    ∃ futures, client.invalidate indices = some { client with futures := futures } ∧
      futures.length = client.futures.length ∧
      ∀ index, futures[index]? = client.futures[index]?.map fun fu =>
        if index ∈ indices then fu.settle enotconn [] else fu := by
  induction indices generalizing client with
  | nil => exact ⟨client.futures, rfl, rfl, fun index => by simp⟩
  | cons index indices ih =>
    obtain ⟨fu, found, positive⟩ := counted index mem_cons_self
    obtain ⟨absent, distinct⟩ := nodup_cons.mp distinct
    let settled := client.futures.set index (fu.settle enotconn [])
    have others : ∀ other ∈ indices, ∃ fu, settled[other]? = some fu ∧
        0 < fu.refCnt := by
      intro other member
      have ne : index ≠ other := fun same => absent (same ▸ member)
      rw [getElem?_set_ne ne]
      exact counted other (mem_cons_of_mem _ member)
    obtain ⟨futures, restEq, length, elements⟩ :=
      ih { client with futures := settled } distinct others
    refine ⟨futures, ?_, length.trans (length_set ..), fun other => ?_⟩
    · simp only [UdpClient.invalidate, settle_eq found positive, some_bind]
      exact restEq
    · rw [elements other]
      by_cases same : index = other
      · subst same
        have inside := lt_of_getElem? found
        simp [settled, getElem?_set_self inside, found, absent]
      · have ne : other ≠ index := Ne.symm same
        simp [settled, getElem?_set_ne same, ne]

theorem mem_pendingEntries (holds : host.Holds log) :
    index ∈ host.client.pendingEntries ↔
      ∃ fu, host.client.futures[index]? = some fu ∧
        settlement log fu.xid index = none := by
  rw [UdpClient.pendingEntries, mem_filter, mem_range]
  constructor
  · rintro ⟨inside, pending⟩
    have found := getElem?_eq_getElem inside
    rw [found, Option.any_some, decide_eq_true_iff] at pending
    obtain ⟨fu, found', -, isOpen⟩ := holds.pending.mp pending
    rw [found, Option.some_inj] at found'
    subst found'
    exact ⟨_, found, isOpen⟩
  · rintro ⟨fu, found, isOpen⟩
    refine ⟨lt_of_getElem? found, ?_⟩
    rw [found, Option.any_some, decide_eq_true_iff]
    exact holds.pending.mpr ⟨fu, found, rfl, isOpen⟩

/-- `close` abandons the open requests. -/
theorem close (holds : host.Holds log) :
    ∃ client, host.client.close = some client ∧
      (⟨host.pool, client, host.held⟩ : ClientHost).Holds (log ++ [.abandoned enotconn]) := by
  have abandoned {index : Nat} {fu : Future} (found : host.client.futures[index]? = some fu) :
      settlement (log ++ [.abandoned enotconn]) fu.xid index =
        (settlement log fu.xid index).or (some enotconn) :=
    settlement_append_abandoned (holds.reflects found).inside ..
  obtain ⟨futures, closeEq, length, elements⟩ := invalidate_eq
    { host.client with status := .closed, pendingFu := fun _ => none }
    (nodup_range.filter _) (fun index member => by
      obtain ⟨fu, found, isOpen⟩ := holds.mem_pendingEntries.mp member
      exact ⟨fu, found, (holds.reflects found).refCnt_pos isOpen⟩)
  refine ⟨_, closeEq, holds.become rfl length ?_ ?_ rfl (nomatch ·)⟩
  · intro index later found
    rw [show _ = _ from elements index] at found
    obtain ⟨fu, before, rfl⟩ := Option.map_eq_some_iff.mp found
    refine ⟨fu, before, ?_⟩
    split
    case isTrue member =>
      obtain ⟨fu', before', isOpen⟩ := holds.mem_pendingEntries.mp member
      rw [show _ = _ from before, Option.some_inj] at before'
      subst before'
      refine .inr ⟨enotconn, [], rfl, isOpen, ?_⟩
      rw [abandoned before, isOpen]
      rfl
    case isFalse absent =>
      refine .inl ⟨rfl, ?_⟩
      rw [abandoned before]
      cases settled : settlement log fu.xid index with
      | some code => rfl
      | none =>
        exact absurd (holds.mem_pendingEntries.mpr ⟨fu, before, settled⟩) absent
  · intro xid index
    refine ⟨(nomatch ·), ?_⟩
    rintro ⟨pending, unsettled⟩
    obtain ⟨fu, found, rfl, -⟩ := holds.pending.mp pending
    rw [abandoned found] at unsettled
    simp at unsettled

theorem release (holds : host.Holds log) (member : index ∈ host.held) :
    ∃ client, host.client.release index = some client ∧
      (⟨host.pool, client, host.held.erase index⟩ : ClientHost).Holds log := by
  have inside := holds.heldOld index member
  obtain ⟨fu, found⟩ : ∃ fu, host.client.futures[index]? = some fu :=
    ⟨_, getElem?_eq_getElem inside⟩
  have reflects := holds.reflects found
  have counted : 0 < fu.refCnt := by
    rw [reflects.refCnt, decide_eq_true member, Bool.toNat_true]
    omega
  let given : Future := { fu with refCnt := fu.refCnt - 1 }
  have length : (host.client.futures.set index given).length =
      host.client.futures.length := length_set ..
  refine ⟨{ host.client with futures := host.client.futures.set index given },
    by simp [UdpClient.release, found, guard, counted, given], ?_⟩
  refine ⟨length.trans holds.count, length ▸ holds.bound, ?_, ?_, ?_, ?_,
    holds.heldNodup.erase _, holds.conn⟩
  · rw [length]
    exact holds.counter
  · intro other later otherFound
    rcases getElem?_set_eq_some otherFound with ⟨rfl, rfl⟩ | ⟨ne, before⟩
    · refine { reflects with refCnt := ?_ }
      have absent : other ∉ host.held.erase other := holds.heldNodup.not_mem_erase
      show fu.refCnt - 1 = _
      rw [reflects.refCnt]
      simp [member, absent, given]
    · have otherReflects := holds.reflects before
      refine { otherReflects with refCnt := ?_ }
      rw [otherReflects.refCnt]
      simp [mem_erase_of_ne ne]
  · intro xid other
    rw [holds.pending]
    constructor
    · rintro ⟨fu', before, rfl, isOpen⟩
      by_cases same : other = index
      · subst same
        rw [found, Option.some_inj] at before
        subst before
        exact ⟨given, getElem?_set_self inside, rfl, isOpen⟩
      · exact ⟨fu', (getElem?_set_ne (Ne.symm same)).trans before, rfl, isOpen⟩
    · rintro ⟨later, after, rfl, isOpen⟩
      rcases getElem?_set_eq_some after with ⟨rfl, rfl⟩ | ⟨-, before⟩
      · exact ⟨fu, found, rfl, isOpen⟩
      · exact ⟨later, before, rfl, isOpen⟩
  · intro other still
    rw [length]
    exact holds.heldOld other (mem_of_mem_erase still)

end ClientHost.Holds

end SRPC.Dpdk
