import SRPC.UdpRequestCalls

/-!
# Replies that do not overlap

A reply to a background request is enqueued.  Any other takes the buffer of its
request, which `process_requests` then transmits.
-/

namespace SRPC.Dpdk

open LittleEndian Marshalling TransportMarshal List

theorem Mbuf.Carries.retype {pool : Pool} {pkt : Nat} {pktType : Byte}
    {body : List Byte} (carries : (pool.mbuf pkt).Carries pktType body) (newType : Byte) :
    ((pool.store pkt dataOffset [newType]).mbuf pkt).Carries newType body := by
  refine ⟨store_type .., ?_, ?_, ?_⟩
  · rw [Pool.data_store, ByteArea.load_store_of_outside (.inr (by simp)), carries.size]
  · rw [Pool.data_store, ByteArea.load_store_of_outside, carries.content]
    right
    simp [bodyOffset]
  · rw [Assembling.dataLen_store, carries.length]

namespace UdpConnection

variable {sconn : UdpConnection} {pool : Pool} {pkt : Nat} {pktType : Byte} {body : List Byte}

theorem put_assembling (assembling : Assembling pool sconn.currentReply pkt pktType body)
    (result : Argument) (room : bodyOffset + (body ++ encodeArgument result).length ≤ dataRoom) :
    ∃ later currentReply, sconn.put pool result =
        some (later, { sconn with currentReply := currentReply }) ∧
      Assembling later currentReply pkt pktType (body ++ encodeArgument result) ∧
      pool.OnlyChanges pkt later := by
  obtain ⟨later, m, eq, rest⟩ := assembling.does (put_writes result.type result.value) room
  have putEq : putArgument result (pool, sconn.currentReply) = some ((), later, m) := eq
  refine ⟨later, m, ?_, rest⟩
  simp only [put, putEq, some_bind]
  rfl

theorem format_assembling (assembling : Assembling pool sconn.currentReply pkt pktType body) :
    ∃ sized later m, sizeReply (pool, sconn.currentReply) = some ((), sized, sconn.currentReply) ∧
      formatHeader (sized, sconn.currentReply) = some ((), later, m) ∧
      m.reqData = some pkt ∧ (later.mbuf pkt).Carries pktType body ∧
      pool.OnlyChanges pkt later := by
  obtain ⟨sized, sizeEq, sizedAssembling, only⟩ := assembling.sizeReply
  obtain ⟨later, formatEq, carries, more⟩ := sizedAssembling.format
  refine ⟨sized, later, _, sizeEq, formatEq, ?_, carries, only.trans more⟩
  rw [assembling.marshal]
  rfl

theorem endReply_st (assembling : Assembling pool sconn.currentReply pkt 0x09 body) (tries : Nat) :
    ∃ later currentReply, sconn.endReply pool tries =
        some (later, { sconn with currentReply := currentReply }) ∧
      (later.mbuf pkt).Carries 0x0a body ∧ pool.OnlyChanges pkt later := by
  obtain ⟨sized, middle, m, sizeEq, formatEq, buffer, carries, only⟩ := format_assembling assembling
  refine ⟨middle.store pkt dataOffset [0x0a], m, ?_, carries.retype 0x0a, only.trans (.setType ..)⟩
  have single : isTypeSt middle m = some true := by
    simp [isTypeSt, buffer, carries.type]
  simp only [endReply, sizeEq, formatEq, single, setPktTypeBg,
    setPktType_eq buffer, some_bind, if_true]
  rfl

theorem endReply_bg (rings : 0 < sconn.nrInrings)
    (assembling : Assembling pool sconn.currentReply pkt 0x0a body) (tries : Nat) :
    ∃ later currentReply number, sconn.endReply pool tries =
        some (later, { sconn with
          currentReply := currentReply
          outBufring := sconn.outBufring ++ [(number, pkt)] }) ∧
      (later.mbuf pkt).Carries 0x0a body ∧ pool.OnlyChanges pkt later := by
  obtain ⟨sized, later, m, sizeEq, formatEq, buffer, carries, only⟩ := format_assembling assembling
  refine ⟨later, m, tries % sconn.nrInrings, ?_, carries, only⟩
  have background : isTypeSt later m = some false := by
    simp [isTypeSt, buffer, carries.type]
  simp only [endReply, sizeEq, formatEq, background, buffer, guard, rings, some_bind, if_true]
  rfl

end UdpConnection

namespace SharedConnection

def enqueuedBodies (log : List ReplyEvent) : List (List Byte) :=
  log.filterMap fun event => match event with
    | .enqueued reply => some reply.body
    | .inPlace _ _ => none

def placedPkts (log : List ReplyEvent) : List Nat :=
  log.filterMap fun event => match event with
    | .enqueued _ => none
    | .inPlace pkt _ => some pkt

def sentPkts (log : List ReplyEvent) (shared : SharedConnection) : List Nat :=
  shared.sconn.outBufring.map Prod.snd ++ placedPkts log

/-- The buffers of replies and of requests yet to be answered. -/
def reserved (log : List ReplyEvent) (shared : SharedConnection) : List Nat :=
  shared.sentPkts log ++ shared.requests

def replyType : Option Nat → Byte
  | none => 0x0a
  | some _ => 0x09

/-- The replies are in buffers of their own, as they were put. -/
structure Holds (log : List ReplyEvent) (shared : SharedConnection) : Prop where
  rings : 0 < shared.sconn.nrInrings
  delivers : Delivers shared.pool 0x0a shared.sconn.outBufring (enqueuedBodies log)
  placed : ∀ pkt reply, .inPlace pkt reply ∈ log → (shared.pool.mbuf pkt).Carries 0x0a reply.body
  distinct : (shared.reserved log).Nodup
  old : ∀ pkt ∈ shared.reserved log, pkt < shared.pool.next
  current : shared.opened = [] ∨ ∃ caller place draft pkt,
    shared.opened = [(caller, place, draft)] ∧
    (∀ buffer ∈ place, buffer = pkt) ∧
    Assembling shared.pool shared.sconn.currentReply pkt (replyType place) draft.body ∧
    pkt ∉ shared.reserved log ∧ pkt < shared.pool.next

variable {log : List ReplyEvent} {shared : SharedConnection}

theorem Holds.sent (holds : shared.Holds log) (pool : Pool)
    (same : ∀ pkt ∈ shared.sentPkts log, pool.mbuf pkt = shared.pool.mbuf pkt) :
    Delivers pool 0x0a shared.sconn.outBufring (enqueuedBodies log) ∧
      ∀ pkt reply, .inPlace pkt reply ∈ log →
        (pool.mbuf pkt).Carries 0x0a reply.body := by
  refine ⟨holds.delivers.later fun pkt member =>
    same pkt (mem_append_left _ member), fun pkt reply member => ?_⟩
  have placed : pkt ∈ placedPkts log := mem_filterMap.mpr ⟨_, member, rfl⟩
  rw [same pkt (mem_append_right _ placed)]
  exact holds.placed pkt reply member

theorem ne_of_sent {pkt other : Nat} (free : pkt ∉ shared.reserved log)
    (member : other ∈ shared.sentPkts log) : other ≠ pkt :=
  fun same => free (same ▸ mem_append_left _ member)

theorem Holds.next_not_reserved (holds : shared.Holds log) :
    shared.pool.next ∉ shared.reserved log :=
  fun member => absurd (holds.old _ member) (Nat.lt_irrefl _)

theorem Holds.reserve (holds : shared.Holds log) {later : SharedConnection}
    {laterLog : List ReplyEvent} {pkt : Nat}
    (perm : (pkt :: shared.reserved log).Perm (later.reserved laterLog))
    (free : pkt ∉ shared.reserved log) (inside : pkt < later.pool.next)
    (grown : shared.pool.next ≤ later.pool.next) :
    (later.reserved laterLog).Nodup ∧
      ∀ other ∈ later.reserved laterLog, other < later.pool.next := by
  refine ⟨perm.nodup (nodup_cons.mpr ⟨free, holds.distinct⟩), ?_⟩
  intro other member
  rcases mem_cons.mp (perm.mem_iff.mpr member) with rfl | old
  · exact inside
  · exact Nat.lt_of_lt_of_le (holds.old other old) grown

theorem Holds.receive (holds : shared.Holds log) (data : ByteArea) :
    ∃ later, shared.step (.receive data) = some ([], later) ∧
      later.Holds log := by
  have same : ∀ pkt, pkt ≠ shared.pool.next →
      (shared.pool.alloc data).2.mbuf pkt = shared.pool.mbuf pkt := by
    intro pkt ne
    simp [Pool.alloc, ne]
  have perm : ((shared.pool.next :: shared.reserved log)).Perm
      (reserved log { shared with
        pool := (shared.pool.alloc data).2
        requests := shared.pool.next :: shared.requests }) :=
    perm_middle.symm
  have sent := holds.sent (shared.pool.alloc data).2 fun pkt member =>
    same pkt (ne_of_sent holds.next_not_reserved member)
  have more := holds.reserve perm holds.next_not_reserved (Nat.lt_succ_self _) (Nat.le_succ _)
  refine ⟨_, rfl, holds.rings, sent.1, sent.2, more.1, more.2, ?_⟩
  · rcases holds.current with none | ⟨caller, place, draft, pkt, openEq,
      buffer, assembling, free, inside⟩
    · exact .inl none
    · have ne : pkt ≠ shared.pool.next := Nat.ne_of_lt inside
      refine .inr ⟨caller, place, draft, pkt, openEq, buffer,
        assembling.later (same pkt ne), ?_, Nat.lt_succ_of_lt inside⟩
      exact fun member => (mem_cons.mp (perm.mem_iff.mpr member)).elim ne free

theorem Holds.not_mem_erase (holds : shared.Holds log) {pkt : Nat}
    (member : pkt ∈ shared.requests) : pkt ∉ shared.sentPkts log ++ shared.requests.erase pkt := by
  have distinct := holds.distinct
  rw [reserved, nodup_append] at distinct
  rw [mem_append, not_or]
  refine ⟨fun elsewhere => ?_, fun still => ?_⟩
  · exact distinct.2.2 pkt elsewhere pkt member rfl
  · exact ((List.Nodup.mem_erase_iff distinct.2.1).mp still).1 rfl

variable {caller reqPkt : Nat}

theorem Holds.begun (holds : shared.Holds log) {pool : Pool} {m : TransportMarshal} {pkt : Nat}
    {place : Option Nat} {draft : Draft}
    (assembling : Assembling pool m pkt (replyType place) draft.body)
    (buffer : ∀ buffer ∈ place, buffer = pkt) (grown : shared.pool.next ≤ pool.next)
    (inside : pkt < pool.next)
    (same : ∀ other ∈ shared.sentPkts log, pool.mbuf other = shared.pool.mbuf other)
    (free : pkt ∉ shared.sentPkts log ++ shared.requests.erase reqPkt) :
    (⟨pool, { shared.sconn with currentReply := m },
      shared.requests.erase reqPkt, [(caller, place, draft)]⟩ : SharedConnection).Holds log := by
  have sent := holds.sent pool same
  have sublist : (shared.sentPkts log ++ shared.requests.erase reqPkt).Sublist
      (shared.reserved log) := (List.Sublist.refl _).append erase_sublist
  refine ⟨holds.rings, sent.1, sent.2, holds.distinct.sublist sublist, ?_,
    .inr ⟨caller, place, draft, pkt, rfl, buffer, assembling, free, inside⟩⟩
  intro other member
  exact Nat.lt_of_lt_of_le (holds.old other (sublist.subset member)) grown

theorem Holds.beginReply (holds : shared.Holds log) (alone : shared.opened = [])
    {req : TransportMarshal} (member : reqPkt ∈ shared.requests) (reqEq : req.reqData = some reqPkt)
    (caller : Nat) (xid : BitVec 64) (errorCode : BitVec 32) (data : ByteArea) :
    ∃ later, shared.step (.beginReply caller req xid errorCode data) =
      some ([], later) ∧ later.Holds log := by
  have reqOld : reqPkt < shared.pool.next := holds.old reqPkt (mem_append_right _ member)
  have free := holds.not_mem_erase member
  by_cases single : (shared.pool.mbuf reqPkt).data dataOffset = 0x09
  · obtain ⟨pool, m, eq, assembling, only⟩ := beginReply_assembling_st
      shared.sconn.currentReply shared.sconn.conn data xid errorCode reqEq single
    have begun : (⟨pool, { shared.sconn with currentReply := m }, shared.requests.erase reqPkt,
        [(caller, some reqPkt, ⟨xid, errorCode, []⟩)]⟩ : SharedConnection).Holds log := by
      refine holds.begun ?_ (by simp) (Nat.le_of_eq only.next.symm)
        (only.next ▸ reqOld) (fun other sent => ?_) free
      · rw [Draft.body_nil]
        exact assembling
      · exact only.mbuf other fun same =>
          free (same ▸ mem_append_left _ sent)
    refine ⟨_, ?_, begun⟩
    have st : isTypeSt shared.pool req = some true := by
      simp [isTypeSt, reqEq, single]
    simp only [step, UdpConnection.beginReply, st, reqEq, eq, alone, some_bind, if_true]
    rfl
  · obtain ⟨pool, m, eq, assembling, only⟩ := beginReply_assembling_bg
      shared.sconn.currentReply shared.sconn.conn data xid errorCode reqEq single
    have next : pool.next = shared.pool.next + 1 :=
      only.next.trans (shared.sconn.conn.next_getNewPkt _ _)
    have begun : (⟨pool, { shared.sconn with currentReply := m }, shared.requests.erase reqPkt,
        [(caller, none, ⟨xid, errorCode, []⟩)]⟩ : SharedConnection).Holds log := by
      refine holds.begun ?_ (by simp) (by omega)
        (show shared.pool.next < pool.next by omega) (fun other sent => ?_)
        (fun taken => holds.next_not_reserved (List.Sublist.subset
          ((List.Sublist.refl _).append erase_sublist) taken))
      · rw [Draft.body_nil]
        exact assembling
      · have ne := ne_of_sent holds.next_not_reserved sent
        rw [only.mbuf other ne, shared.sconn.conn.getNewPkt_of_ne _ _ ne]
    refine ⟨_, ?_, begun⟩
    have background : isTypeSt shared.pool req = some false := by
      simpa [isTypeSt, reqEq] using single
    simp only [step, UdpConnection.beginReply, background, reqEq, eq, alone, some_bind]
    rfl

theorem Holds.put (holds : shared.Holds log) {result : Argument}
    (allowed : shared.Allows (.put caller result)) (alone : shared.Alone (.put caller result)) :
    ∃ later, shared.step (.put caller result) = some ([], later) ∧
      later.Holds log := by
  rcases holds.current with none | ⟨owner, place, draft, pkt, openEq, buffer,
    assembling, free, inside⟩
  · rw [Allows, none] at allowed
    cases allowed
  rw [Allows, openEq] at allowed
  obtain rfl := eq_of_lookup_singleton allowed
  have fits : (draft.add result).Fits := alone (place, draft) (by simp [openEq])
  rw [Draft.Fits, Draft.body_add] at fits
  obtain ⟨pool, m, eq, added, only⟩ := UdpConnection.put_assembling assembling result fits
  have sent := holds.sent pool fun other member =>
    only.mbuf other (ne_of_sent free member)
  refine ⟨⟨pool, { shared.sconn with currentReply := m }, shared.requests,
    [(caller, place, draft.add result)]⟩, ?_, holds.rings, sent.1, sent.2,
    holds.distinct, fun other member => only.next ▸ holds.old other member,
    .inr ⟨caller, place, _, pkt, rfl, buffer, ?_, free, only.next ▸ inside⟩⟩
  · simp only [step, eq, some_bind, openEq, map_cons, map_nil, if_true]
    rfl
  · rw [Draft.body_add]
    exact added

theorem enqueuedBodies_append (log : List ReplyEvent) (event : ReplyEvent) :
    enqueuedBodies (log ++ [event]) = enqueuedBodies log ++ enqueuedBodies [event] :=
  filterMap_append

theorem placedPkts_append (log : List ReplyEvent) (event : ReplyEvent) :
    placedPkts (log ++ [event]) = placedPkts log ++ placedPkts [event] := filterMap_append

theorem Holds.endReply (holds : shared.Holds log) {tries : Nat}
    (allowed : shared.Allows (.endReply caller tries)) :
    ∃ event later, shared.step (.endReply caller tries) =
      some ([event], later) ∧ later.Holds (log ++ [event]) := by
  rcases holds.current with none | ⟨owner, place, draft, pkt, openEq, buffer,
    assembling, free, inside⟩
  · rw [Allows, none] at allowed
    cases allowed
  rw [Allows, openEq] at allowed
  obtain rfl := eq_of_lookup_singleton allowed
  cases place with
  | none =>
    obtain ⟨pool, m, number, eq, carries, only⟩ :=
      UdpConnection.endReply_bg holds.rings assembling tries
    have sent := holds.sent pool fun other member =>
      only.mbuf other (ne_of_sent free member)
    let later : SharedConnection := ⟨pool, { shared.sconn with
        currentReply := m
        outBufring := shared.sconn.outBufring ++ [(number, pkt)] },
      shared.requests, []⟩
    have perm : (pkt :: shared.reserved log).Perm (later.reserved (log ++ [.enqueued draft])) := by
      have none : placedPkts [.enqueued draft] = [] := rfl
      simp only [later, reserved, sentPkts, placedPkts_append, none,
        map_append, map_cons, map_nil, append_nil, append_assoc, cons_append, nil_append]
      exact perm_middle.symm
    have more := holds.reserve perm free (only.next ▸ inside) (Nat.le_of_eq only.next.symm)
    refine ⟨.enqueued draft, later, ?_, holds.rings, ?_, ?_, more.1, more.2, .inl rfl⟩
    · simp only [step, eq, some_bind, openEq]
      simp [later]
    · rw [enqueuedBodies_append]
      exact sent.1.enqueue number (fun member => free
        (mem_append_left _ (mem_append_left _ member))) carries
    · intro other reply member
      rcases mem_append.mp member with old | new
      · exact sent.2 other reply old
      · cases mem_singleton.mp new
  | some place =>
    obtain rfl := buffer place rfl
    obtain ⟨pool, m, eq, carries, only⟩ := UdpConnection.endReply_st assembling tries
    have sent := holds.sent pool fun other member =>
      only.mbuf other (ne_of_sent free member)
    let later : SharedConnection := ⟨pool, { shared.sconn with
        currentReply := m }, shared.requests, []⟩
    have perm : (place :: shared.reserved log).Perm
        (later.reserved (log ++ [.inPlace place draft])) := by
      have one : placedPkts [.inPlace place draft] = [place] := rfl
      simp only [later, reserved, sentPkts, placedPkts_append, one, append_assoc, singleton_append]
      rw [← append_assoc, ← append_assoc]
      exact perm_middle.symm
    have more := holds.reserve perm free (only.next ▸ inside) (Nat.le_of_eq only.next.symm)
    refine ⟨.inPlace place draft, later, ?_, holds.rings, ?_, ?_, more.1, more.2, .inl rfl⟩
    · simp only [step, eq, some_bind, openEq]
      simp [later]
    · rw [enqueuedBodies_append]
      simpa [enqueuedBodies] using sent.1
    · intro other reply member
      rcases mem_append.mp member with old | new
      · exact sent.2 other reply old
      · cases mem_singleton.mp new
        exact carries

/-- Calls that do not overlap keep the replies apart. -/
theorem Holds.step (holds : shared.Holds log) (call : ReplyCall)
    (allowed : shared.Allows call ∧ shared.Alone call) :
    ∃ events later, shared.step call = some (events, later) ∧
      later.Holds (log ++ events) := by
  cases call with
  | receive data =>
    obtain ⟨later, eq, kept⟩ := holds.receive data
    exact ⟨[], later, eq, by simpa using kept⟩
  | beginReply caller req xid errorCode data =>
    obtain ⟨⟨_, reqPkt, member, reqEq⟩, alone⟩ := allowed
    obtain ⟨later, eq, kept⟩ := holds.beginReply alone member reqEq caller xid errorCode data
    exact ⟨[], later, eq, by simpa using kept⟩
  | put caller result =>
    obtain ⟨later, eq, kept⟩ := holds.put allowed.1 allowed.2
    exact ⟨[], later, eq, by simpa using kept⟩
  | endReply caller tries =>
    obtain ⟨event, later, rest⟩ := holds.endReply allowed.1
    exact ⟨[event], later, rest⟩

end SharedConnection

end SRPC.Dpdk
