import SRPC.UdpCalls

/-!
# Requests that do not overlap

As long as no request is begun before the last one is ended, the packet in
`current_req` is the one its caller means.
-/

namespace SRPC.Dpdk

open LittleEndian Marshalling TransportMarshal

theorem eq_of_lookup_singleton {α : Type} {caller owner : Nat} {item : α}
    (found : (List.lookup caller [(owner, item)]).isSome) : caller = owner := by
  by_contra ne
  have differs : (caller == owner) = false := by simpa using ne
  simp [List.lookup_cons, differs] at found

namespace UdpClient

variable {client : UdpClient} {pool : Pool} {conn : TransportConnection}
  {pkt : Nat} {body : List Byte}

theorem beginRequest_connected (pool : Pool) (connected : client.status = .connected)
    (connEq : client.conn = some conn) (data : ByteArea) (rpcId : BitVec 32) :
    ∃ later currentReq, client.beginRequest pool data rpcId =
        some (some client.futures.length, later, { client.newFuture with
          currentReq := currentReq, currentXid := client.xidCounter }) ∧
      Assembling later currentReq pool.next 0x09 (idBytes client.xidCounter rpcId) ∧
      (conn.getNewPkt pool data).2.OnlyChanges pool.next later := by
  obtain ⟨later, m, eq, assembling, only⟩ := beginRequest_assembling
    (conn.getNewPkt pool data).2 client.currentReq pool.next client.xidCounter rpcId
  refine ⟨later, m, ?_, assembling, only⟩
  have first : (conn.getNewPkt pool data).1 = pool.next := rfl
  simp only [beginRequest, connected, if_true, connEq, first, eq, some_bind]
  rfl

theorem put_connected (connected : client.status = .connected)
    (assembling : Assembling pool client.currentReq pkt 0x09 body) (argument : Argument)
    (room : bodyOffset + (body ++ encodeArgument argument).length ≤ dataRoom) :
    ∃ later currentReq, client.put pool argument =
        some (later, { client with currentReq := currentReq }) ∧
      Assembling later currentReq pkt 0x09 (body ++ encodeArgument argument) ∧
      pool.OnlyChanges pkt later := by
  obtain ⟨later, m, eq, rest⟩ := assembling.does (put_writes argument.type argument.value) room
  have putEq : putArgument argument (pool, client.currentReq) = some ((), later, m) := eq
  refine ⟨later, m, ?_, rest⟩
  simp only [put, connected, if_true, putEq, some_bind]
  rfl

theorem endRequest_assembling (rings : 0 < client.nrInrings)
    (assembling : Assembling pool client.currentReq pkt 0x09 body) (tries : Nat) :
    ∃ later currentReq number, client.endRequest pool tries =
        some (later, { client with
          currentReq := currentReq
          outBufring := client.outBufring ++ [(number, pkt)] }) ∧
      (later.mbuf pkt).Carries 0x09 body ∧ pool.OnlyChanges pkt later := by
  obtain ⟨later, eq, rest⟩ := assembling.format
  refine ⟨later, client.currentReq.padded,
    (client.currentXid.toNat + tries) % client.nrInrings, ?_, rest⟩
  have buffer : client.currentReq.padded.reqData = some pkt := by
    rw [assembling.marshal]
    rfl
  simp only [endRequest, eq, some_bind, guard, rings, if_true, buffer]
  rfl

end UdpClient

namespace SharedClient

/-- At most one request is begun, and it is assembled in a buffer that is not
enqueued. -/
structure Holds (log : List Draft) (shared : SharedClient) : Prop where
  connected : shared.client.status = .connected
  conn : shared.client.conn ≠ none
  rings : 0 < shared.client.nrInrings
  delivers : Delivers shared.pool 0x09 shared.client.outBufring (log.map Draft.body)
  old : ∀ pkt ∈ shared.client.outBufring.map Prod.snd, pkt < shared.pool.next
  current : shared.opened = [] ∨ ∃ caller draft pkt, shared.opened = [(caller, draft)] ∧
    Assembling shared.pool shared.client.currentReq pkt 0x09 draft.body ∧
    pkt ∉ shared.client.outBufring.map Prod.snd ∧ pkt < shared.pool.next

variable {log : List Draft} {shared : SharedClient}

theorem Holds.beginRequest (holds : shared.Holds log)
    (alone : shared.opened = []) (caller : Nat) (rpcId : BitVec 32) (data : ByteArea) :
    ∃ later, shared.step (.beginRequest caller rpcId data) =
      some ([], later) ∧ later.Holds log := by
  obtain ⟨conn, connEq⟩ := Option.ne_none_iff_exists'.mp holds.conn
  obtain ⟨pool, m, eq, assembling, only⟩ := UdpClient.beginRequest_connected
    shared.pool holds.connected connEq data rpcId
  have next : pool.next = shared.pool.next + 1 := only.next.trans (conn.next_getNewPkt _ _)
  have fresh : shared.pool.next ∉ shared.client.outBufring.map Prod.snd :=
    fun member => absurd (holds.old _ member) (Nat.lt_irrefl _)
  refine ⟨⟨pool, { shared.client.newFuture with
      currentReq := m, currentXid := shared.client.xidCounter },
    [(caller, ⟨shared.client.xidCounter, rpcId, []⟩)]⟩, ?_,
    ⟨holds.connected, holds.conn, holds.rings, holds.delivers.later ?_, ?_,
      .inr ⟨caller, _, _, rfl, ?_, fresh, ?_⟩⟩⟩
  · simp only [step, eq, some_bind, alone]
    rfl
  · intro pkt member
    have ne : pkt ≠ shared.pool.next := fun same => fresh (same ▸ member)
    rw [only.mbuf pkt ne, conn.getNewPkt_of_ne _ _ ne]
  · intro pkt member
    have before := holds.old pkt member
    show pkt < pool.next
    omega
  · simpa [Draft.body] using assembling
  · show shared.pool.next < pool.next
    omega

variable {caller : Nat}

theorem Holds.put (holds : shared.Holds log) {argument : Argument}
    (allowed : shared.Allows (.put caller argument)) (alone : shared.Alone (.put caller argument)) :
    ∃ later, shared.step (.put caller argument) = some ([], later) ∧
      later.Holds log := by
  rcases holds.current with none | ⟨owner, draft, pkt, openEq, assembling, fresh, inside⟩
  · rw [Allows, none] at allowed
    cases allowed
  rw [Allows, openEq] at allowed
  obtain rfl := eq_of_lookup_singleton allowed
  have fits : (draft.add argument).Fits := alone draft (by simp [openEq])
  rw [Draft.Fits, Draft.body_add] at fits
  obtain ⟨pool, m, eq, added, only⟩ :=
    UdpClient.put_connected holds.connected assembling argument fits
  refine ⟨⟨pool, { shared.client with currentReq := m }, [(caller, draft.add argument)]⟩, ?_,
    ⟨holds.connected, holds.conn, holds.rings, holds.delivers.later ?_, ?_,
      .inr ⟨caller, _, pkt, rfl, ?_, fresh, ?_⟩⟩⟩
  · simp only [step, eq, some_bind, openEq, List.map_cons, List.map_nil, if_true]
    rfl
  · exact fun other member =>
      only.mbuf other fun same => fresh (same ▸ member)
  · exact fun other member => only.next ▸ holds.old other member
  · rw [Draft.body_add]
    exact added
  · exact only.next ▸ inside

theorem Holds.endRequest (holds : shared.Holds log) {tries : Nat}
    (allowed : shared.Allows (.endRequest caller tries)) :
    ∃ draft later, shared.step (.endRequest caller tries) =
      some ([draft], later) ∧ later.Holds (log ++ [draft]) := by
  rcases holds.current with none | ⟨owner, draft, pkt, openEq, assembling, fresh, inside⟩
  · rw [Allows, none] at allowed
    cases allowed
  rw [Allows, openEq] at allowed
  obtain rfl := eq_of_lookup_singleton allowed
  obtain ⟨pool, m, number, eq, carries, only⟩ :=
    UdpClient.endRequest_assembling holds.rings assembling tries
  have kept : Delivers pool 0x09 shared.client.outBufring (log.map Draft.body) :=
    holds.delivers.later fun other member =>
      only.mbuf other fun same => fresh (same ▸ member)
  refine ⟨draft, ⟨pool, { shared.client with
      currentReq := m
      outBufring := shared.client.outBufring ++ [(number, pkt)] }, []⟩, ?_,
    ⟨holds.connected, holds.conn, holds.rings, ?_, ?_, .inl rfl⟩⟩
  · simp only [step, eq, some_bind, openEq]
    simp
  · rw [List.map_append]
    exact kept.enqueue number fresh carries
  · intro other member
    simp only [List.map_append, List.map_cons, List.map_nil, List.mem_append,
      List.mem_singleton] at member
    show other < pool.next
    rw [only.next]
    rcases member with old | rfl
    · exact holds.old other old
    · exact inside

/-- Calls that do not overlap keep the requests apart. -/
theorem Holds.step (holds : shared.Holds log) (call : RequestCall)
    (allowed : shared.Allows call ∧ shared.Alone call) :
    ∃ drafts later, shared.step call = some (drafts, later) ∧
      later.Holds (log ++ drafts) := by
  cases call with
  | beginRequest caller rpcId data =>
    obtain ⟨later, eq, kept⟩ := holds.beginRequest allowed.2 caller rpcId data
    exact ⟨[], later, eq, by simpa using kept⟩
  | put caller argument =>
    obtain ⟨later, eq, kept⟩ := holds.put allowed.1 allowed.2
    exact ⟨[], later, eq, by simpa using kept⟩
  | endRequest caller tries =>
    obtain ⟨draft, later, rest⟩ := holds.endRequest allowed.1
    exact ⟨[draft], later, rest⟩

end SharedClient

end SRPC.Dpdk
