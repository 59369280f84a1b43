import SRPC.HandshakeSteps

/-!
# Agreement on connections

A client for which `connect` has returned and the server look each other up under
the same entry.
-/

namespace SRPC.Dpdk

open LittleEndian

namespace Hosts

/-- The server has one connection for every id it has received: one entry in
each table, and one place in the ring of each thread. -/
structure OneConnection (network : Network) (log : List HandshakeEvent)
    (server : ServerTables) : Prop where
  accepted : ∀ id, .con id ∈ log →
    ∃ (index : Nat) (conn : TransportConnection), server.conns[index]? = some conn ∧
      id = dialledId network conn.outAddr.ip conn.outAddr.port ∧
      server.accepted id = some conn.connId ∧
      server.outConnections conn.connId = some index ∧
      (server.smRings.map fun ring => ring.count index) = List.replicate network.numThreads 1
  nothingElse : ∀ id, .con id ∉ log → server.accepted id = none
  created : ∀ {index : Nat} {conn}, server.conns[index]? = some conn →
    .con (dialledId network conn.outAddr.ip conn.outAddr.port) ∈ log
  unique : ∀ {index other : Nat} {conn second : TransportConnection},
    server.conns[index]? = some conn → server.conns[other]? = some second →
    second.outAddr.ip = conn.outAddr.ip → second.outAddr.port = conn.outAddr.port → other = index
  entry : ∀ {key index}, server.outConnections key = some index →
    ∃ conn, server.conns[index]? = some conn ∧ conn.connId = key

/-- A client and the server find each other: the packets either sends are
looked up by the other under its own entry. -/
structure Agrees (network : Network) (hosts : Hosts) (index : Nat)
    (client : DialledConnection) (place : Nat) (peer : TransportConnection) : Prop where
  found : hosts.server.conns[place]? = some peer
  toIp : peer.outAddr.ip = client.conn.srcAddr.ip
  toPort : peer.outAddr.port = client.conn.udpPort
  returnedId : client.conn.connId = connIdOf network.server.ip
    (swap16 peer.udpPort) (swap16 client.conn.udpPort)
  serverId : peer.connId = connIdOf client.conn.srcAddr.ip
    (swap16 client.conn.udpPort) (swap16 peer.udpPort)
  entry : hosts.tables client.conn.srcAddr.ip client.conn.connId = some index
  serverEntry : hosts.server.outConnections peer.connId = some place
  atServer : ∀ message, (client.conn.packet message).dstIp = network.server.ip ∧
      (client.conn.packet message).connId = peer.connId
  atClient : ∀ message, (peer.packet message).dstIp = client.conn.srcAddr.ip ∧
      (peer.packet message).connId = client.conn.connId

/-- Both ends know each other, and no clients share a connection. -/
structure Agreement (network : Network) (log : List HandshakeEvent) (hosts : Hosts) : Prop where
  one : OneConnection network log hosts.server
  returned : ∀ {index id}, .connected index id ∈ log →
    ∃ client place peer, hosts.clients[index]? = some client ∧
      client.conn.connId = id ∧ hosts.Agrees network index client place peer
  notShared : ∀ {index other client second place peer}, hosts.clients[index]? = some client →
    hosts.clients[other]? = some second →
    hosts.Agrees network index client place peer →
    (∃ peer, hosts.Agrees network other second place peer) → other = index

variable {network : Network} {log : List HandshakeEvent} {hosts : Hosts} {index : Nat}
  {client : DialledConnection}

theorem Agrees.connId_eq {place : Nat} {peer : TransportConnection}
    (agrees : hosts.Agrees network index client place peer) :
    client.conn.connId = connIdOf network.server.ip
      (swap16 client.conn.outAddr.port) (swap16 client.conn.udpPort) := by
  have sent := (agrees.atServer .con).2.trans agrees.serverId
  rw [Packet.connId, connIdOf_inj] at sent
  rw [agrees.returnedId, ← sent.2.2]
  rfl

theorem Holds.one (holds : hosts.Holds network log) : OneConnection network log hosts.server := by
  refine ⟨fun id arrived => ?_, fun id missing => ?_, fun {index conn} found => ?_,
    holds.server.unique, holds.server.entry⟩
  · obtain ⟨key, accepted⟩ := Option.ne_none_iff_exists'.mp ((holds.arrived id).mp arrived)
    obtain ⟨index, conn, found, rfl, rfl⟩ := holds.server.accepted accepted
    have inside := lt_of_getElem? found
    refine ⟨index, conn, found, rfl, accepted, (holds.server.entered found).entry, ?_⟩
    rw [holds.server.rings, List.map_replicate,
      List.count_eq_one_of_mem List.nodup_range (List.mem_range.mpr inside)]
  · by_contra present
    exact missing ((holds.arrived id).mpr present)
  · rw [holds.arrived, (holds.server.entered found).accepted]
    simp

/-- Both ends find each other under one entry. -/
theorem Holds.agrees (holds : hosts.Holds network log) (found : hosts.clients[index]? = some client)
    (returned : client.phase = .returned) :
    ∃ place peer, hosts.Agrees network index client place peer := by
  have state := holds.clients client (List.mem_of_getElem? found)
  have acked : client.conn.connected = true := by
    by_contra waits
    exact (state.waiting (by simpa using waits)).2 returned
  obtain ⟨peer, member, toIp, toPort, assigned⟩ := state.served acked
  obtain ⟨place, foundPeer⟩ := List.getElem?_of_mem member
  have entered := holds.server.entered foundPeer
  have returnedId : client.conn.connId = connIdOf network.server.ip
      (swap16 peer.udpPort) (swap16 client.conn.udpPort) := by
    rw [state.id, DialledConnection.keyPort, if_pos returned, ← assigned]
    rfl
  have serverId : peer.connId = connIdOf client.conn.srcAddr.ip
      (swap16 client.conn.udpPort) (swap16 peer.udpPort) := by
    rw [entered.id, toIp, toPort]
    rfl
  refine ⟨place, peer, ⟨foundPeer, toIp, toPort, returnedId, serverId,
    holds.entered found, entered.entry, fun message => ⟨state.peer, ?_⟩, fun message => ⟨toIp, ?_⟩⟩⟩
  · rw [serverId, assigned]
    rfl
  · rw [returnedId, ← toPort]
    simp [Packet.connId, TransportConnection.packet, entered.source]

theorem Holds.agreement (holds : hosts.Holds network log) : hosts.Agreement network log := by
  refine ⟨holds.one, fun {index id} reported => ?_, ?_⟩
  · obtain ⟨client, found, returned, idEq⟩ := holds.reported reported
    obtain ⟨place, peer, agrees⟩ := holds.agrees found returned
    exact ⟨client, place, peer, found, idEq, agrees⟩
  · rintro index other client second place peer found foundOther agrees ⟨samePeer, agreesToo⟩
    obtain rfl := Option.some.inj (agrees.found.symm.trans agreesToo.found)
    exact holds.distinct found foundOther (agreesToo.toIp.symm.trans agrees.toIp)
      (agreesToo.toPort.symm.trans agrees.toPort)

end Hosts

open TransitionRuns

/-- The steps of a run in which no client sends a `CON` packet after it was
acknowledged. -/
def Hosts.AllowsTimely (network : Network) (hosts : Hosts) (input : HandshakeInput) : Prop :=
  hosts.Allows network input ∧ hosts.Timely input

instance Hosts.decidableAllowsTimely (network : Network) (hosts : Hosts)
    (input : HandshakeInput) : Decidable (hosts.AllowsTimely network input) :=
  inferInstanceAs (Decidable (_ ∧ _))

/-- Whatever is sent again, lost, duplicated and reordered, the server and the
clients agree after every run, and what the server has assigned stays. -/
theorem handshake_agreement (network : Network) (first second : List HandshakeInput)
    (admissible : Admissible (Hosts.step network) (Hosts.AllowsTimely network)
      (Hosts.new network.numThreads) (first ++ second)) :
    ∃ earlier middle later last, run (Hosts.step network) (Hosts.new network.numThreads) first =
        some (earlier, middle) ∧
      run (Hosts.step network) middle second = some (later, last) ∧
      middle.Agreement network earlier ∧
      last.Agreement network (earlier ++ later) ∧
      middle.server.Extends last.server := by
  have preserved : ∀ (base : ServerTables) log hosts input,
      (Hosts.Holds network log hosts ∧ base.Extends hosts.server) →
      hosts.AllowsTimely network input →
      ∃ events next, hosts.step network input = some (events, next) ∧
        (Hosts.Holds network (log ++ events) next ∧
          base.Extends next.server) := by
    rintro base log hosts input ⟨holds, kept⟩ allowed
    obtain ⟨events, next, eq, nextHolds, more⟩ := holds.step input allowed
    exact ⟨events, next, eq, nextHolds, kept.trans more⟩
  have split := admissible_append admissible
  obtain ⟨earlier, middle, firstEq, holds, -⟩ := run_of_admissible
    (preserved _) [] ⟨Hosts.holds_new network, .refl _⟩ first split.1
  obtain ⟨later, last, secondEq, lastHolds, kept⟩ := run_of_admissible
    (preserved _) earlier ⟨holds, .refl _⟩ second (split.2 _ _ firstEq)
  exact ⟨earlier, middle, later, last, firstEq, secondEq, holds.agreement,
    lastHolds.agreement, kept⟩

def lateNetwork : Network := ⟨⟨Vector.replicate 6 0, 1, 8701⟩, fun _ => Vector.replicate 6 0, 1⟩

/-- Two clients of one host and one of another.  Their packets are sent again,
duplicated and reordered. -/
def crossedInputs : List HandshakeInput :=
  [.dial 2, .dial 3, .dial 2, .advance 0, .advance 1, .advance 2, .deliver 1,
    .deliver 0, .deliver 0, .deliver 3] ++ List.replicate 7 (.advance 2) ++
  [.deliver 2, .deliver 4, .deliver 4, .deliver 6, .advance 0, .advance 1, .advance 2]

theorem handshake_agreement_crossed :
    ∃ earlier middle later last, run (Hosts.step lateNetwork) (Hosts.new 1) crossedInputs =
        some (earlier, middle) ∧
      run (Hosts.step lateNetwork) middle [.deliver 4, .deliver 6, .deliver 2] =
        some (later, last) ∧
      middle.Agreement lateNetwork earlier ∧
      last.Agreement lateNetwork (earlier ++ later) ∧
      middle.server.Extends last.server :=
  handshake_agreement lateNetwork crossedInputs
    [.deliver 4, .deliver 6, .deliver 2] (by decide +kernel)

/-- The acknowledgement arrives in the third `usleep`.  The packet that is sent
again is accepted as a second connection, and then a copy of the first
acknowledgement arrives. -/
def lateInputs : List HandshakeInput :=
  [.dial 2, .advance 0, .deliver 0] ++ List.replicate 5 (.advance 0) ++
    [.deliver 1, .advance 0, .advance 0, .deliver 2, .deliver 3, .advance 0, .deliver 1]

/-- The client then sends to the first connection under the id of the
second. -/
theorem late_acknowledgement_moves_client :
    Admissible (Hosts.step lateNetwork) (Hosts.Allows lateNetwork) (Hosts.new 1) lateInputs ∧
    ∃ log hosts, run (Hosts.step lateNetwork) (Hosts.new 1) lateInputs =
        some (log, hosts) ∧ ¬ hosts.Agreement lateNetwork log := by
  refine ⟨(by decide +kernel), ?_⟩
  have observed : (run (Hosts.step lateNetwork) (Hosts.new 1) lateInputs).map
      (fun result => (decide (.connected 0 0x00000001fd212823 ∈ result.1),
        result.2.clients.map fun client =>
          (client.conn.outAddr.port, client.conn.udpPort))) =
        some (true, [(8700, 9000)]) := by decide +kernel
  obtain ⟨⟨log, hosts⟩, runEq, seen⟩ := Option.map_eq_some_iff.mp observed
  simp only [Prod.mk.injEq, decide_eq_true_eq] at seen
  refine ⟨log, hosts, runEq, fun agreement => ?_⟩
  obtain ⟨client, place, peer, found, idEq, agrees⟩ := agreement.returned seen.1
  have ports : (hosts.clients.map fun client =>
      (client.conn.outAddr.port, client.conn.udpPort))[0]? =
        some (client.conn.outAddr.port, client.conn.udpPort) := by
    simp [found]
  simp only [seen.2, List.getElem?_cons_zero, Option.some.injEq, Prod.mk.injEq] at ports
  have connIdEq := agrees.connId_eq
  rw [idEq, ← ports.1, ← ports.2] at connIdEq
  exact absurd connIdEq (by decide)

end SRPC.Dpdk
