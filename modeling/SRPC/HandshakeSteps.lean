import SRPC.HandshakeInvariant

/-! # The steps of the handshake -/

namespace SRPC.Dpdk

open LittleEndian List

namespace Hosts

variable {network : Network} {log : List HandshakeEvent} {hosts : Hosts} {ip : BitVec 32}

theorem dialled_holds (network : Network) (hosts : Hosts) (outside : ip ≠ network.server.ip) :
    (⟨hosts.dialled network ip, .sending⟩ : DialledConnection).Holds network hosts.server := by
  refine ⟨outside, rfl, ?_, ?_, ?_⟩
  · simp [dialled, assignedId, DialledConnection.keyPort]
  · simp [dialled]
  · simp [dialled]

theorem Holds.dial (holds : hosts.Holds network log) (outside : ip ≠ network.server.ip)
    (fresh : ∀ client ∈ hosts.clients,
      ¬ (client.conn.srcAddr.ip = ip ∧
        client.conn.udpPort = (hosts.uPortCounter ip).setWidth 16)) :
    (hosts.dial network ip).Holds network log := by
  have grown : ∀ client ∈ hosts.clients, (hosts.dial network ip).Known
      client.conn.srcAddr.ip client.conn.udpPort := fun client member =>
    ⟨client, mem_append_left _ member, rfl, rfl⟩
  have last : (hosts.dial network ip).clients[hosts.clients.length]? =
      some ⟨hosts.dialled network ip, .sending⟩ := by simp [Hosts.dial]
  -- An id of another client on the host has another port in it.
  have differs {index : Nat} {client : DialledConnection}
      (found : hosts.clients[index]? = some client) :
      client.conn.srcAddr.ip ≠ ip ∨
        client.conn.connId ≠ (hosts.dialled network ip).connId := by
    have member := mem_of_getElem? found
    by_contra! same
    refine fresh client member ⟨same.1, ?_⟩
    have idEq := same.2
    rw [(holds.clients client member).id] at idEq
    exact (assignedId_inj.mp idEq).2.2
  refine ⟨holds.server, holds.arrived, fun conn member => (holds.known conn member).later grown,
    fun packet member => (holds.sent packet member).later grown fun _ => id, ?_, ?_, ?_, ?_, ?_⟩
  · exact forall_mem_concat holds.clients (dialled_holds network hosts outside)
  · intro index other client second found foundOther sameIp samePort
    rcases getElem?_concat_eq_some found with old | ⟨rfl, rfl⟩ <;>
      rcases getElem?_concat_eq_some foundOther with oldOther | ⟨rfl, rfl⟩
    · exact holds.distinct old oldOther sameIp samePort
    · exact absurd ⟨sameIp.symm, samePort.symm⟩ (fresh client (mem_of_getElem? old))
    · exact absurd ⟨sameIp, samePort⟩ (fresh second (mem_of_getElem? oldOther))
    · rfl
  · intro index client found
    rcases getElem?_concat_eq_some found with old | ⟨rfl, rfl⟩
    · exact (setEntry_of_ne hosts _ (differs old)).trans (holds.entered old)
    · exact setEntry_self ..
  · intro host key index found
    by_cases same : host = ip ∧ key = (hosts.dialled network ip).connId
    · obtain ⟨rfl, rfl⟩ := same
      obtain rfl := Option.some.inj ((setEntry_self ..).symm.trans found)
      exact ⟨_, last, rfl, rfl⟩
    · rw [not_and_or] at same
      obtain ⟨client, foundOld, rest⟩ := holds.entry
        ((setEntry_of_ne hosts _ same).symm.trans found)
      exact ⟨client, getElem?_append_of_some _ foundOld, rest⟩
  · intro index id reported
    obtain ⟨client, found, rest⟩ := holds.reported reported
    exact ⟨client, getElem?_append_of_some _ found, rest⟩

variable {index : Nat} {client : DialledConnection}

section

variable (holds : hosts.Holds network log)

include holds

theorem Holds.replace (changed : DialledConnection) (tables : BitVec 32 → BitVec 64 → Option Nat)
    (found : hosts.clients[index]? = some client)
    (sameIp : changed.conn.srcAddr.ip = client.conn.srcAddr.ip)
    (samePort : changed.conn.udpPort = client.conn.udpPort)
    (state : changed.Holds network hosts.server)
    (others : ∀ ip key other, other ≠ index →
      (tables ip key = some other ↔ hosts.tables ip key = some other))
    (own : ∀ ip key, tables ip key = some index ↔
      changed.conn.srcAddr.ip = ip ∧ changed.conn.connId = key)
    (final : client.phase = .returned →
      changed.phase = .returned ∧ changed.conn.connId = client.conn.connId) :
    ({ hosts with
      tables := tables
      clients := hosts.clients.set index changed } : Hosts).Holds network log := by
  have inside := lt_of_getElem? found
  have new : (hosts.clients.set index changed)[index]? = some changed := getElem?_set_self inside
  have old {other : Nat} {second : DialledConnection} (differs : other ≠ index)
      (foundOther : hosts.clients[other]? = some second) :
      (hosts.clients.set index changed)[other]? = some second := by
    rw [getElem?_set_ne differs.symm, foundOther]
  have grown : ∀ second ∈ hosts.clients, ∃ third ∈ hosts.clients.set index changed,
        third.conn.srcAddr.ip = second.conn.srcAddr.ip ∧
        third.conn.udpPort = second.conn.udpPort := by
    intro second member
    obtain ⟨other, foundOther⟩ := getElem?_of_mem member
    by_cases same : other = index
    · subst same
      obtain rfl := Option.some.inj (found.symm.trans foundOther)
      exact ⟨changed, mem_of_getElem? new, sameIp, samePort⟩
    · exact ⟨second, mem_of_getElem? (old same foundOther), rfl, rfl⟩
  have before {other : Nat} {second : DialledConnection}
      (foundOther : (hosts.clients.set index changed)[other]? = some second) :
      ∃ third, hosts.clients[other]? = some third ∧
        second.conn.srcAddr.ip = third.conn.srcAddr.ip ∧
        second.conn.udpPort = third.conn.udpPort := by
    rcases getElem?_set_eq_some foundOther with ⟨rfl, rfl⟩ | ⟨_, foundOld⟩
    · exact ⟨client, found, sameIp, samePort⟩
    · exact ⟨second, foundOld, rfl, rfl⟩
  refine ⟨holds.server, holds.arrived, fun conn member => (holds.known conn member).later grown,
    fun packet member => (holds.sent packet member).later grown fun _ => id, ?_, ?_, ?_, ?_, ?_⟩
  · intro second member
    rcases mem_or_eq_of_mem_set member with there | rfl
    · exact holds.clients second there
    · exact state
  · intro first other one second foundOne foundOther ipEq portEq
    obtain ⟨third, foundThird, thirdIp, thirdPort⟩ := before foundOne
    obtain ⟨fourth, foundFourth, fourthIp, fourthPort⟩ := before foundOther
    exact holds.distinct foundThird foundFourth
      (by rw [← fourthIp, ipEq, thirdIp]) (by rw [← fourthPort, portEq, thirdPort])
  · intro other second foundOther
    rcases getElem?_set_eq_some foundOther with ⟨rfl, rfl⟩ | ⟨differs, foundOld⟩
    · exact (own _ _).mpr ⟨rfl, rfl⟩
    · exact (others _ _ _ differs).mpr (holds.entered foundOld)
  · intro ip key other entry
    by_cases same : other = index
    · subst same
      exact ⟨changed, new, (own _ _).mp entry⟩
    · obtain ⟨second, foundOther, rest⟩ := holds.entry ((others _ _ _ same).mp entry)
      exact ⟨second, old same foundOther, rest⟩
  · intro other id reported
    obtain ⟨second, foundOther, returned, idEq⟩ := holds.reported reported
    by_cases same : other = index
    · subst same
      obtain rfl := Option.some.inj (found.symm.trans foundOther)
      exact ⟨changed, new, (final returned).1, (final returned).2.trans idEq⟩
    · exact ⟨second, old same foundOther, returned, idEq⟩

theorem Holds.table_iff (found : hosts.clients[index]? = some client) (ip : BitVec 32)
    (key : BitVec 64) :
    hosts.tables ip key = some index ↔
      client.conn.srcAddr.ip = ip ∧ client.conn.connId = key := by
  constructor
  · intro entry
    obtain ⟨other, foundOther, rest⟩ := holds.entry entry
    obtain rfl := Option.some.inj (found.symm.trans foundOther)
    exact rest
  · rintro ⟨rfl, rfl⟩
    exact holds.entered found

theorem Holds.update (changed : DialledConnection) (found : hosts.clients[index]? = some client)
    (sameIp : changed.conn.srcAddr.ip = client.conn.srcAddr.ip)
    (samePort : changed.conn.udpPort = client.conn.udpPort)
    (sameId : changed.conn.connId = client.conn.connId) (state : changed.Holds network hosts.server)
    (final : client.phase = .returned → changed.phase = .returned) :
    ({ hosts with
      clients := hosts.clients.set index changed } : Hosts).Holds network log := by
  refine holds.replace changed hosts.tables found sameIp samePort state
    (fun _ _ _ _ => Iff.rfl) (fun ip key => ?_) (fun returned => ⟨final returned, sameId⟩)
  rw [sameIp, sameId]
  exact holds.table_iff found ip key

theorem Holds.goto (phase : Phase) (found : hosts.clients[index]? = some client)
    (running : client.phase ≠ .returned) (stays : phase ≠ .returned) :
    ({ hosts with
      clients := hosts.clients.set index ⟨client.conn, phase⟩ } : Hosts).Holds network log := by
  have state := holds.clients client (mem_of_getElem? found)
  refine holds.update ⟨client.conn, phase⟩ found rfl rfl rfl
    ⟨state.host, state.peer, ?_, ?_, state.served⟩ (fun returned => absurd returned running)
  · have idEq := state.id
    simp only [DialledConnection.keyPort, running, stays, if_false] at idEq ⊢
    exact idEq
  · exact fun waits => ⟨(state.waiting waits).1, stays⟩

theorem Holds.send {packet : Packet} (issued : hosts.Issued network packet) :
    ({ hosts with sent := hosts.sent ++ [packet] } : Hosts).Holds network log := by
  have known : ∀ client ∈ hosts.clients, hosts.Known client.conn.srcAddr.ip
      client.conn.udpPort := fun client member => ⟨client, member, rfl, rfl⟩
  refine ⟨holds.server, holds.arrived, holds.known, ?_, holds.clients,
    holds.distinct, holds.entered, holds.entry, holds.reported⟩
  exact forall_mem_concat (fun other old => (holds.sent other old).later known fun _ => id)
    (issued.later known fun _ => id)

theorem Holds.report (found : hosts.clients[index]? = some client)
    (returned : client.phase = .returned) :
    hosts.Holds network (log ++ [.connected index client.conn.connId]) := by
  refine { holds with arrived := ?_, reported := ?_ }
  · intro id
    rw [← holds.arrived]
    simp
  · intro other id reported
    rcases mem_append.mp reported with old | new
    · exact holds.reported old
    · rw [mem_singleton, HandshakeEvent.connected.injEq] at new
      obtain ⟨rfl, rfl⟩ := new
      exact ⟨client, found, returned, rfl⟩

end

def moveEntry (hosts : Hosts) (ip : BitVec 32) (id other : BitVec 64)
    (entry : Nat) : BitVec 32 → BitVec 64 → Option Nat :=
  ({ hosts with tables := hosts.setEntry ip id none } : Hosts).setEntry ip other (some entry)

variable {id other : BitVec 64} {entry : Nat}

theorem moveEntry_apply (hosts : Hosts) (ip host : BitVec 32) (id other key : BitVec 64)
    (entry : Nat) : hosts.moveEntry ip id other entry host key =
      if host = ip ∧ key = other then some entry
      else if host = ip ∧ key = id then none else hosts.tables host key := by
  simp only [moveEntry, setEntry, Function.update_apply]
  grind

section

variable (holds : hosts.Holds network log)

include holds

theorem Holds.eq_of_entry {other : Nat} (found : hosts.clients[index]? = some client)
    (entry : hosts.tables client.conn.srcAddr.ip
      (assignedId network.server.ip port client.conn.udpPort) = some other) : other = index := by
  obtain ⟨second, foundOther, ipEq, idEq⟩ := holds.entry entry
  rw [(holds.clients second (mem_of_getElem? foundOther)).id] at idEq
  exact holds.distinct found foundOther ipEq (assignedId_inj.mp idEq).2.2

theorem Holds.moveEntry (found : hosts.clients[index]? = some client) (host : BitVec 32)
    (key : BitVec 64) (other : Nat) :
    hosts.moveEntry client.conn.srcAddr.ip client.conn.connId
        (assignedId network.server.ip port client.conn.udpPort) index host key = some other ↔
      if other = index then client.conn.srcAddr.ip = host ∧
        assignedId network.server.ip port client.conn.udpPort = key
      else hosts.tables host key = some other := by
  have vacant : hosts.tables client.conn.srcAddr.ip
      (assignedId network.server.ip port client.conn.udpPort) = some other → other = index :=
    holds.eq_of_entry found
  have entered := holds.entered found
  have own := holds.table_iff found host key
  rw [moveEntry_apply]
  split_ifs <;> grind

theorem Holds.rekey (found : hosts.clients[index]? = some client)
    (running : client.phase ≠ .returned) (acked : client.conn.connected = true) :
    ∃ id later, hosts.rekey index client.conn = some (id, later) ∧
      later.Holds network (log ++ [.connected index id]) ∧
      later.server = hosts.server := by
  have state := holds.clients client (mem_of_getElem? found)
  have oldId : client.conn.connId = assignedId network.server.ip
      network.server.port client.conn.udpPort := by
    simpa [DialledConnection.keyPort, running] using state.id
  generalize idEq : assignedId network.server.ip client.conn.outAddr.port client.conn.udpPort = id
  have newId : replaceMiddle client.conn.connId (swap16 client.conn.outAddr.port) = id := by
    simp [oldId, ← idEq, assignedId]
  -- The host has no other client on the port.
  have vacant : hosts.setEntry client.conn.srcAddr.ip client.conn.connId none
      client.conn.srcAddr.ip id = none := by
    by_cases same : id = client.conn.connId
    · rw [same, setEntry_self]
    · rw [setEntry_of_ne _ _ (.inr same), Option.eq_none_iff_forall_ne_some]
      intro other entry
      rw [← idEq] at entry
      obtain rfl := holds.eq_of_entry found entry
      exact same (idEq ▸ ((holds.table_iff found _ _).mp entry).2.symm)
  let changed : DialledConnection := ⟨{ client.conn with connId := id }, .returned⟩
  have changedHolds : changed.Holds network hosts.server := by
    refine ⟨state.host, state.peer, ?_, ?_, state.served⟩
    · simp [changed, DialledConnection.keyPort, idEq]
    · exact fun waits => absurd (waits.symm.trans acked) (by decide)
  have moved := holds.replace changed (hosts.moveEntry
    client.conn.srcAddr.ip client.conn.connId id index) found rfl rfl
    changedHolds ?_ ?_ (fun returned => absurd returned running)
  · refine ⟨id, _, ?_, moved.report (getElem?_set_self (lt_of_getElem? found)) rfl, rfl⟩
    simp only [Hosts.rekey, holds.entered found, some_bind, newId, vacant]
    rfl
  · intro host key other differs
    rw [← idEq, holds.moveEntry found, if_neg differs]
  · intro host key
    rw [← idEq, holds.moveEntry found, if_pos rfl, idEq]

theorem Holds.advance (inside : index < hosts.clients.length)
    (timely : hosts.Timely (.advance index)) :
    ∃ events later, hosts.advance index = some (events, later) ∧
      later.Holds network (log ++ events) ∧ later.server = hosts.server := by
  have found := getElem?_eq_getElem inside
  generalize hosts.clients[index] = client at found
  have state := holds.clients client (mem_of_getElem? found)
  have resume (phase : Phase) (running : client.phase ≠ .returned)
      (stays : phase ≠ .returned) : ∃ events later,
        some ([], ({ hosts with
          clients := hosts.clients.set index ⟨client.conn, phase⟩ } : Hosts)) =
            some (events, later) ∧
          later.Holds network (log ++ events) ∧ later.server = hosts.server :=
    ⟨[], _, rfl, by simpa using holds.goto phase found running stays, rfl⟩
  simp only [Hosts.advance, found, some_bind]
  cases phaseEq : client.phase with
  | sending =>
    have moved := holds.goto (.testing 0) found (by simp [phaseEq]) (by simp)
    have issued : client.conn.packet .con = ⟨client.conn.srcAddr.ip,
        network.server.ip, swap16 client.conn.udpPort, swap16 network.server.port, .con⟩ := by
      have waits := timely client found phaseEq
      rw [TransportConnection.packet, state.peer, (state.waiting waits).1]
    refine ⟨_, _, rfl, ?_, rfl⟩
    rw [append_nil]
    refine moved.send ?_
    rw [issued]
    exact .con ⟨⟨client.conn, .testing 0⟩, mem_set inside _, rfl, rfl⟩
  | testing wait =>
    by_cases acked : client.conn.connected = true
    · obtain ⟨id, later, eq, rest⟩ := holds.rekey found (by simp [phaseEq]) acked
      exact ⟨_, later, by simp [acked, eq], rest⟩
    · simp only [acked, Bool.false_eq_true, if_false]
      exact resume (.asleep wait) (by simp [phaseEq]) (by simp)
  | asleep wait =>
    have running : client.phase ≠ .returned := by simp [phaseEq]
    by_cases again : wait + 1 > 2
    · simp only [again, if_true]
      exact resume .sending running (by simp)
    · simp only [again, if_false]
      exact resume (.testing (wait + 1)) running (by simp)
  | returned => exact ⟨_, _, rfl, by simpa using holds, rfl⟩

end

variable {peer : TransportConnection}

section

variable (holds : hosts.Holds network log)

include holds

theorem Holds.acknowledge (found : hosts.clients[index]? = some client)
    (member : peer ∈ hosts.server.conns) (sameIp : peer.outAddr.ip = client.conn.srcAddr.ip)
    (samePort : peer.outAddr.port = client.conn.udpPort) :
    ({ client with conn := client.conn.acknowledge peer.udpPort } :
      DialledConnection).Holds network hosts.server := by
  have state := holds.clients client (mem_of_getElem? found)
  refine ⟨state.host, state.peer, ?_, fun waits => (by cases waits),
    fun _ => ⟨peer, member, sameIp, samePort, rfl⟩⟩
  have idEq := state.id
  by_cases returned : client.phase = .returned
  · have acked : client.conn.connected = true := by
      by_contra waits
      exact (state.waiting (by simpa using waits)).2 returned
    have assigned := holds.server.serves_unique (state.served acked) member sameIp samePort
    simp only [DialledConnection.keyPort, returned, if_true] at idEq ⊢
    exact idEq.trans (by rw [← assigned]; rfl)
  · simp only [DialledConnection.keyPort, returned, if_false] at idEq ⊢
    exact idEq

theorem Holds.deliver_ack (member : peer ∈ hosts.server.conns) :
    ∃ later, hosts.deliver network peer.sendAck = some ([], later) ∧
      later.Holds network log ∧ later.server = hosts.server := by
  obtain ⟨place, foundPeer⟩ := getElem?_of_mem member
  obtain ⟨known, knownMember, knownIp, -⟩ := holds.known peer member
  have outside : peer.sendAck.dstIp ≠ network.server.ip := by
    have host := (holds.clients known knownMember).host
    rwa [knownIp] at host
  have idEq : peer.sendAck.connId = assignedId network.server.ip
      network.server.port peer.outAddr.port := by
    simp [Packet.connId, TransportConnection.sendAck, TransportConnection.packet, assignedId,
      (holds.server.entered foundPeer).source]
  rw [deliver, if_neg outside]
  have message : peer.sendAck.message = .conAck peer.udpPort := rfl
  have host : peer.sendAck.dstIp = peer.outAddr.ip := rfl
  simp only [message, host]
  cases entry : hosts.tables peer.outAddr.ip peer.sendAck.connId with
  | none => exact ⟨hosts, rfl, holds, rfl⟩
  | some index =>
    obtain ⟨client, found, ipEq, clientId⟩ := holds.entry entry
    rw [(holds.clients client (mem_of_getElem? found)).id, idEq, assignedId_inj] at clientId
    have changed := holds.acknowledge found member ipEq.symm clientId.2.2.symm
    simp only [found, some_bind]
    exact ⟨_, rfl, holds.update _ found rfl rfl rfl changed id, rfl⟩

theorem Holds.deliver_con (known : hosts.Known ip port) :
    ∃ events later, hosts.deliver network ⟨ip, network.server.ip, swap16 port,
        swap16 network.server.port, .con⟩ = some (events, later) ∧
      later.Holds network (log ++ events) ∧
      hosts.server.Extends later.server := by
  obtain ⟨conn, server, eq, accepts⟩ := holds.server.accept ip port
  have grown : ∀ client ∈ hosts.clients, hosts.Known client.conn.srcAddr.ip
      client.conn.udpPort := fun client member => ⟨client, member, rfl, rfl⟩
  have keptConns : ∀ other ∈ hosts.server.conns, other ∈ server.conns := by
    intro other member
    obtain ⟨place, found⟩ := getElem?_of_mem member
    exact mem_of_getElem? (accepts.kept.conns found)
  refine ⟨[.con (dialledId network ip port)], { hosts with
    server := server
    sent := hosts.sent ++ [conn.sendAck] }, ?_, ?_, accepts.kept⟩
  · rw [deliver, if_pos rfl, ServerTables.process]
    show ((hosts.server.accept network (dialledId network ip port)).bind _).bind _ = _
    rw [eq]
    rfl
  · refine ⟨accepts.holds, ?_, ?_, ?_, fun client member =>
      (holds.clients client member).later accepts.kept, holds.distinct,
      holds.entered, holds.entry, ?_⟩
    · intro id
      rw [accepts.accepted, ← holds.arrived]
      simp
    · intro other member
      rcases accepts.created other member with old | rfl
      · exact holds.known other old
      · rw [accepts.toIp, accepts.toPort]
        exact known
    · exact forall_mem_concat (fun packet old => (holds.sent packet old).later grown keptConns)
        (.ack accepts.member)
    · intro index id reported
      exact holds.reported (by simpa using reported)

/-- Every step of the handshake keeps the invariant. -/
theorem Holds.step (input : HandshakeInput)
    (allowed : hosts.Allows network input ∧ hosts.Timely input) :
    ∃ events later, hosts.step network input = some (events, later) ∧
      later.Holds network (log ++ events) ∧
      hosts.server.Extends later.server := by
  cases input with
  | dial ip =>
    exact ⟨[], _, rfl, by simpa using holds.dial allowed.1.1 allowed.1.2, .refl _⟩
  | advance index =>
    obtain ⟨events, later, eq, kept, same⟩ := holds.advance allowed.1 allowed.2
    exact ⟨events, later, eq, kept, same ▸ .refl _⟩
  | deliver index =>
    have inside : index < hosts.sent.length := allowed.1
    have found := getElem?_eq_getElem inside
    generalize hosts.sent[index] = packet at found
    simp only [Hosts.step, found, some_bind]
    cases holds.sent packet (mem_of_getElem? found) with
    | con known => exact holds.deliver_con known
    | ack member =>
      obtain ⟨later, eq, kept, same⟩ := holds.deliver_ack member
      exact ⟨[], later, eq, by simpa using kept, same ▸ .refl _⟩

end

end Hosts

end SRPC.Dpdk
