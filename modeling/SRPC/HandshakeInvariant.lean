import SRPC.HandshakeServer

/-!
# The invariant of the handshake

A client that was acknowledged sends to the port its connection has on the
server, and one that was not still sends to the configured port.
-/

namespace SRPC.Dpdk

open LittleEndian

/-- The server has a connection to the client on the port the client sends
to. -/
def ServerTables.Serves (server : ServerTables) (conn : TransportConnection) : Prop :=
  ∃ peer ∈ server.conns, peer.outAddr.ip = conn.srcAddr.ip ∧
    peer.outAddr.port = conn.udpPort ∧ peer.udpPort = conn.outAddr.port

theorem ServerTables.Serves.later {server later : ServerTables}
    {conn : TransportConnection} (serves : server.Serves conn)
    (kept : server.Extends later) : later.Serves conn := by
  obtain ⟨peer, member, rest⟩ := serves
  obtain ⟨index, found⟩ := List.getElem?_of_mem member
  exact ⟨peer, List.mem_of_getElem? (kept.conns found), rest⟩

theorem ServerTables.Holds.serves_unique {network : Network}
    {server : ServerTables} (holds : server.Holds network)
    {conn peer : TransportConnection} (serves : server.Serves conn) (member : peer ∈ server.conns)
    (sameIp : peer.outAddr.ip = conn.srcAddr.ip) (samePort : peer.outAddr.port = conn.udpPort) :
    peer.udpPort = conn.outAddr.port := by
  obtain ⟨other, otherMember, otherIp, otherPort, assigned⟩ := serves
  obtain ⟨index, found⟩ := List.getElem?_of_mem member
  obtain ⟨place, foundOther⟩ := List.getElem?_of_mem otherMember
  obtain rfl := holds.unique found foundOther (otherIp.trans sameIp.symm)
    (otherPort.trans samePort.symm)
  rw [found, Option.some_inj] at foundOther
  rw [foundOther, assigned]

namespace DialledConnection

/-- The port under which the table of its host has the client. -/
def keyPort (network : Network) (client : DialledConnection) : BitVec 16 :=
  if client.phase = .returned then client.conn.outAddr.port
  else network.server.port

/-- What a client knows of its connection. -/
structure Holds (network : Network) (server : ServerTables)
    (client : DialledConnection) : Prop where
  host : client.conn.srcAddr.ip ≠ network.server.ip
  peer : client.conn.outAddr.ip = network.server.ip
  id : client.conn.connId = assignedId network.server.ip
    (client.keyPort network) client.conn.udpPort
  waiting : client.conn.connected = false →
    client.conn.outAddr.port = network.server.port ∧ client.phase ≠ .returned
  served : client.conn.connected = true → server.Serves client.conn

theorem Holds.later {network : Network} {server later : ServerTables}
    {client : DialledConnection} (holds : client.Holds network server)
    (kept : server.Extends later) : client.Holds network later :=
  { holds with served := fun acked => (holds.served acked).later kept }

end DialledConnection

namespace Hosts

/-- A client has dialled from there. -/
def Known (hosts : Hosts) (ip : BitVec 32) (port : BitVec 16) : Prop :=
  ∃ client ∈ hosts.clients, client.conn.srcAddr.ip = ip ∧ client.conn.udpPort = port

/-- A `con` of a client, or the answer to one. -/
inductive Issued (network : Network) (hosts : Hosts) : Packet → Prop
  | con {ip port} (known : hosts.Known ip port) :
      Issued network hosts ⟨ip, network.server.ip, swap16 port, swap16 network.server.port, .con⟩
  | ack {conn} (member : conn ∈ hosts.server.conns) : Issued network hosts conn.sendAck

/-- The tables, the packets sent and the log belong together. -/
structure Holds (network : Network) (log : List HandshakeEvent) (hosts : Hosts) : Prop where
  server : hosts.server.Holds network
  arrived : ∀ id, .con id ∈ log ↔ hosts.server.accepted id ≠ none
  known : ∀ conn ∈ hosts.server.conns, hosts.Known conn.outAddr.ip conn.outAddr.port
  sent : ∀ packet ∈ hosts.sent, hosts.Issued network packet
  clients : ∀ client ∈ hosts.clients, client.Holds network hosts.server
  distinct : ∀ {index other : Nat} {client second : DialledConnection},
    hosts.clients[index]? = some client → hosts.clients[other]? = some second →
    second.conn.srcAddr.ip = client.conn.srcAddr.ip →
    second.conn.udpPort = client.conn.udpPort → other = index
  entered : ∀ {index : Nat} {client : DialledConnection}, hosts.clients[index]? = some client →
    hosts.tables client.conn.srcAddr.ip client.conn.connId = some index
  entry : ∀ {ip key index}, hosts.tables ip key = some index →
    ∃ client, hosts.clients[index]? = some client ∧
      client.conn.srcAddr.ip = ip ∧ client.conn.connId = key
  reported : ∀ {index id}, .connected index id ∈ log →
    ∃ client, hosts.clients[index]? = some client ∧
      client.phase = .returned ∧ client.conn.connId = id

variable {network : Network} {log : List HandshakeEvent} {hosts : Hosts}

theorem holds_new (network : Network) : (new network.numThreads).Holds network [] := by
  refine ⟨ServerTables.holds_new network, ?_, ?_, ?_, ?_, ?_, ?_, ?_, ?_⟩ <;>
    simp [new, ServerTables.new]

@[simp]
theorem setEntry_self (hosts : Hosts) (ip : BitVec 32) (id : BitVec 64)
    (entry : Option Nat) : hosts.setEntry ip id entry ip id = entry := by
  simp [setEntry]

theorem setEntry_of_ne (hosts : Hosts) {ip other : BitVec 32}
    {id key : BitVec 64} (entry : Option Nat) (differs : other ≠ ip ∨ key ≠ id) :
    hosts.setEntry ip id entry other key = hosts.tables other key := by
  by_cases same : other = ip
  · subst same
    have keyDiffers : key ≠ id := differs.resolve_left (fun no => no rfl)
    simp [setEntry, keyDiffers]
  · simp [setEntry, same]

theorem Known.later {later : Hosts} {ip : BitVec 32} {port : BitVec 16}
    (known : hosts.Known ip port)
    (grown : ∀ client ∈ hosts.clients, later.Known client.conn.srcAddr.ip client.conn.udpPort) :
    later.Known ip port := by
  obtain ⟨client, member, rfl, rfl⟩ := known
  exact grown client member

theorem Issued.later {later : Hosts} {packet : Packet} (issued : hosts.Issued network packet)
    (grown : ∀ client ∈ hosts.clients, later.Known client.conn.srcAddr.ip client.conn.udpPort)
    (kept : ∀ conn ∈ hosts.server.conns, conn ∈ later.server.conns) :
    later.Issued network packet := by
  cases issued with
  | con known => exact .con (known.later grown)
  | ack member => exact .ack (kept _ member)

end Hosts

end SRPC.Dpdk
