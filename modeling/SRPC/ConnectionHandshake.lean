import SRPC.ConnectionId
import SRPC.PacketBuilders
import SRPC.TransitionRuns

/-!
# The connection handshake

Clients dial the configured port of one server.  `connect` sends a `CON` packet
until it finds the connection acknowledged; `accept` draws a port for it and sends
that back in a `CON_ACK` packet.
-/

namespace SRPC.Dpdk

open LittleEndian

/-- A `CON_ACK` packet carries the port of the connection. -/
inductive Message
  | con
  | conAck (udpPort : BitVec 16)
  deriving DecidableEq, Repr

/-- What the receiver looks at.  The ports are as they lie in the header. -/
structure Packet where
  srcIp : BitVec 32
  dstIp : BitVec 32
  srcPort : BitVec 16
  dstPort : BitVec 16
  message : Message
  deriving DecidableEq, Repr

/-- The id under which `process_requests` looks up a packet. -/
def Packet.connId (packet : Packet) : BitVec 64 :=
  connIdOf packet.srcIp packet.srcPort packet.dstPort

namespace TransportConnection

/-- A packet with the addresses of `make_pkt_header`. -/
def packet (conn : TransportConnection) (message : Message) : Packet :=
  ⟨conn.srcAddr.ip, conn.outAddr.ip, swap16 conn.udpPort, swap16 conn.outAddr.port, message⟩

/-- `send_ack`, which replaces the source port by the configured one. -/
def sendAck (conn : TransportConnection) : Packet :=
  { conn.packet (.conAck conn.udpPort) with
    srcPort := swap16 conn.srcAddr.port }

/-- The `CON_ACK` case of `process_requests`. -/
def acknowledge (conn : TransportConnection) (udpPort : BitVec 16) : TransportConnection :=
  { conn with
    outAddr := { conn.outAddr with port := udpPort }
    connected := true }

end TransportConnection

/-- The configured address of the server, the table of hardware addresses and
the number of threads of the server. -/
structure Network where
  server : NetAddress
  macFromIp : BitVec 32 → Vector Byte 6
  numThreads : Nat

/-- The tables of the server.  A connection is known by its place among all
that were created. -/
structure ServerTables where
  sPortCounter : BitVec 64
  accepted : BitVec 64 → Option (BitVec 64)
  outConnections : BitVec 64 → Option Nat
  conns : List TransportConnection
  smRings : List (List Nat)

/-- Where `connect` is: at `send_con_req`, at the test of `connected_`, in
`usleep`, or behind the loop. -/
inductive Phase
  | sending
  | testing (wait : Nat)
  | asleep (wait : Nat)
  | returned
  deriving DecidableEq, Repr

/-- A connection, and where the call of `connect` is. -/
structure DialledConnection where
  conn : TransportConnection
  phase : Phase
  deriving DecidableEq

/-- `tables` holds the `out_connections` of the client hosts. -/
structure Hosts where
  sent : List Packet
  clients : List DialledConnection
  tables : BitVec 32 → BitVec 64 → Option Nat
  uPortCounter : BitVec 32 → BitVec 64
  server : ServerTables

/-- The network delivers what was sent at any time, any number of times. -/
inductive HandshakeInput
  | dial (ip : BitVec 32)
  | advance (client : Nat)
  | deliver (packet : Nat)

/-- What is seen: the server handles a copy of a `CON` packet, or `connect`
returns an id. -/
inductive HandshakeEvent
  | con (id : BitVec 64)
  | connected (client : Nat) (id : BitVec 64)
  deriving DecidableEq, Repr

namespace ServerTables

def new (numThreads : Nat) : ServerTables :=
  ⟨8700, fun _ => none, fun _ => none, [], List.replicate numThreads []⟩

/-- The connection `accept` prepares for an id. -/
def prepare (network : Network) (server : ServerTables) (id : BitVec 64) : TransportConnection :=
  let udpPort := server.sPortCounter.setWidth 16
  { connId := replaceLast id (swap16 udpPort)
    outAddr := ⟨network.macFromIp (connIdIp id), connIdIp id,
      swap16 (connIdPort id)⟩
    srcAddr := network.server
    udpPort := udpPort
    connected := false }

/-- `accept`.  A port is drawn before the id is looked up. -/
def accept (network : Network) (server : ServerTables) (id : BitVec 64) :
    Option (Packet × ServerTables) := do
  let oconn := server.prepare network id
  let server := { server with sPortCounter := server.sPortCounter + 1 }
  match server.accepted id with
  | some key =>
    let index ← server.outConnections key
    let conn ← server.conns[index]?
    return (conn.sendAck, server)
  | none =>
    let index := server.conns.length
    return (oconn.sendAck,
      { server with
        outConnections := Function.update server.outConnections oconn.connId (some index)
        conns := server.conns ++ [oconn]
        smRings := server.smRings.map fun ring => ring ++ [index]
        accepted := Function.update server.accepted id (some oconn.connId) })

/-- `process_requests` on the server. -/
def process (network : Network) (server : ServerTables) (packet : Packet) :
    Option (List HandshakeEvent × List Packet × ServerTables) :=
  match packet.message with
  | .con => do
    let (ack, server) ← server.accept network packet.connId
    return ([.con packet.connId], [ack], server)
  | .conAck udpPort =>
    match server.outConnections packet.connId with
    | none => return ([], [], server)
    | some index => do
      let conn ← server.conns[index]?
      return ([], [], { server with
        conns := server.conns.set index (conn.acknowledge udpPort) })

end ServerTables

namespace Hosts

def new (numThreads : Nat) : Hosts :=
  ⟨[], [], fun _ _ => none, fun _ => 9000, ServerTables.new numThreads⟩

/-- The tables with another entry on the host `ip`. -/
def setEntry (hosts : Hosts) (ip : BitVec 32) (id : BitVec 64)
    (entry : Option Nat) : BitVec 32 → BitVec 64 → Option Nat :=
  Function.update hosts.tables ip (Function.update (hosts.tables ip) id entry)

/-- The connection of `connect`, before it is entered into the table. -/
def dialled (network : Network) (hosts : Hosts) (ip : BitVec 32) : TransportConnection :=
  let udpPort := (hosts.uPortCounter ip).setWidth 16
  { connId := connIdOf network.server.ip (swap16 network.server.port)
      (swap16 udpPort)
    outAddr := ⟨network.macFromIp network.server.ip, network.server.ip,
      network.server.port⟩
    srcAddr := ⟨network.macFromIp ip, ip, udpPort⟩
    udpPort := udpPort
    connected := false }

/-- `connect` up to `send_con_req`. -/
def dial (network : Network) (hosts : Hosts) (ip : BitVec 32) : Hosts :=
  let conn := hosts.dialled network ip
  { hosts with
    uPortCounter := Function.update hosts.uPortCounter ip (hosts.uPortCounter ip + 1)
    tables := hosts.setEntry ip conn.connId (some hosts.clients.length)
    clients := hosts.clients ++ [⟨conn, .sending⟩] }

/-- `connect` behind its loop: the entry is moved to the assigned port. -/
def rekey (hosts : Hosts) (index : Nat) (conn : TransportConnection) :
    Option (BitVec 64 × Hosts) := do
  let ip := conn.srcAddr.ip
  let entry ← hosts.tables ip conn.connId
  let extracted := { hosts with tables := hosts.setEntry ip conn.connId none }
  let id := replaceMiddle conn.connId (swap16 conn.outAddr.port)
  let tables := match extracted.tables ip id with
    | none => extracted.setEntry ip id (some entry)
    | some _ => extracted.tables
  return (id, { extracted with
    tables := tables
    clients := hosts.clients.set index ⟨{ conn with connId := id }, .returned⟩ })

/-- One step of `connect` in the loop. -/
def advance (hosts : Hosts) (index : Nat) :
    Option (List HandshakeEvent × Hosts) := do
  let client ← hosts.clients[index]?
  let goto (phase : Phase) : Hosts :=
    { hosts with clients := hosts.clients.set index ⟨client.conn, phase⟩ }
  match client.phase with
  | .sending =>
    return ([], { goto (.testing 0) with
      sent := hosts.sent ++ [client.conn.packet .con] })
  | .testing wait =>
    if client.conn.connected then
      let (id, hosts) ← hosts.rekey index client.conn
      return ([.connected index id], hosts)
    else
      return ([], goto (.asleep wait))
  | .asleep wait =>
    -- The flag is not looked at again before the packet is sent.
    if wait + 1 > 2 then return ([], goto .sending)
    else return ([], goto (.testing (wait + 1)))
  | .returned => return ([], hosts)

/-- `process_requests` on the host a packet is for.  Hosts of clients have no
server to accept connections. -/
def deliver (network : Network) (hosts : Hosts) (packet : Packet) :
    Option (List HandshakeEvent × Hosts) :=
  if packet.dstIp = network.server.ip then do
    let (events, sent, server) ← hosts.server.process network packet
    return (events, { hosts with
      server := server
      sent := hosts.sent ++ sent })
  else
    match packet.message with
    | .con => return ([], hosts)
    | .conAck udpPort =>
      match hosts.tables packet.dstIp packet.connId with
      | none => return ([], hosts)
      | some index => do
        let client ← hosts.clients[index]?
        return ([], { hosts with
          clients := hosts.clients.set index
            { client with conn := client.conn.acknowledge udpPort } })

def step (network : Network) (hosts : Hosts) :
    HandshakeInput → Option (List HandshakeEvent × Hosts)
  | .dial ip => some ([], hosts.dial network ip)
  | .advance client => hosts.advance client
  | .deliver index => do
    let packet ← hosts.sent[index]?
    hosts.deliver network packet

/-- The steps that can be taken.  Hosts of clients are not the server, and no
two clients have the same address and port. -/
def Allows (network : Network) (hosts : Hosts) : HandshakeInput → Prop
  | .dial ip => ip ≠ network.server.ip ∧
      ∀ client ∈ hosts.clients,
        ¬ (client.conn.srcAddr.ip = ip ∧
          client.conn.udpPort = (hosts.uPortCounter ip).setWidth 16)
  | .advance client => client < hosts.clients.length
  | .deliver index => index < hosts.sent.length

/-- No `CON` packet is sent for a connection that is acknowledged. -/
def Timely (hosts : Hosts) : HandshakeInput → Prop
  | .advance index => ∀ client ∈ hosts.clients[index]?,
      client.phase = .sending → client.conn.connected = false
  | _ => True

instance decidableAllows (network : Network) (hosts : Hosts) :
    ∀ input, Decidable (hosts.Allows network input)
  | .dial _ => inferInstanceAs (Decidable (_ ∧ _))
  | .advance _ | .deliver _ => inferInstanceAs (Decidable (_ < _))

instance decidableTimely (hosts : Hosts) :
    ∀ input, Decidable (hosts.Timely input)
  | .advance _ => inferInstanceAs (Decidable (∀ _ ∈ _, _ → _))
  | .dial _ | .deliver _ => inferInstanceAs (Decidable True)

end Hosts

end SRPC.Dpdk
