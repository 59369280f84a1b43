import SRPC.ConnectionHandshake

/-!
# A host that dials and accepts

`connect` and `accept` enter connections into the same `out_connections`.  They
draw the ports of their connections from `u_port_counter` and `s_port_counter`.
-/

namespace SRPC.Dpdk

open LittleEndian

/-- `serving` says whether a server is registered, `dialling` which connection
the call of `connect` has entered that holds the lock. -/
structure Host where
  tables : ServerTables
  uPortCounter : BitVec 64
  serving : Bool
  dialling : Option Nat

/-- A thread calls `connect`, `connect` looks at `connected_`, or a packet
comes in. -/
inductive HostInput
  | connect (ip : BitVec 32) (port : BitVec 16)
  | finish
  | receive (packet : Packet)
  deriving DecidableEq, Repr

namespace ServerTables

/-- `connect` behind its loop: the entry is extracted and inserted again under
the id with the assigned port, unless that id is taken. -/
def rekey (tables : ServerTables) (index : Nat) (conn : TransportConnection) :
    Option ServerTables := do
  let entry ← tables.outConnections conn.connId
  let extracted := Function.update tables.outConnections conn.connId none
  let id := replaceMiddle conn.connId (swap16 conn.outAddr.port)
  return { tables with
    outConnections := match extracted id with
      | none => Function.update extracted id (some entry)
      | some _ => extracted
    conns := tables.conns.set index { conn with connId := id }
    smRings := tables.smRings.map fun ring => ring ++ [index] }

end ServerTables

namespace Host

def new (numThreads : Nat) (serving : Bool) : Host :=
  ⟨ServerTables.new numThreads, 9000, serving, none⟩

/-- The connection of `connect`, before it is entered into the table. -/
def dialled (network : Network) (host : Host) (ip : BitVec 32)
    (port : BitVec 16) : TransportConnection :=
  let udpPort := host.uPortCounter.setWidth 16
  { connId := connIdOf ip (swap16 port) (swap16 udpPort)
    outAddr := ⟨network.macFromIp ip, ip, port⟩
    srcAddr := { network.server with port := udpPort }
    udpPort := udpPort
    connected := false }

/-- `connect` up to its loop. -/
def connect (network : Network) (host : Host) (ip : BitVec 32)
    (port : BitVec 16) : List Packet × Host :=
  let conn := host.dialled network ip port
  let index := host.tables.conns.length
  ([conn.packet .con],
    { host with
      uPortCounter := host.uPortCounter + 1
      dialling := some index
      tables := { host.tables with
        outConnections := Function.update host.tables.outConnections conn.connId (some index)
        conns := host.tables.conns ++ [conn] } })

/-- A step, with the packets that are sent.  Who needs the lock waits while it
is held. -/
def step (network : Network) (host : Host) :
    HostInput → Option (List Packet × Host)
  | .connect ip port =>
    match host.dialling with
    | some _ => some ([], host)
    | none => some (host.connect network ip port)
  | .finish =>
    match host.dialling with
    | none => some ([], host)
    | some index => do
      let conn ← host.tables.conns[index]?
      if conn.connected then
        let tables ← host.tables.rekey index conn
        return ([], { host with tables := tables, dialling := none })
      else
        return ([], host)
  | .receive packet => do
    match packet.message, host.serving, host.dialling with
    | .con, false, _ => return ([], host)
    | .con, true, some _ => return ([], host)
    | _, _, _ =>
      let (_, sent, tables) ← host.tables.process network packet
      return (sent, { host with tables := tables })

/-- No connection has this local port. -/
def Unused (host : Host) (port : BitVec 16) : Prop :=
  ∀ conn ∈ host.tables.conns, conn.udpPort ≠ port

instance (host : Host) (port : BitVec 16) : Decidable (host.Unused port) :=
  inferInstanceAs (Decidable (∀ _ ∈ _, _))

/-- A connection that is entered has a local port of its own. -/
def DrawsUnused (host : Host) : HostInput → Prop
  | .connect _ _ => host.dialling = none →
      host.Unused (host.uPortCounter.setWidth 16)
  | .finish => True
  | .receive packet => packet.message = .con → host.serving = true →
      host.dialling = none → host.tables.accepted packet.connId = none →
        host.Unused (host.tables.sPortCounter.setWidth 16)

instance decidableDrawsUnused (host : Host) :
    ∀ input, Decidable (host.DrawsUnused input)
  | .connect _ _ => inferInstanceAs (Decidable (_ → _))
  | .finish => inferInstanceAs (Decidable True)
  | .receive _ => inferInstanceAs (Decidable (_ → _ → _ → _ → _))

end Host

end SRPC.Dpdk
