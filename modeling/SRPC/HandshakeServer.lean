import SRPC.ConnectionHandshake
import SRPC.IndexedLists

/-!
# What the server accepts

A `CON` packet for the configured port enters one connection for the client that
sent it, and any further copy is answered with the connection that is there.
-/

namespace SRPC.Dpdk

open LittleEndian Function

/-- The id of the `CON` packets of a client. -/
def dialledId (network : Network) (ip : BitVec 32) (port : BitVec 16) : BitVec 64 :=
  connIdOf ip (swap16 port) (swap16 network.server.port)

/-- The id of a connection by its client and the port drawn for it. -/
def assignedId (ip : BitVec 32) (port assigned : BitVec 16) : BitVec 64 :=
  connIdOf ip (swap16 port) (swap16 assigned)

theorem swap16_inj {port other : BitVec 16} : swap16 port = swap16 other ↔ port = other := by
  refine ⟨fun same => ?_, fun same => by rw [same]⟩
  rw [← swap16_swap16 port, same, swap16_swap16]

@[simp]
theorem dialledId_inj {network : Network} {ip ip' : BitVec 32} {port port' : BitVec 16} :
    dialledId network ip port = dialledId network ip' port' ↔
      ip = ip' ∧ port = port' := by
  simp [dialledId, connIdOf_inj, swap16_inj]

@[simp]
theorem assignedId_inj {ip ip' : BitVec 32} {port port' assigned assigned' : BitVec 16} :
    assignedId ip port assigned = assignedId ip' port' assigned' ↔
      ip = ip' ∧ port = port' ∧ assigned = assigned' := by
  simp [assignedId, connIdOf_inj, swap16_inj]

namespace ServerTables

/-- The connection is in both tables under its id. -/
structure Entered (network : Network) (server : ServerTables) (index : Nat)
    (conn : TransportConnection) : Prop where
  source : conn.srcAddr = network.server
  id : conn.connId = assignedId conn.outAddr.ip conn.outAddr.port conn.udpPort
  accepted : server.accepted
    (dialledId network conn.outAddr.ip conn.outAddr.port) = some conn.connId
  entry : server.outConnections conn.connId = some index

/-- The tables and rings list the connections and nothing else. -/
structure Holds (network : Network) (server : ServerTables) : Prop where
  entered : ∀ {index : Nat} {conn}, server.conns[index]? = some conn →
    server.Entered network index conn
  accepted : ∀ {id key}, server.accepted id = some key →
    ∃ (index : Nat) (conn : TransportConnection),
      server.conns[index]? = some conn ∧ conn.connId = key ∧
      id = dialledId network conn.outAddr.ip conn.outAddr.port
  entry : ∀ {key index}, server.outConnections key = some index →
    ∃ conn : TransportConnection, server.conns[index]? = some conn ∧ conn.connId = key
  rings : server.smRings = List.replicate network.numThreads (List.range server.conns.length)

/-- What was entered is still there. -/
structure Extends (earlier later : ServerTables) : Prop where
  conns : ∀ {index : Nat} {conn}, earlier.conns[index]? = some conn →
    later.conns[index]? = some conn
  accepted : ∀ {id key}, earlier.accepted id = some key → later.accepted id = some key
  entry : ∀ {key index}, earlier.outConnections key = some index →
    later.outConnections key = some index

variable {network : Network} {server middle later : ServerTables}
  {ip : BitVec 32} {port : BitVec 16}

theorem Extends.refl (server : ServerTables) : server.Extends server := ⟨id, id, id⟩

theorem Extends.trans (first : server.Extends middle)
    (second : middle.Extends later) : server.Extends later :=
  ⟨fun found => second.conns (first.conns found),
    fun found => second.accepted (first.accepted found),
    fun found => second.entry (first.entry found)⟩

theorem holds_new (network : Network) : (new network.numThreads).Holds network := by
  constructor <;> simp [new]

namespace Holds

theorem unique (holds : server.Holds network) {index other : Nat}
    {conn second : TransportConnection} (found : server.conns[index]? = some conn)
    (foundOther : server.conns[other]? = some second) (sameIp : second.outAddr.ip = conn.outAddr.ip)
    (samePort : second.outAddr.port = conn.outAddr.port) : other = index := by
  have first := holds.entered found
  have again := holds.entered foundOther
  have accepted := again.accepted
  rw [sameIp, samePort, first.accepted] at accepted
  have entry := again.entry
  rw [← Option.some.inj accepted, first.entry] at entry
  exact (Option.some.inj entry).symm

theorem withCounter (holds : server.Holds network) (counter : BitVec 64) :
    ({ server with sPortCounter := counter } : ServerTables).Holds network :=
  ⟨fun found => ⟨(holds.entered found).1, (holds.entered found).2,
    (holds.entered found).3, (holds.entered found).4⟩, holds.accepted, holds.entry, holds.rings⟩

end Holds

/-- The tables with a connection more. -/
def addConnection (network : Network) (server : ServerTables) (ip : BitVec 32)
    (port : BitVec 16) (conn : TransportConnection) : ServerTables :=
  { server with
    outConnections := update server.outConnections conn.connId (some server.conns.length)
    conns := server.conns ++ [conn]
    smRings := server.smRings.map fun ring => ring ++ [server.conns.length]
    accepted := update server.accepted (dialledId network ip port) (some conn.connId) }

theorem Holds.extends_added (holds : server.Holds network) {conn : TransportConnection}
    (fresh : server.accepted (dialledId network ip port) = none)
    (connIp : conn.outAddr.ip = ip) (connPort : conn.outAddr.port = port)
    (connId : conn.connId = assignedId conn.outAddr.ip conn.outAddr.port conn.udpPort) :
    server.Extends (server.addConnection network ip port conn) := by
  constructor
  · intro index other found
    exact getElem?_append_of_some _ found
  · intro id key found
    have differs : id ≠ dialledId network ip port := by
      rintro rfl
      simp [fresh] at found
    show update server.accepted _ _ id = some key
    rw [update_of_ne differs, found]
  · intro key index found
    have differs : key ≠ conn.connId := by
      rintro rfl
      obtain ⟨other, foundOther, same⟩ := holds.entry found
      have entered := holds.entered foundOther
      rw [entered.id, connId, assignedId_inj] at same
      have accepted := entered.accepted
      rw [same.1, same.2.1, connIp, connPort, fresh] at accepted
      cases accepted
    show update server.outConnections _ _ key = some index
    rw [update_of_ne differs, found]

/-- A new connection keeps the tables in order. -/
theorem Holds.added (holds : server.Holds network) {conn : TransportConnection}
    (fresh : server.accepted (dialledId network ip port) = none)
    (connIp : conn.outAddr.ip = ip) (connPort : conn.outAddr.port = port)
    (source : conn.srcAddr = network.server)
    (connId : conn.connId = assignedId conn.outAddr.ip conn.outAddr.port conn.udpPort) :
    (server.addConnection network ip port conn).Holds network := by
  have kept := holds.extends_added fresh connIp connPort connId
  have last : (server.addConnection network ip port conn).conns[server.conns.length]? =
      some conn := by simp [addConnection]
  constructor
  · intro index other found
    rcases getElem?_concat_eq_some found with foundOld | ⟨rfl, rfl⟩
    · have entered := holds.entered foundOld
      exact ⟨entered.source, entered.id, kept.accepted entered.accepted, kept.entry entered.entry⟩
    · refine ⟨source, connId, ?_, update_self ..⟩
      rw [connIp, connPort]
      exact update_self ..
  · intro id key found
    by_cases same : id = dialledId network ip port
    · subst same
      have keyEq : conn.connId = key := by
        simpa [addConnection] using found
      exact ⟨_, conn, last, keyEq, by rw [connIp, connPort]⟩
    · obtain ⟨index, other, foundOther, rest⟩ := holds.accepted
        ((update_of_ne same ..).symm.trans found)
      exact ⟨index, other, kept.conns foundOther, rest⟩
  · intro key index found
    by_cases same : key = conn.connId
    · subst same
      obtain rfl : server.conns.length = index := by
        simpa [addConnection] using found
      exact ⟨conn, last, rfl⟩
    · obtain ⟨other, foundOther, rest⟩ := holds.entry ((update_of_ne same ..).symm.trans found)
      exact ⟨other, kept.conns foundOther, rest⟩
  · simp [addConnection, holds.rings, List.range_succ]

/-- What a `CON` packet for the configured port does. -/
structure Accepts (network : Network) (server : ServerTables) (ip : BitVec 32)
    (port : BitVec 16) (conn : TransportConnection) (later : ServerTables) : Prop where
  holds : later.Holds network
  kept : server.Extends later
  toIp : conn.outAddr.ip = ip
  toPort : conn.outAddr.port = port
  member : conn ∈ later.conns
  created : ∀ other ∈ later.conns, other ∈ server.conns ∨ other = conn
  accepted : ∀ id, later.accepted id ≠ none ↔
    server.accepted id ≠ none ∨ id = dialledId network ip port

theorem prepare_dialledId (network : Network) (server : ServerTables)
    (ip : BitVec 32) (port : BitVec 16) :
    server.prepare network (dialledId network ip port) =
      { connId := assignedId ip port (server.sPortCounter.setWidth 16)
        outAddr := ⟨network.macFromIp ip, ip, port⟩
        srcAddr := network.server
        udpPort := server.sPortCounter.setWidth 16
        connected := false } := by
  simp [prepare, dialledId, assignedId]

theorem Holds.accept_again (holds : server.Holds network) {key : BitVec 64}
    (found : server.accepted (dialledId network ip port) = some key) :
    ∃ conn later, server.accept network (dialledId network ip port) = some (conn.sendAck, later) ∧
      server.Accepts network ip port conn later := by
  obtain ⟨index, conn, foundConn, rfl, same⟩ := holds.accepted found
  have entered := holds.entered foundConn
  obtain ⟨rfl, rfl⟩ := dialledId_inj.mp same
  refine ⟨conn, _, ?_, ⟨holds.withCounter (server.sPortCounter + 1),
    ⟨id, id, id⟩, rfl, rfl, List.mem_of_getElem? foundConn, fun _ => Or.inl, ?_⟩⟩
  · simp only [ServerTables.accept, found, entered.entry, foundConn, some_bind]
    rfl
  · intro id
    refine ⟨Or.inl, ?_⟩
    rintro (there | rfl)
    · exact there
    · simp [found]

theorem Holds.accept_first (holds : server.Holds network)
    (fresh : server.accepted (dialledId network ip port) = none) :
    ∃ conn later, server.accept network (dialledId network ip port) = some (conn.sendAck, later) ∧
      server.Accepts network ip port conn later := by
  have counted := holds.withCounter (server.sPortCounter + 1)
  have prepared := prepare_dialledId network server ip port
  generalize connEq : server.prepare network (dialledId network ip port) = conn
    at prepared
  have connIp : conn.outAddr.ip = ip := by rw [prepared]
  have connPort : conn.outAddr.port = port := by rw [prepared]
  have connId : conn.connId = assignedId conn.outAddr.ip conn.outAddr.port conn.udpPort := by
    rw [prepared]
  have source : conn.srcAddr = network.server := by rw [prepared]
  refine ⟨conn, addConnection network { server with
    sPortCounter := server.sPortCounter + 1 } ip port conn, ?_,
    ⟨counted.added fresh connIp connPort source connId, ?_, connIp,
      connPort, by simp [addConnection], by simp [addConnection], ?_⟩⟩
  · simp only [ServerTables.accept, fresh, connEq]
    rfl
  · have kept := counted.extends_added fresh connIp connPort connId
    exact ⟨kept.conns, kept.accepted, kept.entry⟩
  · intro id
    by_cases same : id = dialledId network ip port
    · simp [addConnection, same]
    · simp [addConnection, same]

theorem Holds.accept (holds : server.Holds network) (ip : BitVec 32) (port : BitVec 16) :
    ∃ conn later, server.accept network (dialledId network ip port) = some (conn.sendAck, later) ∧
      server.Accepts network ip port conn later := by
  cases found : server.accepted (dialledId network ip port) with
  | some key => exact holds.accept_again found
  | none => exact holds.accept_first found

end ServerTables

end SRPC.Dpdk
