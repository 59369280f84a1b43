import SRPC.HandshakeServer
import SRPC.HostConnections
import SRPC.KeyedTables

/-!
# The ids of the connections of a host

As long as no two connections of a host have drawn the same local port, every
connection stands in `out_connections` under its own id.  A host that dials and
accepts can draw a port twice.
-/

namespace SRPC.Dpdk

open LittleEndian TransitionRuns Function List

namespace Host

/-- Every connection is found under its id, and what is found under an id is the
connection that has it. -/
def KeepsKeys (host : Host) : Prop :=
  Keyed TransportConnection.connId host.tables.outConnections host.tables.conns

/-- No two connections have the same local port, which is part of their ids. -/
structure Apart (conns : List TransportConnection) : Prop where
  ports : ∀ {index other : Nat} {conn otherConn : TransportConnection},
    conns[index]? = some conn → conns[other]? = some otherConn →
      conn.udpPort = otherConn.udpPort → index = other
  ids : ∀ conn ∈ conns, ∃ ip port, conn.connId = connIdOf ip port (swap16 conn.udpPort)

/-- An accepted connection has its final id.  A dialled one gets it when
`connect` finishes. -/
structure Orderly (host : Host) : Prop where
  keeps : host.KeepsKeys
  apart : Apart host.tables.conns
  accepted : ∀ {id key : BitVec 64}, host.tables.accepted id = some key →
    ∃ (index : Nat) (conn : TransportConnection),
      host.tables.conns[index]? = some conn ∧ conn.connId = key ∧ host.dialling ≠ some index
  dialling : ∀ {index : Nat}, host.dialling = some index → index < host.tables.conns.length

theorem orderly_new (numThreads : Nat) (serving : Bool) : Orderly (new numThreads serving) where
  keeps := Keyed.nil
  apart := ⟨nofun, nofun⟩
  accepted := nofun
  dialling := nofun

variable {network : Network} {host : Host} {conns : List TransportConnection} {ip : BitVec 32}
  {port udpPort : BitVec 16}

theorem connIdOf_ne {ip' : BitVec 32} {port' other : BitVec 16} (apart : udpPort ≠ other) :
    connIdOf ip port (swap16 udpPort) ≠ connIdOf ip' port' (swap16 other) :=
  fun same => apart (swap16_inj.mp (connIdOf_inj.mp same).2.2)

variable {new : TransportConnection}

theorem Apart.append (apart : Apart conns) (unused : ∀ conn ∈ conns, conn.udpPort ≠ new.udpPort)
    (idEq : new.connId = connIdOf ip port (swap16 new.udpPort)) : Apart (conns ++ [new]) where
  ports := by
    intro index other conn otherConn connEq otherEq same
    rcases getElem?_concat_eq_some connEq with before | ⟨rfl, rfl⟩ <;>
      rcases getElem?_concat_eq_some otherEq with otherBefore | ⟨rfl, rfl⟩
    · exact apart.ports before otherBefore same
    · exact absurd same (unused conn (mem_of_getElem? before))
    · exact absurd same.symm (unused otherConn (mem_of_getElem? otherBefore))
    · rfl
  ids := forall_mem_concat apart.ids ⟨ip, port, idEq⟩

theorem Apart.fresh (apart : Apart conns) (unused : ∀ conn ∈ conns, conn.udpPort ≠ new.udpPort)
    (idEq : new.connId = connIdOf ip port (swap16 new.udpPort)) :
    ∀ conn ∈ conns, conn.connId ≠ new.connId := by
  intro conn member
  obtain ⟨_, _, connEq⟩ := apart.ids conn member
  rw [connEq, idEq]
  exact connIdOf_ne (unused conn member)

variable {index : Nat} {conn : TransportConnection}

theorem Apart.set (apart : Apart conns) (found : conns[index]? = some conn)
    (same : new.udpPort = conn.udpPort)
    (idEq : new.connId = connIdOf ip port (swap16 new.udpPort)) : Apart (conns.set index new) where
  ports := by
    intro one two first second oneEq twoEq equal
    rcases getElem?_set_eq_some oneEq with ⟨rfl, rfl⟩ | ⟨_, oneBefore⟩ <;>
      rcases getElem?_set_eq_some twoEq with ⟨rfl, rfl⟩ | ⟨_, twoBefore⟩
    · rfl
    · exact apart.ports found twoBefore (same.symm.trans equal)
    · exact apart.ports oneBefore found (equal.trans same)
    · exact apart.ports oneBefore twoBefore equal
  ids := by
    intro other member
    obtain ⟨place, otherEq⟩ := mem_iff_getElem?.mp member
    rcases getElem?_set_eq_some otherEq with ⟨-, rfl⟩ | ⟨-, otherEq⟩
    · exact ⟨ip, port, idEq⟩
    · exact apart.ids other (mem_of_getElem? otherEq)

theorem Orderly.enter (orderly : Orderly host) (new : TransportConnection)
    (unused : host.Unused new.udpPort) (idEq : new.connId = connIdOf ip port (swap16 new.udpPort)) :
    Keyed TransportConnection.connId
        (update host.tables.outConnections new.connId
          (some host.tables.conns.length)) (host.tables.conns ++ [new]) ∧
      Apart (host.tables.conns ++ [new]) :=
  ⟨orderly.keeps.append (orderly.apart.fresh unused idEq), orderly.apart.append unused idEq⟩

theorem Orderly.connect (orderly : Orderly host) (ip : BitVec 32) (port : BitVec 16)
    (unused : host.Unused (host.uPortCounter.setWidth 16)) :
    Orderly (host.connect network ip port).2 := by
  obtain ⟨keyed, apart⟩ := orderly.enter (host.dialled network ip port) unused rfl
  refine ⟨keyed, apart, ?_, ?_⟩
  · intro id key found
    obtain ⟨index, conn, connEq, keyEq, -⟩ := orderly.accepted found
    have inside := lt_of_getElem? connEq
    refine ⟨index, conn, getElem?_append_of_some _ connEq, keyEq, ?_⟩
    intro same
    have length := Option.some.inj same
    omega
  · intro index same
    have length := Option.some.inj same
    show index < (host.tables.conns ++ [_]).length
    rw [length_append, length_singleton]
    omega

theorem Orderly.accept (orderly : Orderly host) (network : Network)
    (free : host.dialling = none) (ip : BitVec 32) (first second : BitVec 16)
    (unused : host.tables.accepted (connIdOf ip first second) = none →
      host.Unused (host.tables.sPortCounter.setWidth 16)) :
    ∃ ack tables, host.tables.accept network (connIdOf ip first second) =
        some (ack, tables) ∧ Orderly { host with tables := tables } := by
  cases known : host.tables.accepted (connIdOf ip first second) with
  | some key =>
    obtain ⟨index, conn, connEq, rfl, -⟩ := orderly.accepted known
    have found := orderly.keeps.found connEq
    refine ⟨conn.sendAck, { host.tables with
      sPortCounter := host.tables.sPortCounter + 1 }, ?_, orderly.keeps,
      orderly.apart, orderly.accepted, orderly.dialling⟩
    simp only [ServerTables.accept, known, found, connEq, some_bind]
    rfl
  | none =>
    obtain ⟨oconn, oconnEq⟩ : ∃ oconn, oconn =
        host.tables.prepare network (connIdOf ip first second) := ⟨_, rfl⟩
    have idEq : oconn.connId = connIdOf ip first (swap16 oconn.udpPort) := by
      rw [oconnEq]
      exact replaceLast_connIdOf _
    obtain ⟨keyed, apart⟩ := orderly.enter oconn (by rw [oconnEq]; exact unused known) idEq
    refine ⟨oconn.sendAck,
      { sPortCounter := host.tables.sPortCounter + 1
        accepted := update host.tables.accepted
          (connIdOf ip first second) (some oconn.connId)
        outConnections := update host.tables.outConnections
          oconn.connId (some host.tables.conns.length)
        conns := host.tables.conns ++ [oconn]
        smRings := host.tables.smRings.map fun ring =>
          ring ++ [host.tables.conns.length] }, ?_, keyed, apart, ?_, ?_⟩
    · simp only [ServerTables.accept, known, oconnEq]
      rfl
    · intro id key found
      change update host.tables.accepted (connIdOf ip first second) (some _) id = some key at found
      by_cases same : id = connIdOf ip first second
      · rw [same, update_self] at found
        cases found
        exact ⟨_, _, getElem?_concat_length, rfl, by simp [free]⟩
      · rw [update_of_ne same] at found
        obtain ⟨index, conn, connEq, rest⟩ := orderly.accepted found
        exact ⟨index, conn, getElem?_append_of_some _ connEq, rest⟩
    · intro index same
      rw [free] at same
      cases same

theorem Orderly.acknowledge (orderly : Orderly host) (network : Network) (packet : Packet)
    (ack : packet.message = .conAck udpPort) :
    ∃ tables, host.tables.process network packet = some ([], [], tables) ∧
      Orderly { host with tables := tables } := by
  cases found : host.tables.outConnections packet.connId with
  | none =>
    refine ⟨host.tables, ?_, orderly⟩
    simp only [ServerTables.process, ack, found]
    rfl
  | some index =>
    obtain ⟨conn, connEq, -⟩ := orderly.keeps.own found
    obtain ⟨ip, port, idEq⟩ := orderly.apart.ids conn (mem_of_getElem? connEq)
    refine ⟨{ host.tables with
      conns := host.tables.conns.set index (conn.acknowledge udpPort) }, ?_,
      orderly.keeps.set connEq rfl, orderly.apart.set connEq rfl idEq, ?_, ?_⟩
    · simp only [ServerTables.process, ack, found, connEq, some_bind]
      rfl
    · intro id key accepted
      obtain ⟨place, other, otherEq, keyEq, apart⟩ := orderly.accepted accepted
      by_cases here : place = index
      · subst here
        rw [connEq] at otherEq
        cases otherEq
        have inside := lt_of_getElem? connEq
        exact ⟨place, _, getElem?_set_self inside, keyEq, apart⟩
      · exact ⟨place, other, by
          rw [getElem?_set_ne (Ne.symm here), otherEq], keyEq, apart⟩
    · intro place dialling
      show place < (host.tables.conns.set _ _).length
      rw [length_set]
      exact orderly.dialling dialling

theorem Orderly.rekey (orderly : Orderly host) (held : host.dialling = some index)
    (connEq : host.tables.conns[index]? = some conn) :
    ∃ tables, host.tables.rekey index conn = some tables ∧
      Orderly { host with tables := tables, dialling := none } := by
  obtain ⟨ip, port, idEq⟩ := orderly.apart.ids conn (mem_of_getElem? connEq)
  have newEq : replaceMiddle conn.connId (swap16 conn.outAddr.port) =
      connIdOf ip (swap16 conn.outAddr.port) (swap16 conn.udpPort) := by
    rw [idEq]
    exact replaceMiddle_connIdOf _
  have fresh : ∀ {other : Nat} {otherConn : TransportConnection},
      host.tables.conns[other]? = some otherConn → other ≠ index →
        otherConn.connId ≠ replaceMiddle conn.connId (swap16 conn.outAddr.port) := by
    intro other otherConn otherEq apart
    obtain ⟨_, _, otherIdEq⟩ := orderly.apart.ids otherConn (mem_of_getElem? otherEq)
    rw [newEq, otherIdEq]
    exact connIdOf_ne fun same =>
      apart (orderly.apart.ports otherEq connEq same)
  have free := orderly.keeps.extracted connEq fresh
  have keyed : Keyed TransportConnection.connId (update
      (update host.tables.outConnections conn.connId none)
      (replaceMiddle conn.connId (swap16 conn.outAddr.port)) (some index))
      (host.tables.conns.set index { conn with
        connId := replaceMiddle conn.connId (swap16 conn.outAddr.port) }) :=
    orderly.keeps.move connEq { conn with
      connId := replaceMiddle conn.connId (swap16 conn.outAddr.port) } fresh
  refine ⟨{ host.tables with
      outConnections := update (update host.tables.outConnections conn.connId none)
        (replaceMiddle conn.connId (swap16 conn.outAddr.port)) (some index)
      conns := host.tables.conns.set index { conn with
        connId := replaceMiddle conn.connId (swap16 conn.outAddr.port) }
      smRings := host.tables.smRings.map fun ring => ring ++ [index] },
    ?_, keyed, orderly.apart.set connEq rfl newEq, ?_, nofun⟩
  · simp only [ServerTables.rekey, orderly.keeps.found connEq, free, some_bind]
    rfl
  · intro id key accepted
    obtain ⟨place, other, otherEq, keyEq, apart⟩ := orderly.accepted accepted
    have elsewhere : index ≠ place := by
      rintro rfl
      exact apart held
    exact ⟨place, other, by
      rw [getElem?_set_ne elsewhere, otherEq], keyEq, nofun⟩

/-- Every input keeps the connections under their own ids. -/
theorem Orderly.step (orderly : Orderly host) {input : HostInput}
    (unused : host.DrawsUnused input) :
    ∃ sent next, host.step network input = some (sent, next) ∧
      Orderly next := by
  cases input with
  | connect ip port =>
    cases held : host.dialling with
    | some index => exact ⟨[], host, by simp only [Host.step, held], orderly⟩
    | none =>
      exact ⟨_, _, by simp only [Host.step, held]; rfl, orderly.connect ip port (unused held)⟩
  | finish =>
    cases held : host.dialling with
    | none => exact ⟨[], host, by simp only [Host.step, held], orderly⟩
    | some index =>
      obtain ⟨conn, connEq⟩ : ∃ conn, host.tables.conns[index]? = some conn :=
        ⟨_, getElem?_eq_getElem (orderly.dialling held)⟩
      cases acknowledged : conn.connected with
      | false =>
        refine ⟨[], host, ?_, orderly⟩
        simp [Host.step, held, connEq, acknowledged]
      | true =>
        obtain ⟨tables, rekeyEq, later⟩ := orderly.rekey held connEq
        refine ⟨[], _, ?_, later⟩
        simp [Host.step, held, connEq, acknowledged, rekeyEq]
  | receive packet =>
    cases message : packet.message with
    | conAck udpPort =>
      obtain ⟨tables, processEq, later⟩ := orderly.acknowledge network packet message
      refine ⟨[], _, ?_, later⟩
      simp [Host.step, message, processEq]
    | con =>
      cases serving : host.serving with
      | false => exact ⟨[], host, by simp [Host.step, message, serving], orderly⟩
      | true =>
        cases held : host.dialling with
        | some index => exact ⟨[], host, by
            simp [Host.step, message, serving, held], orderly⟩
        | none =>
          obtain ⟨ack, tables, acceptEq, later⟩ := orderly.accept
            network held packet.srcIp packet.srcPort packet.dstPort (unused message serving held)
          refine ⟨[ack], _, ?_, later⟩
          have processEq : host.tables.process network packet =
              some ([.con packet.connId], [ack], tables) := by
            rw [ServerTables.process, message]
            simp only [Packet.connId, acceptEq, some_bind]
            rfl
          simp [Host.step, message, serving, held, processEq]

theorem run_orderly (network : Network) (numThreads : Nat) (serving : Bool)
    (inputs : List HostInput)
    (unused : Admissible (Host.step network) Host.DrawsUnused
      (Host.new numThreads serving) inputs) :
    ∃ sent last, run (Host.step network) (Host.new numThreads serving) inputs = some (sent, last) ∧
      Orderly last := by
  have preserved : ∀ (_ : List Packet) (host : Host) (input : HostInput),
      Orderly host → host.DrawsUnused input →
        ∃ sent next, host.step network input = some (sent, next) ∧
          Orderly next := fun _ _ _ orderly unused => orderly.step unused
  exact run_of_admissible preserved [] (orderly_new numThreads serving) inputs unused

/-- In every run in which each connection that is entered has a local port of
its own, no call fails and every connection stays under its own id. -/
theorem connection_keys_stay_apart (network : Network) (numThreads : Nat)
    (serving : Bool) (inputs : List HostInput)
    (unused : Admissible (Host.step network) Host.DrawsUnused
      (Host.new numThreads serving) inputs) :
    ∃ sent last, run (Host.step network) (Host.new numThreads serving) inputs = some (sent, last) ∧
      last.KeepsKeys := by
  obtain ⟨sent, last, runEq, orderly⟩ := run_orderly network numThreads serving inputs unused
  exact ⟨sent, last, runEq, orderly.keeps⟩

def networkOf (ip : BitVec 32) : Network :=
  ⟨⟨Vector.replicate 6 0, ip, 8501⟩, fun _ => Vector.replicate 6 0, 1⟩

def conFrom (ip : BitVec 32) (port : BitVec 16) (dst : BitVec 32) : Packet :=
  ⟨ip, dst, swap16 port, swap16 8501, .con⟩

def ackFrom (ip : BitVec 32) (udpPort : BitVec 16) (dst : BitVec 32) : Packet :=
  ⟨ip, dst, swap16 8501, swap16 9000, .conAck udpPort⟩

def bothWays : List HostInput :=
  [.connect 2 8501, .receive (ackFrom 2 8700 1), .finish, .receive (conFrom 2 9000 1)]

theorem connection_keys_stay_apart_bothWays :
    ∃ sent last, run (Host.step (networkOf 1)) (Host.new 1 true)
      bothWays = some (sent, last) ∧ last.KeepsKeys :=
  connection_keys_stay_apart (networkOf 1) 1 true bothWays (by decide +kernel)

def askedOften (ip : BitVec 32) : List HostInput :=
  List.replicate 300 (.receive (conFrom 3 9000 ip))

/-- Two hosts that were asked often dial each other for the first time.  Host 2
assigns port 9000 to host 1 and then dials from port 9000; host 1 assigns port
9000 to it and overwrites the connection that it dialled. -/
theorem dialled_connection_overwritten :
    ((run (Host.step (networkOf 2)) (Host.new 1 true)
      (askedOften 2 ++ [.receive (conFrom 1 9000 2), .connect 1 8501])).map
        fun result => result.1.drop 300) = some [ackFrom 2 9000 1, conFrom 2 9000 1] ∧
    ((run (Host.step (networkOf 1)) (Host.new 1 true)
      (askedOften 1 ++ [.connect 2 8501, .receive (ackFrom 2 9000 1), .finish,
        .receive (conFrom 2 9000 1)])).map fun result =>
          (result.2.tables.conns.map TransportConnection.connId,
            result.2.tables.outConnections (assignedId 2 9000 9000))) =
      some ([assignedId 3 9000 8700, assignedId 2 9000 9000, assignedId 2 9000 9000], some 2) := by
  decide +kernel

end Host

end SRPC.Dpdk
