import SRPC.IndexedLists
import SRPC.TransitionRuns

/-!
# The connections of a TCP server

`TCPServer` and its base class `Server` both have a member `sconns_`: `server_loop`
and `stop` mean the one, `TCPConnection::close` the other.  A failed `verify` and
the use of a deleted connection make a step return `none`.
-/

namespace SRPC.Connections

inductive ConnectionStatus
  | connected
  | closed
  deriving DecidableEq, Repr

/-- `refcnt` is zero once the connection is deleted; `jobs` of the references
are those of running requests. -/
structure TcpConnection where
  status : ConnectionStatus
  socketOpen : Bool
  refcnt : Nat
  jobs : Nat
  deriving DecidableEq, Repr

/-- `Server::sconns_` and `sconns_ctr_`. -/
structure Server where
  sconns : List Nat
  sconnsCtr : Int
  deriving DecidableEq, Repr

inductive ServerStatus
  | running
  | stopping
  | stopped
  deriving DecidableEq, Repr

/-- The base class, with the members of `TCPServer`. -/
structure TcpServer where
  base : Server
  sconns : List Nat
  status : ServerStatus
  listening : Bool
  deriving DecidableEq, Repr

/-- `server_loop` waits for a client, has accepted one, or is at its end. -/
inductive LoopPc
  | selecting
  | inserting
  | ended
  deriving DecidableEq, Repr

/-- Where `stop` is: not called, at `Pthread_join`, before the copy of `sconns_`,
in the loop over the rest of it, in the loop that waits, or returned. -/
inductive StopPc
  | idle
  | joining
  | copying
  | closing (sconns : List Nat)
  | waiting
  | returned
  deriving DecidableEq, Repr

/-- `pollSet` and `pendingRemove` are those of the `PollMgr`. -/
structure World where
  server : TcpServer
  conns : List TcpConnection
  pollSet : List Nat
  pendingRemove : List Nat
  loop : LoopPc
  stop : StopPc
  deriving DecidableEq, Repr

def started : World where
  server := ⟨⟨[], 0⟩, [], .running, true⟩
  conns := []
  pollSet := []
  pendingRemove := []
  loop := .selecting
  stop := .idle

namespace World

/-- Drops a reference; the last one deletes the connection. -/
def release (world : World) (sconn : Nat) : Option World :=
  match world.conns[sconn]? with
  | none => none
  | some conn =>
    if conn.refcnt = 0 then none
    else
      let base := world.server.base
      let conns := world.conns.set sconn { conn with refcnt := conn.refcnt - 1 }
      if conn.refcnt = 1 then
        some { world with
          conns := conns
          server.base := { base with sconnsCtr := base.sconnsCtr - 1 } }
      else
        some { world with conns := conns }

def pollMgrRemove (world : World) (sconn : Nat) : World :=
  if sconn ∈ world.pollSet then
    { world with
      pollSet := world.pollSet.erase sconn
      pendingRemove := world.pendingRemove ++ [sconn] }
  else
    world

/-- `close`, which looks for the connection in `Server::sconns_`. -/
def close (world : World) (sconn : Nat) : Option World :=
  match world.conns[sconn]? with
  | none => none
  | some conn =>
    if conn.refcnt = 0 then none
    else if conn.status = .connected then
      if sconn ∈ world.server.base.sconns then
        let base := world.server.base
        let world := { world with
          server.base := { base with sconns := base.sconns.erase sconn } }
        let world := world.pollMgrRemove sconn
        let world := { world with
          conns := world.conns.set sconn { conn with status := .closed, socketOpen := false } }
        world.release sconn
      else
        some world
    else
      some world

/-- The locked section of `server_loop`, in which the `PollMgr` takes a second
reference. -/
def insert (world : World) : World :=
  let sconn := world.conns.length
  let base := world.server.base
  { world with
    conns := world.conns ++ [⟨.connected, true, 2, 0⟩]
    server := { world.server with
      base := { base with sconnsCtr := base.sconnsCtr + 1 }
      sconns := world.server.sconns ++ [sconn] }
    pollSet := world.pollSet ++ [sconn] }

def removePending (world : World) : Option World :=
  world.pendingRemove.foldlM release { world with pendingRemove := [] }

/-- A job for the connection is queued. -/
def takes (world : World) (sconn : Nat) : Option World :=
  match world.conns[sconn]? with
  | none => none
  | some conn =>
    if conn.refcnt = 0 then none
    else some { world with
      conns := world.conns.set sconn
        { conn with refcnt := conn.refcnt + 1, jobs := conn.jobs + 1 } }

/-- A job for the connection has run. -/
def gives (world : World) (sconn : Nat) : Option World :=
  match world.conns[sconn]? with
  | none => none
  | some conn =>
    if conn.jobs = 0 then some world
    else
      { world with
        conns := world.conns.set sconn { conn with jobs := conn.jobs - 1 } }.release sconn

end World

/-- A call of `close` with what was before and after it. -/
structure Closing where
  sconn : Nat
  before : World
  after : World
  deriving DecidableEq, Repr

/-- The threads of a server: `server_loop`, the poll thread, those that handle
requests, and the one that calls `stop`. -/
inductive Input
  | accept
  | insert
  | loopEnds
  | handleError (sconn : Nat)
  | removePending
  | takes (sconn : Nat)
  | gives (sconn : Nat)
  | stop
  | goOnStop
  deriving DecidableEq, Repr

namespace World

/-- A call of `close` on a connection there is. -/
def closeRecorded (world : World) (sconn : Nat) : Option (List Closing × World) :=
  (world.close sconn).map fun next => ([⟨sconn, world, next⟩], next)

/-- A step of `stop`. -/
def goOnStop (world : World) : Option (List Closing × World) :=
  match world.stop with
  | .idle => some ([], world)
  | .joining =>
    if world.loop = .ended then
      if world.server.listening = false ∧ world.server.status = .stopped then
        some ([], { world with stop := .copying })
      else
        none
    else
      some ([], world)
  | .copying => some ([], { world with stop := .closing world.server.sconns })
  | .closing [] => some ([], { world with stop := .waiting })
  | .closing (sconn :: sconns) =>
    { world with stop := .closing sconns }.closeRecorded sconn
  | .waiting =>
    if world.server.base.sconnsCtr ≤ 0 then
      if world.server.base.sconnsCtr = 0 then
        some ([], { world with server.status := .stopped, stop := .returned })
      else
        none
    else
      some ([], world)
  | .returned => some ([], world)

end World

def step (world : World) : Input → Option (List Closing × World)
  | .accept =>
    if world.loop = .selecting ∧ world.server.status = .running then
      some ([], { world with loop := .inserting })
    else
      some ([], world)
  | .insert =>
    if world.loop = .inserting then
      some ([], { world.insert with loop := .selecting })
    else
      some ([], world)
  | .loopEnds =>
    if world.loop = .selecting ∧ world.server.status ≠ .running then
      some ([], { world with
        server := { world.server with listening := false, status := .stopped }
        loop := .ended })
    else
      some ([], world)
  | .handleError sconn =>
    if sconn < world.conns.length then world.closeRecorded sconn
    else some ([], world)
  | .removePending => world.removePending.map fun next => ([], next)
  | .takes sconn =>
    if sconn < world.conns.length then
      (world.takes sconn).map fun next => ([], next)
    else
      some ([], world)
  | .gives sconn =>
    if sconn < world.conns.length then
      (world.gives sconn).map fun next => ([], next)
    else
      some ([], world)
  | .stop =>
    if world.stop = .idle ∨ world.stop = .returned then
      if world.server.status = .running then
        some ([], { world with server.status := .stopping, stop := .joining })
      else
        some ([], { world with stop := .copying })
    else
      some ([], world)
  | .goOnStop => world.goOnStop

/-- What `close` is for: the first takes the connection away, later ones do
nothing. -/
def Closing.Proper (closing : Closing) : Prop :=
  ∀ conn ∈ closing.before.conns[closing.sconn]?,
    (conn.status = .connected →
      closing.sconn ∉ closing.after.server.sconns ∧
      closing.sconn ∉ closing.after.pollSet ∧
      closing.after.conns[closing.sconn]? = some ⟨.closed, false, conn.refcnt - 1, conn.jobs⟩) ∧
    (conn.status = .closed → closing.after = closing.before)

/-- The lifecycle of the connections: the set has those that are connected,
every `close` was proper, and `stop` has emptied the set. -/
structure Lifecycle (log : List Closing) (world : World) : Prop where
  members : ∀ sconn conn, world.conns[sconn]? = some conn →
    (sconn ∈ world.server.sconns ↔ conn.status = .connected)
  closed : ∀ closing ∈ log, closing.Proper
  emptied : world.stop = .waiting ∨ world.stop = .returned → world.server.sconns = []

end SRPC.Connections
