import SRPC.HostConnections
import SRPC.InsertionLoops
import SRPC.UdpConnect

/-!
# The sets of the event loops

`t_conns` and `poll_jobs` of a thread and `accepted` are filled by loops that insert
until the element is new.
-/

namespace SRPC.Dpdk

open LittleEndian InsertionLoops

/-- A loop that is reached, with what the set holds then. -/
inductive Insertion
  | accepted (table : BitVec 64 → Option (BitVec 64)) (id key : BitVec 64)
  | tConns (thread : Nat) (conns : List Nat) (conn : Nat)
  | pollJobs (thread : Nat) (jobs : List Nat) (client : Nat)

namespace Insertion

def ExecutesOnce : Insertion → Prop
  | accepted table id key => InsertionLoops.ExecutesOnce (insertEntry id key) table
  | tConns _ conns conn => InsertionLoops.ExecutesOnce (insertItem conn) conns
  | pollJobs _ jobs client => InsertionLoops.ExecutesOnce (insertItem client) jobs

def NeverEnds : Insertion → Prop
  | accepted table id key => InsertionLoops.NeverEnds (insertEntry id key) table
  | tConns _ conns conn => InsertionLoops.NeverEnds (insertItem conn) conns
  | pollJobs _ jobs client => InsertionLoops.NeverEnds (insertItem client) jobs

end Insertion

/-- The sets of a thread, how many connections it has taken from its ring, and
whether it is in a loop that never ends. -/
structure ThreadSets where
  smTaken : Nat
  tConns : List Nat
  pollJobs : List Nat
  spins : Bool
  deriving DecidableEq, Repr

/-- `dialler` is the client whose `connect` holds the lock, and `returned` are
those for which `DpdkTransport::connect` has returned an id. -/
structure TransportThreads where
  host : Host
  dialler : Option Nat
  returned : List Nat
  polls : PollQueues
  threads : List ThreadSets

/-- A client calls `connect`, with an address that is rejected or read as this
one; it is handed to a thread; a session packet comes in; or a thread goes
through one of its rings. -/
inductive ThreadsInput
  | connect (client : Nat) (addr : Option (BitVec 32 × BitVec 16))
  | finish
  | addPollJob (place : Nat)
  | receive (packet : Packet)
  | processSmReq (thread : Nat)
  | doPollJob (thread : Nat)
  deriving DecidableEq, Repr

namespace TransportThreads

def start (numThreads : Nat) (serving : Bool) : TransportThreads where
  host := Host.new numThreads serving
  dialler := none
  returned := []
  polls := ⟨0, List.replicate numThreads []⟩
  threads := List.replicate numThreads ⟨0, [], [], false⟩

/-- The loop of `accept`, which is reached if the request is not answered
yet. -/
def acceptInserts (network : Network) (host : Host) (packet : Packet) : List Insertion :=
  match packet.message, host.serving, host.dialling with
  | .con, true, none =>
    match host.tables.accepted packet.connId with
    | some _ => []
    | none => [.accepted host.tables.accepted packet.connId
        (host.tables.prepare network packet.connId).connId]
  | _, _, _ => []

/-- `process_sm_req` on a thread. -/
def processSmReq (threads : TransportThreads) (thread : Nat) :
    Option (List Insertion × TransportThreads) := do
  let sets ← threads.threads[thread]?
  let ring ← threads.host.tables.smRings[thread]?
  if sets.spins then return ([], threads)
  else
    let burst := (ring.drop sets.smTaken).take 8
    let (found, conns, ends) := insertAll sets.tConns burst
    return (found.map fun entry => .tConns thread entry.1 entry.2,
      { threads with
        threads := threads.threads.set thread
          { sets with
            smTaken := sets.smTaken + burst.length
            tConns := conns
            spins := !ends } })

/-- The insertions of `do_poll_job` on a thread. -/
def doPollJob (threads : TransportThreads) (thread : Nat) :
    Option (List Insertion × TransportThreads) := do
  let sets ← threads.threads[thread]?
  let ring ← threads.polls.pollReqQ[thread]?
  if sets.spins then return ([], threads)
  else
    let (found, jobs, ends) := insertAll sets.pollJobs (ring.take 8)
    return (found.map fun entry => .pollJobs thread entry.1 entry.2,
      { threads with
        polls := { threads.polls with
          pollReqQ := threads.polls.pollReqQ.set thread (ring.drop 8) }
        threads := threads.threads.set thread { sets with pollJobs := jobs, spins := !ends } })

/-- A step, with the insertions it executes. -/
def step (network : Network) (threads : TransportThreads) :
    ThreadsInput → Option (List Insertion × TransportThreads)
  | .connect client none =>
    some ([], { threads with returned := threads.returned ++ [client] })
  | .connect client (some (ip, port)) =>
    match threads.host.dialling with
    | some _ => some ([], threads)
    | none => some ([],
        { threads with
          host := (threads.host.connect network ip port).2
          dialler := some client })
  | .finish => do
    let (_, host) ← threads.host.step network .finish
    match host.dialling with
    | some _ => return ([], { threads with host := host })
    | none => return ([],
        { threads with
          host := host
          dialler := none
          returned := threads.returned ++ threads.dialler.toList })
  | .addPollJob place => do
    let client ← threads.returned[place]?
    let polls ← threads.polls.addPollJob client
    return ([], { threads with
      returned := threads.returned.eraseIdx place
      polls := polls })
  | .receive packet => do
    let (_, host) ← threads.host.step network (.receive packet)
    return (acceptInserts network threads.host packet, { threads with host := host })
  | .processSmReq thread => threads.processSmReq thread
  | .doPollJob thread => threads.doPollJob thread

def jobs (threads : TransportThreads) (thread : Nat) : List Nat :=
  ((threads.threads[thread]?).map ThreadSets.pollJobs).getD [] ++
    (threads.polls.pollReqQ[thread]?).getD []

/-- A client is handed to a thread that does not have it. -/
def HandsAnew (threads : TransportThreads) : ThreadsInput → Prop
  | .addPollJob place => ∀ client ∈ threads.returned[place]?,
      client ∉ threads.jobs threads.polls.nextThread
  | _ => True

instance decidableHandsAnew (threads : TransportThreads) :
    ∀ input, Decidable (threads.HandsAnew input)
  | .addPollJob _ => inferInstanceAs (Decidable (∀ _ ∈ _, _))
  | .connect _ _ | .finish | .receive _ | .processSmReq _ | .doPollJob _ =>
    inferInstanceAs (Decidable True)

end TransportThreads

end SRPC.Dpdk
