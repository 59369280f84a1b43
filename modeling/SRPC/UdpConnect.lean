import SRPC.TcpCalls

/-!
# `connect` on an address without a colon

Both clients look for the colon of the address.  `TCPClient::connect` gives up
when there is none.  `DpdkTransport::connect` then returns `EINVAL` in the place
of a connection id, and `UDPClient::connect` goes on with it.
-/

namespace SRPC

namespace Errno

def einval : Nat := 22
def enotconn : Nat := 107

end Errno

/-- `find(":")` and the two calls of `substr`. -/
def splitAddress (addr : List Char) : Option (List Char × List Char) :=
  (addr.idxOf? ':').map fun idx => (addr.take idx, addr.drop (idx + 1))

theorem splitAddress_eq_none_iff {addr : List Char} : splitAddress addr = none ↔ ':' ∉ addr := by
  rw [splitAddress, Option.map_eq_none_iff, List.idxOf?_eq_none_iff]

namespace Tcp

/-- What becomes of an address that `getaddrinfo` has found. -/
inductive Attempt
  | noSocket
  | refused
  | connected (fd : BitVec 64)
  deriving DecidableEq, Repr

/-- A client with its socket, and whether `pollmgr_` has it. -/
structure TcpEndpoint where
  client : CallingClient
  sock : BitVec 64
  polled : Bool

def tryAddresses (sock : BitVec 64) : List Attempt → Bool × BitVec 64
  | [] => (false, sock)
  | .noSocket :: attempts => tryAddresses (-1) attempts
  | .refused :: attempts => tryAddresses (-1) attempts
  | .connected fd :: _ => (true, fd)

namespace TcpEndpoint

/-- `TCPClient::connect`, with what `getaddrinfo` finds. -/
def connect (resolve : List Char → List Char → Option (List Attempt))
    (endpoint : TcpEndpoint) (addr : List Char) : Option (Nat × TcpEndpoint) :=
  if endpoint.client.status = .connected then none
  else
    match splitAddress addr with
    | none => some (Errno.einval, endpoint)
    | some (host, port) =>
      match resolve host port with
      | none => some (Errno.einval, endpoint)
      | some attempts =>
        match tryAddresses endpoint.sock attempts with
        | (false, sock) => some (Errno.enotconn, { endpoint with sock := sock })
        | (true, sock) => some (0, ⟨{ endpoint.client with status := .connected }, sock, true⟩)

theorem connect_refused {resolve : List Char → List Char → Option (List Attempt)}
    {endpoint after : TcpEndpoint} {addr : List Char} {code : Nat}
    (returned : endpoint.connect resolve addr = some (code, after)) (failed : code ≠ 0) :
    after.client = endpoint.client ∧ after.client.status ≠ .connected ∧
      after.polled = endpoint.polled := by
  rw [connect] at returned
  by_cases connected : endpoint.client.status = .connected
  · rw [if_pos connected] at returned
    cases returned
  · rw [if_neg connected] at returned
    split at returned
    · cases returned
      exact ⟨rfl, connected, rfl⟩
    · split at returned
      · cases returned
        exact ⟨rfl, connected, rfl⟩
      · split at returned
        · cases returned
          exact ⟨rfl, connected, rfl⟩
        · cases returned
          exact absurd rfl failed

theorem connect_bad_address (resolve : List Char → List Char → Option (List Attempt))
    {endpoint : TcpEndpoint} (fresh : endpoint.client.status ≠ .connected)
    {addr : List Char} (bad : ':' ∉ addr) :
    endpoint.connect resolve addr = some (Errno.einval, endpoint) := by
  rw [connect, if_neg fresh, splitAddress_eq_none_iff.mpr bad]

end TcpEndpoint

end Tcp

namespace Dpdk

open LittleEndian

/-- `poll_q_c_`, and the clients that wait in `poll_req_q` of each thread. -/
structure PollQueues where
  pollQC : BitVec 64
  pollReqQ : List (List Nat)
  deriving DecidableEq, Repr

namespace PollQueues

/-- The thread of the next poll job.  The counter is signed, and the result a
`uint16_t`. -/
def nextThread (queues : PollQueues) : Nat :=
  (queues.pollQC.toInt.tmod queues.pollReqQ.length % 2 ^ 16).toNat

/-- `add_poll_job`, which tries until the ring has room. -/
def addPollJob (queues : PollQueues) (client : Nat) : Option PollQueues :=
  if queues.pollReqQ.length = 0 then none
  else
    (queues.pollReqQ[queues.nextThread]?).map fun ring =>
      ⟨queues.pollQC + 1, queues.pollReqQ.set queues.nextThread (ring ++ [client])⟩

end PollQueues

/-- An entry of `outConnections` is a place among the connections, or a null
pointer. -/
structure Transport where
  outConnections : BitVec 64 → Option (Option Nat)
  conns : List TransportConnection
  polls : PollQueues

namespace Transport

/-- `get_conn`, which enters a null pointer under an id without an entry. -/
def getConn (transport : Transport) (id : BitVec 64) : Option Nat × Transport :=
  match transport.outConnections id with
  | some conn => (conn, transport)
  | none => (none,
      { transport with
        outConnections := Function.update transport.outConnections id (some none) })

/-- `DpdkTransport::connect`.  What is done for an address with a colon is left
to `dial`. -/
def connect
    (dial : List Char → List Char → Transport →
      Option (BitVec 64 × Transport)) (transport : Transport) (addr : List Char) :
    Option (BitVec 64 × Transport) :=
  match splitAddress addr with
  | none => some (BitVec.ofNat 64 Errno.einval, transport)
  | some (host, port) => dial host port transport

end Transport

/-- A client with the fields that only `connect` sets. -/
structure UdpEndpoint where
  client : UdpClient
  sock : BitVec 64
  connId : BitVec 64

namespace UdpEndpoint

/-- `UDPClient::connect`, for the client that is known to the event loops as
`self`. -/
def connect
    (dial : List Char → List Char → Transport →
      Option (BitVec 64 × Transport)) (self : Nat) (endpoint : UdpEndpoint) (transport : Transport)
    (addr : List Char) : Option (Nat × UdpEndpoint × Transport) := do
  let (connId, transport) ← transport.connect dial addr
  let (conn, transport) := transport.getConn connId
  let polls ← transport.polls.addPollJob self
  let client := { endpoint.client with
    status := .connected
    conn := conn.bind fun index => transport.conns[index]?
    outBufring := [] }
  return (0, ⟨client, connId, connId⟩, { transport with polls := polls })

/-- `connect` returns an error; the client is not connected, no thread polls it
and the table is the same; and a request is refused. -/
structure LeavesNoTrace (transport : Transport) (code : Nat)
    (after : UdpEndpoint) (later : Transport) : Prop where
  code : code ≠ 0
  status : after.client.status ≠ .connected
  pollReqQ : later.polls.pollReqQ = transport.polls.pollReqQ
  outConnections : later.outConnections = transport.outConnections
  refused : ∀ pool data rpcId, after.client.beginRequest pool data rpcId =
    some (none, pool, after.client)

variable {dial : List Char → List Char → Transport → Option (BitVec 64 × Transport)}
  {self code : Nat} {endpoint after : UdpEndpoint} {transport later : Transport} {addr : List Char}

theorem connect_returns
    (returned : endpoint.connect dial self transport addr = some (code, after, later)) :
    code = 0 ∧ after.client.status = .connected := by
  simp only [connect, bind_eq_some_iff] at returned
  obtain ⟨found, -, polls, -, same⟩ := returned
  cases same
  exact ⟨rfl, rfl⟩

/-- An address that `DpdkTransport::connect` rejects leaves a trace, always. -/
theorem failed_connect_leaves_no_trace_iff
    (dial : List Char → List Char → Transport →
      Option (BitVec 64 × Transport)) (self : Nat) (endpoint : UdpEndpoint) (transport : Transport)
    (addr : List Char) :
    (splitAddress addr = none → ∃ code after later, endpoint.connect dial self transport addr =
          some (code, after, later) ∧
        LeavesNoTrace transport code after later) ↔ ':' ∈ addr := by
  constructor
  · intro traceless
    by_contra bad
    obtain ⟨code, after, later, returned, clean⟩ := traceless (splitAddress_eq_none_iff.mpr bad)
    exact clean.code (connect_returns returned).1
  · intro colon rejected
    exact absurd colon (splitAddress_eq_none_iff.mp rejected)

/-- A new client is connected to `host`: it is polled, the table has a null
pointer under `EINVAL`, and `begin_request` follows it. -/
theorem rejected_address_connects :
    splitAddress ['h', 'o', 's', 't'] = none ∧ ∃ after later,
      connect (fun _ _ _ => none) 7 ⟨UdpClient.new 1, 0, 0⟩
          ⟨fun _ => none, [], ⟨0, [[]]⟩⟩ ['h', 'o', 's', 't'] = some (0, after, later) ∧
      after.client.status = .connected ∧
      later.polls.pollReqQ = [[7]] ∧
      later.outConnections (BitVec.ofNat 64 Errno.einval) = some none ∧
      ∀ pool data rpcId, after.client.beginRequest pool data rpcId = none := by
  refine ⟨by decide, _, _, rfl, rfl, by decide, by decide, ?_⟩
  exact fun pool data rpcId => rfl

end UdpEndpoint

end Dpdk

end SRPC
