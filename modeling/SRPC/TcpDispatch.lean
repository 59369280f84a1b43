import SRPC.TcpReplies
import SRPC.TcpServerStream

/-!
# Requests are dispatched or refused

The second loop of `handle_read` goes through the requests that the first one
has extracted.  A request without a method id, or with the id of no handler, is
answered with an error code, any other is passed to its handler.
-/

namespace SRPC.Tcp

open LittleEndian SparseInt Marshalling PacketStream ByteSource List

def einval : BitVec 32 := 22

def enoent : BitVec 32 := 2

/-- A request is passed to a handler or refused. -/
inductive Response
  | dispatched (rpcId : BitVec 32)
  | answered (errorCode : BitVec 32)
  deriving DecidableEq, Repr

namespace Connection

/-- `begin_reply` and `end_reply` with an error code, and `delete req`. -/
def refuse (connection : Connection) (server : Sender) (index : Nat)
    (errorCode : BitVec 32) : Option (Response × Connection × Sender) := do
  let request ← connection.requests[index]?
  let server ← beginReply server request errorCode
  let server ← endReply server
  let connection ← connection.deleteRequest index
  return (.answered errorCode, connection, server)

/-- A round of the second loop of `handle_read`.  A handler that is found takes
the request from here. -/
def serve (handlers : BitVec 32 → Bool) (connection : Connection) (server : Sender) (index : Nat) :
    Option (Response × Connection × Sender) := do
  let request ← connection.requests[index]?
  let size ← request.m.getContentSize connection.heap
  if size < 4 then
    connection.refuse server index einval
  else
    let (bytes, heap, m) ← request.m.read connection.heap 4
    guard (bytes.length = 4)
    let connection := { connection with
      heap := heap
      requests := connection.requests.set index { request with m := m } }
    if handlers (ofBytes 32 bytes) then
      return (.dispatched (ofBytes 32 bytes), connection, server)
    else
      connection.refuse server index enoent

def serveAll (handlers : BitVec 32 → Bool) (connection : Connection) (server : Sender) :
    List Nat → Option (List Response × Connection × Sender)
  | [] => some ([], connection, server)
  | index :: indices => do
    let (response, connection, server) ← connection.serve handlers server index
    let (responses, connection, server) ← connection.serveAll handlers server indices
    return (response :: responses, connection, server)

/-- All of `handle_read`. -/
def readAndServe (handlers : BitVec 32 → Bool) (connection : Connection)
    (server : Sender) (wire : List Byte) (answers : List Int) (stack : Nat → Nat → Byte) :
    Option (List Response × List Byte × Connection × Sender) := do
  let known := connection.requests.length
  let (_, wire, connection) ← connection.handleRead wire answers stack
  let (responses, connection, server) ← connection.serveAll handlers server
    (List.range' known (connection.requests.length - known))
  return (responses, wire, connection, server)

end Connection

def respond (handlers : BitVec 32 → Bool) (rest : List Byte) : Response :=
  if rest.length < 4 then .answered einval
  else if handlers (ofBytes 32 (rest.take 4)) then
    .dispatched (ofBytes 32 (rest.take 4))
  else .answered enoent

/-- The reply to a request that is refused. -/
def refusal (handlers : BitVec 32 → Bool) (call : Call) : Option (List Byte) :=
  match respond handlers call.rest with
  | .dispatched _ => none
  | .answered errorCode => some (Reply.body ⟨call.xid, errorCode, []⟩)

/-- What is left of a request for its handler. -/
def remaining (handlers : BitVec 32 → Bool) (call : Call) : Call :=
  match respond handlers call.rest with
  | .dispatched _ => { call with rest := call.rest.drop 4 }
  | .answered _ => { call with rest := [] }

namespace Connection

variable {connection : Connection} {server : Sender} {bytes queued : List Byte} {calls : List Call}
  {index : Nat} {request : Request}

theorem map_xid_set {requests : List Request} (found : requests[index]? = some request)
    (m : Marshal) :
    (requests.set index { request with m := m }).map Request.xid = requests.map Request.xid :=
  map_set_of_getElem? found rfl

theorem deleteRequest_xids {connection' : Connection}
    (deleted : connection.deleteRequest index = some connection') :
    connection'.requests.map Request.xid = connection.requests.map Request.xid := by
  obtain ⟨request, found, deleted⟩ := bind_eq_some_iff.mp deleted
  obtain ⟨heap, -, same⟩ := bind_eq_some_iff.mp deleted
  cases same
  exact map_xid_set found _

variable {call : Call}

theorem Holds.refuse_eq (holds : Holds connection bytes calls) (idle : Sender.Idle server queued)
    (called : calls[index]? = some call) (found : connection.requests[index]? = some request)
    (errorCode : BitVec 32) :
    ∃ connection' server', connection.refuse server index errorCode =
        some (.answered errorCode, connection', server') ∧
      Holds connection' bytes (calls.set index { call with rest := [] }) ∧
      Sender.Idle server' (queued ++ frame (Reply.body ⟨request.xid, errorCode, []⟩)) ∧
      connection'.requests.map Request.xid = connection.requests.map Request.xid := by
  obtain ⟨opened, beginEq, isOpen⟩ := idle.beginPacket_eq (beginReply_puts request.xid errorCode)
  obtain ⟨server', endEq, ended⟩ := isOpen.endPacket_eq
  obtain ⟨connection', deleteEq, holds'⟩ := holds.deleteRequest_eq called
  refine ⟨connection', server', ?_, holds', ended, deleteRequest_xids deleteEq⟩
  have beginReplyEq : beginReply server request errorCode = some opened := beginEq
  have endReplyEq : endReply opened = some server' := endEq
  simp only [refuse, found, beginReplyEq, endReplyEq, deleteEq, some_bind]
  rfl

theorem Holds.serve_eq (handlers : BitVec 32 → Bool) (holds : Holds connection bytes calls)
    (idle : Sender.Idle server queued) (called : calls[index]? = some call)
    (numbered : (connection.requests.map Request.xid)[index]? = some call.xid) :
    ∃ connection' server', connection.serve handlers server index =
        some (respond handlers call.rest, connection', server') ∧
      Holds connection' bytes (calls.set index (remaining handlers call)) ∧
      Sender.Idle server' (queued ++ frames (refusal handlers call).toList) ∧
      connection'.requests.map Request.xid = connection.requests.map Request.xid := by
  obtain ⟨request, found, carries⟩ := forall₂_getElem holds.requests called
  have xidEq : request.xid = call.xid := by
    rw [getElem?_map, found] at numbered
    exact Option.some_inj.mp numbered
  have size : request.m.contentSize = call.rest.length := by
    rw [← carries.sound.length_content, carries.content]
  by_cases short : call.rest.length < 4
  · have response : respond handlers call.rest = .answered einval := if_pos short
    obtain ⟨connection', server', refuseEq, holds', ended, xids⟩ :=
      holds.refuse_eq idle called found einval
    refine ⟨connection', server', ?_, ?_, ?_, xids⟩
    · simp only [serve, found, carries.sound.getContentSize_eq, size, short,
        if_true, some_bind, refuseEq, response]
    · rw [remaining, response]
      exact holds'
    · rw [refusal, response, ← xidEq]
      simpa using ended
  · obtain ⟨heap', m', readEq, sound', shrinks, _⟩ := carries.sound.read_eq 4
    rw [carries.content] at readEq
    have four : (call.rest.take 4).length = 4 := length_take_of_le (by omega)
    let taken : Connection := { connection with
      heap := heap'
      requests := connection.requests.set index { request with m := m' } }
    have left : Carries heap' { request with m := m' } { call with rest := call.rest.drop 4 } :=
      ⟨sound', by rw [shrinks.content, carries.content], carries.xid⟩
    have holds' : Holds taken bytes (calls.set index { call with rest := call.rest.drop 4 }) :=
      holds.replace { request with m := m' } found shrinks left
    have xids : taken.requests.map Request.xid =
        connection.requests.map Request.xid := map_xid_set found m'
    by_cases known : handlers (ofBytes 32 (call.rest.take 4)) = true
    · have response : respond handlers call.rest = .dispatched (ofBytes 32 (call.rest.take 4)) := by
        rw [respond, if_neg short, if_pos known]
      refine ⟨taken, server, ?_, ?_, ?_, xids⟩
      · simp only [serve, found, carries.sound.getContentSize_eq, size, short,
          if_false, some_bind, readEq, four, guard_true, known, if_true, response]
        rfl
      · rw [remaining, response]
        exact holds'
      · rw [refusal, response]
        simpa using idle
    · have response : respond handlers call.rest = .answered enoent := by
        rw [respond, if_neg short, if_neg known]
      have inside := lt_of_getElem? found
      have calledInside := lt_of_getElem? called
      have takenFound : taken.requests[index]? =
          some { request with m := m' } := getElem?_set_self inside
      obtain ⟨connection', server', refuseEq, refused, ended, refusedXids⟩ :=
        holds'.refuse_eq idle (getElem?_set_self calledInside) takenFound enoent
      refine ⟨connection', server', ?_, ?_, ?_, refusedXids.trans xids⟩
      · simp only [serve, found, carries.sound.getContentSize_eq, size, short,
          if_false, some_bind, readEq, four, guard_true, known, response]
        exact refuseEq
      · rw [remaining, response]
        rwa [set_set] at refused
      · rw [refusal, response, ← xidEq]
        simpa using ended

/-- Every request is answered or passed on. -/
theorem Holds.serveAll_eq (handlers : BitVec 32 → Bool) {before added : List Call}
    (holds : Holds connection bytes (before ++ added))
    (idle : Sender.Idle server queued) {xids : List (BitVec 64)}
    (numbered : connection.requests.map Request.xid = xids ++ added.map Call.xid) :
    ∃ connection' server', connection.serveAll handlers server
        (List.range' before.length added.length) =
          some (added.map (fun call => respond handlers call.rest), connection', server') ∧
      Holds connection' bytes (before ++ added.map (remaining handlers)) ∧
      Sender.Idle server' (queued ++ frames (added.filterMap (refusal handlers))) := by
  induction added generalizing connection server queued before xids with
  | nil => exact ⟨connection, server, rfl, by simpa using holds,
      by simpa using idle⟩
  | cons call added ih =>
    have lengths := congrArg List.length numbered
    have requests := holds.requests.length_eq
    simp only [length_map, length_append] at lengths requests
    have place : xids.length = before.length := by omega
    have called : (before ++ call :: added)[before.length]? = some call := by
      simp
    have known : (connection.requests.map Request.xid)[before.length]? = some call.xid := by
      rw [numbered, ← place]
      simp
    obtain ⟨connection₁, server₁, serveEq, holds₁, idle₁, xids₁⟩ :=
      holds.serve_eq handlers idle called known
    rw [set_append_right _ _ (Nat.le_refl _), Nat.sub_self, set_cons_zero, append_cons] at holds₁
    rw [numbered, map_cons, append_cons] at xids₁
    obtain ⟨connection', server', restEq, holds', idle'⟩ := ih holds₁ idle₁ xids₁
    rw [length_append, length_singleton] at restEq
    refine ⟨connection', server', ?_, by simpa using holds', ?_⟩
    · rw [length_cons, range'_succ, serveAll, serveEq]
      simp only [some_bind, restEq]
      rfl
    · cases reply : refusal handlers call with
      | none | some body => simpa [reply] using idle'

end Connection

end SRPC.Tcp
