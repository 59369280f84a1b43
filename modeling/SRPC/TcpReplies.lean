import SRPC.TcpSession

/-!
# Replies on their way

The replies that are neither delivered nor being written lie, one behind the
other, in the input of the client, on the wire and in the output of the server.
-/

namespace SRPC.Tcp

open LittleEndian SparseInt Marshalling PacketStream List

/-- The outcomes of `n` requests after these replies. -/
def outcomesOf (n : Nat) (delivered : List Reply) : List Client.Outcome :=
  delivered.foldl Client.record (List.replicate n none)

theorem length_foldl_record (outcomes : List Client.Outcome) (delivered : List Reply) :
    (delivered.foldl Client.record outcomes).length = outcomes.length := by
  induction delivered generalizing outcomes with
  | nil => rfl
  | cons reply delivered ih =>
    rw [foldl_cons, ih, Client.length_record]

theorem length_outcomesOf (n : Nat) (delivered : List Reply) :
    (outcomesOf n delivered).length = n := by
  rw [outcomesOf, length_foldl_record, length_replicate]

theorem foldl_record_append (outcomes : List Client.Outcome) {delivered : List Reply}
    (inside : ∀ reply ∈ delivered, reply.xid.toNat < outcomes.length) :
    delivered.foldl Client.record (outcomes ++ [none]) =
      delivered.foldl Client.record outcomes ++ [none] := by
  induction delivered generalizing outcomes with
  | nil => rfl
  | cons reply delivered ih =>
    have first : Client.record (outcomes ++ [none]) reply =
        Client.record outcomes reply ++ [none] := set_append_left _ _ (inside reply mem_cons_self)
    rw [foldl_cons, foldl_cons, first]
    refine ih _ fun other member => ?_
    rw [Client.length_record]
    exact inside other (mem_cons_of_mem _ member)

theorem outcomesOf_succ {n : Nat} {delivered : List Reply}
    (inside : ∀ reply ∈ delivered, reply.xid.toNat < n) :
    outcomesOf (n + 1) delivered = outcomesOf n delivered ++ [none] := by
  rw [outcomesOf, replicate_succ', foldl_record_append, outcomesOf]
  simpa using inside

/-- The requests issued are read, on the wire or yet to be sent. -/
def Underway (path : RequestPath) (issued : Issued) : Prop :=
  ∃ complete coming unread arrived queued,
    InTransit path issued complete coming unread arrived queued

theorem Underway.step {path : RequestPath} {issued : Issued}
    (underway : Underway path issued) {input : RequestInput} (allowed : issued.Allows path input) :
    ∃ bodies path', path.step input = some (bodies, path') ∧ path.Moves path' input ∧
      Underway path' (issued.next input) ∧
        path.server.requests.length ≤ path'.server.requests.length := by
  obtain ⟨complete, coming, unread, arrived, queued, transit⟩ := underway
  obtain ⟨path', more, coming', unread', arrived', queued', stepEq, moves, -, transit'⟩ :=
    step_proceeds transit allowed
  refine ⟨_, path', stepEq, moves, ⟨_, _, _, _, _, transit'⟩, ?_⟩
  rw [transit.length_requests, transit'.length_requests, length_append]
  omega

/-- The replies `delivered` have settled their futures, the replies `coming`
are on their way. -/
structure Serving (session : Session) (ledger : Ledger)
    (delivered coming : List Reply) (arrived queued : List Byte) : Prop where
  requests : Underway session.requests ledger.issued
  numbered : ledger.issued.Numbered
  replies : ledger.replies = delivered ++ coming
  small : ∀ reply ∈ ledger.replies, reply.body.length < 2 ^ 31
  answers : ∀ reply ∈ ledger.begun, reply.xid.toNat < session.requests.server.requests.length
  distinct : (ledger.begun.map Reply.xid).Nodup
  queues : session.server.Queues queued (ledger.building.map Reply.body)
  stream : arrived ++ session.wire ++ queued = frames (coming.map Reply.body)
  holds : session.client.Holds arrived (outcomesOf ledger.issued.begun.length delivered)

namespace Serving

variable {session : Session} {ledger : Ledger}
  {delivered coming : List Reply} {arrived queued : List Byte}

theorem new (clientOut serverIn serverOut clientIn : Heap) :
    Serving (Session.new clientOut serverIn serverOut clientIn) Ledger.nothing [] [] [] [] where
  requests := ⟨_, _, _, _, _, InTransit.new clientOut serverIn⟩
  numbered := rfl
  replies := rfl
  small := by simp [Ledger.nothing]
  answers := by simp [Ledger.nothing, Ledger.begun]
  distinct := by simp [Ledger.nothing, Ledger.begun]
  queues := Sender.idle_new serverOut
  stream := rfl
  holds := Client.holds_new clientIn

section

variable (serving : Serving session ledger delivered coming arrived queued)

include serving

theorem few : ledger.issued.begun.length ≤ 2 ^ 48 := by
  have few := serving.holds.few
  rw [length_outcomesOf] at few
  exact few

theorem length_requests_le :
    session.requests.server.requests.length ≤ ledger.issued.begun.length := by
  obtain ⟨complete, coming, unread, _, _, transit⟩ := serving.requests
  rw [transit.length_requests, Issued.begun, transit.calls]
  simp only [length_append]
  omega

theorem awaited : Client.Awaited (outcomesOf ledger.issued.begun.length delivered) coming := by
  apply Client.Awaited.drop
  rw [← serving.replies]
  constructor
  · intro reply member
    rw [getElem?_replicate, if_pos]
    exact Nat.lt_of_lt_of_le (serving.answers reply
      (mem_append_left _ member)) serving.length_requests_le
  · have distinct := serving.distinct
    rw [Ledger.begun, map_append] at distinct
    exact distinct.of_append_left

end

end Serving

/-- The session takes this input and delivers more of the replies. -/
def Continues (session : Session) (ledger : Ledger) (delivered : List Reply)
    (input : SessionInput) : Prop :=
  ∃ session' more coming arrived queued,
    session.step input = some (more.map Reply.xid, session') ∧ session.Moves session' input ∧
      Serving session' (ledger.next input) (delivered ++ more) coming arrived queued

section Steps

variable {session : Session} {ledger : Ledger} {delivered coming : List Reply}
  {arrived queued : List Byte} {input : RequestInput}

theorem Serving.addFuture_holds (serving : Serving session ledger delivered coming arrived queued)
    (allowed : ledger.issued.Allows session.requests input) (room : ledger.HasRoom input) :
    (ledger.issued.next input).Numbered ∧
      (session.addFuture input).Holds arrived
        (outcomesOf (ledger.issued.next input).begun.length delivered) := by
  by_cases other : ∀ rpcId, input ≠ .beginRequest rpcId
  · refine ⟨serving.numbered.next other, ?_⟩
    rw [Issued.length_begun_next other]
    cases input with
    | beginRequest rpcId => exact absurd rfl (other rpcId)
    | _ => exact serving.holds
  · simp only [not_forall, not_not] at other
    obtain ⟨rpcId, rfl⟩ := other
    obtain ⟨_, _, _, _, _, transit⟩ := serving.requests
    obtain ⟨free, _⟩ := transit.idle allowed
    refine ⟨serving.numbered.beginRequest free rpcId, ?_⟩
    have inside : ∀ reply ∈ delivered, reply.xid.toNat < ledger.issued.begun.length := by
      intro reply member
      refine Nat.lt_of_lt_of_le (serving.answers reply ?_) serving.length_requests_le
      rw [Ledger.begun, serving.replies]
      exact mem_append_left _ (mem_append_left _ member)
    rw [Issued.begun_beginRequest free, length_append,
      length_singleton, outcomesOf_succ inside, Session.addFuture,
      transit.xidCounter, ← length_append]
    have added := serving.holds.newFuture (by rw [length_outcomesOf]; exact room)
    rw [length_outcomesOf] at added
    exact added

theorem request_continues (serving : Serving session ledger delivered coming arrived queued)
    (allowed : ledger.issued.Allows session.requests input) (room : ledger.HasRoom input) :
    Continues session ledger delivered (.request input) := by
  obtain ⟨bodies, path', stepEq, moves, underway, more⟩ := serving.requests.step allowed
  obtain ⟨numbered, holds⟩ := serving.addFuture_holds allowed room
  refine ⟨{ session with
      requests := path'
      client := session.addFuture input }, [], coming, arrived, queued, ?_,
    ⟨holds.content.trans serving.holds.content.symm, rfl, moves⟩, ?_⟩
  · simp only [Session.step, stepEq, some_bind]
    rfl
  · rw [append_nil]
    exact ⟨underway, numbered, serving.replies, serving.small,
      fun reply member => Nat.lt_of_lt_of_le (serving.answers reply member) more,
      serving.distinct, serving.queues, serving.stream, holds⟩

theorem beginReply_puts (xid : BitVec 64) (errorCode : BitVec 32) :
    Puts (do putV64 xid; Marshalling.put .v32 errorCode) (Reply.body ⟨xid, errorCode, []⟩) := by
  rw [Reply.body, append_nil]
  exact (Puts.bytes (writeV64_ne_nil xid)).andThen (put_puts .v32 errorCode)

section

variable (serving : Serving session ledger delivered coming arrived queued)

include serving

theorem reply_continues {input : SessionInput} {server' : Sender}
    (stepEq : session.step input = some ([], { session with server := server' }))
    (issued : (ledger.next input).issued = ledger.issued)
    (replies : (ledger.next input).replies = ledger.replies)
    (answers : ∀ reply ∈ (ledger.next input).begun,
      reply.xid.toNat < session.requests.server.requests.length)
    (distinct : ((ledger.next input).begun.map Reply.xid).Nodup)
    (queues : server'.Queues queued ((ledger.next input).building.map Reply.body))
    (moves : session.Moves { session with server := server' } input) :
    Continues session ledger delivered input := by
  refine ⟨{ session with server := server' }, [], coming, arrived, queued, stepEq, moves, ?_⟩
  rw [append_nil]
  constructor
  · exact issued ▸ serving.requests
  · exact issued ▸ serving.numbered
  · exact replies.trans serving.replies
  · exact replies ▸ serving.small
  · exact answers
  · exact distinct
  · exact queues
  · exact serving.stream
  · exact issued ▸ serving.holds

theorem beginReply_continues {index : Nat} (free : session.server.outL = false)
    (given : index < session.requests.server.requests.length)
    (fresh : ∀ reply ∈ ledger.replies, reply.xid ≠ BitVec.ofNat 64 index) (errorCode : BitVec 32) :
    Continues session ledger delivered (.beginReply index errorCode) := by
  obtain ⟨none, idle⟩ := serving.queues.idle free
  have building : ledger.building = Option.none := Option.map_eq_none_iff.mp none
  have found := getElem?_eq_getElem given
  obtain ⟨_, _, _, _, _, transit⟩ := serving.requests
  have xid := transit.request_xid serving.numbered serving.few found
  obtain ⟨server', beginEq, opened⟩ :=
    idle.beginPacket_eq (beginReply_puts (BitVec.ofNat 64 index) errorCode)
  have small : (BitVec.ofNat 64 index).toNat = index := by
    have bound := Nat.lt_of_lt_of_le given serving.length_requests_le
    have few := serving.few
    rw [BitVec.toNat_ofNat]
    omega
  have begun : (ledger.next (.beginReply index errorCode)).begun =
      ledger.begun ++ [⟨BitVec.ofNat 64 index, errorCode, []⟩] := by
    simp [Ledger.begun, Ledger.next, building]
  refine reply_continues serving ?_ rfl rfl ?_ ?_ opened ⟨rfl, rfl⟩
  · simp only [Session.step, found, beginReply, xid, beginEq, some_bind]
    rfl
  · rw [begun]
    refine forall_mem_concat serving.answers ?_
    rw [small]
    exact given
  · rw [begun, map_append]
    refine serving.distinct.append (nodup_singleton _) ?_
    intro other early late
    obtain ⟨reply, member, rfl⟩ := mem_map.mp early
    rw [Ledger.begun, building, Option.toList_none, append_nil] at member
    exact fresh reply member (mem_singleton.mp late)

theorem putReply_continues (taken : session.server.outL = true) (type : WireType)
    (value : Value type) : Continues session ledger delivered (.putReply type value) := by
  obtain ⟨body, some, opened⟩ := serving.queues.opened taken
  obtain ⟨reply, building, rfl⟩ := Option.map_eq_some_iff.mp some
  obtain ⟨server', putEq, opened'⟩ := opened.put_eq type value
  have xids : (ledger.next (.putReply type value)).begun.map Reply.xid =
      ledger.begun.map Reply.xid := by
    simp [Ledger.begun, Ledger.next, building]
  have queues : server'.Queues queued
      ((ledger.next (.putReply type value)).building.map Reply.body) := by
    rw [Ledger.next, building]
    simpa [Reply.body, Sender.Queues] using opened'
  refine reply_continues serving ?_ rfl rfl ?_ ?_ queues ⟨rfl, rfl⟩
  · simp only [Session.step, putEq, some_bind]
    rfl
  · intro other member
    have known := mem_map_of_mem (f := Reply.xid) member
    rw [xids] at known
    obtain ⟨same, sameMember, sameXid⟩ := mem_map.mp known
    exact sameXid ▸ serving.answers same sameMember
  · exact xids ▸ serving.distinct

theorem endReply_continues (taken : session.server.outL = true)
    (short : ∀ reply ∈ ledger.building, reply.body.length < 2 ^ 31) :
    Continues session ledger delivered .endReply := by
  obtain ⟨body, some, opened⟩ := serving.queues.opened taken
  obtain ⟨reply, building, rfl⟩ := Option.map_eq_some_iff.mp some
  obtain ⟨server', endEq, idle⟩ := opened.endPacket_eq
  have begun : (ledger.next .endReply).begun = ledger.begun := by
    simp [Ledger.begun, Ledger.next]
  refine ⟨{ session with server := server' }, [], coming ++ [reply],
    arrived, queued ++ frame reply.body, ?_, ⟨rfl, rfl⟩, ?_⟩
  · simp only [Session.step, endReply, endEq, some_bind]
    rfl
  · rw [append_nil]
    refine ⟨serving.requests, serving.numbered, ?_, ?_,
      begun ▸ serving.answers, begun ▸ serving.distinct, idle, ?_, serving.holds⟩
    · simp only [Ledger.next, building, Option.toList_some, serving.replies, append_assoc]
    · simp only [Ledger.next, building, Option.toList_some]
      exact forall_mem_concat serving.small (short reply building)
    · rw [← append_assoc, serving.stream, map_append, frames_append]
      simp

theorem sendReplies_continues (free : session.server.outL = false) (answers : List Int) :
    Continues session ledger delivered (.sendReplies answers) := by
  obtain ⟨none, idle⟩ := serving.queues.idle free
  obtain ⟨n, server', writeEq, moves, idle'⟩ := idle.handleWrite_eq answers
  have content : session.outBytes = queued := idle.content
  refine ⟨{ session with
      server := server'
      wire := session.wire ++ queued.take n }, [], coming, arrived,
    queued.drop n, ?_, ⟨rfl, n, content ▸ moves, by rw [content]⟩, ?_⟩
  · simp only [Session.step, writeEq, some_bind]
    rfl
  · rw [append_nil]
    refine ⟨serving.requests, serving.numbered, serving.replies, serving.small,
      serving.answers, serving.distinct, ?_, ?_, serving.holds⟩
    · rw [Ledger.next, none]
      exact idle'
    · rw [← serving.stream]
      simp

theorem receiveReplies_continues (answers : List Int) (stack : Nat → Nat → Byte) :
    Continues session ledger delivered (.receiveReplies answers stack) := by
  have small : ∀ reply ∈ coming, reply.body.length < 2 ^ 31 := by
    intro reply member
    refine serving.small reply ?_
    rw [serving.replies]
    exact mem_append_right _ member
  obtain ⟨n, more, rest, left, client', rfl, readEq, holds', stream, reads⟩ :=
    serving.holds.handleRead_eq serving.awaited serving.stream small answers stack
  rw [← serving.holds.content, ← holds'.content] at reads
  refine ⟨{ session with wire := session.wire.drop n, client := client' },
    more, rest, left, queued, ?_, ⟨n, rfl, reads⟩, ?_⟩
  · simp only [Session.step, readEq, some_bind]
    rfl
  · refine ⟨serving.requests, serving.numbered, ?_, serving.small,
      serving.answers, serving.distinct, serving.queues, stream, ?_⟩
    · rw [append_assoc]
      exact serving.replies
    · rw [outcomesOf, foldl_append]
      exact holds'

theorem step_continues {input : SessionInput} (allowed : ledger.Allows session input) :
    Continues session ledger delivered input := by
  cases input with
  | request input => exact request_continues serving allowed.1 allowed.2
  | beginReply index errorCode =>
    exact beginReply_continues serving allowed.1 allowed.2.1 allowed.2.2 errorCode
  | putReply type value => exact putReply_continues serving allowed type value
  | endReply => exact endReply_continues serving allowed.1 allowed.2
  | sendReplies answers => exact sendReplies_continues serving allowed answers
  | receiveReplies answers stack =>
    exact receiveReplies_continues serving answers stack

end

end Steps

end SRPC.Tcp
