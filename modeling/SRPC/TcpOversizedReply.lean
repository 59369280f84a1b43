import SRPC.TcpReplyFutures

/-!
# Replies that are too long

The size of a packet travels as an `i32`.  A reply of `2 ^ 31` bytes or more is
announced with a negative size, which the client takes for a huge one: it waits
for a packet that never becomes complete, and its future is never notified.
-/

namespace SRPC.Tcp

open LittleEndian SparseInt Marshalling PacketStream TransitionRuns List

/-- Bytes of replies are sent or received. -/
def Transfers : SessionInput → Prop
  | .sendReplies _ => True
  | .receiveReplies _ _ => True
  | _ => False

/-- None of the first `count` futures, which are all, has been notified. -/
def Client.AllWait (client : Client) (count : Nat) : Prop :=
  client.futures.map Future.notified = List.replicate count 0 ∧
    ∀ index < count, client.pendingFu (BitVec.ofNat 64 index) = some index

theorem Client.Holds.allWait {client : Client} {bytes : List Byte} {count : Nat}
    (holds : client.Holds bytes (List.replicate count none)) : client.AllWait count := by
  have length := holds.futures.length_eq
  rw [length_replicate] at length
  have few := holds.few
  rw [length_replicate] at few
  refine ⟨eq_replicate_iff.mpr ⟨by rw [length_map, length], ?_⟩, ?_⟩
  · refine forall_mem_map.mpr fun fu member => ?_
    obtain ⟨index, inside, rfl⟩ := mem_iff_getElem.mp member
    obtain ⟨outcome, found, settled⟩ :=
      forall₂_getElem holds.futures.flip (getElem?_eq_getElem inside)
    obtain ⟨-, rfl⟩ := mem_replicate.mp (mem_of_getElem? found)
    exact settled.2
  · intro index inside
    have place : (BitVec.ofNat 64 index).toNat = index := by
      rw [BitVec.toNat_ofNat]
      omega
    rw [holds.pendingFu, place, getElem?_replicate_of_lt inside, if_pos rfl]

/-- An oversized packet is all there is between the server and the client,
which waits for its only future. -/
structure Blocked (body : List Byte) (session : Session) (arrived queued : List Byte) : Prop where
  large : 2 ^ 31 ≤ body.length
  bounded : body.length + 4 < 2 ^ 32
  idle : session.server.Idle queued
  holds : session.client.Holds arrived [none]
  stream : arrived ++ session.wire ++ queued = frame body

namespace Blocked

variable {body arrived queued : List Byte} {session : Session}

section

variable (blocked : Blocked body session arrived queued)

include blocked

theorem handleRead_eq (answers : List Int) (stack : Nat → Nat → Byte) :
    ∃ n client', session.client.handleRead session.wire answers stack =
        some ([], session.wire.drop n, client') ∧
      client'.Holds (arrived ++ session.wire.take n) [none] := by
  obtain ⟨n, _, heap₁, in₁, readEq, -, holds₁⟩ := blocked.holds.receive session.wire answers
  have stream : in₁.content heap₁ ++ (session.wire.drop n ++ queued) = frame body := by
    rw [holds₁.content, stream_received]
    exact blocked.stream
  have nextEq := nextPacket_of_oversized holds₁.sound stream blocked.large blocked.bounded
  refine ⟨n, _, ?_, holds₁⟩
  by_cases nothing : toI32 n = 0
  · simp only [Client.handleRead, readEq, some_bind, nothing, if_true]
    rfl
  · simp only [Client.handleRead, readEq, some_bind, nothing, if_false, Client.replyLoop, nextEq]
    rfl

theorem step_eq {input : SessionInput} (transfers : Transfers input) (ledger : Ledger) :
    ∃ session' arrived' queued', sessionStep (session, ledger) input = some ([], session', ledger) ∧
        Blocked body session' arrived' queued' := by
  obtain ⟨large, bounded, idle, holds, stream⟩ := blocked
  cases input with
  | sendReplies answers =>
    obtain ⟨n, server', writeEq, -, idle'⟩ := idle.handleWrite_eq answers
    refine ⟨{ session with
      server := server'
      wire := session.wire ++ queued.take n }, arrived, queued.drop n, ?_,
      large, bounded, idle', holds, ?_⟩
    · simp [sessionStep, Session.step, writeEq, Ledger.next]
    · rw [← stream]
      simp
  | receiveReplies answers stack =>
    obtain ⟨n, client', readEq, holds'⟩ :=
      handleRead_eq ⟨large, bounded, idle, holds, stream⟩ answers stack
    refine ⟨{ session with
      wire := session.wire.drop n
      client := client' }, arrived ++ session.wire.take n, queued, ?_, large,
      bounded, idle, holds', ?_⟩
    · simp [sessionStep, Session.step, readEq, Ledger.next]
    · rw [← stream]
      simp
  | _ => exact transfers.elim

end

end Blocked

/-- So many requests, which the server has extracted. -/
def asked (count : Nat) : List SessionInput :=
  (List.replicate count [.request (.beginRequest 7), .request .endRequest]).flatten ++
    [.request (.handleWrite [100]), .request (.handleRead [100] fun _ _ => 0xA5)]

def replyWith (index : Nat) (text : List Byte) : List SessionInput :=
  [.beginReply index 0, .putReply .string text, .endReply]

/-- The reply that is sent so. -/
def textReply (index : Nat) (text : List Byte) : Reply :=
  ⟨BitVec.ofNat 64 index, 0, encode .string text⟩

/-- The session has extracted its requests and has not answered them. -/
structure Unanswered (count : Nat) (session : Session) (ledger : Ledger) : Prop where
  ledger : ledger = (asked count).foldl Ledger.next Ledger.nothing
  xids : session.requests.server.requests.map Request.xid = (List.range count).map (BitVec.ofNat 64)
  idle : session.server.Idle []
  wire : session.wire = []
  holds : session.client.Holds [] (List.replicate count none)

theorem Unanswered.found {count index : Nat} {session : Session} {ledger : Ledger}
    (unanswered : Unanswered count session ledger) (inside : index < count) :
    ∃ request, session.requests.server.requests[index]? = some request ∧
      request.xid = BitVec.ofNat 64 index := by
  have atIndex := congrArg (fun xids => xids[index]?) unanswered.xids
  simp only [getElem?_map, getElem?_range inside, Option.map_some] at atIndex
  exact Option.map_eq_some_iff.mp atIndex

theorem run_sessionStep_ledger {session session' : Session}
    {ledger ledger' : Ledger} {inputs : List SessionInput} {log : List (BitVec 64)}
    (runEq : run sessionStep (session, ledger) inputs =
      some (log, session', ledger')) : ledger' = inputs.foldl Ledger.next ledger := by
  induction inputs generalizing session ledger log with
  | nil =>
    cases runEq
    rfl
  | cons input inputs ih =>
    obtain ⟨outputs, next, later, stepEq, laterEq, -⟩ := run_cons_eq_some runEq
    obtain ⟨result, -, same⟩ := bind_eq_some_iff.mp stepEq
    cases same
    exact ih laterEq

theorem run_asked (count : Nat)
    (admissible : Admissible sessionStep (fun state input => state.2.Allows state.1 input)
      blankSession (asked count))
    (unanswered : let ledger := (asked count).foldl Ledger.next Ledger.nothing
      ledger.replies = [] ∧ ledger.building = none ∧ ledger.issued.begun.length = count)
    (extracted : (run sessionStep blankSession (asked count)).map
        (fun result => (result.1, result.2.1.requests.server.requests.map Request.xid)) =
      some ([], (List.range count).map (BitVec.ofNat 64))) :
    ∃ session ledger, run sessionStep blankSession (asked count) = some ([], session, ledger) ∧
      Unanswered count session ledger := by
  obtain ⟨log, ⟨session, ledger⟩, runEq, delivered, coming, arrived, queued, -, serving⟩ :=
    run_of_admissible sessionStep_replies []
      ⟨[], [], [], [], rfl, Serving.new blankHeap blankHeap blankHeap blankHeap⟩ _ admissible
  have ledgerEq := run_sessionStep_ledger runEq
  obtain ⟨replies, building, begun⟩ := unanswered
  rw [← ledgerEq] at replies building begun
  rw [runEq, Option.map_some, Option.some_inj, Prod.mk.injEq] at extracted
  obtain ⟨rfl, xids⟩ := extracted
  obtain ⟨rfl, rfl⟩ : delivered = [] ∧ coming = [] :=
    append_eq_nil_iff.mp (serving.replies.symm.trans replies)
  obtain ⟨front, rfl⟩ := append_eq_nil_iff.mp serving.stream
  obtain ⟨rfl, wire⟩ := append_eq_nil_iff.mp front
  have queues := serving.queues
  rw [show ledger.building = none from building] at queues
  have holds := serving.holds
  rw [show ledger.issued.begun.length = count from begun] at holds
  exact ⟨session, ledger, runEq, ledgerEq, xids, queues, wire, holds⟩

theorem run_replyWith (session : Session) {queued : List Byte} {index : Nat}
    {request : Request} (idle : session.server.Idle queued)
    (found : session.requests.server.requests[index]? = some request)
    (xid : request.xid = BitVec.ofNat 64 index) (text : List Byte) (ledger : Ledger) :
    ∃ server', run sessionStep (session, ledger) (replyWith index text) =
        some ([], { session with server := server' },
          { ledger with replies := ledger.replies ++ [textReply index text], building := none }) ∧
      server'.Idle (queued ++ frame (textReply index text).body) := by
  obtain ⟨server₁, beginEq, opened⟩ :=
    idle.beginPacket_eq (beginReply_puts (BitVec.ofNat 64 index) 0)
  obtain ⟨server₂, putEq, opened⟩ := opened.put_eq .string text
  obtain ⟨server₃, endEq, idle⟩ := opened.endPacket_eq
  refine ⟨server₃, ?_, ?_⟩
  · simp only [replyWith, run, sessionStep, Session.step, found, beginReply, xid,
      beginEq, putEq, endReply, endEq, some_bind, Option.pure_def]
    rfl
  · simpa [Reply.body, textReply] using idle

theorem length_textReply (index : Nat) (text : List Byte) :
    (textReply index text).body.length = (writeV64 (BitVec.ofNat 64 index)).length +
      ((writeV32 0).length + ((encodeLength text.length).length + text.length)) := by
  simp only [textReply, Reply.body, encode, length_append]

/-- A run ends with all its requests answered, but no way of moving the replies
to the client makes it notify a future. -/
def Undelivered (count : Nat) (inputs : List SessionInput) (replies : List Reply) : Prop :=
  ∃ session ledger, run sessionStep blankSession inputs = some ([], session, ledger) ∧
    ledger.issued.begun.map Call.xid = (List.range count).map (BitVec.ofNat 64) ∧
    ledger.replies = replies ∧
    ∀ moves : List SessionInput, (∀ move ∈ moves, Transfers move) →
      ∃ later session', run sessionStep (session, ledger) moves =
          some (later, session', ledger) ∧ session'.client.AllWait count

/-- A reply with a string of `2 ^ 31` bytes is not delivered. -/
theorem undelivered_of_too_long {text : List Byte} (length : text.length = 2 ^ 31) :
    Undelivered 1 (asked 1 ++ replyWith 0 text) [textReply 0 text] := by
  obtain ⟨session, ledger, askedEq, unanswered⟩ :=
    run_asked 1 (by decide +kernel) (by decide +kernel) (by decide +kernel)
  obtain ⟨request, found, xid⟩ := unanswered.found Nat.zero_lt_one
  obtain ⟨server', replyEq, idle'⟩ := run_replyWith session unanswered.idle found xid text ledger
  obtain ⟨rfl, -, -, wire, holds⟩ := unanswered
  refine ⟨_, _, run_append askedEq replyEq, rfl, rfl, ?_⟩
  have size : (textReply 0 text).body.length = 2 ^ 31 + 7 := by
    rw [length_textReply, length]
    decide +kernel
  have blocked : ∃ arrived queued, Blocked (textReply 0 text).body
      { session with server := server' } arrived queued :=
    ⟨[], _, by omega, by omega, idle', holds, by rw [wire]; rfl⟩
  have keeps : ∀ ledger session input,
      (∃ arrived queued, Blocked (textReply 0 text).body session arrived queued) →
        Transfers input → ∃ session',
          sessionStep (session, ledger) input = some ([], session', ledger) ∧
            ∃ arrived queued, Blocked (textReply 0 text).body session' arrived queued := by
    rintro ledger session input ⟨arrived, queued, blocked⟩ transfers
    obtain ⟨session', arrived', queued', stepEq, blocked'⟩ := blocked.step_eq transfers ledger
    exact ⟨session', stepEq, arrived', queued', blocked'⟩
  intro moves transfers
  obtain ⟨session', movesEq, arrived', queued', blocked'⟩ :=
    run_silent (keeps _) blocked moves transfers
  exact ⟨[], session', movesEq, blocked'.holds.allWait⟩

end SRPC.Tcp
