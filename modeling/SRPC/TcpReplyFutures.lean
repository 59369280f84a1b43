import SRPC.TcpReplies

/-! # Futures of a session -/

namespace SRPC.Tcp

open LittleEndian SparseInt Marshalling PacketStream TransitionRuns List

namespace Client

/-- The future is registered and not notified. -/
def Waits (client : Client) (fu : Future) : Prop :=
  fu.notified = 0 ∧ ∃ index, client.pendingFu fu.xid = some index ∧ client.futures[index]? = some fu

/-- The future has this reply and is no longer registered. -/
structure Fulfilled (client : Client) (fu : Future) (reply : Reply) : Prop where
  notified : fu.notified = 1
  xid : fu.xid = reply.xid
  errorCode : fu.errorCode = reply.errorCode
  content : fu.reply.content client.heap = reply.result
  settled : client.pendingFu fu.xid = none

end Client

theorem foldl_record_cases {delivered : List Reply}
    {outcomes : List Client.Outcome} {index : Nat} {outcome : Client.Outcome}
    (found : (delivered.foldl Client.record outcomes)[index]? = some outcome) :
    (outcomes[index]? = some outcome ∧
      ∀ reply ∈ delivered, reply.xid.toNat ≠ index) ∨
    ∃ reply ∈ delivered, reply.xid.toNat = index ∧
      outcome = some (reply.errorCode, reply.result) := by
  induction delivered generalizing outcomes with
  | nil => exact Or.inl ⟨found, by simp⟩
  | cons first delivered ih =>
    rcases ih found with ⟨before, untouched⟩ | ⟨reply, member, rest⟩
    · by_cases here : first.xid.toNat = index
      · right
        refine ⟨first, mem_cons_self, here, ?_⟩
        have inside := lt_of_getElem? before
        rw [Client.length_record] at inside
        rw [Client.record, here, getElem?_set_self inside] at before
        exact (Option.some.inj before).symm
      · left
        rw [Client.record, getElem?_set_ne here] at before
        exact ⟨before, forall_mem_cons.mpr ⟨here, untouched⟩⟩
    · exact Or.inr ⟨reply, mem_cons_of_mem _ member, rest⟩

section Futures

variable {session : Session} {ledger : Ledger}
  {delivered coming : List Reply} {arrived queued : List Byte}

section

variable (serving : Serving session ledger delivered coming arrived queued)

include serving

theorem Serving.xids :
    session.client.futures.map Future.xid =
      (List.range ledger.issued.begun.length).map (BitVec.ofNat 64) := by
  have xids := serving.holds.xids
  rw [length_outcomesOf] at xids
  exact xids

theorem Serving.future {fu : Future} (member : fu ∈ session.client.futures) :
    (session.client.Waits fu ∧ ∀ reply ∈ delivered, reply.xid ≠ fu.xid) ∨
      ∃ reply ∈ delivered, session.client.Fulfilled fu reply := by
  obtain ⟨index, inside, rfl⟩ := mem_iff_getElem.mp member
  have found := getElem?_eq_getElem inside
  obtain ⟨outcome, outcomeFound, settled⟩ := forall₂_getElem serving.holds.futures.flip found
  have bound := lt_of_getElem? outcomeFound
  rw [length_outcomesOf] at bound
  have few := serving.few
  have xid : session.client.futures[index].xid = BitVec.ofNat 64 index := by
    have atIndex := congrArg (fun xids => xids[index]?) serving.xids
    simpa [found, getElem?_range bound] using atIndex
  have place : session.client.futures[index].xid.toNat = index := by
    rw [xid, BitVec.toNat_ofNat]
    omega
  have pending := serving.holds.pendingFu session.client.futures[index].xid
  rw [place, outcomeFound] at pending
  rcases foldl_record_cases outcomeFound with
    ⟨initial, untouched⟩ | ⟨reply, replyMember, replyXid, rfl⟩
  · obtain rfl : outcome = none := by
      rw [getElem?_replicate, if_pos bound] at initial
      exact (Option.some.inj initial).symm
    refine Or.inl ⟨⟨settled.2, index, by simpa using pending, found⟩, ?_⟩
    intro reply replyMember same
    exact untouched reply replyMember (same ▸ place)
  · obtain ⟨_, content, errorCode, notified⟩ := settled
    refine Or.inr ⟨reply, replyMember, notified, ?_, errorCode, content,
      by simpa using pending⟩
    exact BitVec.eq_of_toNat_eq (place.trans replyXid.symm)

theorem Serving.pendingFu_eq_none
    (answered : ∀ fu ∈ session.client.futures, ∃ reply ∈ delivered,
      session.client.Fulfilled fu reply) (xid : BitVec 64) :
    session.client.pendingFu xid = none := by
  rw [serving.holds.pendingFu, if_neg]
  intro waiting
  obtain ⟨fu, found, _, silent⟩ := forall₂_getElem serving.holds.futures waiting
  obtain ⟨reply, _, fulfilled⟩ := answered fu (mem_of_getElem? found)
  cases silent.symm.trans fulfilled.notified

end

/-- The log has the ids of the replies delivered so far. -/
def Replying (log : List (BitVec 64)) (state : Session × Ledger) : Prop :=
  ∃ delivered coming arrived queued, log = delivered.map Reply.xid ∧
    Serving state.1 state.2 delivered coming arrived queued

theorem sessionStep_replies (log : List (BitVec 64)) (state : Session × Ledger)
    (input : SessionInput) (replying : Replying log state)
    (allowed : state.2.Allows state.1 input) :
    ∃ notified next, sessionStep state input = some (notified, next) ∧
      Replying (log ++ notified) next := by
  obtain ⟨delivered, coming, arrived, queued, rfl, serving⟩ := replying
  obtain ⟨session', more, coming', arrived', queued', stepEq, -, serving'⟩ :=
    step_continues serving allowed
  refine ⟨_, (session', state.2.next input), ?_, delivered ++ more,
    coming', arrived', queued', map_append.symm, serving'⟩
  simp [sessionStep, stepEq]

theorem sessionStep_counts (log : List (BitVec 64)) (state : Session × Ledger)
    (input : SessionInput) (notified : List (BitVec 64)) (next : Session × Ledger)
    (replying : Replying log state) (allowed : state.2.Allows state.1 input)
    (waiting : ¬ Complete state.1.inBytes)
    (stepEq : sessionStep state input = some (notified, next)) :
    ¬ Complete next.1.inBytes ↔ state.1.Counts input := by
  obtain ⟨delivered, coming, arrived, queued, -, serving⟩ := replying
  obtain ⟨session', more, rest, left, queued', sessionEq, moves, serving'⟩ :=
    step_continues serving allowed
  simp only [sessionStep, sessionEq, some_bind] at stepEq
  cases stepEq
  cases input with
  | receiveReplies answers stack =>
    obtain ⟨n, wire, reads⟩ := moves
    have stream : session'.inBytes ++ (session'.wire ++ queued') =
        frames (rest.map Reply.body) := by
      rw [← append_assoc, Session.inBytes, serving'.holds.content]
      exact serving'.stream
    have small : ∀ body ∈ rest.map Reply.body, body.length < 2 ^ 31 := by
      refine forall_mem_map.mpr fun reply member => serving'.small reply ?_
      rw [serving'.replies]
      exact mem_append_right _ member
    rw [reads.not_complete_iff waiting stream small, Session.Counts, sessionEq, ← wire]
    simp
  | _ => exact iff_of_true (moves.1 ▸ waiting) trivial

end Futures

/-- In every run no assertion fails, and every future waits for its reply or
was notified, once, of the reply that carries its id.  Each further step moves
the bytes that the kernel lets it move.  No complete packet is left in the input
of the client exactly if `handle_read` never counts the bytes it has read as
none; then, when every request is answered and nothing else is on its way, every
future was notified and none is pending. -/
theorem tcp_replies_reach_futures
    (clientOut serverIn serverOut clientIn : Heap) (inputs : List SessionInput)
    (allowed : Admissible sessionStep (fun state input => state.2.Allows state.1 input)
      (Session.new clientOut serverIn serverOut clientIn, Ledger.nothing) inputs) :
    ∃ log session ledger, run sessionStep
        (Session.new clientOut serverIn serverOut clientIn, Ledger.nothing)
        inputs = some (log, session, ledger) ∧
      session.client.futures.map Future.xid =
        (List.range ledger.issued.begun.length).map (BitVec.ofNat 64) ∧
      (ledger.replies.map Reply.xid).Nodup ∧ log.Nodup ∧
      (∀ fu ∈ session.client.futures, session.client.Waits fu ∨
        ∃ reply ∈ ledger.replies, session.client.Fulfilled fu reply) ∧
      (∀ input, ledger.Allows session input → ∃ notified next,
        session.step input = some (notified, next) ∧ session.Moves next input) ∧
      ((∀ first second, inputs = first ++ second → ∃ log last, run sessionStep
          (Session.new clientOut serverIn serverOut clientIn, Ledger.nothing) first =
            some (log, last) ∧ ¬ Complete last.1.inBytes) ↔
        Admissible sessionStep (fun state input => state.1.Counts input)
          (Session.new clientOut serverIn serverOut clientIn, Ledger.nothing) inputs) ∧
      (Admissible sessionStep (fun state input => state.1.Counts input)
          (Session.new clientOut serverIn serverOut clientIn, Ledger.nothing) inputs →
        session.wire = [] → session.outBytes = [] →
        (∀ fu ∈ session.client.futures, ∃ reply ∈ ledger.replies, reply.xid = fu.xid) →
        (∀ fu ∈ session.client.futures, ∃ reply ∈ ledger.replies,
          session.client.Fulfilled fu reply) ∧
        ∀ xid, session.client.pendingFu xid = none) := by
  have start : Replying [] (Session.new clientOut serverIn serverOut clientIn, Ledger.nothing) :=
    ⟨[], [], [], [], rfl, Serving.new clientOut serverIn serverOut clientIn⟩
  obtain ⟨log, ⟨session, ledger⟩, runEq, delivered, coming, arrived, queued, logEq, serving⟩ :=
    run_of_admissible sessionStep_replies [] start inputs allowed
  rw [nil_append] at logEq
  have counted := intact_iff_of_preserved sessionStep_replies sessionStep_counts []
    start (show ¬ Complete [] by decide) inputs allowed
  have distinct : (ledger.replies.map Reply.xid).Nodup := by
    have distinct := serving.distinct
    rw [Ledger.begun, map_append] at distinct
    exact distinct.of_append_left
  have known : ∀ reply ∈ delivered, reply ∈ ledger.replies := by
    rw [serving.replies]
    exact fun reply => mem_append_left _
  refine ⟨log, session, ledger, runEq, serving.xids, distinct, ?_, ?_, ?_, counted, ?_⟩
  · have parts := distinct
    rw [serving.replies, map_append] at parts
    rw [logEq]
    exact parts.of_append_left
  · intro fu member
    rcases serving.future member with ⟨waits, _⟩ | ⟨reply, replyMember, fulfilled⟩
    · exact Or.inl waits
    · exact Or.inr ⟨reply, known reply replyMember, fulfilled⟩
  · intro input accepted
    obtain ⟨next, more, -, -, -, stepEq, moves, -⟩ := step_continues serving accepted
    exact ⟨_, next, stepEq, moves⟩
  · intro counts noWire nothing answered
    obtain ⟨_, last, lastEq, waiting⟩ := counted.mpr counts inputs [] (append_nil _).symm
    cases lastEq.symm.trans runEq
    have stream := serving.stream
    rw [noWire, serving.queues.eq_nil nothing, append_nil, append_nil,
      ← serving.holds.content] at stream
    have all : coming = [] := map_eq_nil_iff.mp (eq_nil_of_not_complete stream waiting)
    have replies := serving.replies
    rw [all, append_nil] at replies
    have fulfilled : ∀ fu ∈ session.client.futures, ∃ reply ∈ delivered,
        session.client.Fulfilled fu reply := by
      intro fu member
      rcases serving.future member with ⟨_, missing⟩ | found
      · obtain ⟨reply, replyMember, same⟩ := answered fu member
        rw [replies] at replyMember
        exact absurd same (missing reply replyMember)
      · exact found
    rw [replies]
    exact ⟨fulfilled, serving.pendingFu_eq_none fulfilled⟩

abbrev blankSession : Session × Ledger :=
  (Session.new blankHeap blankHeap blankHeap blankHeap, Ledger.nothing)

def sampleSession : List SessionInput :=
  [.request (.beginRequest 7), .request (.put (.scalar .u8) (5#8)),
    .request .endRequest, .request (.beginRequest 9), .request .endRequest,
    .request (.handleWrite [100]), .request (.handleRead [100] fun _ _ => 0xA5),
    .beginReply 1 0, .putReply (.scalar .u16) (513#16), .endReply,
    .beginReply 0 (-1), .endReply, .sendReplies [5, 100],
    .receiveReplies [3] (fun _ _ => 0xA5), .sendReplies [100],
    .receiveReplies [2, 100] fun _ _ => 0xA5]

theorem tcp_replies_reach_futures_sample :
    ∃ log session ledger, run sessionStep blankSession sampleSession = some (log, session, ledger) ∧
      log = [1, 0] ∧ ledger.replies = [⟨1, 0, [1, 2]⟩, ⟨0, -1, []⟩] ∧
      (∀ fu ∈ session.client.futures, ∃ reply ∈ ledger.replies, session.client.Fulfilled fu reply) ∧
      ∀ xid, session.client.pendingFu xid = none := by
  obtain ⟨log, session, ledger, runEq, -, -, -, -, -, -, all⟩ := tcp_replies_reach_futures
    blankHeap blankHeap blankHeap blankHeap sampleSession (by decide +kernel)
  have final : (run sessionStep blankSession sampleSession).map (fun result =>
      (result.1, result.2.1.wire, result.2.1.outBytes, result.2.2.replies,
        result.2.1.client.futures.map Future.xid)) =
      some ([1, 0], [], [], [⟨1, 0, [1, 2]⟩, ⟨0, -1, []⟩], [0, 1]) := by
    decide +kernel
  rw [runEq, Option.map_some, Option.some_inj] at final
  simp only [Prod.mk.injEq] at final
  obtain ⟨logEq, noWire, nothing, replies, xids⟩ := final
  refine ⟨log, session, ledger, runEq, logEq, replies,
    all (by decide +kernel) noWire nothing fun fu member => ?_⟩
  have known := mem_map_of_mem (f := Future.xid) member
  rw [xids] at known
  rw [replies]
  simp only [mem_cons, not_mem_nil, or_false] at known
  rcases known with zero | one
  · exact ⟨_, mem_cons_of_mem _ mem_cons_self, zero.symm⟩
  · exact ⟨_, mem_cons_self, one.symm⟩

end SRPC.Tcp
