import SRPC.TcpOversizedReply

/-!
# Bytes that are not counted

`handle_read` keeps the number of bytes it has read in an `int`.  A call that
reads `2 ^ 32` bytes has 0 there and returns without looking at them, so complete
packets stay in the input until more bytes arrive, if ever.
-/

namespace SRPC.Tcp

open LittleEndian SparseInt Marshalling PacketStream TransitionRuns List

/-- Whoever reads these bytes with these answers reads them all, and has read
none as an `int`. -/
structure Uncounted (answers : List Int) (wire : List Byte) : Prop where
  all : ∀ n, KernelMoves (fun _ => True) answers wire.length n → n = wire.length
  none : toI32 wire.length = 0

theorem uncounted_nil (answers : List Int) : Uncounted answers [] :=
  ⟨fun _ moves => Nat.eq_zero_of_le_zero moves.le, rfl⟩

variable {answers : List Int} {wire bytes queued : List Byte}

/-- The kernel refuses nothing and moves a byte at least with each answer. -/
structure Generous (answers : List Int) : Prop where
  length : answers.length = 2 ^ 32
  accepted : ∀ answer ∈ answers, 0 < answer

theorem exists_generous : ∃ ones, ones = List.replicate (2 ^ 32) 1 ∧ Generous ones := by
  refine ⟨_, rfl, length_replicate, fun answer member => ?_⟩
  rw [eq_of_mem_replicate member]
  decide

theorem Generous.uncounted (generous : Generous answers) (length : wire.length = 2 ^ 32) :
    Uncounted answers wire where
  all n moves := moves.eq_of_positive (fun _ asks => absurd trivial asks) generous.accepted
    (length.trans generous.length.symm).le
  none := by
    rw [length]
    decide

theorem Generous.handleWrite (generous : Generous answers) {sender : Sender}
    (idle : sender.Idle queued) (length : queued.length = 2 ^ 32) :
    ∃ sender', sender.handleWrite answers = some (queued, sender') ∧ sender'.Idle [] := by
  obtain ⟨n, sender', writeEq, moves, idle'⟩ := idle.handleWrite_eq answers
  obtain rfl := moves.eq_of_positive (fun _ => not_not.mp) generous.accepted
    (length.trans generous.length.symm).le
  rw [take_length] at writeEq
  rw [drop_length] at idle'
  exact ⟨sender', writeEq, idle'⟩

section Requests

theorem Uncounted.server (uncounted : Uncounted answers wire) {connection : Connection}
    {calls : List Call} (holds : connection.Holds bytes calls) (stack : Nat → Nat → Byte) :
    ∃ connection', connection.handleRead wire answers stack = some ([], [], connection') ∧
      connection'.Holds (bytes ++ wire) calls := by
  obtain ⟨n, _, heap, in_, readEq, moves, holds'⟩ := holds.receive wire answers
  obtain rfl := uncounted.all n moves
  rw [take_length] at holds'
  rw [drop_length] at readEq
  refine ⟨_, ?_, holds'⟩
  simp only [Connection.handleRead, readEq, some_bind, uncounted.none, if_true]
  rfl

/-- Bytes of requests are sent or received. -/
def Transports : RequestInput → Prop
  | .handleWrite _ => True
  | .handleRead _ _ => True
  | _ => False

/-- Nothing is on its way to the server, which has not looked at these bytes. -/
structure LeftBehind (path : RequestPath) (arrived : List Byte) : Prop where
  idle : path.client.Idle []
  wire : path.wire = []
  holds : path.server.Holds arrived []

theorem LeftBehind.step {path : RequestPath} {arrived : List Byte} (left : LeftBehind path arrived)
    (issued : Issued) {input : RequestInput} (transports : Transports input) :
    ∃ path', requestStep (path, issued) input = some ([], path', issued) ∧
      LeftBehind path' arrived := by
  obtain ⟨idle, wire, holds⟩ := left
  cases input with
  | handleWrite answers =>
    obtain ⟨n, client', writeEq, -, idle'⟩ := idle.handleWrite_eq answers
    rw [take_nil] at writeEq
    rw [drop_nil] at idle'
    refine ⟨{ path with client := client' }, ?_, idle', wire, holds⟩
    simp [requestStep, RequestPath.step, writeEq, Issued.next]
  | handleRead answers stack =>
    obtain ⟨server', readEq, holds'⟩ := (uncounted_nil answers).server holds stack
    rw [append_nil] at holds'
    refine ⟨{ path with wire := [], server := server' }, ?_, idle, rfl, holds'⟩
    simp [requestStep, RequestPath.step, wire, readEq, Issued.next]
  | _ => exact transports.elim

def requestWith (text : List Byte) : List RequestInput :=
  [.beginRequest 7, .put .string text, .endRequest]

/-- The request that is sent so. -/
def textCall (index : Nat) (text : List Byte) : Call :=
  ⟨BitVec.ofNat 64 index, toBytes 4 (7 : BitVec 32) ++ encode .string text⟩

theorem length_textCall (index : Nat) (text : List Byte) :
    (textCall index text).body.length = (writeV64 (BitVec.ofNat 64 index)).length +
      (4 + ((encodeLength text.length).length + text.length)) := by
  simp only [textCall, Call.body, encode, length_append, length_toBytes]

theorem run_requestWith (path : RequestPath) (issued : Issued) (idle : path.client.Idle queued)
    (xid : path.xidCounter = BitVec.ofNat 64 issued.calls.length) (text : List Byte) :
    ∃ client', run requestStep (path, issued) (requestWith text) =
        some ([], { path with client := client', xidCounter := path.xidCounter + 1 },
          ⟨issued.calls ++ [textCall issued.calls.length text], none⟩) ∧
      client'.Idle (queued ++ frame (textCall issued.calls.length text).body) := by
  obtain ⟨client₁, beginEq, opened⟩ := idle.beginPacket_eq (beginRequest_puts path.xidCounter 7)
  obtain ⟨client₂, putEq, opened⟩ := opened.put_eq .string text
  obtain ⟨client₃, endEq, idle⟩ := opened.endPacket_eq
  refine ⟨client₃, ?_, ?_⟩
  · simp only [requestWith, run, requestStep, RequestPath.step, beginRequest,
      beginEq, putEq, endRequest, endEq, some_bind, Option.pure_def]
    rfl
  · simpa [Call.body, textCall, xid] using idle

theorem Generous.leaves_requests (generous : Generous answers) (path : RequestPath)
    (idle : path.client.Idle queued) (wire : path.wire = []) (holds : path.server.Holds [] [])
    (length : queued.length = 2 ^ 32) (issued : Issued) (stack : Nat → Nat → Byte) :
    ∃ path', run requestStep (path, issued)
        [.handleWrite answers, .handleRead answers stack] = some ([], path', issued) ∧
      LeftBehind path' queued := by
  obtain ⟨client', writeEq, idle'⟩ := generous.handleWrite idle length
  obtain ⟨server', readEq, holds'⟩ := (generous.uncounted length).server holds stack
  refine ⟨{ path with client := client', wire := [], server := server' }, ?_, idle', rfl, holds'⟩
  simp [run, requestStep, RequestPath.step, writeEq, wire, readEq, Issued.next]

/-- Two requests of fewer than `2 ^ 31` bytes arrive whole, in one call of
`handle_read` that reads `2 ^ 32` bytes, but the server does not extract them,
whatever is then read or written. -/
theorem tcp_requests_uncounted :
    ∃ text ones path issued, text = List.replicate (2 ^ 31 - 14) 0 ∧
      ones = List.replicate (2 ^ 32) 1 ∧
      run requestStep (RequestPath.new blankHeap blankHeap, Issued.nothing)
        (requestWith text ++ (requestWith text ++
          [.handleWrite ones, .handleRead ones fun _ _ => 0xA5])) = some ([], path, issued) ∧
      issued = ⟨[textCall 0 text, textCall 1 text], none⟩ ∧
      (∀ call ∈ issued.calls, call.body.length < 2 ^ 31) ∧
      path.inBytes = frames (issued.calls.map Call.body) ∧
      ∀ moves : List RequestInput, (∀ move ∈ moves, Transports move) →
        ∃ path', run requestStep (path, issued) moves = some ([], path', issued) ∧
          path'.server.requests = [] := by
  obtain ⟨text, textEq⟩ : ∃ text : List Byte, text = List.replicate (2 ^ 31 - 14) 0 := ⟨_, rfl⟩
  obtain ⟨ones, onesEq, generous⟩ := exists_generous
  have length : text.length = 2 ^ 31 - 14 := by rw [textEq, length_replicate]
  have first : (textCall 0 text).body.length = 2 ^ 31 - 4 := by
    rw [length_textCall, length]
    decide +kernel
  have second : (textCall 1 text).body.length = 2 ^ 31 - 4 := by
    rw [length_textCall, length]
    decide +kernel
  obtain ⟨client₁, firstEq, idle₁⟩ := run_requestWith (RequestPath.new blankHeap blankHeap)
    Issued.nothing (Sender.idle_new blankHeap) rfl text
  obtain ⟨client₂, secondEq, idle₂⟩ := run_requestWith
    { RequestPath.new blankHeap blankHeap with client := client₁, xidCounter := 1 }
    ⟨[textCall 0 text], none⟩ idle₁ rfl text
  have total : ([] ++ frame (textCall 0 text).body ++ frame (textCall 1 text).body).length =
      2 ^ 32 := by
    simp only [nil_append, length_append, length_frame, first, second]
    decide
  obtain ⟨path, lastEq, left⟩ := generous.leaves_requests
    { RequestPath.new blankHeap blankHeap with client := client₂, xidCounter := 2 } idle₂ rfl
    (Connection.holds_new blankHeap) total ⟨[textCall 0 text, textCall 1 text], none⟩
    fun _ _ => 0xA5
  refine ⟨text, ones, path, _, textEq, onesEq,
    run_append firstEq (run_append secondEq lastEq), rfl, ?_, ?_, ?_⟩
  · intro call member
    simp only [mem_cons, not_mem_nil, or_false] at member
    rcases member with rfl | rfl <;> omega
  · rw [RequestPath.inBytes, left.holds.content]
    simp [Issued.nothing]
  · intro moves transports
    obtain ⟨path', runEq, left'⟩ := run_silent
      (fun path input (left : LeftBehind path _) transports => left.step _ transports)
      left moves transports
    exact ⟨path', runEq, forall₂_nil_right_iff.mp left'.holds.requests⟩

end Requests

section Replies

theorem Uncounted.client (uncounted : Uncounted answers wire) {client : Client}
    {outcomes : List Client.Outcome} (holds : client.Holds bytes outcomes)
    (stack : Nat → Nat → Byte) :
    ∃ client', client.handleRead wire answers stack = some ([], [], client') ∧
      client'.Holds (bytes ++ wire) outcomes := by
  obtain ⟨n, _, heap, in_, readEq, moves, holds'⟩ := holds.receive wire answers
  obtain rfl := uncounted.all n moves
  rw [take_length] at holds'
  rw [drop_length] at readEq
  refine ⟨_, ?_, holds'⟩
  simp only [Client.handleRead, readEq, some_bind, uncounted.none, if_true]
  rfl

/-- Nothing is on its way to the client, which has not looked at these bytes. -/
structure Overlooked (session : Session) (arrived : List Byte)
    (outcomes : List Client.Outcome) : Prop where
  idle : session.server.Idle []
  wire : session.wire = []
  holds : session.client.Holds arrived outcomes

variable {session : Session} {outcomes : List Client.Outcome}

theorem Overlooked.step (overlooked : Overlooked session bytes outcomes) {input : SessionInput}
    (transfers : Transfers input) (ledger : Ledger) :
    ∃ session', sessionStep (session, ledger) input = some ([], session', ledger) ∧
      Overlooked session' bytes outcomes := by
  obtain ⟨idle, wire, holds⟩ := overlooked
  cases input with
  | sendReplies answers =>
    obtain ⟨n, server', writeEq, -, idle'⟩ := idle.handleWrite_eq answers
    rw [take_nil] at writeEq
    rw [drop_nil] at idle'
    refine ⟨{ session with server := server' }, ?_, idle', wire, holds⟩
    simp [sessionStep, Session.step, writeEq, Ledger.next]
  | receiveReplies answers stack =>
    obtain ⟨client', readEq, holds'⟩ := (uncounted_nil answers).client holds stack
    rw [append_nil] at holds'
    refine ⟨{ session with wire := [], client := client' }, ?_, idle, rfl, holds'⟩
    simp [sessionStep, Session.step, wire, readEq, Ledger.next]
  | _ => exact transfers.elim

theorem Generous.overlooks_replies (generous : Generous answers) (session : Session)
    (idle : session.server.Idle queued) (wire : session.wire = [])
    (holds : session.client.Holds [] outcomes) (length : queued.length = 2 ^ 32)
    (ledger : Ledger) (stack : Nat → Nat → Byte) :
    ∃ session', run sessionStep (session, ledger)
        [.sendReplies answers, .receiveReplies answers stack] = some ([], session', ledger) ∧
      Overlooked session' queued outcomes := by
  obtain ⟨server', writeEq, idle'⟩ := generous.handleWrite idle length
  obtain ⟨client', readEq, holds'⟩ := (generous.uncounted length).client holds stack
  refine ⟨{ session with server := server', wire := [], client := client' }, ?_, idle', rfl, holds'⟩
  simp [run, sessionStep, Session.step, writeEq, wire, readEq, Ledger.next]

theorem undelivered_of_uncounted {text : List Byte} (length : text.length = 2 ^ 31 - 11)
    (generous : Generous answers) (stack : Nat → Nat → Byte) :
    Undelivered 2 (asked 2 ++ (replyWith 0 text ++ (replyWith 1 text ++
      [.sendReplies answers, .receiveReplies answers stack])))
      [textReply 0 text, textReply 1 text] := by
  obtain ⟨session, ledger, askedEq, unanswered⟩ :=
    run_asked 2 (by decide +kernel) (by decide +kernel) (by decide +kernel)
  obtain ⟨request, found, xid⟩ := unanswered.found Nat.zero_lt_two
  obtain ⟨other, otherFound, otherXid⟩ := unanswered.found Nat.one_lt_two
  obtain ⟨server₁, firstEq, idle₁⟩ := run_replyWith session unanswered.idle found xid text ledger
  obtain ⟨rfl, -, -, wire, holds⟩ := unanswered
  obtain ⟨server₂, secondEq, idle₂⟩ := run_replyWith
    { session with server := server₁ } idle₁ otherFound otherXid text _
  have first : (textReply 0 text).body.length = 2 ^ 31 - 4 := by
    rw [length_textReply, length]
    decide +kernel
  have second : (textReply 1 text).body.length = 2 ^ 31 - 4 := by
    rw [length_textReply, length]
    decide +kernel
  have total : ([] ++ frame (textReply 0 text).body ++ frame (textReply 1 text).body).length =
      2 ^ 32 := by
    simp only [nil_append, length_append, length_frame, first, second]
    decide
  obtain ⟨session', lastEq, overlooked⟩ := generous.overlooks_replies
    { session with server := server₂ } idle₂ wire holds total _ stack
  refine ⟨session', _, run_append askedEq (run_append firstEq
    (run_append secondEq lastEq)), rfl, rfl, fun moves transfers => ?_⟩
  obtain ⟨last, movesEq, final⟩ := run_silent
    (fun session input (overlooked : Overlooked session _ _) transfers =>
      overlooked.step transfers _) overlooked moves transfers
  exact ⟨[], last, movesEq, final.holds.allWait⟩

/-- A reply with a string of `2 ^ 31` bytes is never delivered, and neither are
two shorter ones that the client reads in one call, `2 ^ 32` bytes together. -/
theorem tcp_replies_undelivered :
    (∃ text, text = List.replicate (2 ^ 31) 0 ∧
      Undelivered 1 (asked 1 ++ replyWith 0 text) [textReply 0 text]) ∧
    ∃ text ones, text = List.replicate (2 ^ 31 - 11) 0 ∧ ones = List.replicate (2 ^ 32) 1 ∧
      Undelivered 2 (asked 2 ++ (replyWith 0 text ++ (replyWith 1 text ++
        [.sendReplies ones, .receiveReplies ones fun _ _ => 0xA5])))
        [textReply 0 text, textReply 1 text] := by
  obtain ⟨ones, onesEq, generous⟩ := exists_generous
  exact ⟨⟨_, rfl, undelivered_of_too_long length_replicate⟩,
    _, ones, rfl, onesEq, undelivered_of_uncounted length_replicate generous _⟩

end Replies

end SRPC.Tcp
