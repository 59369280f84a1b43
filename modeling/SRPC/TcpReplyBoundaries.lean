import SRPC.TcpReplyDelivery

/-!
# The reply stream and its packet boundaries

A round of `handle_read` takes one packet.  If no future is pending under the id of
the reply its result stays in `in_`, where the next round takes it for the size of
the next packet.
-/

namespace SRPC.Tcp

open LittleEndian SparseInt Marshalling PacketStream ByteSource

namespace Client

/-- A round of the loop of `handle_read`, unless the loop ends. -/
def replyRound (client : Client) (stack : Nat → Byte) :
    Option (Option (List (BitVec 64) × Client)) := do
  match ← nextPacket client.heap client.in_ with
  | none => return none
  | some (packetSize, heap, in_) =>
    let taken ← { client with heap := heap, in_ := in_ }.takeReply stack packetSize
    return some taken

def rounds (client : Client) (stack : Nat → Nat → Byte) : Nat → Option Client
  | 0 => some client
  | n + 1 => do
    let client ← client.rounds stack n
    let (_, client) ← ← client.replyRound (stack n)
    return client

variable {client : Client} {outcomes : List Outcome}

abbrev Pending (outcomes : List Outcome) (xid : BitVec 64) : Prop :=
  outcomes[xid.toNat]? = some none

/-- A reply that nobody waits for changes nothing. -/
def recordKnown (outcomes : List Outcome) (reply : Reply) : List Outcome :=
  if Pending outcomes reply.xid then record outcomes reply else outcomes

/-- What a round leaves in front of the next packet. -/
def leftOver (outcomes : List Outcome) (reply : Reply) : List Byte :=
  if Pending outcomes reply.xid then [] else reply.result

variable {reply : Reply} {more : List Byte}

theorem Holds.takeReply_unknown (holds : Holds client (reply.body ++ more) outcomes)
    (unknown : ¬ Pending outcomes reply.xid) (stack : Nat → Byte) (packetSize : BitVec 64) :
    ∃ client', client.takeReply stack packetSize = some ([], client') ∧
      Holds client' (reply.result ++ more) outcomes := by
  obtain ⟨read, heap₁, in₁, heap₂, in₂, xidEq, codeEq, holds₂, readXid⟩ := holds.decode stack
  have absent : client.pendingFu read = none := by
    rw [holds.pendingFu, if_neg]
    rcases readXid with rfl | ⟨large, -⟩
    · exact unknown
    · have few := holds.few
      rw [List.getElem?_eq_none (by omega)]
      exact (nomatch ·)
  refine ⟨_, ?_, holds₂⟩
  simp only [takeReply, xidEq, codeEq, absent, some_bind]
  rfl

theorem Holds.replyRound_eq (holds : Holds client (frame reply.body ++ more) outcomes)
    (small : reply.body.length < 2 ^ 31) (stack : Nat → Byte) :
    ∃ events client', client.replyRound stack = some (some (events, client')) ∧
      Holds client' (leftOver outcomes reply ++ more) (recordKnown outcomes reply) := by
  obtain ⟨heap₁, in₁, nextEq, holds₁⟩ := holds.nextPacket_eq small
  obtain ⟨events, client', taken, holds'⟩ : ∃ events client',
      { client with heap := heap₁, in_ := in₁ }.takeReply stack
        (BitVec.ofNat 64 reply.body.length) = some (events, client') ∧
      Holds client' (leftOver outcomes reply ++ more) (recordKnown outcomes reply) := by
    by_cases pending : Pending outcomes reply.xid
    · rw [leftOver, recordKnown, if_pos pending, if_pos pending]
      obtain ⟨client', taken, holds'⟩ := holds₁.takeReply_eq small pending stack
      exact ⟨_, client', taken, holds'⟩
    · rw [leftOver, recordKnown, if_neg pending, if_neg pending]
      obtain ⟨client', taken, holds'⟩ := holds₁.takeReply_unknown pending stack _
      exact ⟨_, client', taken, holds'⟩
  refine ⟨events, client', ?_, holds'⟩
  simp only [replyRound, nextEq, taken, some_bind]
  rfl

def outcomesAfter (outcomes : List Outcome) (coming : List Reply) (n : Nat) : List Outcome :=
  (coming.take n).foldl recordKnown outcomes

/-- After any number of rounds the client is in front of a packet, and the
replies before it were delivered to the futures that were pending under their
ids. -/
def InStep (client : Client) (stack : Nat → Nat → Byte)
    (outcomes : List Outcome) (coming : List Reply) (more : List Byte) : Prop :=
  ∀ n ≤ coming.length, ∃ client', client.rounds stack n = some client' ∧
    Holds client' (frames ((coming.drop n).map Reply.body) ++ more)
      (outcomesAfter outcomes coming n)

theorem Holds.rounds_succ {coming : List Reply} {n : Nat} {middle : Client}
    {stack : Nat → Nat → Byte} (rounds : client.rounds stack n = some middle)
    (holds : Holds middle (frames ((coming.drop n).map Reply.body) ++ more)
      (outcomesAfter outcomes coming n)) (found : coming[n]? = some reply)
    (small : reply.body.length < 2 ^ 31) :
    ∃ client', client.rounds stack (n + 1) = some client' ∧
      Holds client'
        (leftOver (outcomesAfter outcomes coming n) reply ++
          (frames ((coming.drop (n + 1)).map Reply.body) ++ more))
        (outcomesAfter outcomes coming (n + 1)) := by
  obtain ⟨inside, found⟩ := List.getElem?_eq_some_iff.mp found
  have front : frames ((coming.drop n).map Reply.body) ++ more = frame reply.body ++
        (frames ((coming.drop (n + 1)).map Reply.body) ++ more) := by
    rw [List.drop_eq_getElem_cons inside, found, List.map_cons, frames,
      List.flatMap_cons, List.append_assoc]
    rfl
  rw [front] at holds
  obtain ⟨events, client', roundEq, holds'⟩ := holds.replyRound_eq small (stack n)
  refine ⟨client', ?_, ?_⟩
  · simp only [Client.rounds, rounds, roundEq, some_bind]
    rfl
  · have next : outcomesAfter outcomes coming (n + 1) =
        recordKnown (outcomesAfter outcomes coming n) reply := by
      rw [outcomesAfter, List.take_add_one, List.getElem?_eq_getElem inside,
        found, List.foldl_append]
      rfl
    rw [next]
    exact holds'

end Client

open Client

/-- The client stays in step with a stream of replies exactly if each of them
finds a future that is pending under its id, or has no result. -/
theorem tcp_client_in_step_iff {client : Client} {outcomes : List Outcome}
    {coming : List Reply} {more : List Byte}
    (holds : Holds client (frames (coming.map Reply.body) ++ more) outcomes)
    (small : ∀ reply ∈ coming, reply.body.length < 2 ^ 31) (stack : Nat → Nat → Byte) :
    InStep client stack outcomes coming more ↔
      ∀ n reply, coming[n]? = some reply →
        Pending (outcomesAfter outcomes coming n) reply.xid ∨
          reply.result = [] := by
  constructor
  · intro inStep n reply found
    have inside := lt_of_getElem? found
    obtain ⟨middle, roundsEq, holdsMiddle⟩ := inStep n (Nat.le_of_lt inside)
    obtain ⟨last, lastEq, holdsLast⟩ := inStep (n + 1) inside
    obtain ⟨client', nextEq, holds'⟩ := Holds.rounds_succ roundsEq holdsMiddle
      found (small reply (List.mem_of_getElem? found))
    rw [lastEq, Option.some_inj] at nextEq
    subst nextEq
    have content := holds'.content.symm.trans holdsLast.content
    have nothing : leftOver (outcomesAfter outcomes coming n) reply = [] :=
      List.append_left_eq_self.mp content
    rw [leftOver] at nothing
    split at nothing
    case isTrue pending => exact .inl pending
    case isFalse => exact .inr nothing
  · intro known n
    induction n with
    | zero => exact fun _ => ⟨client, rfl, holds⟩
    | succ n ih =>
      intro inside
      obtain ⟨middle, roundsEq, holdsMiddle⟩ := ih (Nat.le_of_lt inside)
      have found := List.getElem?_eq_getElem inside
      obtain ⟨client', nextEq, holds'⟩ := Holds.rounds_succ roundsEq
        holdsMiddle found (small _ (List.getElem_mem inside))
      have nothing : leftOver (outcomesAfter outcomes coming n) coming[n] = [] := by
        rw [leftOver]
        split
        · rfl
        · exact (known n _ found).resolve_left ‹_›
      rw [nothing] at holds'
      exact ⟨client', nextEq, holds'⟩

def firstReply : Reply := ⟨0, 0, [0x2A]⟩

def strayReply : Reply := ⟨7, 0, [0xFF, 0xFF, 0xFF, 0x7F]⟩

/-- The second reply answers nothing that is pending, but has no result. -/
def threeReplies : List Reply := [⟨1, 3, [5, 6]⟩, ⟨9, 0, []⟩, firstReply]

theorem exists_holds_threeReplies :
    ∃ client, Holds client (frames (threeReplies.map Reply.body) ++ []) [none, none] := by
  have holds := ((holds_new blankHeap).newFuture (by decide)).newFuture (by decide)
  obtain ⟨heap, m, added, -, sound, grows, written, -⟩ := holds.sound.write_eq
    (show frames (threeReplies.map Reply.body) ++ [] ≠ [] by decide)
  have received := holds.act sound grows.frame
  rw [grows.content holds.sound.wellFormed, holds.content, List.nil_append, written] at received
  exact ⟨_, received⟩

theorem tcp_client_in_step_threeReplies :
    ∃ client, Holds client (frames (threeReplies.map Reply.body) ++ []) [none, none] ∧
      InStep client (fun _ _ => 0) [none, none] threeReplies [] := by
  obtain ⟨client, holds⟩ := exists_holds_threeReplies
  refine ⟨client, holds, (tcp_client_in_step_iff holds (by decide) _).mpr ?_⟩
  rintro (_ | _ | _ | n) reply found
  · cases found
    exact .inl rfl
  · cases found
    exact .inr rfl
  · cases found
    exact .inl rfl
  · cases found

/-- After an answer to nothing that is pending its result is taken for the size
of a packet, and the client waits for it with the answer to its own request in
its input. -/
theorem stray_reply_blocks_client :
    ((((new blankHeap).newFuture 0).handleRead
      (frames ([strayReply, firstReply].map Reply.body)) [100] fun _ _ => 0).map
        fun (notified, wire, client) => (notified, wire, client.in_.content client.heap,
          client.futures.map Future.notified)) =
      some ([], [], strayReply.result ++ frame firstReply.body, [0]) := by
  decide +kernel

end SRPC.Tcp
