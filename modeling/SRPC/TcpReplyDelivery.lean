import SRPC.TcpClient

/-!
# Replies settle the futures they are meant for

`handle_read` delivers the replies that have arrived in full, in their order, each
to the future that is pending under its id.
-/

namespace SRPC.Tcp

open LittleEndian SparseInt Marshalling PacketStream ByteSource List

namespace Client

variable {client : Client} {bytes later : List Byte} {outcomes : List Outcome}

/-- The reply settles the future with its id. -/
def record (outcomes : List Outcome) (reply : Reply) : List Outcome :=
  outcomes.set reply.xid.toNat (some (reply.errorCode, reply.result))

theorem length_record (outcomes : List Outcome) (reply : Reply) :
    (record outcomes reply).length = outcomes.length := length_set

/-- Each of the coming replies is awaited by a future of its own. -/
structure Awaited (outcomes : List Outcome) (coming : List Reply) : Prop where
  pending : ∀ reply ∈ coming, outcomes[reply.xid.toNat]? = some none
  distinct : (coming.map Reply.xid).Nodup

variable {reply : Reply} {coming : List Reply}

theorem Awaited.tail (awaited : Awaited outcomes (reply :: coming)) :
    Awaited (record outcomes reply) coming := by
  obtain ⟨pending, distinct⟩ := awaited
  rw [map_cons, nodup_cons] at distinct
  refine ⟨fun other member => ?_, distinct.2⟩
  rw [record, getElem?_set_ne, pending other (mem_cons_of_mem _ member)]
  intro same
  exact distinct.1 (BitVec.eq_of_toNat_eq same ▸ mem_map_of_mem member)

theorem Awaited.drop {complete rest : List Reply} (awaited : Awaited outcomes (complete ++ rest)) :
    Awaited (complete.foldl record outcomes) rest := by
  induction complete generalizing outcomes with
  | nil => exact awaited
  | cons reply complete ih => exact ih awaited.tail

theorem resultSize (reply : Reply) (small : reply.body.length < 2 ^ 31) :
    (BitVec.ofNat 64 reply.body.length - BitVec.ofNat 64 (valSize reply.xid) -
        BitVec.ofNat 64 (valSize (reply.errorCode.signExtend 64))).toNat = reply.result.length := by
  have length : reply.body.length = valSize reply.xid +
      (valSize (reply.errorCode.signExtend 64) + reply.result.length) := by
    rw [Reply.body, length_append, length_append, length_writeV64, valSize_signExtend]
  rw [BitVec.toNat_sub, BitVec.toNat_sub, BitVec.toNat_ofNat,
    BitVec.toNat_ofNat, BitVec.toNat_ofNat]
  omega

variable {more : List Byte}

/-- The id and the error code are decoded from the input.  Another id than that
of the reply may be read, but none that a future has. -/
theorem Holds.decode (holds : Holds client (reply.body ++ more) outcomes) (stack : Nat → Byte) :
    ∃ read heap₁ in₁ heap₂ in₂, getV64 marshalSource stack (client.heap, client.in_) =
        some (read, heap₁, in₁) ∧
      getSparse marshalSource 5 loadI32 (heap₁, in₁) = some (reply.errorCode, heap₂, in₂) ∧
      Holds { client with heap := heap₂, in_ := in₂ } (reply.result ++ more) outcomes ∧
      (read = reply.xid ∨ 2 ^ 48 ≤ read.toNat ∧ 2 ^ 48 ≤ reply.xid.toNat) := by
  obtain ⟨read, decoded, readXid⟩ := getV64_writeV64_small reply.xid stack
    (writeV32 reply.errorCode ++ reply.result ++ more)
  have decodedBody : getV64 ByteSource.list stack (reply.body ++ more) =
      some (read, writeV32 reply.errorCode ++ reply.result ++ more) := by
    rw [Reply.body, append_assoc]
    exact decoded
  have code : getSparse ByteSource.list 5 loadI32
      (writeV32 reply.errorCode ++ reply.result ++ more) =
        some (reply.errorCode, reply.result ++ more) := by
    rw [getSparse_list, append_assoc]
    exact readV32_writeV32 _ _
  obtain ⟨heap₁, in₁, heap₂, in₂, firstEq, secondEq, sound₂, frame₂, -, content₂⟩ :=
    getHeader_eq holds.sound (holds.content.symm ▸ decodedBody) code
  refine ⟨read, heap₁, in₁, heap₂, in₂, firstEq, secondEq, ?_, readXid⟩
  rw [← content₂]
  exact holds.act sound₂ frame₂

/-- The result of a reply moves to its future. -/
theorem Holds.settle (holds : Holds client (reply.result ++ more) outcomes)
    (awaited : outcomes[reply.xid.toNat]? = some none) :
    ∃ fu heap' m' in', client.futures[reply.xid.toNat]? = some fu ∧ fu.xid = reply.xid ∧
      fu.reply.readFromMarshal client.heap client.in_ reply.result.length =
        some (reply.result.length, heap', m', in') ∧
      Holds
        { heap := heap'
          in_ := in'
          pendingFu := Function.update client.pendingFu reply.xid none
          futures := client.futures.set reply.xid.toNat
            { fu with
              errorCode := reply.errorCode
              reply := m'
              notified := fu.notified + 1 } }
        more
        (record outcomes reply) := by
  obtain ⟨fu, found, emptyReply, silent⟩ := forall₂_getElem holds.futures awaited
  have xidEq : fu.xid = reply.xid := by
    have atIndex := congrArg (fun xids => xids[reply.xid.toNat]?) holds.xids
    have inside := lt_of_getElem? awaited
    simp only [getElem?_map, found, Option.map_some,
      getElem?_range inside, Option.some.injEq] at atIndex
    rw [atIndex, BitVec.ofNat_toNat, BitVec.setWidth_eq]
  have enough : reply.result.length ≤ (client.in_.content client.heap).length := by
    rw [holds.content, length_append]
    omega
  obtain ⟨heap', m', in', sharedEq, soundM, sound', shares, owned'⟩ :=
    moveReply_eq holds.sound holds.owned found emptyReply enough reply.errorCode
  refine ⟨fu, heap', m', in', found, xidEq, sharedEq, sound', owned', ?_, ?_, ?_, ?_, ?_⟩
  · rw [shares.sourceContent, holds.content, drop_left]
  · refine forall₂_set holds.futures ⟨soundM, ?_, rfl, ?_⟩ ?_
    · rw [shares.targetContent, holds.content, take_left]
      rfl
    · rw [silent]
    · intro old member outcome settled
      exact settled.congr (owned'.othersOk _ (mem_map_of_mem member))
        (content_congr fun cell _ => shares.bytes cell)
  · rw [length_record, ← holds.xids]
    exact map_set_of_getElem? found rfl
  · rw [length_record]
    exact holds.few
  · intro xid
    show Function.update client.pendingFu reply.xid none xid = _
    by_cases same : xid = reply.xid
    · have inside := lt_of_getElem? awaited
      rw [same, Function.update_self, record, getElem?_set_self inside]
      simp
    · rw [Function.update_of_ne same, holds.pendingFu, record, getElem?_set_ne]
      exact fun equal => same (BitVec.eq_of_toNat_eq equal.symm)

theorem Holds.takeReply_eq (holds : Holds client (reply.body ++ more) outcomes)
    (small : reply.body.length < 2 ^ 31) (awaited : outcomes[reply.xid.toNat]? = some none)
    (stack : Nat → Byte) :
    ∃ client', client.takeReply stack (BitVec.ofNat 64 reply.body.length) =
        some ([reply.xid], client') ∧
      Holds client' more (record outcomes reply) := by
  have inside := lt_of_getElem? awaited
  obtain ⟨read, heap₁, in₁, heap₂, in₂, xidEq, codeEq, holds₂, readXid⟩ := holds.decode stack
  have few := holds.few
  obtain rfl : read = reply.xid := readXid.resolve_right fun large => by omega
  obtain ⟨fu, heap₃, m₃, in₃, found, fuXid, sharedEq, holds₃⟩ := holds₂.settle awaited
  have pending : client.pendingFu reply.xid = some reply.xid.toNat := by
    rw [holds.pendingFu, if_pos awaited]
  refine ⟨_, ?_, holds₃⟩
  simp only [takeReply, xidEq, codeEq, pending, found, fuXid,
    resultSize reply small, sharedEq, some_bind, guard_true]
  rfl

theorem Holds.nextPacket_eq {body : List Byte} (holds : Holds client (frame body ++ more) outcomes)
    (small : body.length < 2 ^ 31) :
    ∃ heap' in', nextPacket client.heap client.in_ =
        some (some (BitVec.ofNat 64 body.length, heap', in')) ∧
      Holds { client with heap := heap', in_ := in' } (body ++ more) outcomes := by
  obtain ⟨heap', in', nextEq, sound', frame', content⟩ :=
    nextPacket_of_frame holds.sound holds.content small
  have holds' := holds.act sound' frame'
  rw [content] at holds'
  exact ⟨heap', in', nextEq, holds'⟩

theorem Holds.deliver (holds : Holds client (frame reply.body ++ more) outcomes)
    (small : reply.body.length < 2 ^ 31) (awaited : outcomes[reply.xid.toNat]? = some none)
    (stack : Nat → Nat → Byte) (fuel : Nat) :
    ∃ client', Holds client' more (record outcomes reply) ∧
      replyLoop stack (fuel + 1) client = (replyLoop stack fuel client').map fun result =>
          (reply.xid :: result.1, result.2) := by
  obtain ⟨heap₁, in₁, nextEq, holds₁⟩ := holds.nextPacket_eq small
  obtain ⟨client', taken, holds'⟩ := holds₁.takeReply_eq small awaited (stack fuel)
  refine ⟨client', holds', ?_⟩
  simp only [replyLoop, nextEq, taken, some_bind]
  cases replyLoop stack fuel client' <;> rfl

theorem Holds.replyLoop_eq (holds : Holds client bytes outcomes) (awaited : Awaited outcomes coming)
    (stream : bytes ++ later = frames (coming.map Reply.body))
    (small : ∀ reply ∈ coming, reply.body.length < 2 ^ 31) (stack : Nat → Nat → Byte) {fuel : Nat}
    (fueled : bytes.length < fuel) :
    ∃ complete rest left client', coming = complete ++ rest ∧
      replyLoop stack fuel client = some (complete.map Reply.xid, client') ∧
      Holds client' left (complete.foldl record outcomes) ∧
        left ++ later = frames (rest.map Reply.body) ∧ ¬ Complete left := by
  have takes (client : Client) (taken : List Reply) (reply : Reply)
      (rest : List Reply) (more : List Byte) (fuel : Nat) (split : coming = taken ++ reply :: rest)
      (holds : Holds client (frame reply.body ++ more) (taken.foldl record outcomes)) :
      ∃ client', Holds client' more ((taken ++ [reply]).foldl record outcomes) ∧
        replyLoop stack (fuel + 1) client = (replyLoop stack fuel client').map fun result =>
            (reply.xid :: result.1, result.2) := by
    rw [foldl_append]
    rw [split] at awaited
    exact holds.deliver (small reply (by simp [split]))
      (awaited.drop.pending reply mem_cons_self) stack fuel
  have waits (client : Client) (taken rest : List Reply) (bytes : List Byte)
      (fuel : Nat) (split : coming = taken ++ rest)
      (holds : Holds client bytes (taken.foldl record outcomes))
      (unfinished : Unfinished (rest.map Reply.body) bytes) :
      replyLoop stack (fuel + 1) client = some ([], client) := by
    have nextEq := nextPacket_of_unfinished holds.sound
      (holds.content ▸ unfinished) (forall_mem_map.mpr
        fun reply member => small reply (by simp [split, member]))
    simp only [replyLoop, nextEq, some_bind]
    rfl
  have start : Holds client bytes ([].foldl record outcomes) := holds
  exact loop_takes (fun reply member => Nat.lt_trans (small reply member) (by decide)) takes
    waits rfl start stream fueled

/-- A call of `handle_read` delivers the replies that have arrived in full,
unless it reads nothing or a multiple of `2 ^ 32` bytes. -/
theorem Holds.handleRead_eq (holds : Holds client bytes outcomes) {wire : List Byte}
    (awaited : Awaited outcomes coming)
    (stream : bytes ++ wire ++ later = frames (coming.map Reply.body))
    (small : ∀ reply ∈ coming, reply.body.length < 2 ^ 31) (answers : List Int)
    (stack : Nat → Nat → Byte) :
    ∃ n complete rest left client', coming = complete ++ rest ∧
      client.handleRead wire answers stack = some (complete.map Reply.xid, wire.drop n, client') ∧
      Holds client' left (complete.foldl record outcomes) ∧
        left ++ wire.drop n ++ later = frames (rest.map Reply.body) ∧
          Reads answers n wire bytes left := by
  obtain ⟨n, _, heap₁, in₁, readEq, moves, holds₁⟩ := holds.receive wire answers
  have stream₁ : (bytes ++ wire.take n) ++ (wire.drop n ++ later) =
      frames (coming.map Reply.body) := (stream_received bytes wire later n).trans stream
  have fueled : (bytes ++ wire.take n).length < in₁.contentSize + 1 := by
    rw [← holds₁.content, holds₁.sound.length_content]
    exact Nat.lt_succ_self _
  by_cases nothing : toI32 n = 0
  · refine ⟨n, [], coming, _, _, rfl, ?_, holds₁,
      by rw [append_assoc]; exact stream₁, moves, absurd nothing, fun _ => rfl⟩
    simp only [handleRead, readEq, some_bind, nothing, if_true]
    rfl
  · obtain ⟨complete, rest, left, client', comingEq, loopEq, holds', left',
      waiting⟩ := holds₁.replyLoop_eq awaited stream₁ small stack fueled
    refine ⟨n, complete, rest, left, client', comingEq, ?_, holds',
      by rw [append_assoc]; exact left', moves, fun _ => waiting, (absurd · nothing)⟩
    simp only [handleRead, readEq, some_bind, nothing, if_false, loopEq]
    rfl

end Client

end SRPC.Tcp
