import SRPC.MarshalOwnership
import SRPC.PacketStream

/-!
# Cutting packets off the input of a TCP connection

Both ends of a connection start the rounds of their read loops alike: peek at
the packet size, see whether the whole packet has arrived, and read the size.
-/

namespace SRPC.Tcp

open LittleEndian Marshalling PacketStream List

/-- The beginning of a round of `handle_read`.  The size is compared and passed
on as a `size_t`.  Returns `none` if the packet has not arrived in full. -/
def nextPacket (heap : Heap) (in_ : Marshal) :
    Option (Option (BitVec 64 × Heap × Marshal)) := do
  let peeked ← in_.peek heap 4
  if peeked.length = 4 then
    let packetSize := (ofBytes 32 peeked).signExtend 64
    let available ← in_.getContentSize heap
    if (packetSize + 4).toNat ≤ available then
      let (bytes, heap, in_) ← in_.read heap 4
      guard (bytes.length = 4)
      return some ((ofBytes 32 bytes).signExtend 64, heap, in_)
    else
      return none
  else
    return none

theorem toNat_signExtend {n : Nat} (small : n < 2 ^ 31) :
    ((BitVec.ofNat 32 n).signExtend 64).toNat = n ∧
      ((BitVec.ofNat 32 n).signExtend 64 + 4).toNat = n + 4 := by
  have positive : (BitVec.ofNat 32 n).msb = false := by
    rw [BitVec.msb_eq_decide, BitVec.toNat_ofNat]
    simp
    omega
  rw [BitVec.toNat_add, BitVec.signExtend_eq_setWidth_of_msb_false positive,
    BitVec.toNat_setWidth, BitVec.toNat_ofNat]
  have four : (4 : BitVec 64).toNat = 4 := rfl
  omega

theorem le_toNat_signExtend {n : Nat} (large : 2 ^ 31 ≤ n) (bounded : n + 4 < 2 ^ 32) :
    2 ^ 63 ≤ ((BitVec.ofNat 32 n).signExtend 64 + 4).toNat := by
  have negative : (BitVec.ofNat 32 n).msb = true := by
    rw [BitVec.msb_eq_decide, BitVec.toNat_ofNat]
    simp
    omega
  rw [BitVec.toNat_add, BitVec.toNat_signExtend, if_pos negative,
    BitVec.toNat_setWidth, BitVec.toNat_ofNat]
  have four : (4 : BitVec 64).toNat = 4 := rfl
  omega

theorem toI32_ne_zero {n : Nat} (positive : 0 < n) (small : n < 2 ^ 32) : toI32 n ≠ 0 := by
  intro zero
  have same : BitVec.ofInt 32 n = 0 := BitVec.eq_of_toInt_eq zero
  have value := congrArg BitVec.toNat same
  rw [BitVec.ofInt_natCast, BitVec.toNat_ofNat] at value
  simp only [BitVec.ofNat_eq_ofNat, BitVec.toNat_ofNat] at value
  omega

/-- A call of `handle_read` takes `n` bytes of the wire to those of `in_`, as
many as the kernel gives, and then has `left` in `in_`: no complete packet,
unless the number as an `int` is 0.  In that case it leaves them all. -/
structure Reads (answers : List Int) (n : Nat) (wire bytes left : List Byte) : Prop where
  kernel : KernelMoves (fun _ => True) answers wire.length n
  cuts : toI32 n ≠ 0 → ¬ Complete left
  skips : toI32 n = 0 → left = bytes ++ wire.take n

theorem Reads.not_complete_iff {answers : List Int} {n : Nat} {wire bytes left later : List Byte}
    {bodies : List (List Byte)} (reads : Reads answers n wire bytes left)
    (waiting : ¬ Complete bytes) (stream : left ++ later = frames bodies)
    (small : ∀ body ∈ bodies, body.length < 2 ^ 31) :
    ¬ Complete left ↔
      (toI32 (wire.length - (wire.drop n).length : Nat) = 0 → wire.drop n = wire) := by
  have enough := reads.kernel.le
  have count : wire.length - (wire.drop n).length = n := by
    rw [length_drop]
    omega
  rw [count]
  by_cases none : toI32 n = 0
  · have kept := reads.skips none
    simp only [none, true_imp_iff]
    constructor
    · intro unfinished
      by_contra some
      -- At least `2 ^ 32` bytes were read, more than a packet has.
      have positive : n ≠ 0 := by
        rintro rfl
        exact some rfl
      have many : 2 ^ 32 ≤ n := by
        by_contra few
        exact toI32_ne_zero (Nat.pos_of_ne_zero positive) (by omega) none
      refine unfinished (complete_of_long stream small ?_)
      rw [kept, length_append, length_take]
      omega
    · intro same
      have none : n = 0 ∨ wire.length = 0 := by
        have length := congrArg List.length same
        rw [length_drop] at length
        omega
      rw [kept, take_eq_nil_iff.mpr (none.imp_right eq_nil_of_length_eq_zero), append_nil]
      exact waiting
  · exact iff_of_true (reads.cuts none) (absurd · none)

theorem receive_eq {heap : Heap} {in_ : Marshal} (sound : Sound heap in_)
    (wire : List Byte) (answers : List Int) :
    ∃ n results heap' in', in_.readFromFd heap wire answers =
        some (n, results, wire.drop n, heap', in') ∧
      KernelMoves (fun _ => True) answers wire.length n ∧ Sound heap' in' ∧
      Frame heap in_.toChain heap' in'.toChain ∧
      in'.content heap' = in_.content heap ++ wire.take n := by
  obtain ⟨n, results, heap', in', added, readEq, total, calls, sound', grows, delivered, -⟩ :=
    sound.readFromFd_eq wire answers
  refine ⟨n, results, heap', in', readEq, ⟨results, calls, total⟩, sound', grows.frame, ?_⟩
  rw [grows.content sound.wellFormed, delivered]

section Spec

variable {heap : Heap} {in_ : Marshal} {bodies : List (List Byte)}

/-- A packet that has not arrived in full stays. -/
theorem nextPacket_of_unfinished (sound : Sound heap in_)
    (unfinished : Unfinished bodies (in_.content heap))
    (small : ∀ body ∈ bodies, body.length < 2 ^ 31) : nextPacket heap in_ = some none := by
  simp only [nextPacket, sound.peek_eq, Option.bind_eq_bind, Option.bind_some, length_take]
  rcases unfinished with short | ⟨body, member, size, short⟩
  · rw [if_neg (by omega)]
    rfl
  · split
    · have sizes := (toNat_signExtend (small body member)).2
      rw [packetSize] at size
      rw [size, sizes, sound.getContentSize_eq, Option.bind_some,
        ← sound.length_content, if_neg (by omega)]
      rfl
    · rfl

/-- A packet with a negative size is never complete. -/
theorem nextPacket_of_oversized (sound : Sound heap in_) {body later : List Byte}
    (content : in_.content heap ++ later = frame body)
    (large : 2 ^ 31 ≤ body.length) (bounded : body.length + 4 < 2 ^ 32) :
    nextPacket heap in_ = some none := by
  have length := congrArg List.length content
  rw [length_append, length_frame] at length
  simp only [nextPacket, sound.peek_eq, Option.bind_eq_bind, Option.bind_some, length_take]
  split
  · have enough : 4 ≤ (in_.content heap).length := by omega
    have size : ofBytes 32 ((in_.content heap).take 4) = BitVec.ofNat 32 body.length := by
      rw [← take_append_of_le_length enough, content, ← append_nil (frame body)]
      exact packetSize_frame
    have huge := le_toNat_signExtend large bounded
    rw [size, sound.getContentSize_eq, Option.bind_some, ← sound.length_content, if_neg (by omega)]
    rfl
  · rfl

/-- A packet that has arrived in full is cut off. -/
theorem nextPacket_of_frame (sound : Sound heap in_) {body more : List Byte}
    (content : in_.content heap = frame body ++ more) (small : body.length < 2 ^ 31) :
    ∃ heap' in', nextPacket heap in_ = some (some (BitVec.ofNat 64 body.length, heap', in')) ∧
      Sound heap' in' ∧ Frame heap in_.toChain heap' in'.toChain ∧
      in'.content heap' = body ++ more := by
  obtain ⟨heap', in', readEq, sound', shrinks, _⟩ := sound.read_eq 4
  have sizes := toNat_signExtend small
  have size : ofBytes 32 ((in_.content heap).take 4) = BitVec.ofNat 32 body.length := by
    rw [content]
    exact packetSize_frame
  have length : (in_.content heap).length = body.length + 4 + more.length := by
    rw [content, length_append, length_frame]
  have four : ((in_.content heap).take 4).length = 4 := by
    rw [length_take]
    omega
  have extended : (BitVec.ofNat 32 body.length).signExtend 64 = BitVec.ofNat 64 body.length := by
    apply BitVec.eq_of_toNat_eq
    rw [sizes.1, BitVec.toNat_ofNat]
    omega
  refine ⟨heap', in', ?_, sound', shrinks.frame, ?_⟩
  · simp only [nextPacket, sound.peek_eq, some_bind, four, if_true, size, sound.getContentSize_eq,
      readEq]
    rw [if_pos (by rw [sizes.2, ← sound.length_content]; omega)]
    simp [extended]
  · rw [shrinks.content, content, frame, append_assoc, drop_left' (length_toBytes 4 _)]

end Spec

end SRPC.Tcp
