import SRPC.LittleEndian
import SRPC.MessageStreams

/-!
# Streams of length-prefixed packets

A packet is sent as its length and its body.  Whoever has received the beginning of
a stream can tell whether the first packet is complete.
-/

namespace SRPC.PacketStream

open LittleEndian MessageStreams List

/-- A packet with this body. -/
def frame (body : List Byte) : List Byte := toBytes 4 (BitVec.ofNat 32 body.length) ++ body

def frames (bodies : List (List Byte)) : List Byte := bodies.flatMap frame

/-- The size of the first packet. -/
def packetSize (bytes : List Byte) : BitVec 32 := ofBytes 32 (bytes.take 4)

/-- The first packet has arrived in full. -/
def Complete (bytes : List Byte) : Prop :=
  4 ≤ bytes.length ∧ (packetSize bytes).toNat + 4 ≤ bytes.length

instance (bytes : List Byte) : Decidable (Complete bytes) :=
  inferInstanceAs (Decidable (_ ∧ _))

variable {body bytes later : List Byte} {bodies : List (List Byte)}

@[simp]
theorem frames_nil : frames [] = [] := rfl

@[simp]
theorem frames_cons : frames (body :: bodies) = frame body ++ frames bodies := flatMap_cons

@[simp]
theorem frames_append (others : List (List Byte)) :
    frames (bodies ++ others) = frames bodies ++ frames others := flatMap_append

@[simp]
theorem length_frame : (frame body).length = body.length + 4 := by
  simp [frame, Nat.add_comm]

theorem packetSize_append (header : List Byte) (length : header.length = 4) :
    packetSize (header ++ later) = ofBytes 32 header := by
  rw [packetSize, take_append_of_le_length length.ge, take_of_length_le length.le]

theorem packetSize_frame : packetSize (frame body ++ later) = BitVec.ofNat 32 body.length := by
  rw [frame, append_assoc, packetSize_append _ (length_toBytes _ _)]
  exact ofBytes_toBytes _ (by decide)

theorem complete_frame : Complete (frame body ++ later) := by
  rw [Complete, packetSize_frame, length_append, length_frame, BitVec.toNat_ofNat]
  have := Nat.mod_le body.length (2 ^ 32)
  omega

theorem stream_received (bytes wire later : List Byte) (n : Nat) :
    bytes ++ wire.take n ++ (wire.drop n ++ later) = bytes ++ wire ++ later := by
  rw [append_assoc, ← append_assoc (wire.take n), take_append_drop, append_assoc]

/-- A part of the first packet, too short for its size or for its body. -/
def Unfinished (bodies : List (List Byte)) (bytes : List Byte) : Prop :=
  bytes.length < 4 ∨ ∃ body ∈ bodies, packetSize bytes = BitVec.ofNat 32 body.length ∧
      bytes.length < body.length + 4

theorem Unfinished.not_complete (unfinished : Unfinished bodies bytes)
    (small : ∀ body ∈ bodies, body.length < 2 ^ 32) : ¬ Complete bytes := by
  rintro ⟨header, enough⟩
  rcases unfinished with short | ⟨body, member, size, short⟩
  · omega
  · rw [size, BitVec.toNat_ofNat, Nat.mod_eq_of_lt (small body member)] at enough
    omega

theorem frames_map {Item : Type*} (body : Item → List Byte) (items : List Item) :
    frames (items.map body) = items.flatMap fun item => frame (body item) := flatMap_map _ _ _

theorem unfinished_of_fragment {Item : Type*} {body : Item → List Byte} {items : List Item}
    (fragment : Fragment (fun item => frame (body item)) items bytes) :
    Unfinished (items.map body) bytes := by
  obtain ⟨_, rfl⟩ | ⟨item, rest, missing, rfl, itemEq, ne⟩ := fragment
  · exact .inl (by decide)
  · dsimp only at itemEq
    have positive := length_pos_iff.mpr ne
    have length := congrArg List.length itemEq
    rw [length_frame, length_append] at length
    by_cases header : bytes.length < 4
    · exact .inl header
    · -- The four bytes of the length have arrived.
      refine .inr ⟨body item, mem_map_of_mem mem_cons_self, ?_, by omega⟩
      have whole : packetSize (frame (body item)) = BitVec.ofNat 32 (body item).length := by
        have alone := @packetSize_frame (body item) []
        rwa [append_nil] at alone
      rw [← whole, itemEq, packetSize, packetSize, take_append_of_le_length (by omega)]

theorem complete_of_long (stream : bytes ++ later = frames bodies)
    (small : ∀ body ∈ bodies, body.length < 2 ^ 31) (long : 2 ^ 32 ≤ bytes.length) :
    Complete bytes := by
  obtain ⟨body, rest, more, rfl, rfl, -⟩ | ⟨rfl, rfl⟩ | ⟨body, rest, missing, rfl, whole, -⟩ :=
    first_item stream
  · exact complete_frame
  · cases long
  · have size := congrArg List.length whole
    have short := small body mem_cons_self
    rw [length_frame, length_append] at size
    omega

section Loop

variable {State Item Event : Type*} {loop : Nat → State → Option (List Event × State)}
  {Holds : State → List Byte → List Item → Prop} {body : Item → List Byte}
  {event : Item → Event} {all : List Item}

/-- A loop that takes the packets of a stream one by one takes those that have
arrived in full.  `Holds` knows the bytes that are left and the items taken. -/
theorem loop_takes (small : ∀ item ∈ all, (body item).length < 2 ^ 32)
    (take : ∀ state taken item rest more fuel, all = taken ++ item :: rest →
      Holds state (frame (body item) ++ more) taken →
      ∃ next, Holds next more (taken ++ [item]) ∧
        loop (fuel + 1) state =
          (loop fuel next).map fun result => (event item :: result.1, result.2))
    (wait : ∀ state taken rest bytes fuel, all = taken ++ rest →
      Holds state bytes taken → Unfinished (rest.map body) bytes →
      loop (fuel + 1) state = some ([], state)) {state : State}
    {taken coming : List Item} {fuel : Nat} (split : all = taken ++ coming)
    (holds : Holds state bytes taken) (stream : bytes ++ later = frames (coming.map body))
    (fueled : bytes.length < fuel) :
    ∃ complete rest left last, coming = complete ++ rest ∧
      loop fuel state = some (complete.map event, last) ∧
      Holds last left (taken ++ complete) ∧
        left ++ later = frames (rest.map body) ∧ ¬ Complete left := by
  rw [frames_map] at stream
  have takes : ∀ state taken item rest more fuel, all = taken ++ item :: rest →
      Holds state (frame (body item) ++ more) taken →
      ∃ next, Holds next more (taken ++ [item]) ∧
        loop (fuel + 1) state = (loop fuel next).map
          fun result => ([event item] ++ result.1, result.2) := take
  obtain ⟨complete, rest, left, last, rfl, loopEq, lastHolds, streamLeft, fragment⟩ :=
    MessageStreams.loop_takes (fun item _ => ne_nil_of_length_pos (by simp)) takes
      (fun state taken rest bytes fuel split holds fragment =>
        wait state taken rest bytes fuel split holds (unfinished_of_fragment fragment))
      split holds stream fueled
  refine ⟨complete, rest, left, last, rfl, ?_, lastHolds, ?_, ?_⟩
  · rw [loopEq, map_eq_flatMap]
  · rw [frames_map, streamLeft]
  · refine (unfinished_of_fragment fragment).not_complete ?_
    intro _ member
    obtain ⟨item, itemMember, rfl⟩ := mem_map.mp member
    exact small item (by simp [split, itemMember])

end Loop

theorem eq_nil_of_not_complete (stream : bytes = frames bodies)
    (waiting : ¬ Complete bytes) : bodies = [] := by
  cases bodies with
  | nil => rfl
  | cons body rest =>
    rw [frames_cons] at stream
    exact absurd (stream ▸ complete_frame) waiting

end SRPC.PacketStream
