import SRPC.TcpConnection
import SRPC.TcpStreamScan

/-!
# A server and an arbitrary stream

The loop of `handle_read` takes apart whatever was received.  It comes to its
end exactly if the stream is harmless; otherwise one of its assertions fails.
-/

namespace SRPC.Tcp

open LittleEndian SparseInt Marshalling PacketStream ByteSource

section Next

variable {heap : Heap} {in_ : Marshal}

theorem nextPacket_of_not_announced (sound : Sound heap in_)
    (waiting : ¬ Announced (in_.content heap)) : nextPacket heap in_ = some none := by
  rw [Announced, not_and] at waiting
  simp only [nextPacket, sound.peek_eq, Option.bind_eq_bind, Option.bind_some]
  split
  · rename_i header
    rw [List.length_take] at header
    have missing := waiting (by omega)
    rw [packetSize] at missing
    rw [sound.getContentSize_eq, Option.bind_some, ← sound.length_content, if_neg missing]
    rfl
  · rfl

theorem nextPacket_of_announced (sound : Sound heap in_)
    (announced : Announced (in_.content heap)) :
    ∃ heap' in', nextPacket heap in_ =
        some (some ((packetSize (in_.content heap)).signExtend 64, heap', in')) ∧
      Sound heap' in' ∧ Shrinks heap in_.toChain 4 heap' in'.toChain := by
  obtain ⟨heap', in', readEq, sound', shrinks, _⟩ := sound.read_eq 4
  obtain ⟨header, enough⟩ := announced
  have four : ((in_.content heap).take 4).length = 4 := List.length_take_of_le header
  rw [packetSize] at enough ⊢
  refine ⟨heap', in', ?_, sound', shrinks⟩
  simp only [nextPacket, sound.peek_eq, some_bind, four, if_true, sound.getContentSize_eq, readEq]
  rw [if_pos (by rw [← sound.length_content]; exact enough)]
  simp

end Next

namespace Connection

variable {connection : Connection} {bytes : List Byte} {calls : List Call}

theorem Holds.extractLoop_negative (holds : Holds connection bytes calls)
    (bounded : bytes.length < 2 ^ 63) (announced : Announced bytes)
    (negative : (packetSize bytes).toInt < 0) (stack : Nat → Nat → Byte)
    (fuel : Nat) : extractLoop stack (fuel + 1) connection = none := by
  obtain ⟨heap, in_, nextEq, sound, shrinks⟩ :=
    nextPacket_of_announced holds.sound (holds.content ▸ announced)
  have large : 2 ^ 63 ≤ ((packetSize bytes).signExtend 64).toNat := by
    have top : (packetSize bytes).msb = true := by
      rw [BitVec.msb_eq_toInt]
      exact decide_eq_true negative
    rw [BitVec.toNat_signExtend, if_pos top]
    omega
  have length : in_.contentSize = bytes.length - 4 := by
    rw [← sound.length_content, shrinks.content, holds.content, List.length_drop]
  have missing : ¬ ((packetSize bytes).signExtend 64).toNat ≤ in_.contentSize := by
    omega
  rw [holds.content] at nextEq
  simp [extractLoop, nextEq, Marshal.readFromMarshal, sound.getContentSize_eq,
    guard, missing]

variable {body more : List Byte}

theorem Holds.extractLoop_unreadable (holds : Holds connection (frame body ++ more) calls)
    (small : body.length < 2 ^ 31) (unreadable : ¬ Readable body) (stack : Nat → Nat → Byte)
    (fuel : Nat) : extractLoop stack (fuel + 1) connection = none := by
  obtain ⟨heap₁, in₁, heap₂, m, in₂, nextEq, sharedEq, -, -, -, soundM,
    bodyEq⟩ := holds.moveBody small
  have simulated := getV64_simulates (marshalSource_holds heap₂ m.toChain)
    (stack fuel) (heap₂, m) body ⟨soundM, bodyEq, 0, Shrinks.refl soundM.wellFormed⟩
  rw [getV64_eq_none unreadable] at simulated
  simp only [extractLoop, nextEq, sharedEq, simulated, some_bind, guard_true]
  rfl

/-- `operator>>` takes the id of this call off the body. -/
def Decodes (body : List Byte) (call : Call) : Prop :=
  ∃ garbage, getV64 ByteSource.list garbage body = some (call.xid, call.rest)

theorem Decodes.readable {call : Call} (decodes : Decodes body call) : Readable body := by
  obtain ⟨garbage, decoded⟩ := decodes
  by_contra unreadable
  rw [getV64_eq_none unreadable garbage] at decoded
  cases decoded

theorem harmless_frames {bodies : List (List Byte)} {added : List Call}
    (small : ∀ body ∈ bodies, body.length < 2 ^ 31) (decoded : List.Forall₂ Decodes bodies added) :
    Harmless (frames bodies ++ more) ↔ Harmless more := by
  induction decoded with
  | nil => rw [frames_nil, List.nil_append]
  | cons decodes _ ih =>
    obtain ⟨short, smalls⟩ := List.forall_mem_cons.mp small
    rw [frames_cons, List.append_assoc, harmless_frame short decodes.readable, ih smalls]

/-- What the loop makes of the bytes: requests for the packets in front, and a
rest that is not complete. -/
structure Extracts (connection : Connection) (bytes : List Byte)
    (calls : List Call) (result : List (List Byte) × Connection)
    (bodies : List (List Byte)) (left : List Byte) (added : List Call) : Prop where
  stream : bytes = frames bodies ++ left
  small : ∀ body ∈ bodies, body.length < 2 ^ 31
  waiting : ¬ Announced left
  extracted : result.1 = bodies
  decoded : List.Forall₂ Decodes bodies added
  holds : Holds result.2 left (calls ++ added)
  xids : result.2.requests.map Request.xid =
    connection.requests.map Request.xid ++ added.map Call.xid

/-- On a harmless stream the loop comes to its end. -/
theorem Holds.extractLoop_harmless (holds : Holds connection bytes calls)
    (bounded : bytes.length < 2 ^ 63) (harmless : Harmless bytes)
    (stack : Nat → Nat → Byte) {fuel : Nat} (fueled : bytes.length < fuel) :
    ∃ result bodies left added, extractLoop stack fuel connection = some result ∧
      Extracts connection bytes calls result bodies left added := by
  induction fuel generalizing connection bytes calls with
  | zero => omega
  | succ fuel ih =>
    by_cases announced : Announced bytes
    · rcases announced.cases with negative | ⟨body, more, rfl, small⟩
      · exact absurd harmless (Poisoned.not_harmless ⟨announced, .inl negative⟩)
      · have readable : Readable body := by
          by_contra unreadable
          exact Poisoned.not_harmless ((poisoned_frame small).mpr unreadable) harmless
        obtain ⟨xid, decoded⟩ := readable.getV64 (stack fuel)
        let call : Call := ⟨xid, body.drop (bufSize (body.headD 0))⟩
        have decodes : getV64 ByteSource.list (stack fuel) body = some (xid, call.rest) := decoded
        obtain ⟨heap, in_, m, holds', loopEq⟩ := holds.extractBody small decodes fun _ => rfl
        rw [List.length_append, length_frame] at fueled bounded
        obtain ⟨result, bodies, left, added, restEq, extracts⟩ :=
          ih holds' (by omega) ((harmless_frame small readable).mp harmless) (by omega)
        refine ⟨(body :: result.1, result.2), body :: bodies, left,
          call :: added, by rw [loopEq, restEq]; rfl, ?_⟩
        refine ⟨?_, List.forall_mem_cons.mpr ⟨small, extracts.small⟩, extracts.waiting, ?_,
          .cons ⟨stack fuel, decoded⟩ extracts.decoded, ?_, ?_⟩
        · rw [frames_cons, List.append_assoc, ← extracts.stream]
        · rw [extracts.extracted]
        · simpa using extracts.holds
        · have xids := extracts.xids
          simpa using xids
    · refine ⟨([], connection), [], bytes, [], ?_,
        rfl, by simp, announced, rfl, .nil, by simpa using holds, by simp⟩
      have nextEq := nextPacket_of_not_announced holds.sound (holds.content ▸ announced)
      simp only [extractLoop, nextEq, some_bind]
      rfl

/-- Otherwise an assertion fails. -/
theorem Holds.extractLoop_eq_none (holds : Holds connection bytes calls)
    (bounded : bytes.length < 2 ^ 63) (harmful : ¬ Harmless bytes)
    (stack : Nat → Nat → Byte) (fuel : Nat) : extractLoop stack fuel connection = none := by
  induction fuel generalizing connection bytes calls with
  | zero => rfl
  | succ fuel ih =>
    by_cases announced : Announced bytes
    · rcases announced.cases with negative | ⟨body, more, rfl, small⟩
      · exact holds.extractLoop_negative bounded announced negative stack fuel
      · by_cases readable : Readable body
        · obtain ⟨xid, decoded⟩ := readable.getV64 (stack fuel)
          let call : Call := ⟨xid, body.drop (bufSize (body.headD 0))⟩
          have decodes : getV64 ByteSource.list (stack fuel) body = some (xid, call.rest) := decoded
          obtain ⟨heap, in_, m, holds', loopEq⟩ := holds.extractBody small decodes fun _ => rfl
          rw [List.length_append] at bounded
          rw [loopEq, ih holds' (by omega) fun harmless =>
            harmful ((harmless_frame small readable).mpr harmless)]
          rfl
        · exact holds.extractLoop_unreadable small readable stack fuel
    · exact absurd (harmless_of_not_announced announced) harmful

end Connection

end SRPC.Tcp
