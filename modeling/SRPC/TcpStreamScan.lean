import SRPC.SparseIntBuffer
import SRPC.TcpReceiver

/-!
# Streams that a server can take apart

A stream is harmless if the server does not come to a packet with a negative size
that it believes to be complete, or to one that is too short for the id it begins
with.
-/

namespace SRPC.Tcp

open LittleEndian SparseInt PacketStream ByteSource List

/-- The bytes hold a packet of the size that they begin with. -/
def Announced (bytes : List Byte) : Prop :=
  4 ≤ bytes.length ∧ ((packetSize bytes).signExtend 64 + 4).toNat ≤ bytes.length

instance (bytes : List Byte) : Decidable (Announced bytes) :=
  inferInstanceAs (Decidable (_ ∧ _))

/-- The first byte announces no more bytes of an id than there are. -/
def Readable (body : List Byte) : Prop := ∃ byte0 ∈ body.head?, bufSize byte0 ≤ body.length

instance (body : List Byte) : Decidable (Readable body) :=
  inferInstanceAs (Decidable (∃ byte0 ∈ body.head?, _))

/-- The server takes the first packet for complete but cannot take its id. -/
def Poisoned (bytes : List Byte) : Prop :=
  Announced bytes ∧ ((packetSize bytes).toInt < 0 ∨
    ¬ Readable ((bytes.drop 4).take (packetSize bytes).toNat))

instance (bytes : List Byte) : Decidable (Poisoned bytes) :=
  inferInstanceAs (Decidable (_ ∧ _))

/-- Behind any number of packets there is none that is poisoned. -/
def Harmless (bytes : List Byte) : Prop :=
  ∀ bodies rest, (∀ body ∈ bodies, body.length < 2 ^ 31) →
    bytes = frames bodies ++ rest → ¬ Poisoned rest

variable {bytes body more : List Byte}

theorem Readable.getV64 (readable : Readable body) (garbage : Nat → Byte) :
    ∃ xid, getV64 ByteSource.list garbage body =
      some (xid, body.drop (bufSize (body.headD 0))) := by
  obtain ⟨byte0, first, enough⟩ := readable
  cases body with
  | nil => cases first
  | cons byte rest =>
    obtain rfl : byte = byte0 := Option.some_inj.mp first
    have bounds := bufSize_bounds byte
    have taken : ByteSource.list.readExactly (bufSize byte) (byte :: rest) =
        some ((byte :: rest).take (bufSize byte), (byte :: rest).drop (bufSize byte)) :=
      readExactly_list_eq_some.mpr ⟨length_take_of_le enough, (take_append_drop ..).symm⟩
    have full : ((byte :: rest).take (bufSize byte) ++
        (List.range' ((byte :: rest).take (bufSize byte)).length
          (9 - ((byte :: rest).take (bufSize byte)).length)).map garbage).length = 9 := by
      rw [length_append, length_map, length_range', length_take_of_le enough]
      omega
    obtain ⟨xid, loaded⟩ := loadI64_eq_some full
    exact ⟨xid, bind_eq_some.mpr ⟨byte, _, rfl, bind_eq_some.mpr
      ⟨_, _, taken, lift_eq_some.mpr ⟨loaded, rfl⟩⟩⟩⟩

theorem getV64_eq_none (unreadable : ¬ Readable body) (garbage : Nat → Byte) :
    SparseInt.getV64 ByteSource.list garbage body = none := by
  rw [Option.eq_none_iff_forall_ne_some]
  rintro ⟨xid, rest⟩ decoded
  obtain ⟨byte0, _, peeked, decoded⟩ := bind_eq_some.mp decoded
  obtain ⟨buf, _, taken, -⟩ := bind_eq_some.mp decoded
  cases body with
  | nil => cases peeked
  | cons byte rest =>
    cases peeked
    obtain ⟨length, split⟩ := readExactly_list_eq_some.mp taken
    refine unreadable ⟨_, rfl, ?_⟩
    rw [split, length_append]
    omega

theorem toNat_packetSize_frame (small : body.length < 2 ^ 31) :
    (packetSize (frame body ++ more)).toNat = body.length := by
  rw [packetSize_frame, BitVec.toNat_ofNat]
  omega

theorem toInt_packetSize_frame (small : body.length < 2 ^ 31) :
    (packetSize (frame body ++ more)).toInt = body.length := by
  rw [BitVec.toInt_eq_toNat_cond, toNat_packetSize_frame small, if_pos (by omega)]

theorem toNat_signExtend_add {size : BitVec 32} (positive : 0 ≤ size.toInt) :
    (size.signExtend 64 + 4).toNat = size.toNat + 4 := by
  have small : size.toNat < 2 ^ 31 := by
    rw [BitVec.toInt_eq_toNat_cond] at positive
    split at positive <;> omega
  have whole : BitVec.ofNat 32 size.toNat = size := by simp
  rw [← whole, (toNat_signExtend small).2, whole]

theorem announced_frame (small : body.length < 2 ^ 31) : Announced (frame body ++ more) := by
  have positive : 0 ≤ (packetSize (frame body ++ more)).toInt := by
    rw [toInt_packetSize_frame small]
    omega
  rw [Announced, toNat_signExtend_add positive, toNat_packetSize_frame small,
    length_append, length_frame]
  omega

theorem poisoned_frame (small : body.length < 2 ^ 31) :
    Poisoned (frame body ++ more) ↔ ¬ Readable body := by
  have content : ((frame body ++ more).drop 4).take body.length = body := by
    rw [frame, append_assoc, drop_left' (length_toBytes 4 _), take_left]
  rw [Poisoned, toInt_packetSize_frame small, toNat_packetSize_frame small, content]
  constructor
  · rintro ⟨-, negative | unreadable⟩
    · omega
    · exact unreadable
  · exact fun unreadable => ⟨announced_frame small, .inr unreadable⟩

theorem Announced.cases (announced : Announced bytes) :
    (packetSize bytes).toInt < 0 ∨
      ∃ body more, bytes = frame body ++ more ∧ body.length < 2 ^ 31 := by
  rcases Int.lt_or_le (packetSize bytes).toInt 0 with negative | positive
  · exact .inl negative
  · obtain ⟨header, enough⟩ := announced
    rw [toNat_signExtend_add positive] at enough
    have small : (packetSize bytes).toNat < 2 ^ 31 := by
      rw [BitVec.toInt_eq_toNat_cond] at positive
      split at positive <;> omega
    have length : ((bytes.drop 4).take (packetSize bytes).toNat).length =
        (packetSize bytes).toNat := by
      rw [length_take, length_drop]
      omega
    refine .inr ⟨(bytes.drop 4).take (packetSize bytes).toNat,
      (bytes.drop 4).drop (packetSize bytes).toNat, ?_, by omega⟩
    rw [frame, length, BitVec.ofNat_toNat, BitVec.setWidth_eq, packetSize,
      toBytes_ofBytes (length_take_of_le header) (by decide),
      append_assoc, take_append_drop, take_append_drop]

theorem frame_append_inj {other rest : List Byte}
    (small : body.length < 2 ^ 31) (otherSmall : other.length < 2 ^ 31)
    (same : frame body ++ more = frame other ++ rest) : body = other ∧ more = rest := by
  have sizes := congrArg (fun bytes => (packetSize bytes).toNat) same
  simp only [toNat_packetSize_frame small, toNat_packetSize_frame otherSmall]
    at sizes
  obtain ⟨framesEq, moreEq⟩ := append_inj same (by
    rw [length_frame, length_frame, sizes])
  exact ⟨(append_inj framesEq (by simp)).2, moreEq⟩

theorem harmless_of_not_announced (waiting : ¬ Announced bytes) : Harmless bytes := by
  intro bodies rest small split poisoned
  cases bodies with
  | nil =>
    rw [frames_nil, nil_append] at split
    exact waiting (split ▸ poisoned.1)
  | cons body bodies =>
    rw [frames_cons, append_assoc] at split
    exact waiting (split ▸ announced_frame (small body mem_cons_self))

theorem harmless_frame (small : body.length < 2 ^ 31) (readable : Readable body) :
    Harmless (frame body ++ more) ↔ Harmless more := by
  constructor
  · intro harmless bodies rest smalls split
    refine harmless (body :: bodies) rest (forall_mem_cons.mpr ⟨small, smalls⟩) ?_
    rw [frames_cons, append_assoc, ← split]
  · intro harmless bodies rest smalls split
    cases bodies with
    | nil =>
      rw [frames_nil, nil_append] at split
      rw [← split, poisoned_frame small, not_not]
      exact readable
    | cons other bodies =>
      obtain ⟨otherSmall, smalls⟩ := forall_mem_cons.mp smalls
      rw [frames_cons, append_assoc] at split
      obtain ⟨-, moreEq⟩ := frame_append_inj small otherSmall split
      exact harmless bodies rest smalls moreEq

theorem Poisoned.not_harmless (poisoned : Poisoned bytes) :
    ¬ Harmless bytes := fun harmless =>
  harmless [] bytes (fun _ member => nomatch member) rfl poisoned

end SRPC.Tcp
