import SRPC.TcpStreamScan
import SRPC.WireTypes

/-!
# Streams that a client can take apart

The client computes the length of the result from the size of the packet and the
lengths that id and error code would have if the client had written them.
-/

namespace SRPC.Tcp

open LittleEndian SparseInt Marshalling PacketStream ByteSource

/-- The bytes that were not taken apart yet, and the ids under which futures are
pending. -/
structure Inbox where
  left : List Byte
  pending : BitVec 64 → Bool

/-- The id and the error code, and what follows them. -/
def replyHeader (stack : Nat → Byte) (bytes : List Byte) :
    Option (BitVec 64 × BitVec 32 × List Byte) := do
  let (xid, rest) ← getV64 ByteSource.list stack bytes
  let (errorCode, rest) ← getSparse ByteSource.list 5 loadI32 rest
  return (xid, errorCode, rest)

/-- The bytes in which a client would have written an id and an error code. -/
def canonicalLength (xid : BitVec 64) (errorCode : BitVec 32) : Nat :=
  valSize xid + valSize (errorCode.signExtend 64)

/-- The length that is passed to `read_from_marshal`, in `size_t`. -/
def resultLength (packetSize : BitVec 64) (xid : BitVec 64) (errorCode : BitVec 32) : Nat :=
  (packetSize - BitVec.ofNat 64 (valSize xid) -
    BitVec.ofNat 64 (valSize (BitVec.signExtend 64 errorCode))).toNat

/-- The packet is long enough for its id and error code, and they were not
written in more bytes than needed, unless nothing is behind them. -/
def Fits (size : Int) (taken canonical : Nat) : Prop :=
  canonical ≤ size ∧ (taken ≤ canonical ∨ size = canonical)

instance (size : Int) (taken canonical : Nat) : Decidable (Fits size taken canonical) :=
  inferInstanceAs (Decidable (_ ∧ _))

/-- What a round makes of the bytes behind the size, unless it cannot take its
header or its result. -/
def Inbox.round (stack : Nat → Byte) (size : BitVec 32) (inbox : Inbox) :
    Option Inbox := do
  let (xid, errorCode, rest) ← replyHeader stack inbox.left
  if inbox.pending xid then
    guard (Fits size.toInt (inbox.left.length - rest.length) (canonicalLength xid errorCode))
    return ⟨rest.drop (resultLength (size.signExtend 64) xid errorCode),
      Function.update inbox.pending xid false⟩
  else
    return { inbox with left := rest }

/-- How the loop of `handle_read` ends. -/
inductive ScanEnd
  | waiting (inbox : Inbox)
  | poisoned
  | exhausted

def Inbox.scan (stack : Nat → Nat → Byte) : Nat → Inbox → ScanEnd
  | 0, _ => .exhausted
  | fuel + 1, inbox =>
    if Announced inbox.left then
      match { inbox with left := inbox.left.drop 4 }.round (stack fuel) (packetSize inbox.left) with
      | none => .poisoned
      | some inbox => inbox.scan stack fuel
    else
      .waiting inbox

/-- What comes to a client: a request of its own, or bytes from the socket, with
the stack below the call that takes them. -/
inductive Arrival
  | request (xid : BitVec 64)
  | bytes (received : List Byte) (stack : Nat → Nat → Byte)

/-- What a call makes of what it takes.  A call that receives nothing does not
look at what it has. -/
def Inbox.afterRead (inbox : Inbox) (received : List Byte) (stack : Nat → Nat → Byte) : ScanEnd :=
  let inbox := { inbox with left := inbox.left ++ received }
  if toI32 received.length = 0 then .waiting inbox
  else inbox.scan stack (inbox.left.length + 1)

/-- No reply that the client comes to is poisoned.  The rounds that a call has
are always enough. -/
def Inbox.Digestible : Inbox → List Arrival → Prop
  | _, [] => True
  | inbox, .request xid :: arrivals =>
    Digestible { inbox with
      pending := Function.update inbox.pending xid true } arrivals
  | inbox, .bytes received stack :: arrivals =>
    match inbox.afterRead received stack with
    | .waiting inbox => Digestible inbox arrivals
    | .poisoned => False
    | .exhausted => True

theorem resultLength_le_iff (size : BitVec 32) (xid : BitVec 64)
    (errorCode : BitVec 32) (taken : Nat) :
    resultLength (size.signExtend 64) xid errorCode ≤ (size.toInt - taken).toNat ↔
      Fits size.toInt taken (canonicalLength xid errorCode) := by
  have xidShort := valSize_le_nine xid
  have codeShort := valSize_le_nine (errorCode.signExtend 64)
  have bound := size.isLt
  rw [resultLength, Fits, canonicalLength, BitVec.toNat_sub, BitVec.toNat_sub,
    BitVec.toNat_ofNat, BitVec.toNat_ofNat, BitVec.toNat_signExtend,
    BitVec.toNat_setWidth, BitVec.toInt_eq_toNat_cond, BitVec.msb_eq_decide]
  generalize valSize xid = first at *
  generalize valSize (errorCode.signExtend 64) = second at *
  by_cases positive : 2 * size.toNat < 2 ^ 32
  · have top : decide (2 ^ (32 - 1) ≤ size.toNat) = false := decide_eq_false (by omega)
    simp only [top, if_pos positive, Bool.false_eq_true, if_false]
    omega
  · have top : decide (2 ^ (32 - 1) ≤ size.toNat) = true := decide_eq_true (by omega)
    simp only [top, if_neg positive, if_true]
    omega

section Fuel

variable {stack : Nat → Byte} {bytes rest : List Byte} {xid : BitVec 64}

theorem getV64_list_length (decoded : getV64 ByteSource.list stack bytes = some (xid, rest)) :
    rest.length ≤ bytes.length := by
  obtain ⟨byte0, _, peeked, decoded⟩ := bind_eq_some.mp decoded
  obtain ⟨buf, _, taken, decoded⟩ := bind_eq_some.mp decoded
  obtain ⟨-, rfl⟩ := lift_eq_some.mp decoded
  cases bytes with
  | nil => cases peeked
  | cons byte bytes =>
    cases peeked
    obtain ⟨-, split⟩ := readExactly_list_eq_some.mp taken
    rw [split, List.length_append]
    omega

variable {errorCode : BitVec 32}

theorem getSparse_list_length
    (decoded : getSparse ByteSource.list 5 loadI32 bytes = some (errorCode, rest)) :
    rest.length ≤ bytes.length := by
  obtain ⟨byte0, _, peeked, decoded⟩ := bind_eq_some.mp decoded
  obtain ⟨_, _, guarded, decoded⟩ := bind_eq_some.mp decoded
  obtain ⟨buf, _, taken, decoded⟩ := bind_eq_some.mp decoded
  obtain ⟨-, rfl⟩ := lift_eq_some.mp decoded
  obtain ⟨-, rfl⟩ := lift_eq_some.mp guarded
  cases bytes with
  | nil => cases peeked
  | cons byte bytes =>
    cases peeked
    obtain ⟨-, split⟩ := readExactly_list_eq_some.mp taken
    rw [split, List.length_append]
    omega

theorem replyHeader_length (decoded : replyHeader stack bytes = some (xid, errorCode, rest)) :
    rest.length ≤ bytes.length := by
  simp only [replyHeader, bind_eq_some_iff]
    at decoded
  obtain ⟨⟨_, middle⟩, xidEq, ⟨_, _⟩, codeEq, same⟩ := decoded
  cases same
  exact Nat.le_trans (getSparse_list_length codeEq) (getV64_list_length xidEq)

variable {inbox : Inbox}

theorem Inbox.round_length {size : BitVec 32} {later : Inbox}
    (round : inbox.round stack size = some later) : later.left.length ≤ inbox.left.length := by
  simp only [Inbox.round, bind_eq_some_iff]
    at round
  obtain ⟨⟨xid, errorCode, rest⟩, header, round⟩ := round
  have shorter := replyHeader_length header
  split at round
  · obtain ⟨-, -, same⟩ := bind_eq_some_iff.mp round
    cases same
    show (rest.drop _).length ≤ _
    rw [List.length_drop]
    omega
  · cases round
    exact shorter

theorem Inbox.scan_ne_exhausted {stack : Nat → Nat → Byte} {fuel : Nat}
    (fueled : inbox.left.length < fuel) : inbox.scan stack fuel ≠ .exhausted := by
  induction fuel generalizing inbox with
  | zero => omega
  | succ fuel ih =>
    rw [Inbox.scan]
    split
    · rename_i announced
      split
      · exact nofun
      · rename_i later roundEq
        have shorter := Inbox.round_length roundEq
        rw [List.length_drop] at shorter
        have header := announced.1
        exact ih (by omega)
    · exact nofun

theorem Inbox.afterRead_ne_exhausted (inbox : Inbox) (received : List Byte)
    (stack : Nat → Nat → Byte) : inbox.afterRead received stack ≠ .exhausted := by
  rw [Inbox.afterRead]
  split
  · exact nofun
  · exact Inbox.scan_ne_exhausted (Nat.lt_succ_self _)

end Fuel

end SRPC.Tcp
