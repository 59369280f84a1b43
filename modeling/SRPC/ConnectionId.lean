import SRPC.LittleEndian

/-!
# Connection ids

Four pieces of code build and take apart connection ids, with shifts and masks.
Each is compared here with the packed fields.
-/

namespace SRPC.Dpdk

/-- `ip << 32 | first << 16 | second`, as it is written in `process_requests`
and `connect`. -/
def connIdOf (ip : BitVec 32) (first second : BitVec 16) : BitVec 64 :=
  (((ip.setWidth 64 <<< 16) ||| first.setWidth 64) <<< 16) ||| second.setWidth 64

/-- The client address that `accept` takes out of an id. -/
def connIdIp (id : BitVec 64) : BitVec 32 :=
  ((((0xFFFFFFFF : BitVec 64) <<< 32) &&& id) >>> 32).setWidth 32

/-- The client port that `accept` takes out of an id. -/
def connIdPort (id : BitVec 64) : BitVec 16 :=
  ((((0xFFFF : BitVec 64) <<< 16) &&& id) >>> 16).setWidth 16

/-- The id `accept` gives to a connection: the last field is replaced. -/
def replaceLast (id : BitVec 64) (port : BitVec 16) : BitVec 64 :=
  (id &&& ((0xFFFFFFFFFFFF : BitVec 64) <<< 16)) ||| port.setWidth 64

/-- The id `connect` ends with: the middle field is replaced. -/
def replaceMiddle (id : BitVec 64) (port : BitVec 16) : BitVec 64 :=
  (id &&& (0xFFFFFFFF0000FFFF : BitVec 64)) ||| (port.setWidth 64 <<< 16)

variable {ip ip' : BitVec 32} {first first' second second' : BitVec 16}

theorem getLsbD_connIdOf (ip : BitVec 32) (first second : BitVec 16) (bit : Nat) :
    (connIdOf ip first second).getLsbD bit =
      if bit < 16 then second.getLsbD bit
      else if bit < 32 then first.getLsbD (bit - 16)
      else ip.getLsbD (bit - 32) := by
  simp only [connIdOf, BitVec.getLsbD_or, BitVec.getLsbD_shiftLeft, BitVec.getLsbD_setWidth]
  by_cases low : bit < 16
  · have inside : bit < 64 := by omega
    simp [low, inside]
  · have none : second.getLsbD bit = false := BitVec.getLsbD_of_ge second bit (by omega)
    by_cases middle : bit < 32
    · have inside : bit < 64 := by omega
      have shifted : bit - 16 < 16 := by omega
      have within : bit - 16 < 64 := by omega
      simp [low, none, middle, inside, shifted, within]
    · have noneMiddle : first.getLsbD (bit - 16) = false := BitVec.getLsbD_of_ge first _ (by omega)
      have shifted : ¬ bit - 16 < 16 := by omega
      have place : bit - 16 - 16 = bit - 32 := by omega
      by_cases inside : bit < 64
      · have within : bit - 16 < 64 := by omega
        have inner : bit - 32 < 64 := by omega
        simp [low, none, middle, noneMiddle, shifted, place, inside, within, inner]
      · have beyond : ip.getLsbD (bit - 32) = false := BitVec.getLsbD_of_ge ip _ (by omega)
        simp [low, none, middle, inside, beyond]

theorem connIdOf_inj :
    connIdOf ip first second = connIdOf ip' first' second' ↔
      ip = ip' ∧ first = first' ∧ second = second' := by
  constructor
  · intro same
    have bits (bit : Nat) := congrArg (fun id => id.getLsbD bit) same
    simp only [getLsbD_connIdOf] at bits
    refine ⟨?_, ?_, ?_⟩
    · apply BitVec.eq_of_getLsbD_eq
      intro bit _
      have high : ¬ bit + 32 < 16 := by omega
      simpa [high] using bits (bit + 32)
    · apply BitVec.eq_of_getLsbD_eq
      intro bit inside
      have middle : bit + 16 < 32 := by omega
      simpa [middle] using bits (bit + 16)
    · apply BitVec.eq_of_getLsbD_eq
      intro bit inside
      simpa [inside] using bits bit
  · rintro ⟨rfl, rfl, rfl⟩
    rfl

@[simp]
theorem connIdIp_connIdOf : connIdIp (connIdOf ip first second) = ip := by
  have mask : ∀ bit < 64, ((0xFFFFFFFF : BitVec 64) <<< 32).getLsbD bit =
      decide (32 ≤ bit) := by decide
  apply BitVec.eq_of_getLsbD_eq
  intro bit inside
  have low : ¬ 32 + bit < 16 := by omega
  rw [connIdIp, BitVec.getLsbD_setWidth, BitVec.getLsbD_ushiftRight,
    BitVec.getLsbD_and, mask _ (by omega), getLsbD_connIdOf]
  simp [inside, low]

@[simp]
theorem connIdPort_connIdOf : connIdPort (connIdOf ip first second) = first := by
  have mask : ∀ bit < 64, ((0xFFFF : BitVec 64) <<< 16).getLsbD bit =
      decide (16 ≤ bit ∧ bit < 32) := by decide
  apply BitVec.eq_of_getLsbD_eq
  intro bit inside
  have middle : 16 + bit < 32 := by omega
  rw [connIdPort, BitVec.getLsbD_setWidth, BitVec.getLsbD_ushiftRight,
    BitVec.getLsbD_and, mask _ (by omega), getLsbD_connIdOf]
  simp [inside, middle]

@[simp]
theorem replaceLast_connIdOf (port : BitVec 16) :
    replaceLast (connIdOf ip first second) port = connIdOf ip first port := by
  have mask : ∀ bit < 64, ((0xFFFFFFFFFFFF : BitVec 64) <<< 16).getLsbD bit =
      decide (16 ≤ bit) := by decide
  apply BitVec.eq_of_getLsbD_eq
  intro bit inside
  rw [replaceLast, BitVec.getLsbD_or, BitVec.getLsbD_and, mask bit inside,
    BitVec.getLsbD_setWidth, getLsbD_connIdOf, getLsbD_connIdOf]
  by_cases low : bit < 16
  · have under : ¬ 16 ≤ bit := by omega
    simp [low, under, inside]
  · have above : 16 ≤ bit := by omega
    simp [low, above]

@[simp]
theorem replaceMiddle_connIdOf (port : BitVec 16) :
    replaceMiddle (connIdOf ip first second) port = connIdOf ip port second := by
  have mask : ∀ bit < 64, (0xFFFFFFFF0000FFFF : BitVec 64).getLsbD bit =
      decide (bit < 16 ∨ 32 ≤ bit) := by decide
  apply BitVec.eq_of_getLsbD_eq
  intro bit inside
  rw [replaceMiddle, BitVec.getLsbD_or, BitVec.getLsbD_and, mask bit inside,
    BitVec.getLsbD_shiftLeft, BitVec.getLsbD_setWidth, getLsbD_connIdOf, getLsbD_connIdOf]
  by_cases low : bit < 16
  · simp [low]
  · by_cases middle : bit < 32
    · have under : ¬ 32 ≤ bit := by omega
      have inner : bit - 16 < 64 := by omega
      simp [low, middle, under, inside, inner]
    · have above : 32 ≤ bit := by omega
      have none : port.getLsbD (bit - 16) = false := BitVec.getLsbD_of_ge port _ (by omega)
      simp [low, middle, above, none]

end SRPC.Dpdk
