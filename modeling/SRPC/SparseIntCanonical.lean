import SRPC.SparseIntRoundTrip

/-! # Sparse integers are written in their shortest form -/

namespace SRPC.SparseInt

open LittleEndian

variable {w : Nat}

private def extendedTop (size : Nat) (byte : Byte) : Byte :=
  if ((byte &&& (0xFF#8 >>> size)) >>> (7 - size)).getLsbD 0 then
    byte &&& (0xFF#8 >>> size) ||| (0xFF#8 <<< (7 - size))
  else byte &&& (0xFF#8 >>> size)

variable {size threshold : Nat} {byte0 : Byte} {rest : List Byte}

theorem load_of_short (announced : bufSize byte0 = size) (length : rest.length + 1 = size)
    (below : size < threshold) :
    load w threshold (byte0 :: rest) =
      some (ofBytes w (rest.reverse ++ extendedTop size byte0 ::
        if ((byte0 &&& (0xFF#8 >>> size)) >>> (7 - size)).getLsbD 0 then
          List.replicate (w / 8 - size) 0xFF
        else [])) := by
  have cells := mapM_reverse (byte0 :: rest)
  rw [List.length_cons, length, List.reverse_cons] at cells
  have first : (byte0 :: rest)[0]? = some byte0 := rfl
  have last : rest.reverse.length = size - 1 := by
    rw [List.length_reverse]
    omega
  have top : (rest.reverse ++ [byte0]).getD (size - 1) 0 = byte0 := by
    simp [← last]
  have setTop (other : Byte) : (rest.reverse ++ [byte0]).set (size - 1) other =
      rest.reverse ++ [other] := by
    rw [← last, List.set_append_right _ _ (Nat.le_refl _)]
    simp
  rw [load, first]
  simp only [Option.bind_eq_bind, Option.bind_some, announced, below, if_true,
    cells, top, setTop, extendedTop]
  split
  · rw [List.append_assoc]
    rfl
  · rfl

variable {val : BitVec w}

theorem load_short_bounds {count : Nat} (positive : 0 < size) (small : size < 8)
    (whole : w = 8 * count) (fits : size ≤ count) (announced : bufSize byte0 = size)
    (length : rest.length + 1 = size) (below : size < threshold)
    (loaded : load w threshold (byte0 :: rest) = some val) :
    -(2 : Int) ^ (7 * size - 1) ≤ val.toInt ∧
      val.toInt < 2 ^ (7 * size - 1) := by
  rw [load_of_short announced length below, Option.some.injEq] at loaded
  have last : rest.reverse.length = size - 1 := by
    rw [List.length_reverse]
    omega
  -- Every bit from the sign bit of the form on is the sign bit.
  have repeats : ∀ bit, 7 * size - 1 ≤ bit → bit < w →
      val.getLsbD bit = byte0.getLsbD (7 - size) := by
    intro bit high inside
    have signBit : ((byte0 &&& (0xFF#8 >>> size)) >>> (7 - size)).getLsbD 0 =
        byte0.getLsbD (7 - size) := by
      have kept : size + (7 - size) < 8 := by omega
      rw [BitVec.getLsbD_ushiftRight, Nat.add_zero, getLsbD_masked]
      simp [kept]
    have within : bit % 8 < 8 := by omega
    rw [← loaded, getLsbD_ofBytes, signBit]
    simp only [inside, decide_true, Bool.true_and]
    rw [List.getD_append_right _ _ _ _ (by omega), last]
    by_cases here : bit / 8 = size - 1
    · have index : bit / 8 - (size - 1) = 0 := by omega
      rw [index, List.getD_cons_zero, extendedTop, getLsbD_top positive small byte0 within]
      congr 1
      omega
    · have index : bit / 8 - (size - 1) = bit / 8 - size + 1 := by omega
      rw [index, List.getD_cons_succ]
      cases byte0.getLsbD (7 - size) with
      | true =>
        rw [if_pos rfl, List.getD_replicate _ (by omega)]
        generalize bit % 8 = position at within
        interval_cases position <;> rfl
      | false => simp
  apply toInt_bounds
  intro bit high inside
  rw [repeats bit high inside, BitVec.msb_eq_getLsbD_last, repeats (w - 1) (by omega) (by omega)]

theorem lt_of_outOfForm {other : Nat} (lower : -(2 : Int) ^ (7 * size - 1) ≤ val.toInt)
    (upper : val.toInt < 2 ^ (7 * size - 1)) (out : OutOfForm other val) : other < size := by
  by_contra smaller
  have powers : (2 : Int) ^ (7 * size - 1) ≤ 2 ^ (7 * other - 1) :=
    pow_le_pow_right₀ (by decide) (by omega)
  rw [OutOfForm] at out
  omega

theorem valSize_le {val : BitVec 64} (small : size < 8) (positive : 0 < size)
    (lower : -(2 : Int) ^ (7 * size - 1) ≤ val.toInt) (upper : val.toInt < 2 ^ (7 * size - 1)) :
    valSize val ≤ size := by
  obtain ⟨_, least, _, _, _, _, _, sizeEq, out⟩ | ⟨_, _, _, out⟩ |
    ⟨_, _, _, out⟩ := dumpI64_forms val
  · rw [sizeEq]
    by_contra larger
    have := lt_of_outOfForm lower upper (out (by omega))
    omega
  · have := lt_of_outOfForm lower upper out
    omega
  · have := lt_of_outOfForm lower upper out
    omega

theorem valSize_le_nine (val : BitVec 64) : valSize val ≤ 9 := by
  obtain ⟨_, size, _, small, _, _, _, sizeEq, _⟩ | ⟨_, _, sizeEq, _⟩ |
    ⟨_, _, sizeEq, _⟩ := dumpI64_forms val <;> omega

theorem valSize_signExtend (val : BitVec 32) :
    valSize (val.signExtend 64) = (writeV32 val).length := by
  rw [← length_writeV64, writeV64_signExtend]

theorem bufSize_bounds (byte0 : Byte) : 0 < bufSize byte0 ∧ bufSize byte0 ≤ 9 := by
  revert byte0
  decide +kernel

theorem length_writeV64_le {val : BitVec 64} (announced : bufSize byte0 = rest.length + 1)
    (loaded : loadI64 (byte0 :: rest) = some val) : (writeV64 val).length ≤ rest.length + 1 := by
  have bounds := bufSize_bounds byte0
  rw [length_writeV64]
  rcases Nat.lt_trichotomy (rest.length + 1) 8 with short | eight | nine
  · obtain ⟨lower, upper⟩ := load_short_bounds (by omega) short
      (by decide : 64 = 8 * 8) (by omega) announced rfl short loaded
    exact valSize_le short (by omega) lower upper
  · -- The eight-byte form looks at a ninth byte.
    have missing : (byte0 :: rest)[8]? = none :=
      List.getElem?_eq_none (by rw [List.length_cons]; omega)
    have range : List.range (64 / 8) = 0 :: List.range' 1 7 := rfl
    have first : (byte0 :: rest)[0]? = some byte0 := rfl
    rw [loadI64, load, first] at loaded
    simp only [Option.bind_eq_bind, Option.bind_some, announced, eight,
      Nat.lt_irrefl, if_false, range, List.mapM_cons] at loaded
    simp [missing] at loaded
  · have := valSize_le_nine val
    omega

theorem length_writeV32_le {val : BitVec 32} (announced : bufSize byte0 = rest.length + 1)
    (loaded : loadI32 (byte0 :: rest) = some val) : (writeV32 val).length ≤ rest.length + 1 := by
  by_cases short : rest.length + 1 < 5
  · obtain ⟨lower, upper⟩ := load_short_bounds (by omega) (by omega)
      (by decide : 32 = 8 * 4) (by omega) announced rfl short loaded
    rw [← toInt_signExtend_64] at lower upper
    rw [← valSize_signExtend]
    exact valSize_le (by omega) (by omega) lower upper
  · have := length_writeV32_le_five val
    omega

end SRPC.SparseInt
