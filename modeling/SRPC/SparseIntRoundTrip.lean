import Mathlib.Data.List.GetD
import SRPC.IndexedLists
import SRPC.SparseInt

/-!
# Round trip of sparse integers

All forms bring their values back but the eight-byte one, which needs nine bytes
and sends eight, so that `load` looks at a byte that was never sent.
-/

namespace SRPC.SparseInt

open LittleEndian List

section Load

variable {w : Nat}

theorem map_getD_reverse (buf : List Byte) :
    ((List.range buf.length).map fun i => buf.getD (buf.length - i - 1) 0) = buf.reverse := by
  apply ext_getElem
  · simp
  · intro i _ inside
    rw [length_reverse] at inside
    have mirrored : buf.length - 1 - i < buf.length := by omega
    have index : buf.length - i - 1 = buf.length - 1 - i := by omega
    simp [index, getElem?_eq_getElem mirrored]

theorem mapM_reverse (buf : List Byte) :
    ((List.range buf.length).mapM fun i => buf[buf.length - i - 1]?) = some buf.reverse := by
  rw [← map_getD_reverse buf]
  apply mapM_eq_some
  intro i member
  rw [mem_range] at member
  have inside : buf.length - i - 1 < buf.length := by omega
  simp [inside]

theorem mapM_rest (byte0 : Byte) (rest : List Byte) :
    ((List.range rest.length).mapM fun i =>
      (byte0 :: rest)[rest.length - i]?) = some rest.reverse := by
  rw [← map_getD_reverse rest]
  apply mapM_eq_some
  intro i member
  rw [mem_range] at member
  have inside : rest.length - i - 1 < rest.length := by omega
  have index : rest.length - i = rest.length - i - 1 + 1 := by omega
  rw [index, getElem?_cons_succ]
  simp [inside]

variable {size : Nat}

theorem ofBytes_extended {val : BitVec w} {top : Byte} {fill : List Byte} (positive : 0 < size)
    (small : size < 8) (lower : -(2 : Int) ^ (7 * size - 1) ≤ val.toInt)
    (upper : val.toInt < 2 ^ (7 * size - 1))
    (topBits : ∀ bit < 8, top.getLsbD bit = val.getLsbD (8 * (size - 1) + min bit (7 - size)))
    (fillBits : ∀ index bit, 8 * (size + index) + bit < w → bit < 8 →
      (fill.getD index 0).getLsbD bit = val.msb) :
    ofBytes w (toBytes (size - 1) val ++ top :: fill) = val := by
  apply BitVec.eq_of_getLsbD_eq
  intro bit inside
  have within : bit % 8 < 8 := by omega
  rw [getLsbD_ofBytes]
  simp only [inside, decide_true, Bool.true_and]
  rcases lt_trichotomy (bit / 8) (size - 1) with below | here | above
  · have byte : (toBytes (size - 1) val ++ top :: fill).getD (bit / 8) 0 =
        byteAt val (bit / 8) := by
      simp [toBytes, getElem?_append_left, below]
    have position : 8 * (bit / 8) + bit % 8 = bit := by omega
    rw [byte, getLsbD_byteAt, position]
    simp [within]
  · have byte : (toBytes (size - 1) val ++ top :: fill).getD (bit / 8) 0 = top := by
      simp [here]
    rw [byte, topBits _ within]
    by_cases low : bit % 8 < 7 - size
    · congr 1
      omega
    · rw [getLsbD_eq_msb lower upper (by omega) (by omega),
        getLsbD_eq_msb lower upper (by omega) inside]
  · have byte : (toBytes (size - 1) val ++ top :: fill).getD (bit / 8) 0 =
        fill.getD (bit / 8 - size) 0 := by
      have index : bit / 8 - (size - 1) = bit / 8 - size + 1 := by omega
      rw [getD_append_right _ _ _ _ (by simp; omega), length_toBytes, index, getD_cons_succ]
    rw [byte, fillBits _ _ (by omega) within, getLsbD_eq_msb lower upper (by omega) inside]

variable {threshold : Nat}

theorem load_short (count : Nat) {val : BitVec w} (positive : 0 < size) (small : size < 8)
    (below : size < threshold) (whole : w = 8 * count) (fits : size ≤ count)
    (lower : -(2 : Int) ^ (7 * size - 1) ≤ val.toInt) (upper : val.toInt < 2 ^ (7 * size - 1)) :
    load w threshold (short size val) = some val := by
  have length := length_short positive val
  have cells := mapM_reverse (short size val)
  rw [length] at cells
  have reversed : (short size val).reverse = toBytes (size - 1) val ++
      [byteAt val (size - 1) &&& (0xFF#8 >>> size) ||| ~~~(0xFF#8 >>> (size - 1))] := by
    simp [short]
  have sign : ((byteAt val (size - 1) &&& (0xFF#8 >>> size)) >>>
      (7 - size)).getLsbD 0 = val.msb := by
    have kept : size + (7 - size) < 8 := by omega
    have bitInside : 7 - size < 8 := by omega
    rw [BitVec.getLsbD_ushiftRight, Nat.add_zero, getLsbD_masked,
      getLsbD_byteAt, getLsbD_eq_msb lower upper (by omega) (by omega)]
    simp [kept, bitInside]
  have topBits : ∀ bit < 8, (if val.msb then
        byteAt val (size - 1) &&& (0xFF#8 >>> size) ||| (0xFF#8 <<< (7 - size))
      else byteAt val (size - 1) &&& (0xFF#8 >>> size)).getLsbD bit =
        val.getLsbD (8 * (size - 1) + min bit (7 - size)) := by
    intro bit inside
    have within : min bit (7 - size) < 8 := by omega
    rw [← sign, getLsbD_top positive small _ inside, getLsbD_byteAt]
    simp only [within, decide_true, Bool.true_and]
  have mark : (short size val)[0]? = some (byteAt val (size - 1) &&&
      (0xFF#8 >>> size) ||| ~~~(0xFF#8 >>> (size - 1))) := rfl
  have top (byte : Byte) : (toBytes (size - 1) val ++ [byte]).getD (size - 1) 0 = byte := by
    simp
  have setTop (byte other : Byte) :
      (toBytes (size - 1) val ++ [byte]).set (size - 1) other =
        toBytes (size - 1) val ++ [other] := by
    simp [set_append_right]
  rw [load, mark]
  simp only [Option.bind_eq_bind, Option.bind_some, bufSize_mark positive small,
    below, if_true, cells, reversed, top, setTop, mark_and_mask positive small, sign]
  cases negative : val.msb with
  | true =>
    simp only [negative, if_true] at topBits ⊢
    rw [append_assoc, singleton_append]
    congr 1
    refine ofBytes_extended positive small lower upper topBits ?_
    intro index bit inside within
    rw [negative, getD_replicate _ (by omega)]
    interval_cases bit <;> rfl
  | false =>
    simp only [negative, Bool.false_eq_true, if_false] at topBits ⊢
    congr 1
    refine ofBytes_extended positive small lower upper topBits ?_
    intro index bit _ _
    simp [negative]

variable {byte0 : Byte}

theorem load_full (count : Nat) {val : BitVec w} (whole : w = 8 * count)
    (above : threshold ≤ bufSize byte0) :
    load w threshold (byte0 :: (toBytes count val).reverse) = some val := by
  have width : w / 8 = count := by omega
  have cells := mapM_rest byte0 (toBytes count val).reverse
  rw [length_reverse, length_toBytes, reverse_reverse] at cells
  have first : (byte0 :: (toBytes count val).reverse)[0]? = some byte0 := rfl
  rw [load, first]
  simp only [Option.bind_eq_bind, Option.bind_some, Nat.not_lt.mpr above, if_false, width, cells]
  exact congrArg some (ofBytes_toBytes val (by omega))

theorem readSparse_append {capacity : Nat} {loadInt : List Byte → Option (BitVec w)}
    {wire stream : List Byte} (first : wire.head? = some byte0) (size : bufSize byte0 = wire.length)
    (room : wire.length ≤ capacity) :
    readSparse capacity loadInt (wire ++ stream) = (loadInt wire).map fun val => (val, stream) := by
  have head : (wire ++ stream).head? = some byte0 := by
    rw [head?_append, first]
    rfl
  rw [readSparse, head]
  simp only [Option.bind_eq_bind, Option.bind_some, size, length_append,
    Nat.le_add_right, guard_true, room, take_left', drop_left']
  cases loadInt wire <;> rfl

end Load

section Forms

/-- The value does not fit into the form of `size` bytes. -/
def OutOfForm {w : Nat} (size : Nat) (val : BitVec w) : Prop :=
  val.toInt < -2 ^ (7 * size - 1) ∨ 2 ^ (7 * size - 1) ≤ val.toInt

/-- The forms in which `dump` writes an `i32`. -/
theorem dumpI32_forms (val : BitVec 32) :
    (∃ size, 0 < size ∧ size ≤ 4 ∧ -(2 : Int) ^ (7 * size - 1) ≤ val.toInt ∧
      val.toInt < 2 ^ (7 * size - 1) ∧ dumpI32 val = (short size val, size)) ∨
    ∃ byte0, bufSize byte0 = 5 ∧ dumpI32 val = (byte0 :: (toBytes 4 val).reverse, 5) := by
  rw [dumpI32]
  by_cases one : -64 ≤ val.toInt ∧ val.toInt ≤ 63
  · rw [if_pos one]
    exact Or.inl ⟨1, by decide, by decide, by omega, by omega, by simp [short, toBytes]⟩
  rw [if_neg one]
  by_cases two : -8192 ≤ val.toInt ∧ val.toInt ≤ 8191
  · rw [if_pos two]
    exact Or.inl ⟨2, by decide, by decide, by omega, by omega, rfl⟩
  rw [if_neg two]
  by_cases three : -1048576 ≤ val.toInt ∧ val.toInt ≤ 1048575
  · rw [if_pos three]
    exact Or.inl ⟨3, by decide, by decide, by omega, by omega, rfl⟩
  rw [if_neg three]
  by_cases four : -134217728 ≤ val.toInt ∧ val.toInt ≤ 134217727
  · rw [if_pos four]
    exact Or.inl ⟨4, by decide, by decide, by omega, by omega, rfl⟩
  rw [if_neg four]
  refine Or.inr ⟨if val.toInt < 0 then 0xF7 else 0xF0, ?_, rfl⟩
  split <;> decide

/-- The forms in which `dump` writes an `i64`. -/
theorem dumpI64_forms (val : BitVec 64) :
    (¬ LosesByte val ∧ ∃ size, 0 < size ∧ size < 8 ∧
      -(2 : Int) ^ (7 * size - 1) ≤ val.toInt ∧
        val.toInt < 2 ^ (7 * size - 1) ∧
          dumpI64 val = (short size val, size) ∧ valSize val = size ∧
            (1 < size → OutOfForm (size - 1) val)) ∨
    (LosesByte val ∧ dumpI64 val = (0xFE :: (toBytes 8 val).reverse, 8) ∧
      valSize val = 8 ∧ OutOfForm 7 val) ∨
    (¬ LosesByte val ∧ dumpI64 val = (0xFF :: (toBytes 8 val).reverse, 9) ∧
      valSize val = 9 ∧ OutOfForm 7 val) := by
  simp only [dumpI64, LosesByte, valSize, OutOfForm]
  by_cases one : -64 ≤ val.toInt ∧ val.toInt ≤ 63
  · rw [if_pos one, if_pos one]
    exact Or.inl ⟨by omega, 1, by decide, by decide, by omega, by omega,
      by simp [short, toBytes], rfl, by omega⟩
  rw [if_neg one, if_neg one]
  by_cases two : -8192 ≤ val.toInt ∧ val.toInt ≤ 8191
  · rw [if_pos two, if_pos two]
    exact Or.inl ⟨by omega, 2, by decide, by decide, by omega, by omega, rfl, rfl,
      by omega⟩
  rw [if_neg two, if_neg two]
  by_cases three : -1048576 ≤ val.toInt ∧ val.toInt ≤ 1048575
  · rw [if_pos three, if_pos three]
    exact Or.inl ⟨by omega, 3, by decide, by decide, by omega, by omega, rfl, rfl,
      by omega⟩
  rw [if_neg three, if_neg three]
  by_cases four : -134217728 ≤ val.toInt ∧ val.toInt ≤ 134217727
  · rw [if_pos four, if_pos four]
    exact Or.inl ⟨by omega, 4, by decide, by decide, by omega, by omega, rfl, rfl,
      by omega⟩
  rw [if_neg four, if_neg four]
  by_cases five : -17179869184 ≤ val.toInt ∧ val.toInt ≤ 17179869183
  · rw [if_pos five, if_pos five]
    exact Or.inl ⟨by omega, 5, by decide, by decide, by omega, by omega, rfl, rfl,
      by omega⟩
  rw [if_neg five, if_neg five]
  by_cases six : -2199023255552 ≤ val.toInt ∧ val.toInt ≤ 2199023255551
  · rw [if_pos six, if_pos six]
    exact Or.inl ⟨by omega, 6, by decide, by decide, by omega, by omega, rfl, rfl,
      by omega⟩
  rw [if_neg six, if_neg six]
  by_cases seven : -281474976710656 ≤ val.toInt ∧ val.toInt ≤ 281474976710655
  · rw [if_pos seven, if_pos seven]
    exact Or.inl ⟨by omega, 7, by decide, by decide, by omega, by omega, rfl, rfl,
      by omega⟩
  rw [if_neg seven, if_neg seven]
  by_cases eight : -36028797018963968 ≤ val.toInt ∧ val.toInt ≤ 36028797018963967
  · rw [if_pos eight, if_pos eight]
    exact Or.inr (Or.inl ⟨by omega, rfl, rfl,
      by omega⟩)
  rw [if_neg eight, if_neg eight]
  exact Or.inr (Or.inr ⟨by omega, rfl, rfl,
      by omega⟩)

theorem writeV64_head (val : BitVec 64) :
    ∃ byte0, (writeV64 val).head? = some byte0 ∧
      bufSize byte0 = (writeV64 val).length := by
  rw [writeV64]
  obtain ⟨_, size, positive, small, _, _, dump, _⟩ | ⟨_, dump, _⟩ |
    ⟨_, dump, _⟩ := dumpI64_forms val
  · have length := length_short positive val
    rw [dump, take_of_length_le length.le]
    exact ⟨_, rfl, by rw [bufSize_mark positive small, length]⟩
  · rw [dump]
    exact ⟨0xFE, rfl, by simp; decide⟩
  · rw [dump]
    exact ⟨0xFF, rfl, by simp; decide⟩

theorem loadI64_writeV64 {val : BitVec 64} (kept : ¬ LosesByte val) :
    loadI64 (writeV64 val) = some val := by
  rw [writeV64, loadI64]
  obtain ⟨_, size, positive, small, lower, upper, dump, _⟩ | ⟨lost, _⟩ |
    ⟨_, dump, _⟩ := dumpI64_forms val
  · rw [dump, take_of_length_le (length_short positive val).le]
    exact load_short 8 positive small small rfl (by omega) lower upper
  · exact absurd lost kept
  · rw [dump, take_of_length_le (by simp)]
    exact load_full 8 rfl (by decide)

theorem readV64_writeV64 {val : BitVec 64} (kept : ¬ LosesByte val) (stream : List Byte) :
    readV64 (writeV64 val ++ stream) = some (val, stream) := by
  obtain ⟨byte0, first, size⟩ := writeV64_head val
  have room : (writeV64 val).length ≤ 9 := by
    rw [writeV64, length_take]
    obtain ⟨_, _, _, small, _, _, dump, _⟩ | ⟨_, dump, _⟩ | ⟨_, dump, _⟩ := dumpI64_forms val
    · rw [dump]
      omega
    · rw [dump]
      omega
    · rw [dump]
      omega
  rw [readV64, readSparse_append first size room, loadI64_writeV64 kept]
  rfl

theorem readV64_eq_none {val : BitVec 64} (lost : LosesByte val)
    (stream : List Byte) : readV64 (writeV64 val ++ stream) = none := by
  rw [readV64, writeV64]
  obtain ⟨kept, _⟩ | ⟨_, dump, _⟩ | ⟨kept, _⟩ := dumpI64_forms val
  · exact absurd lost kept
  · rw [dump]
    rw [readSparse_append rfl (by simp; decide) (by simp)]
    simp [loadI64, load, bufSize, range_succ]
  · exact absurd lost kept

section Widths

variable (val : BitVec 32)

theorem toInt_signExtend_64 : (val.signExtend 64).toInt = val.toInt :=
  BitVec.toInt_signExtend_of_le (by decide)

theorem byteAt_signExtend {index : Nat} (low : index < 4) :
    byteAt (val.signExtend 64) index = byteAt val index := by
  apply BitVec.eq_of_getLsbD_eq
  intro bit inside
  have within : 8 * index + bit < 32 := by omega
  have wide : 8 * index + bit < 64 := by omega
  rw [getLsbD_byteAt, getLsbD_byteAt, BitVec.getLsbD_signExtend]
  simp only [within, wide, decide_true, Bool.true_and, if_true]

theorem byteAt_four_signExtend : byteAt (val.signExtend 64) 4 = if val.msb then 0xFF else 0 := by
  apply BitVec.eq_of_getLsbD_eq
  intro bit inside
  rw [getLsbD_byteAt, BitVec.getLsbD_signExtend, if_neg (by omega)]
  cases val.msb with
  | true =>
    have wide : 8 * 4 + bit < 64 := by omega
    simp only [inside, wide, decide_true, Bool.true_and, if_true]
    interval_cases bit <;> rfl
  | false => simp

theorem dumpI64_signExtend : dumpI64 (val.signExtend 64) = dumpI32 val := by
  have range := val.toInt_lt
  have range' := val.le_toInt
  have five : -17179869184 ≤ val.toInt ∧ val.toInt ≤ 17179869183 := by omega
  have top : byteAt (val.signExtend 64) 4 &&& 0x07 ||| 0xF0 =
      if val.toInt < 0 then 0xF7 else 0xF0 := by
    rw [byteAt_four_signExtend, BitVec.msb_eq_toInt]
    by_cases negative : val.toInt < 0
    · simp [negative]
    · simp [negative]
  simp only [dumpI64, dumpI32, toInt_signExtend_64, top, if_pos five,
    byteAt_signExtend val (show 0 < 4 by decide), byteAt_signExtend val (show 1 < 4 by decide),
    byteAt_signExtend val (show 2 < 4 by decide), byteAt_signExtend val (show 3 < 4 by decide)]

theorem writeV64_signExtend : writeV64 (val.signExtend 64) = writeV32 val := by
  rw [writeV64, dumpI64_signExtend, writeV32]

theorem not_losesByte_signExtend : ¬ LosesByte (val.signExtend 64) := by
  have range := val.toInt_lt
  have range' := val.le_toInt
  rw [LosesByte, toInt_signExtend_64]
  omega

theorem loadI32_writeV32 : loadI32 (writeV32 val) = some val := by
  rw [writeV32, loadI32]
  obtain ⟨size, positive, small, lower, upper, dump⟩ | ⟨byte0, mark, dump⟩ := dumpI32_forms val
  · rw [dump, take_of_length_le (length_short positive val).le]
    exact load_short 4 positive (by omega) (by omega) rfl small lower upper
  · rw [dump, take_of_length_le (by simp)]
    exact load_full 4 rfl mark.ge

theorem length_writeV32_le_five : (writeV32 val).length ≤ 5 := by
  rw [writeV32, length_take]
  obtain ⟨size, _, small, _, _, dump⟩ | ⟨_, _, dump⟩ := dumpI32_forms val
  · rw [dump]
    omega
  · rw [dump]
    omega

theorem readV32_writeV32 (stream : List Byte) :
    readV32 (writeV32 val ++ stream) = some (val, stream) := by
  obtain ⟨byte0, first, size⟩ := writeV64_head (val.signExtend 64)
  rw [writeV64_signExtend] at first size
  rw [readV32, readSparse_append first size (length_writeV32_le_five val), loadI32_writeV32]
  rfl

end Widths

/-- Every `v32` survives the wire, and exactly the `v64` values whose form
sends all of its bytes do. -/
theorem sparseInt_roundTrip (val : BitVec 64) (val32 : BitVec 32) (stream : List Byte) :
    (readV64 (writeV64 val ++ stream) = some (val, stream) ↔
      ¬ LosesByte val) ∧
    readV32 (writeV32 val32 ++ stream) = some (val32, stream) := by
  refine ⟨?_, readV32_writeV32 val32 stream⟩
  constructor
  · intro roundTrip lost
    rw [readV64_eq_none lost] at roundTrip
    cases roundTrip
  · intro kept
    exact readV64_writeV64 kept stream

/-- The smallest positive value that does not survive. -/
theorem sparseInt_loses_two_pow_48 :
    writeV64 (BitVec.ofInt 64 (2 ^ 48)) = [0xFE, 0, 1, 0, 0, 0, 0, 0] ∧
      readV64 (writeV64 (BitVec.ofInt 64 (2 ^ 48)) ++ []) ≠
        some (BitVec.ofInt 64 (2 ^ 48), []) := by
  decide

theorem length_writeV64 (val : BitVec 64) : (writeV64 val).length = valSize val := by
  rw [writeV64]
  obtain ⟨_, size, positive, _, _, _, dump, sizeEq, _⟩ | ⟨_, dump, sizeEq, _⟩ |
    ⟨_, dump, sizeEq, _⟩ := dumpI64_forms val
  · simp [dump, sizeEq, length_short positive]
  · simp [dump, sizeEq]
  · simp [dump, sizeEq]

theorem writeV64_ne_nil (val : BitVec 64) : writeV64 val ≠ [] := by
  rw [writeV64]
  obtain ⟨_, size, positive, _, _, _, dump, _⟩ | ⟨_, dump, _⟩ | ⟨_, dump, _⟩ := dumpI64_forms val
  · rw [dump, take_of_length_le (length_short positive val).le]
    simp [short]
  · simp [dump]
  · simp [dump]

theorem writeV32_ne_nil (val : BitVec 32) : writeV32 val ≠ [] :=
  writeV64_signExtend val ▸ writeV64_ne_nil _

end Forms

end SRPC.SparseInt
