import Mathlib.Tactic.IntervalCases
import SRPC.LittleEndian

/-!
# Sparse integers

`SparseInt` writes a signed integer in one to nine bytes.  The high bits of the
first byte tell the length, the value follows in big-endian order.
-/

namespace SRPC.SparseInt

open LittleEndian

/-- `buf_size`. -/
def bufSize (byte0 : Byte) : Nat :=
  if byte0 &&& 0x80 = 0 then 1
  else if byte0 &&& 0xC0 = 0x80 then 2
  else if byte0 &&& 0xE0 = 0xC0 then 3
  else if byte0 &&& 0xF0 = 0xE0 then 4
  else if byte0 &&& 0xF8 = 0xF0 then 5
  else if byte0 &&& 0xFC = 0xF8 then 6
  else if byte0 &&& 0xFE = 0xFC then 7
  else if byte0 &&& 0xFF = 0xFE then 8
  else 9

/-- `val_size`. -/
def valSize (val : BitVec 64) : Nat :=
  if -64 ≤ val.toInt ∧ val.toInt ≤ 63 then 1
  else if -8192 ≤ val.toInt ∧ val.toInt ≤ 8191 then 2
  else if -1048576 ≤ val.toInt ∧ val.toInt ≤ 1048575 then 3
  else if -134217728 ≤ val.toInt ∧ val.toInt ≤ 134217727 then 4
  else if -17179869184 ≤ val.toInt ∧ val.toInt ≤ 17179869183 then 5
  else if -2199023255552 ≤ val.toInt ∧ val.toInt ≤ 2199023255551 then 6
  else if -281474976710656 ≤ val.toInt ∧ val.toInt ≤ 281474976710655 then 7
  else if -36028797018963968 ≤ val.toInt ∧ val.toInt ≤ 36028797018963967 then 8
  else 9

/-- `dump(i32)`: the filled cells of `buf` and the returned size. -/
def dumpI32 (val : BitVec 32) : List Byte × Nat :=
  let pv := byteAt val
  if -64 ≤ val.toInt ∧ val.toInt ≤ 63 then
    ([pv 0 &&& 0x7F], 1)
  else if -8192 ≤ val.toInt ∧ val.toInt ≤ 8191 then
    ([pv 1 &&& 0x3F ||| 0x80, pv 0], 2)
  else if -1048576 ≤ val.toInt ∧ val.toInt ≤ 1048575 then
    ([pv 2 &&& 0x1F ||| 0xC0, pv 1, pv 0], 3)
  else if -134217728 ≤ val.toInt ∧ val.toInt ≤ 134217727 then
    ([pv 3 &&& 0x0F ||| 0xE0, pv 2, pv 1, pv 0], 4)
  else
    ([if val.toInt < 0 then 0xF7 else 0xF0, pv 3, pv 2, pv 1, pv 0], 5)

/-- `dump(i64)`.  The form for magnitudes up to `2 ^ 55` fills nine cells and
reports eight. -/
def dumpI64 (val : BitVec 64) : List Byte × Nat :=
  let pv := byteAt val
  if -64 ≤ val.toInt ∧ val.toInt ≤ 63 then
    ([pv 0 &&& 0x7F], 1)
  else if -8192 ≤ val.toInt ∧ val.toInt ≤ 8191 then
    ([pv 1 &&& 0x3F ||| 0x80, pv 0], 2)
  else if -1048576 ≤ val.toInt ∧ val.toInt ≤ 1048575 then
    ([pv 2 &&& 0x1F ||| 0xC0, pv 1, pv 0], 3)
  else if -134217728 ≤ val.toInt ∧ val.toInt ≤ 134217727 then
    ([pv 3 &&& 0x0F ||| 0xE0, pv 2, pv 1, pv 0], 4)
  else if -17179869184 ≤ val.toInt ∧ val.toInt ≤ 17179869183 then
    ([pv 4 &&& 0x07 ||| 0xF0, pv 3, pv 2, pv 1, pv 0], 5)
  else if -2199023255552 ≤ val.toInt ∧ val.toInt ≤ 2199023255551 then
    ([pv 5 &&& 0x03 ||| 0xF8, pv 4, pv 3, pv 2, pv 1, pv 0], 6)
  else if -281474976710656 ≤ val.toInt ∧ val.toInt ≤ 281474976710655 then
    ([pv 6 &&& 0x01 ||| 0xFC, pv 5, pv 4, pv 3, pv 2, pv 1, pv 0], 7)
  else if -36028797018963968 ≤ val.toInt ∧ val.toInt ≤ 36028797018963967 then
    ([0xFE, pv 7, pv 6, pv 5, pv 4, pv 3, pv 2, pv 1, pv 0], 8)
  else
    ([0xFF, pv 7, pv 6, pv 5, pv 4, pv 3, pv 2, pv 1, pv 0], 9)

/-- `load_i32` and `load_i64`: below `threshold` bytes the value is sign
extended from its top byte, otherwise it is read in full after the first
byte. -/
def load (w threshold : Nat) (buf : List Byte) : Option (BitVec w) := do
  let byte0 ← buf[0]?
  let bsize := bufSize byte0
  if bsize < threshold then
    let pv ← (List.range bsize).mapM fun i => buf[bsize - i - 1]?
    let top := pv.getD (bsize - 1) 0 &&& (0xFF#8 >>> bsize)
    if (top >>> (7 - bsize)).getLsbD 0 then
      let top := top ||| (0xFF#8 <<< (7 - bsize))
      return ofBytes w (pv.set (bsize - 1) top ++ List.replicate (w / 8 - bsize) 0xFF)
    else
      return ofBytes w (pv.set (bsize - 1) top)
  else
    let pv ← (List.range (w / 8)).mapM fun i => buf[w / 8 - i]?
    return ofBytes w pv

def loadI32 : List Byte → Option (BitVec 32) := load 32 5

def loadI64 : List Byte → Option (BitVec 64) := load 64 8

/-- The bytes `operator<<` sends for a `v32`. -/
def writeV32 (val : BitVec 32) : List Byte := (dumpI32 val).1.take (dumpI32 val).2

/-- The bytes `operator<<` sends for a `v64`. -/
def writeV64 (val : BitVec 64) : List Byte := (dumpI64 val).1.take (dumpI64 val).2

/-- `operator>>` of a sparse integer with a buffer of `capacity` bytes: peek
the first byte, read as many bytes as it announces and load them. -/
def readSparse {w : Nat} (capacity : Nat)
    (loadInt : List Byte → Option (BitVec w)) (stream : List Byte) :
    Option (BitVec w × List Byte) := do
  let byte0 ← stream.head?
  let bsize := bufSize byte0
  guard (bsize ≤ stream.length)
  guard (bsize ≤ capacity)
  let val ← loadInt (stream.take bsize)
  return (val, stream.drop bsize)

def readV32 : List Byte → Option (BitVec 32 × List Byte) := readSparse 5 loadI32

def readV64 : List Byte → Option (BitVec 64 × List Byte) := readSparse 9 loadI64

/-- The values for which `dump(i64)` drops the last byte. -/
def LosesByte (val : BitVec 64) : Prop :=
  (-2 ^ 55 ≤ val.toInt ∧ val.toInt < -2 ^ 48) ∨ (2 ^ 48 ≤ val.toInt ∧ val.toInt < 2 ^ 55)

instance (val : BitVec 64) : Decidable (LosesByte val) :=
  inferInstanceAs (Decidable (_ ∨ _))

section ShortForms

variable {w : Nat}

/-- The form of `size` bytes: the length mark and the top bits of the value,
then the remaining bytes in big-endian order. -/
def short (size : Nat) (val : BitVec w) : List Byte :=
  (byteAt val (size - 1) &&& (0xFF#8 >>> size) ||| ~~~(0xFF#8 >>> (size - 1))) ::
    (toBytes (size - 1) val).reverse

variable {size : Nat}

@[simp]
theorem length_short (positive : 0 < size) (val : BitVec w) : (short size val).length = size := by
  simp [short]
  omega

theorem bufSize_mark (positive : 0 < size) (small : size < 8) (byte : Byte) :
    bufSize (byte &&& (0xFF#8 >>> size) ||| ~~~(0xFF#8 >>> (size - 1))) = size := by
  interval_cases size <;> revert byte <;> decide +kernel

theorem mark_and_mask (positive : 0 < size) (small : size < 8) (byte : Byte) :
    (byte &&& (0xFF#8 >>> size) ||| ~~~(0xFF#8 >>> (size - 1))) &&&
      (0xFF#8 >>> size) = byte &&& (0xFF#8 >>> size) := by
  interval_cases size <;> revert byte <;> decide +kernel

theorem getLsbD_masked (byte : Byte) (size bit : Nat) :
    (byte &&& (0xFF#8 >>> size)).getLsbD bit = (decide (size + bit < 8) && byte.getLsbD bit) := by
  have ones : 0xFF#8 = BitVec.allOnes 8 := rfl
  rw [ones, BitVec.getLsbD_and, BitVec.getLsbD_ushiftRight, BitVec.getLsbD_allOnes, Bool.and_comm]

theorem getLsbD_top (positive : 0 < size) (small : size < 8) (byte : Byte) {bit : Nat}
    (inside : bit < 8) :
    (if ((byte &&& (0xFF#8 >>> size)) >>> (7 - size)).getLsbD 0 then
        byte &&& (0xFF#8 >>> size) ||| (0xFF#8 <<< (7 - size))
      else byte &&& (0xFF#8 >>> size)).getLsbD bit =
      byte.getLsbD (min bit (7 - size)) := by
  have ones : 0xFF#8 = BitVec.allOnes 8 := rfl
  have signBit : ((byte &&& (0xFF#8 >>> size)) >>> (7 - size)).getLsbD 0 =
      byte.getLsbD (7 - size) := by
    have : size + (7 - size) < 8 := by omega
    rw [BitVec.getLsbD_ushiftRight, Nat.add_zero, getLsbD_masked]
    simp [this]
  rw [signBit]
  by_cases low : bit < 7 - size
  · have kept : size + bit < 8 := by omega
    rw [Nat.min_eq_left low.le]
    cases byte.getLsbD (7 - size) with
    | true =>
      rw [if_pos rfl, BitVec.getLsbD_or, getLsbD_masked, ones, BitVec.getLsbD_shiftLeft]
      simp [kept, low]
    | false =>
      rw [if_neg (by decide), getLsbD_masked]
      simp [kept]
  · rw [Nat.min_eq_right (by omega)]
    cases sign : byte.getLsbD (7 - size) with
    | true =>
      have beyond : bit - (7 - size) < 8 := by omega
      rw [if_pos rfl, BitVec.getLsbD_or, ones, BitVec.getLsbD_shiftLeft, BitVec.getLsbD_allOnes]
      simp [inside, low, beyond]
    | false =>
      rw [if_neg (by decide), getLsbD_masked]
      by_cases same : bit = 7 - size
      · rw [same, sign, Bool.and_false]
      · have gone : ¬ size + bit < 8 := by omega
        simp [gone]

end ShortForms

end SRPC.SparseInt
