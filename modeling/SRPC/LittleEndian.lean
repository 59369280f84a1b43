import Mathlib.Data.List.Basic
import Mathlib.Tactic.Positivity

/-!
# Little-endian bytes of machine words

A machine word is stored as its bytes, least significant first.  Its bits are
those of the bytes, so that codecs can be compared bit by bit.
-/

namespace SRPC

abbrev Byte := BitVec 8

namespace LittleEndian

variable {w : Nat}

/-- Byte `index` of a word in memory order. -/
def byteAt (word : BitVec w) (index : Nat) : Byte := word.extractLsb' (8 * index) 8

/-- The first `count` bytes of a word. -/
def toBytes (count : Nat) (word : BitVec w) : List Byte := (List.range count).map (byteAt word)

/-- The word that is stored as these bytes. -/
def ofBytes (w : Nat) : List Byte → BitVec w
  | [] => 0
  | byte :: bytes => ofBytes w bytes <<< 8 ||| byte.setWidth w

theorem getLsbD_byteAt (word : BitVec w) (index bit : Nat) :
    (byteAt word index).getLsbD bit = (decide (bit < 8) && word.getLsbD (8 * index + bit)) := by
  simp [byteAt, BitVec.getLsbD_extractLsb']

theorem getLsbD_ofBytes (bytes : List Byte) (bit : Nat) :
    (ofBytes w bytes).getLsbD bit =
      (decide (bit < w) && (bytes.getD (bit / 8) 0).getLsbD (bit % 8)) := by
  induction bytes generalizing bit with
  | nil => simp [ofBytes]
  | cons byte bytes ih =>
    rw [ofBytes, BitVec.getLsbD_or, BitVec.getLsbD_shiftLeft, BitVec.getLsbD_setWidth]
    by_cases low : bit < 8
    · have div : bit / 8 = 0 := by omega
      have mod : bit % 8 = bit := by omega
      simp [low, div, mod]
    · have div : bit / 8 = (bit - 8) / 8 + 1 := by omega
      have mod : bit % 8 = (bit - 8) % 8 := by omega
      have beyond : byte.getLsbD bit = false := BitVec.getLsbD_of_ge byte bit (by omega)
      rw [ih, div, mod, List.getD_cons_succ, beyond]
      by_cases inside : bit < w
      · have : bit - 8 < w := by omega
        simp [low, inside, this]
      · simp [inside]

@[simp]
theorem length_toBytes (count : Nat) (word : BitVec w) : (toBytes count word).length = count := by
  simp [toBytes]

variable {count : Nat}

theorem toBytes_ne_nil (positive : 0 < count) (word : BitVec w) : toBytes count word ≠ [] := by
  rw [← List.length_pos_iff, length_toBytes]
  exact positive

theorem ofBytes_toBytes (word : BitVec w) (enough : w ≤ 8 * count) :
    ofBytes w (toBytes count word) = word := by
  apply BitVec.eq_of_getLsbD_eq
  intro bit inside
  have covered : bit / 8 < count := by omega
  have position : 8 * (bit / 8) + bit % 8 = bit := by omega
  have within : bit % 8 < 8 := by omega
  have byte : (toBytes count word).getD (bit / 8) 0 = byteAt word (bit / 8) := by
    simp [toBytes, covered]
  rw [getLsbD_ofBytes, byte, getLsbD_byteAt, position]
  simp [inside, within]

theorem toBytes_ofBytes {bytes : List Byte} (length : bytes.length = count) (fits : 8 * count ≤ w) :
    toBytes count (ofBytes w bytes) = bytes := by
  apply List.ext_getElem
  · rw [length_toBytes, length]
  intro index inside short
  apply BitVec.eq_of_getLsbD_eq
  intro bit small
  have byte : (8 * index + bit) / 8 = index := by omega
  have place : (8 * index + bit) % 8 = bit := by omega
  have fit : 8 * index + bit < w := by omega
  have found : (toBytes count (ofBytes w bytes))[index] = byteAt (ofBytes w bytes) index := by
    simp [toBytes]
  rw [found, getLsbD_byteAt, getLsbD_ofBytes, byte, place]
  simp [fit, small, short]

variable {word : BitVec w} {bound : Nat}

theorem getLsbD_eq_msb (lower : -(2 : Int) ^ bound ≤ word.toInt) (upper : word.toInt < 2 ^ bound)
    {bit : Nat} (high : bound ≤ bit) (inside : bit < w) : word.getLsbD bit = word.msb := by
  have powers : (2 : Nat) ^ bound ≤ 2 ^ bit := Nat.pow_le_pow_right (by decide) high
  cases sign : word.msb with
  | false =>
    have value : word.toInt = word.toNat := by
      rw [BitVec.toInt_eq_msb_cond, sign]
      simp
    have small : word.toNat < 2 ^ bit := by
      have : ((word.toNat : Int)) < ((2 ^ bound : Nat) : Int) := by
        rw [← value]
        exact_mod_cast upper
      omega
    rw [BitVec.getLsbD]
    exact Nat.testBit_lt_two_pow small
  | true =>
    have value : word.toInt = word.toNat - 2 ^ w := by
      rw [BitVec.toInt_eq_msb_cond, sign]
      simp
    have small : (~~~word).toNat < 2 ^ bit := by
      have : ((2 ^ w : Nat) : Int) ≤ word.toNat + ((2 ^ bound : Nat) : Int) := by
        have := lower
        rw [value] at this
        push_cast
        omega
      have := word.isLt
      rw [BitVec.toNat_not]
      omega
    have negated : (~~~word).getLsbD bit = false := by
      rw [BitVec.getLsbD]
      exact Nat.testBit_lt_two_pow small
    simpa [inside] using negated

theorem toInt_bounds (repeats : ∀ bit, bound ≤ bit → bit < w → word.getLsbD bit = word.msb) :
    -(2 : Int) ^ bound ≤ word.toInt ∧ word.toInt < 2 ^ bound := by
  cases sign : word.msb with
  | false =>
    have value : word.toInt = word.toNat := by
      rw [BitVec.toInt_eq_msb_cond, sign]
      simp
    have small : word.toNat < 2 ^ bound := by
      apply Nat.lt_pow_two_of_testBit
      intro bit high
      by_cases inside : bit < w
      · exact (repeats bit high inside).trans sign
      · exact BitVec.getLsbD_of_ge word bit (by omega)
    have cast : ((word.toNat : Int)) < ((2 ^ bound : Nat) : Int) := by
      exact_mod_cast small
    push_cast at cast
    rw [value]
    omega
  | true =>
    have value : word.toInt = word.toNat - 2 ^ w := by
      rw [BitVec.toInt_eq_msb_cond, sign]
      simp
    have small : (~~~word).toNat < 2 ^ bound := by
      apply Nat.lt_pow_two_of_testBit
      intro bit high
      show (~~~word).getLsbD bit = false
      by_cases inside : bit < w
      · simp [inside, (repeats bit high inside).trans sign]
      · exact BitVec.getLsbD_of_ge _ bit (by omega)
    have below := word.isLt
    rw [BitVec.toNat_not] at small
    have cast : ((2 ^ w : Nat) : Int) - word.toNat ≤ ((2 ^ bound : Nat) : Int) := by
      omega
    push_cast at cast
    have belowCast : (word.toNat : Int) < ((2 ^ w : Nat) : Int) := by
      exact_mod_cast below
    push_cast at belowCast
    have nonnegative : (0 : Int) ≤ 2 ^ bound := by positivity
    rw [value]
    omega

/-- `htons`. -/
def swap16 (word : BitVec 16) : BitVec 16 := word.extractLsb' 0 8 ++ word.extractLsb' 8 8

@[simp]
theorem swap16_swap16 (word : BitVec 16) : swap16 (swap16 word) = word := by
  apply BitVec.eq_of_getLsbD_eq
  intro bit inside
  simp only [swap16, BitVec.getLsbD_append, BitVec.getLsbD_extractLsb']
  by_cases low : bit < 8
  · simp [low]
  · have high : bit - 8 < 8 := by omega
    have back : 8 + (bit - 8) = bit := by omega
    simp [low, high, back]

end LittleEndian

end SRPC
