import Mathlib.Data.List.GetD
import SRPC.LittleEndian

/-!
# Areas of bytes

A flat area of memory, in which bytes are stored at an offset.
-/

namespace SRPC

open List

abbrev ByteArea := Nat → Byte

namespace ByteArea

/-- `memcpy` into the area. -/
def store (area : ByteArea) (offset : Nat) (bytes : List Byte) : ByteArea :=
  fun address =>
    if offset ≤ address then bytes.getD (address - offset) (area address)
    else area address

/-- The `n` bytes from the offset on. -/
def load (area : ByteArea) (offset n : Nat) : List Byte :=
  (List.range n).map fun index => area (offset + index)

variable {area : ByteArea} {offset address : Nat} {bytes : List Byte}

theorem store_of_outside (outside : address < offset ∨ offset + bytes.length ≤ address) :
    store area offset bytes address = area address := by
  unfold store
  split
  · rw [getD_eq_default]
    omega
  · rfl

theorem store_of_inside {index : Nat} (inside : index < bytes.length) :
    store area offset bytes (offset + index) = bytes[index] := by
  unfold store
  rw [if_pos (Nat.le_add_right _ _), Nat.add_sub_cancel_left, getD_eq_getElem _ _ inside]

variable {other : ByteArea}

theorem store_congr (same : area address = other address) :
    store area offset bytes address = store other offset bytes address := by
  unfold store
  rw [same]

@[simp]
theorem store_nil : store area offset [] = area := by
  funext address
  exact store_of_outside (by simp; omega)

theorem store_append (first second : List Byte) :
    store area offset (first ++ second) =
      store (store area offset first) (offset + first.length) second := by
  funext address
  unfold store
  by_cases before : offset ≤ address
  · rw [if_pos before, if_pos before]
    by_cases behind : offset + first.length ≤ address
    · rw [if_pos behind, getD_append_right _ _ _ _ (by omega),
        getD_eq_default first _ (by omega), Nat.sub_sub]
    · rw [if_neg behind, getD_append _ _ _ _ (by omega)]
  · rw [if_neg before, if_neg before, if_neg (by omega)]

@[simp]
theorem length_load (n : Nat) : (load area offset n).length = n := by
  simp [load]

theorem load_add (m n : Nat) :
    load area offset (m + n) = load area offset m ++ load area (offset + m) n := by
  simp [load, range_add, Nat.add_assoc]

theorem take_load (n count : Nat) :
    (load area offset n).take count = load area offset (min count n) := by
  simp [load, ← map_take, take_range]

theorem drop_load (n count : Nat) :
    (load area offset n).drop count = load area (offset + count) (n - count) := by
  by_cases short : count ≤ n
  · obtain ⟨rest, rfl⟩ := Nat.exists_eq_add_of_le short
    rw [load_add, drop_left' (length_load count), Nat.add_sub_cancel_left]
  · rw [drop_of_length_le (by rw [length_load]; omega), Nat.sub_eq_zero_of_le (by omega)]
    rfl

theorem load_store : load (store area offset bytes) offset bytes.length = bytes := by
  apply ext_getElem
  · simp
  · intro index inside within
    simp only [load, getElem_map, getElem_range]
    exact store_of_inside within

variable {n : Nat}

theorem load_store_take (short : n ≤ bytes.length) :
    load (store area offset bytes) offset n = bytes.take n := by
  have whole : load (store area offset bytes) offset (n + (bytes.length - n)) = bytes := by
    rw [Nat.add_sub_cancel' short, load_store]
  rw [load_add] at whole
  rw [← whole, take_left' (length_load n), whole]

theorem load_congr
    (same : ∀ address, offset ≤ address → address < offset + n → other address = area address) :
    load other offset n = load area offset n := by
  apply map_congr_left
  intro index member
  rw [mem_range] at member
  exact same _ (Nat.le_add_right _ _) (by omega)

variable {from_ : Nat}

theorem load_of_load {count : Nat} (same : load other offset n = load area offset n)
    (after : offset ≤ from_) (before : from_ + count ≤ offset + n) :
    load other from_ count = load area from_ count := by
  apply load_congr
  intro address lower upper
  obtain ⟨index, rfl⟩ := Nat.exists_eq_add_of_le (Nat.le_trans after lower)
  have atIndex := congrArg (fun bytes => bytes[index]?) same
  have inside : index < n := by omega
  simpa [load, inside] using atIndex

theorem load_store_of_outside (outside : from_ + n ≤ offset ∨ offset + bytes.length ≤ from_) :
    load (store area offset bytes) from_ n = load area from_ n :=
  load_congr fun _ _ _ => store_of_outside (by omega)

theorem store_agrees_iff :
    (∀ address, offset ≤ address → address < offset + bytes.length →
      store area offset bytes address = area address) ↔
      load area offset bytes.length = bytes := by
  constructor
  · intro same
    rw [← load_congr same, load_store]
  · intro loaded address lower upper
    obtain ⟨index, rfl⟩ := Nat.exists_eq_add_of_le lower
    have inside : index < bytes.length := by omega
    rw [store_of_inside inside]
    have atIndex := congrArg (fun bytes => bytes[index]?) loaded
    simpa [load, inside] using atIndex.symm

end ByteArea

end SRPC
