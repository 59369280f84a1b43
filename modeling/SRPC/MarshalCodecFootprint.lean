import Mathlib.Data.List.Forall2
import SRPC.MarshalCodec
import SRPC.SparseIntCanonical

/-!
# How many bytes the stream operators write and take

`operator<<` writes the length of a string or container as a sparse integer of
at most five bytes, `operator>>` reads it as an `i64` of eight bytes.
-/

namespace SRPC.Marshalling

open LittleEndian SparseInt ByteSource List

section Specification

/-- The strings and containers are shorter than `2 ^ 31`. -/
def Short : (type : WireType) → Value type → Prop
  | .scalar _, _ | .v32, _ | .v64, _ => True
  | .string, (value : List Byte) => value.length < 2 ^ 31
  | .pair first second, (x, y) => Short first x ∧ Short second y
  | .vector element, (items : List (Value element))
  | .list element, (items : List (Value element)) | .set element, (items : List (Value element))
  | .unorderedSet element, (items : List (Value element)) =>
    items.length < 2 ^ 31 ∧ ∀ item ∈ items, Short element item
  | .map key value, (items : List (Value key × Value value))
  | .unorderedMap key value, (items : List (Value key × Value value)) =>
    items.length < 2 ^ 31 ∧ ∀ item ∈ items, Short key item.1 ∧ Short value item.2

/-- The elements are the same, perhaps in another order. -/
def SameElements {α : Type} (same : α → α → Prop) (items others : List α) : Prop :=
  ∃ order, order.Perm others ∧ List.Forall₂ same items order

/-- Two values are equal, the sets and maps in them as sets and maps. -/
def Same : (type : WireType) → Value type → Value type → Prop
  | .scalar _, x, y | .v32, x, y | .v64, x, y | .string, x, y => x = y
  | .pair first second, (x, x'), (y, y') => Same first x y ∧ Same second x' y'
  | .vector element, items, others | .list element, items, others =>
    List.Forall₂ (Same element) items others
  | .set element, items, others => SameElements (Same element) items others
  | .map key value, items, others | .unorderedMap key value, items, others =>
    SameElements (fun x y => Same key x.1 y.1 ∧ Same value x.2 y.2) items others
  | .unorderedSet element, items, others =>
    SameElements (Same element) items others

/-- There are no strings and no containers in the type. -/
def Flat : WireType → Prop
  | .scalar _ => True
  | .v32 => True
  | .v64 => True
  | .pair first second => Flat first ∧ Flat second
  | _ => False

end Specification

section ListSource

variable {w : Nat}

theorem getSparse_list (capacity : Nat) (loadInt : List Byte → Option (BitVec w))
    (bytes : List Byte) :
    getSparse ByteSource.list capacity loadInt bytes = readSparse capacity loadInt bytes := by
  cases bytes with
  | nil => rfl
  | cons byte0 rest =>
    by_cases room : bufSize byte0 ≤ capacity
    · by_cases enough : bufSize byte0 ≤ rest.length + 1 <;>
        simp [getSparse, peekByte, list, readExactly, StateT.lift, bind,
          StateT.bind, readSparse, room, enough, guard, pure]
    · simp [getSparse, peekByte, list, readExactly, StateT.lift, bind,
        StateT.bind, readSparse, room, guard, pure]

variable {bytes rest : List Byte}

theorem readSparse_eq_some {capacity : Nat} {loadInt : List Byte → Option (BitVec w)}
    {val : BitVec w} (decoded : readSparse capacity loadInt bytes = some (val, rest)) :
    ∃ byte0 more, bytes = byte0 :: more ++ rest ∧
      bufSize byte0 = more.length + 1 ∧ loadInt (byte0 :: more) = some val := by
  cases bytes with
  | nil => cases decoded
  | cons byte0 tail =>
    by_cases enough : bufSize byte0 ≤ tail.length + 1
    · obtain ⟨n, size⟩ := Nat.exists_eq_add_one_of_ne_zero (bufSize_bounds byte0).1.ne'
      simp only [readSparse, head?_cons, Option.bind_eq_bind,
        Option.bind_some, length_cons, guard, Option.bind_eq_some_iff,
        size, take_succ_cons, drop_succ_cons] at decoded
      obtain ⟨_, _, _, _, _, loaded, equal⟩ := decoded
      obtain ⟨rfl, rfl⟩ := Prod.mk.inj (Option.some.inj equal)
      refine ⟨byte0, tail.take n, by simp, ?_, loaded⟩
      rw [size, length_take]
      omega
    · simp [readSparse, enough, guard] at decoded

theorem getWord_list {size : Nat} {word : BitVec (8 * size)}
    (decoded : getWord ByteSource.list size bytes = some (word, rest)) :
    bytes.length = size + rest.length := by
  obtain ⟨value, middle, readEq, pureEq⟩ := bind_eq_some.mp decoded
  obtain ⟨length, rfl⟩ := readExactly_list_eq_some.mp readEq
  cases pureEq
  rw [length_append, length]

theorem getWord_toBytes (size : Nat) (word : BitVec (8 * size)) (stream : List Byte) :
    getWord ByteSource.list size (toBytes size word ++ stream) = some (word, stream) := by
  refine bind_eq_some.mpr ⟨toBytes size word, stream,
    readExactly_list_eq_some.mpr ⟨length_toBytes size word, rfl⟩, ?_⟩
  show some (ofBytes (8 * size) (toBytes size word), stream) = _
  rw [ofBytes_toBytes _ (Nat.le_refl _)]

theorem getLength_list {length : Int}
    (decoded : getLength ByteSource.list bytes = some (length, rest)) :
    bytes.length = 8 + rest.length := by
  obtain ⟨word, middle, wordEq, pureEq⟩ := bind_eq_some.mp decoded
  cases pureEq
  exact getWord_list wordEq

end ListSource

section Consumption

/-- The bytes `operator>>` takes at least to produce the value. -/
def footprint : (type : WireType) → Value type → Nat
  | .scalar kind, _ => kind.size
  | .v32, value => (writeV32 value).length
  | .v64, value => (writeV64 value).length
  | .string, (value : List Byte) => 8 + value.length
  | .pair first second, (x, y) => footprint first x + footprint second y
  | .vector element, (items : List (Value element))
  | .list element, (items : List (Value element)) | .set element, (items : List (Value element))
  | .unorderedSet element, (items : List (Value element)) =>
    8 + (items.map (footprint element)).sum
  | .map key value, (items : List (Value key × Value value))
  | .unorderedMap key value, (items : List (Value key × Value value)) =>
    8 + (items.map fun item =>
      footprint key item.1 + footprint value item.2).sum

/-- A reader that takes at least the cost of what it produces. -/
def Consumes {α : Type} (reader : Reader (List Byte) α) (cost : α → Nat) : Prop :=
  ∀ bytes value rest, reader bytes = some (value, rest) → cost value + rest.length ≤ bytes.length

variable {α β : Type}

/-- Adding an item to a collection adds at most the cost of the item. -/
def Adds (insert : List α → α → List α) : Prop :=
  ∀ items item, insert items item = items ∨ insert items item = items ++ [item]

theorem pushBack_adds : Adds (pushBack (α := α)) := fun _ _ => Or.inr rfl

theorem insertItem_adds [DecidableEq α] : Adds (insertItem (α := α)) := by
  intro items item
  rw [insertItem]
  split
  · exact Or.inl rfl
  · exact Or.inr rfl

theorem insertIntoMap_adds [DecidableEq α] : Adds (insertIntoMap (α := α) (β := β)) := by
  intro items item
  rw [insertIntoMap]
  split
  · exact Or.inl rfl
  · exact Or.inr rfl

variable {body : Reader (List Byte) α} {cost : α → Nat} {insert : List α → α → List α}

theorem collect_consumes (one : Consumes body cost) (adds : Adds insert) (n : Nat) (items : List α)
    {bytes rest : List Byte} {result : List α}
    (collected : collect body insert n items bytes = some (result, rest)) :
    (result.map cost).sum + rest.length ≤ (items.map cost).sum + bytes.length := by
  induction n generalizing items bytes with
  | zero =>
    cases collected
    exact Nat.le_refl _
  | succ n ih =>
    obtain ⟨item, middle, bodyEq, restEq⟩ := bind_eq_some.mp collected
    have taken := one _ _ _ bodyEq
    have later := ih _ restEq
    rcases adds items item with same | more
    · rw [same] at later
      omega
    · rw [more, map_append, sum_append, map_singleton, sum_singleton] at later
      omega

theorem getItems_consumes (one : Consumes body cost) (adds : Adds insert) :
    Consumes (getItems ByteSource.list body insert) fun items => 8 + (items.map cost).sum := by
  intro bytes items rest decoded
  obtain ⟨length, _, lengthEq, afterLength⟩ := bind_eq_some.mp decoded
  obtain ⟨n, _, roundsEq, collected⟩ := bind_eq_some.mp afterLength
  obtain ⟨_, rfl⟩ := lift_eq_some.mp roundsEq
  have taken := getLength_list lengthEq
  have later := collect_consumes one adds n [] collected
  simp only [map_nil, sum_nil] at later ⊢
  omega

theorem getEntry_consumes {getKey : Reader (List Byte) α}
    {getValue : Reader (List Byte) β} {keyCost : α → Nat} {valueCost : β → Nat}
    (key : Consumes getKey keyCost) (value : Consumes getValue valueCost) :
    Consumes (getEntry getKey getValue) fun entry => keyCost entry.1 + valueCost entry.2 := by
  intro bytes entry rest decoded
  obtain ⟨x, middle, keyEq, decoded⟩ := bind_eq_some.mp decoded
  obtain ⟨y, last, valueEq, pureEq⟩ := bind_eq_some.mp decoded
  cases pureEq
  have keyTaken := key _ _ _ keyEq
  have valueTaken := value _ _ _ valueEq
  simp only
  omega

theorem getString_consumes :
    Consumes (getString ByteSource.list) fun value => 8 + value.length := by
  intro bytes value rest decoded
  obtain ⟨length, _, lengthEq, afterLength⟩ := bind_eq_some.mp decoded
  obtain ⟨_, _, guarded, readEq⟩ := bind_eq_some.mp afterLength
  obtain ⟨_, rfl⟩ := lift_eq_some.mp guarded
  have taken := getLength_list lengthEq
  split at readEq
  · obtain ⟨_, rfl⟩ := readExactly_list_eq_some.mp readEq
    rw [length_append] at taken
    simp only
    omega
  · cases readEq
    exact taken.ge

theorem getVector_consumes (one : Consumes body cost) :
    Consumes (getVector ByteSource.list body) fun items => 8 + (items.map cost).sum := by
  intro bytes items rest decoded
  -- Beyond `getItems` the vector only checks the sign of the length.
  obtain ⟨length, _, lengthEq, afterLength⟩ := bind_eq_some.mp decoded
  obtain ⟨_, _, guarded, afterGuard⟩ := bind_eq_some.mp afterLength
  obtain ⟨_, rfl⟩ := lift_eq_some.mp guarded
  exact getItems_consumes one pushBack_adds bytes items rest
    (bind_eq_some.mpr ⟨length, _, lengthEq, afterGuard⟩)

/-- How many bytes `operator>>` takes for a value. -/
theorem get_consumes (type : WireType) : Consumes (get ByteSource.list type) (footprint type) := by
  induction type with
  | scalar kind =>
    intro bytes value rest decoded
    exact (getWord_list decoded).ge
  | v32 =>
    intro bytes value rest decoded
    rw [get, getSparse_list] at decoded
    obtain ⟨byte0, more, rfl, announced, loaded⟩ := readSparse_eq_some decoded
    have written := length_writeV32_le announced loaded
    rw [footprint, length_append, length_cons]
    omega
  | v64 =>
    intro bytes value rest decoded
    rw [get, getSparse_list] at decoded
    obtain ⟨byte0, more, rfl, announced, loaded⟩ := readSparse_eq_some decoded
    have written := length_writeV64_le announced loaded
    rw [footprint, length_append, length_cons]
    omega
  | string => exact getString_consumes
  | pair first second firstConsumes secondConsumes =>
    exact getEntry_consumes firstConsumes secondConsumes
  | vector element ih => exact getVector_consumes ih
  | list element ih => exact getItems_consumes ih pushBack_adds
  | set element ih | unorderedSet element ih => exact getItems_consumes ih insertItem_adds
  | map key value keyConsumes valueConsumes | unorderedMap key value keyConsumes valueConsumes =>
    exact getItems_consumes (getEntry_consumes keyConsumes valueConsumes) insertIntoMap_adds

end Consumption

section Lengths

variable {α : Type} {n : Nat}

theorem length_encodeLength_le (short : n < 2 ^ 31) : (encodeLength n).length ≤ 5 := by
  have value : (BitVec.ofNat 64 n).toInt = n := by
    rw [BitVec.toInt_ofNat', Int.bmod_def]
    omega
  rw [encodeLength, length_writeV64]
  exact valSize_le (by decide) (by decide) (by rw [value]; omega) (by rw [value]; omega)

variable {items : List α}

theorem length_items_lt {encoding : α → List Byte} {cost : α → Nat} (short : items.length < 2 ^ 31)
    (each : ∀ item ∈ items, (encoding item).length ≤ cost item) :
    (encodeLength items.length ++ items.flatMap encoding).length < 8 + (items.map cost).sum := by
  have sums : (items.map fun item => (encoding item).length).sum ≤
      (items.map cost).sum := sum_le_sum each
  have length := length_encodeLength_le short
  rw [length_append, length_flatMap]
  omega

theorem length_string_lt {value : List Byte} (short : value.length < 2 ^ 31) :
    (encodeLength value.length ++ value).length < 8 + value.length := by
  have length := length_encodeLength_le short
  rw [length_append]
  omega

theorem length_append_le {first second : List Byte} {m : Nat} (firstLe : first.length ≤ m)
    (secondLe : second.length ≤ n) : (first ++ second).length ≤ m + n := by
  rw [length_append]
  exact Nat.add_le_add firstLe secondLe

variable {type : WireType}

theorem length_encode_le {value : Value type} (short : Short type value) :
    (encode type value).length ≤ footprint type value := by
  induction type with
  | scalar kind => exact (length_toBytes kind.size _).le
  | v32 | v64 => exact Nat.le_refl _
  | string => exact (length_string_lt short).le
  | pair first second firstLe secondLe =>
    exact length_append_le (firstLe short.1) (secondLe short.2)
  | vector element ih | list element ih | set element ih | unorderedSet element ih =>
    exact (length_items_lt short.1 fun item mem => ih (short.2 item mem)).le
  | map key value keyLe valueLe | unorderedMap key value keyLe valueLe =>
    exact (length_items_lt short.1 fun item mem =>
      length_append_le (keyLe (short.2 item mem).1) (valueLe (short.2 item mem).2)).le

theorem length_encode_lt (container : ¬ Flat type) {value : Value type} (short : Short type value) :
    (encode type value).length < footprint type value := by
  induction type with
  | scalar kind | v32 | v64 => exact absurd trivial container
  | string => exact length_string_lt short
  | pair first second firstLt secondLt =>
    show (encode first value.1 ++ encode second value.2).length <
      footprint first value.1 + footprint second value.2
    rw [length_append]
    by_cases flat : Flat first
    · exact Nat.add_lt_add_of_le_of_lt (length_encode_le short.1)
        (secondLt (fun other => container ⟨flat, other⟩) short.2)
    · exact Nat.add_lt_add_of_lt_of_le (firstLt flat short.1) (length_encode_le short.2)
  | vector element | list element | set element | unorderedSet element =>
    exact length_items_lt short.1 fun item mem =>
      length_encode_le (short.2 item mem)
  | map key value | unorderedMap key value =>
    exact length_items_lt short.1 fun item mem =>
      length_append_le (length_encode_le (short.2 item mem).1)
        (length_encode_le (short.2 item mem).2)

variable {same : α → α → Prop} {others : List α}

theorem sum_eq_of_forall₂ {cost : α → Nat} (costs : ∀ x y, same x y → cost x = cost y)
    (each : List.Forall₂ same items others) : (items.map cost).sum = (others.map cost).sum := by
  induction each with
  | nil => rfl
  | cons head _ ih => rw [map_cons, map_cons, sum_cons, sum_cons, costs _ _ head, ih]

theorem sum_eq_of_sameElements {cost : α → Nat} (costs : ∀ x y, same x y → cost x = cost y)
    (elements : SameElements same items others) :
    8 + (items.map cost).sum = 8 + (others.map cost).sum := by
  obtain ⟨order, perm, each⟩ := elements
  rw [sum_eq_of_forall₂ costs each, (perm.map cost).sum_eq]

theorem footprint_eq_of_same {x y : Value type} (same : Same type x y) :
    footprint type x = footprint type y := by
  induction type with
  | scalar kind => rfl
  | v32 | v64 | string => exact congrArg _ same
  | pair first second firstEq secondEq =>
    exact congrArg₂ _ (firstEq same.1) (secondEq same.2)
  | vector element ih | list element ih =>
    exact sum_eq_of_sameElements (fun x y equal => ih equal) ⟨y, List.Perm.refl y, same⟩
  | set element ih | unorderedSet element ih =>
    exact sum_eq_of_sameElements (fun x y equal => ih equal) same
  | map key value keyEq valueEq | unorderedMap key value keyEq valueEq =>
    exact sum_eq_of_sameElements (fun x y both =>
      congrArg₂ _ (keyEq both.1) (valueEq both.2)) same

end Lengths

end SRPC.Marshalling
