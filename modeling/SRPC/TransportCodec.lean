import SRPC.MarshalCodecFootprint
import SRPC.TransportMarshal

/-!
# Decoding what `TransportMarshal` encodes

`TransportMarshal` writes integers and lengths with a fixed width.  Readers
that agree with it on strings and containers differ in what they do with sparse
integers.
-/

namespace SRPC.Dpdk

open LittleEndian Marshalling ByteSource List

namespace TransportMarshal

/-- The elements of sets and the keys of maps are distinct. -/
def Proper : (type : WireType) → Value type → Prop
  | .scalar _, _ | .v32, _ | .v64, _ | .string, _ => True
  | .pair first second, (x, y) => Proper first x ∧ Proper second y
  | .vector element, (items : List (Value element))
  | .list element, (items : List (Value element)) =>
    ∀ item ∈ items, Proper element item
  | .set element, (items : List (Value element))
  | .unorderedSet element, (items : List (Value element)) =>
    items.Nodup ∧ ∀ item ∈ items, Proper element item
  | .map key value, (items : List (Value key × Value value))
  | .unorderedMap key value, (items : List (Value key × Value value)) =>
    (items.map Prod.fst).Nodup ∧ ∀ item ∈ items, Proper key item.1 ∧ Proper value item.2

/-- What holds of the kinds of sparse integers in a type. -/
def SparseLeaves (leaf32 leaf64 : Prop) : WireType → Prop
  | .scalar _ | .string => True
  | .v32 => leaf32
  | .v64 => leaf64
  | .pair first second =>
    SparseLeaves leaf32 leaf64 first ∧ SparseLeaves leaf32 leaf64 second
  | .vector element | .list element | .set element | .unorderedSet element =>
    SparseLeaves leaf32 leaf64 element
  | .map key value | .unorderedMap key value =>
    SparseLeaves leaf32 leaf64 key ∧ SparseLeaves leaf32 leaf64 value

/-- A reader of values that reads scalars, strings and containers as both
marshals do. -/
structure ReadsContainers {State : Type} (source : ByteSource State)
    (read : (type : WireType) → Reader State (Value type)) : Prop where
  scalar : ∀ kind, read (.scalar kind) = getWord source kind.size
  string : read .string = getString source
  pair : ∀ first second, read (.pair first second) = getEntry (read first) (read second)
  vector : ∀ element, read (.vector element) = getVector source (read element)
  list : ∀ element, read (.list element) = getItems source (read element) pushBack
  set : ∀ element, read (.set element) = getItems source (read element) insertItem
  map : ∀ key value, read (.map key value) =
    getItems source (getEntry (read key) (read value)) insertIntoMap
  unorderedSet : ∀ element, read (.unorderedSet element) = getItems source (read element) insertItem
  unorderedMap : ∀ key value, read (.unorderedMap key value) =
    getItems source (getEntry (read key) (read value)) insertIntoMap

theorem encodeLength_append_pos (n : Nat) (content : List Byte) :
    0 < (encodeLength n ++ content).length := by
  simp [encodeLength, length_toBytes]

theorem length_encode_pos (type : WireType) (value : Value type) :
    0 < (encode type value).length := by
  induction type with
  | scalar kind =>
    exact Nat.lt_of_lt_of_eq kind.size_pos (length_toBytes _ _).symm
  | v32 => exact Nat.lt_of_lt_of_eq (by decide) (length_toBytes 4 _).symm
  | v64 => exact Nat.lt_of_lt_of_eq (by decide) (length_toBytes 8 _).symm
  | string | vector element | list element | set element | map key value | unorderedSet element
  | unorderedMap key value => exact encodeLength_append_pos _ _
  | pair first second firstPositive _ =>
    have positive := firstPositive value.1
    show 0 < (encode first value.1 ++ encode second value.2).length
    rw [length_append]
    omega

section Items

variable {α β : Type} {encoding : α → List Byte}

theorem length_le_flatMap (items : List α) (positive : ∀ item, 0 < (encoding item).length) :
    items.length ≤ (items.flatMap encoding).length := by
  induction items with
  | nil => simp
  | cons item items ih =>
    have first := positive item
    simp only [flatMap_cons, length_append, length_cons]
    omega

variable {items : List α}

theorem length_item_le {item : α} (member : item ∈ items) :
    (encoding item).length ≤ (items.flatMap encoding).length := by
  obtain ⟨before, after, rfl⟩ := append_of_mem member
  simp only [flatMap_append, flatMap_cons, length_append]
  omega

variable {n : Nat}

theorem short_items (positive : ∀ item, 0 < (encoding item).length)
    (short : (encodeLength n ++ items.flatMap encoding).length < 2 ^ 31) :
    items.length < 2 ^ 31 ∧
      ∀ item ∈ items, (encoding item).length < 2 ^ 31 := by
  rw [length_append] at short
  have count := length_le_flatMap items positive
  refine ⟨by omega, fun item member => ?_⟩
  have part : (encoding item).length ≤ (items.flatMap encoding).length := length_item_le member
  omega

/-- Inserting the items one after the other gives the list. -/
def Appends (insert : List α → α → List α) (items : List α) : Prop :=
  ∀ before item after, items = before ++ item :: after → insert before item = before ++ [item]

theorem pushBack_appends (items : List α) : Appends pushBack items := fun _ _ _ _ => rfl

theorem insertItem_appends [DecidableEq α] (distinct : items.Nodup) : Appends insertItem items := by
  rintro before item after rfl
  rw [insertItem, if_neg]
  intro member
  exact (nodup_append.mp distinct).2.2 item member item mem_cons_self rfl

theorem insertIntoMap_appends [DecidableEq α] {items : List (α × β)}
    (distinct : (items.map Prod.fst).Nodup) : Appends insertIntoMap items := by
  rintro before item after rfl
  rw [insertIntoMap, if_neg]
  intro member
  rw [map_append, nodup_append] at distinct
  exact distinct.2.2 item.1 member item.1 (mem_map_of_mem mem_cons_self) rfl

variable {body : Reader (List Byte) α} {insert : List α → α → List α}

theorem collect_flatMap {before after : List α} (appends : Appends insert (before ++ after))
    (reads : ∀ item ∈ after, ∀ stream, body (encoding item ++ stream) = some (item, stream))
    (stream : List Byte) :
    collect body insert after.length before
      (after.flatMap encoding ++ stream) = some (before ++ after, stream) := by
  induction after generalizing before with
  | nil =>
    rw [append_nil]
    rfl
  | cons item after ih =>
    rw [flatMap_cons, append_assoc]
    refine bind_eq_some.mpr ⟨item, _, reads item mem_cons_self _, ?_⟩
    rw [appends before item after rfl]
    have split : before ++ item :: after = before ++ [item] ++ after := by
      simp
    rw [split] at appends ⊢
    exact ih appends fun other member =>
      reads other (mem_cons_of_mem _ member)

theorem getLength_encodeLength (short : n < 2 ^ 31) (stream : List Byte) :
    getLength ByteSource.list (encodeLength n ++ stream) = some ((n : Int), stream) := by
  refine bind_eq_some.mpr ⟨_, _, getWord_toBytes 8 (BitVec.ofNat 64 n) stream, ?_⟩
  have small : (BitVec.ofNat 64 n).toNat = n := by
    rw [BitVec.toNat_ofNat]
    omega
  have word : (BitVec.ofNat 64 n).toInt = n := by
    rw [BitVec.toInt_eq_toNat_of_lt (by omega), small]
  show some ((BitVec.ofNat 64 n).toInt, stream) = _
  rw [word]

theorem rounds_natCast (short : n < 2 ^ 31) : rounds (n : Int) = some n := by
  have bound : (n : Int) < 2 ^ 31 := by omega
  rw [rounds, if_pos bound, Int.toNat_natCast]

theorem getItems_encode (appends : Appends insert items) (short : items.length < 2 ^ 31)
    (reads : ∀ item ∈ items, ∀ stream, body (encoding item ++ stream) = some (item, stream))
    (stream : List Byte) :
    getItems ByteSource.list body insert
      (encodeLength items.length ++ items.flatMap encoding ++ stream) = some (items, stream) := by
  rw [append_assoc]
  refine bind_eq_some.mpr ⟨_, _, getLength_encodeLength short _, ?_⟩
  refine bind_eq_some.mpr ⟨items.length, _, lift_eq_some.mpr ⟨rounds_natCast short, rfl⟩, ?_⟩
  exact collect_flatMap (nil_append items ▸ appends) reads stream

end Items

section Values

variable {read : (type : WireType) → Reader (List Byte) (Value type)}

theorem getEntry_encode {first second : WireType} {x : Value first} {y : Value second}
    (readsFirst : ∀ stream, read first (encode first x ++ stream) = some (x, stream))
    (readsSecond : ∀ stream, read second (encode second y ++ stream) = some (y, stream))
    (stream : List Byte) :
    getEntry (read first) (read second)
      (encode first x ++ encode second y ++ stream) = some ((x, y), stream) := by
  rw [append_assoc]
  exact bind_eq_some.mpr ⟨x, _, readsFirst _, bind_eq_some.mpr ⟨y, _, readsSecond _, rfl⟩⟩

theorem getString_encode {value : List Byte} (short : value.length < 2 ^ 31) (stream : List Byte) :
    getString ByteSource.list (encodeLength value.length ++ value ++ stream) =
      some (value, stream) := by
  rw [append_assoc]
  refine bind_eq_some.mpr ⟨_, _, getLength_encodeLength short _, ?_⟩
  refine bind_eq_some.mpr ⟨(), _, lift_eq_some.mpr ⟨by simp, rfl⟩, ?_⟩
  by_cases empty : value = []
  · subst empty
    rfl
  · have positive : (0 : Int) < value.length := by
      have length := length_pos_iff.mpr empty
      omega
    rw [if_pos positive, Int.toNat_natCast]
    exact readExactly_list_eq_some.mpr ⟨rfl, rfl⟩

theorem getVector_encode {α : Type} {encoding : α → List Byte}
    {body : Reader (List Byte) α} {items : List α} (short : items.length < 2 ^ 31)
    (reads : ∀ item ∈ items, ∀ stream, body (encoding item ++ stream) = some (item, stream))
    (stream : List Byte) :
    getVector ByteSource.list body (encodeLength items.length ++ items.flatMap encoding ++ stream) =
        some (items, stream) := by
  rw [append_assoc]
  refine bind_eq_some.mpr ⟨_, _, getLength_encodeLength short _, ?_⟩
  refine bind_eq_some.mpr ⟨(), _, lift_eq_some.mpr ⟨by simp, rfl⟩, ?_⟩
  refine bind_eq_some.mpr ⟨items.length, _, lift_eq_some.mpr ⟨rounds_natCast short, rfl⟩, ?_⟩
  exact collect_flatMap (nil_append items ▸ pushBack_appends items) reads stream

variable {key value : WireType}

theorem getMap_encode {items : List (Value key × Value value)}
    (distinct : (items.map Prod.fst).Nodup) (few : items.length < 2 ^ 31)
    (readsKey : ∀ item ∈ items, ∀ stream,
      read key (encode key item.1 ++ stream) = some (item.1, stream))
    (readsValue : ∀ item ∈ items, ∀ stream,
      read value (encode value item.2 ++ stream) = some (item.2, stream)) (stream : List Byte) :
    getItems ByteSource.list (getEntry (read key) (read value)) insertIntoMap
      (encodeLength items.length ++ (items.flatMap fun item =>
        encode key item.1 ++ encode value item.2) ++ stream) = some (items, stream) :=
  getItems_encode (insertIntoMap_appends distinct) few
    (fun item member => getEntry_encode (readsKey item member) (readsValue item member)) stream

variable {type : WireType}

/-- What was encoded is read back. -/
theorem read_encode (reads : ReadsContainers ByteSource.list read)
    (leaves : SparseLeaves
      (∀ (x : Value .v32) stream, read .v32 (encode .v32 x ++ stream) = some (x, stream))
      (∀ (x : Value .v64) stream, read .v64 (encode .v64 x ++ stream) = some (x, stream)) type)
    {value : Value type} (proper : Proper type value) (short : Short type value)
    (stream : List Byte) : read type (encode type value ++ stream) = some (value, stream) := by
  induction type generalizing stream with
  | scalar kind =>
    rw [reads.scalar]
    exact getWord_toBytes kind.size value stream
  | v32 | v64 => exact leaves value stream
  | string =>
    rw [reads.string]
    exact getString_encode short stream
  | pair first second firstReads secondReads =>
    rw [reads.pair]
    exact getEntry_encode (firstReads leaves.1 proper.1 short.1)
      (secondReads leaves.2 proper.2 short.2) stream
  | vector element ih =>
    rw [reads.vector]
    exact getVector_encode short.1 (fun item member =>
      ih leaves (proper item member) (short.2 item member)) stream
  | list element ih =>
    rw [reads.list]
    exact getItems_encode (pushBack_appends _) short.1 (fun item member =>
      ih leaves (proper item member) (short.2 item member)) stream
  | set element ih =>
    rw [reads.set]
    exact getItems_encode (insertItem_appends proper.1) short.1
      (fun item member =>
        ih leaves (proper.2 item member) (short.2 item member)) stream
  | map key value keyReads valueReads =>
    rw [reads.map]
    exact getMap_encode proper.1 short.1
      (fun item member => keyReads leaves.1 (proper.2 item member).1 (short.2 item member).1)
      (fun item member => valueReads leaves.2 (proper.2 item member).2
        (short.2 item member).2) stream
  | unorderedSet element ih =>
    rw [reads.unorderedSet]
    exact getItems_encode (insertItem_appends proper.1) short.1
      (fun item member =>
        ih leaves (proper.2 item member) (short.2 item member)) stream
  | unorderedMap key value keyReads valueReads =>
    rw [reads.unorderedMap]
    exact getMap_encode proper.1 short.1
      (fun item member => keyReads leaves.1 (proper.2 item member).1 (short.2 item member).1)
      (fun item member => valueReads leaves.2 (proper.2 item member).2
        (short.2 item member).2) stream

theorem items_short {element : WireType} {items : List (Value element)} {n : Nat}
    (each : ∀ {item : Value element}, (encode element item).length < 2 ^ 31 → Short element item)
    (bound : (encodeLength n ++ items.flatMap (encode element)).length < 2 ^ 31) :
    items.length < 2 ^ 31 ∧ ∀ item ∈ items, Short element item := by
  obtain ⟨few, lengths⟩ := short_items (length_encode_pos element) bound
  exact ⟨few, fun item member => each (lengths item member)⟩

theorem entries_short {items : List (Value key × Value value)} {n : Nat}
    (keys : ∀ {item : Value key}, (encode key item).length < 2 ^ 31 → Short key item)
    (values : ∀ {item : Value value}, (encode value item).length < 2 ^ 31 → Short value item)
    (bound : (encodeLength n ++ items.flatMap fun item =>
      encode key item.1 ++ encode value item.2).length < 2 ^ 31) :
    items.length < 2 ^ 31 ∧ ∀ item ∈ items, Short key item.1 ∧ Short value item.2 := by
  have positive (item : Value key × Value value) :
      0 < (encode key item.1 ++ encode value item.2).length := by
    have first := length_encode_pos key item.1
    rw [length_append]
    omega
  obtain ⟨few, lengths⟩ := short_items positive bound
  refine ⟨few, fun item member => ?_⟩
  have entry := lengths item member
  rw [length_append] at entry
  exact ⟨keys (by omega), values (by omega)⟩

theorem short_of_length {value : Value type} (bound : (encode type value).length < 2 ^ 31) :
    Short type value := by
  induction type with
  | scalar kind | v32 | v64 => trivial
  | string =>
    refine Nat.lt_of_le_of_lt ?_ bound
    exact (length_append ▸ Nat.le_add_left _ _ :
      _ ≤ (encodeLength _ ++ _).length)
  | pair first second firstShort secondShort =>
    have whole : (encode first value.1 ++ encode second value.2).length < 2 ^ 31 := bound
    rw [length_append] at whole
    exact ⟨firstShort (by omega), secondShort (by omega)⟩
  | vector element ih | list element ih | set element ih | unorderedSet element ih =>
    exact items_short ih bound
  | map key value keyShort valueShort | unorderedMap key value keyShort valueShort =>
    exact entries_short keyShort valueShort bound

end Values

section Reading

/-- `read` and `peek` of a marshal.  Nothing can be read behind the room of its
buffer. -/
def mbufSource : ByteSource (Pool × TransportMarshal) where
  read n state := do
    let id ← state.2.reqData
    let count := min n (dataRoom - state.2.offset)
    return ((state.1.mbuf id).data.load state.2.offset count, state.1,
      { state.2 with offset := state.2.offset + n })
  peek n state := do
    let id ← state.2.reqData
    let count := min n (dataRoom - state.2.offset)
    return (state.1.mbuf id).data.load state.2.offset count

variable {State : Type} (source : ByteSource State)

/-- `operator>>`.  Sparse integers are read as they lie in memory. -/
def get : (type : WireType) → Reader State (Value type)
  | .scalar kind => getWord source kind.size
  | .v32 => getWord source 4
  | .v64 => getWord source 8
  | .string => getString source
  | .pair first second => getEntry (get first) (get second)
  | .vector element => getVector source (get element)
  | .list element => getItems source (get element) pushBack
  | .set element => getItems source (get element) insertItem
  | .map key value =>
    getItems source (getEntry (get key) (get value)) insertIntoMap
  | .unorderedSet element => getItems source (get element) insertItem
  | .unorderedMap key value =>
    getItems source (getEntry (get key) (get value)) insertIntoMap

theorem get_readsContainers : ReadsContainers source (get source) := by
  constructor <;> intros <;> rfl

theorem marshal_get_readsContainers : ReadsContainers source (Marshalling.get source) := by
  constructor <;> intros <;> rfl

variable {source} {holds : State → List Byte → Prop}

theorem get_related {related : ∀ α : Type, Reader State α → Reader (List Byte) α → Prop}
    (respects : source.Respects related) (type : WireType) :
    related _ (get source type) (get ByteSource.list type) := by
  induction type with
  | scalar kind => exact getWord_related respects kind.size_pos
  | v32 => exact getWord_related respects (Nat.zero_lt_succ 3)
  | v64 => exact getWord_related respects (Nat.zero_lt_succ 7)
  | string => exact getString_related respects
  | pair first second firstRel secondRel =>
    exact getEntry_related respects firstRel secondRel
  | vector element ih => exact getVector_related respects ih
  | list element ih => exact getItems_related respects ih pushBack
  | set element ih | unorderedSet element ih => exact getItems_related respects ih insertItem
  | map key value keyRel valueRel | unorderedMap key value keyRel valueRel =>
    exact getItems_related respects (getEntry_related respects keyRel valueRel) insertIntoMap

theorem sparseLeaves_of_true {leaf32 leaf64 : Prop} (one : leaf32)
    (two : leaf64) (type : WireType) : SparseLeaves leaf32 leaf64 type := by
  induction type with
  | scalar kind | string => trivial
  | v32 => exact one
  | v64 => exact two
  | pair first second firstLeaves secondLeaves =>
    exact ⟨firstLeaves, secondLeaves⟩
  | vector element ih | list element ih | set element ih | unorderedSet element ih => exact ih
  | map key value keyLeaves valueLeaves => exact ⟨keyLeaves, valueLeaves⟩
  | unorderedMap key value keyLeaves valueLeaves =>
    exact ⟨keyLeaves, valueLeaves⟩

theorem get_encode {type : WireType} {value : Value type}
    (proper : Proper type value) (short : Short type value) (stream : List Byte) :
    get ByteSource.list type (encode type value ++ stream) = some (value, stream) :=
  read_encode (get_readsContainers _)
    (sparseLeaves_of_true (getWord_toBytes 4) (getWord_toBytes 8) type) proper short stream

/-- A marshal holds the bytes of its buffer from its place on. -/
def HoldsBytes (pool : Pool) (id : Nat) (state : Pool × TransportMarshal)
    (bytes : List Byte) : Prop :=
  state.1 = pool ∧ state.2.reqData = some id ∧
    bytes = (pool.mbuf id).data.load state.2.offset (dataRoom - state.2.offset)

theorem mbufSource_holds (pool : Pool) (id : Nat) : mbufSource.Holds (HoldsBytes pool id) where
  read := by
    rintro ⟨_, m⟩ _ ⟨rfl, buffer, rfl⟩ n
    have held : m.reqData = some id := buffer
    refine ⟨(_, { m with offset := m.offset + n }), ?_, rfl, buffer, ?_⟩
    · simp [mbufSource, held, ByteArea.take_load]
    · rw [ByteArea.drop_load, Nat.sub_sub]
  peek := by
    rintro ⟨_, m⟩ _ ⟨rfl, buffer, rfl⟩ n
    have held : m.reqData = some id := buffer
    simp [mbufSource, held, ByteArea.take_load]

end Reading

end TransportMarshal

end SRPC.Dpdk
