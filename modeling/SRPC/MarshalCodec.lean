import SRPC.MarshalOperations
import SRPC.SparseIntRoundTrip
import SRPC.WireTypes

/-!
# Stream operators as byte codecs

On a sound marshal `operator<<` appends the encoding of the value, and
`operator>>` does what it does on the list of the bytes the marshal holds.
-/

namespace SRPC.Marshalling

open LittleEndian SparseInt ByteSource

/-- Lengths are written as `v64`. -/
def encodeLength (length : Nat) : List Byte := writeV64 (BitVec.ofNat 64 length)

/-- The bytes `operator<<` writes. -/
def encode : (type : WireType) → Value type → List Byte
  | .scalar kind, value => toBytes kind.size value
  | .v32, value => writeV32 value
  | .v64, value => writeV64 value
  | .string, (value : List Byte) => encodeLength value.length ++ value
  | .pair first second, (x, y) => encode first x ++ encode second y
  | .vector element, (items : List (Value element))
  | .list element, (items : List (Value element)) | .set element, (items : List (Value element))
  | .unorderedSet element, (items : List (Value element)) =>
    encodeLength items.length ++ items.flatMap (encode element)
  | .map key value, (items : List (Value key × Value value))
  | .unorderedMap key value, (items : List (Value key × Value value)) =>
    encodeLength items.length ++ items.flatMap fun item => encode key item.1 ++ encode value item.2

/-- An action that appends bytes to every sound marshal and counts them. -/
def Puts (action : StateT (Heap × Marshal) Option Unit) (bytes : List Byte) : Prop :=
  ∀ heap m, Sound heap m → ∃ heap' m' added,
    action (heap, m) = some ((), heap', m') ∧ Sound heap' m' ∧
      Grows heap m.toChain added heap' m'.toChain ∧
        added.map heap'.byte = bytes ∧ m'.writeCnt = m.writeCnt + BitVec.ofNat 32 bytes.length

namespace Puts

variable {first second : StateT (Heap × Marshal) Option Unit} {before after : List Byte}

theorem nothing : Puts (pure ()) [] :=
  fun heap m sound => ⟨heap, m, [], rfl, sound, Grows.refl sound.wellFormed,
    rfl, (BitVec.add_zero m.writeCnt).symm⟩

theorem bytes {content : List Byte} (nonempty : content ≠ []) :
    Puts (putBytes content) content := by
  intro heap m sound
  obtain ⟨heap', m', added, wrote, sound', grows, held, counted⟩ := sound.write_eq nonempty
  refine ⟨heap', m', added, ?_, sound', grows, held, counted⟩
  simp [putBytes, wrote]

theorem andThen (one : Puts first before) (two : Puts second after) :
    Puts (first >>= fun _ => second) (before ++ after) := by
  intro heap m sound
  obtain ⟨heap₁, m₁, added₁, firstEq, sound₁, grows₁, held₁, counted₁⟩ := one heap m sound
  obtain ⟨heap₂, m₂, added₂, secondEq, sound₂, grows₂, held₂, counted₂⟩ := two heap₁ m₁ sound₁
  refine ⟨heap₂, m₂, added₁ ++ added₂, ?_, sound₂, grows₁.trans grows₂, ?_, ?_⟩
  · show (first (heap, m) >>= fun result => second result.2) = _
    rw [firstEq]
    exact secondEq
  · rw [List.map_append, grows₁.map_byte grows₂, held₁, held₂]
  · rw [counted₂, counted₁, List.length_append, BitVec.ofNat_add, BitVec.add_assoc]

theorem content (puts : Puts first before) {heap : Heap} {m : Marshal} (sound : Sound heap m) :
    ∃ heap' m', first (heap, m) = some ((), heap', m') ∧ Sound heap' m' ∧
      m'.content heap' = m.content heap ++ before := by
  obtain ⟨heap', m', added, firstEq, sound', grows, held, _⟩ := puts heap m sound
  refine ⟨heap', m', firstEq, sound', ?_⟩
  rw [grows.content sound.wellFormed, held]

theorem forM {α : Type} {action : α → StateT (Heap × Marshal) Option Unit}
    {encoding : α → List Byte} (items : List α)
    (each : ∀ item, Puts (action item) (encoding item)) :
    Puts (items.forM action) (items.flatMap encoding) := by
  induction items with
  | nil => exact nothing
  | cons item items ih => exact (each item).andThen ih

theorem length (n : Nat) : Puts (putLength n) (encodeLength n) := bytes (writeV64_ne_nil _)

theorem items {α : Type} {putItem : α → StateT (Heap × Marshal) Option Unit}
    {encoding : α → List Byte} (contents : List α)
    (each : ∀ item, Puts (putItem item) (encoding item)) :
    Puts (putItems putItem contents) (encodeLength contents.length ++ contents.flatMap encoding) :=
  (length contents.length).andThen (forM contents each)

end Puts

theorem Scalar.size_pos (kind : Scalar) : 0 < kind.size := by
  cases kind <;> decide

/-- `operator<<` appends the encoding. -/
theorem put_puts (type : WireType) (value : Value type) :
    Puts (put type value) (encode type value) := by
  induction type with
  | scalar kind => exact Puts.bytes (toBytes_ne_nil kind.size_pos _)
  | v32 => exact Puts.bytes (writeV32_ne_nil value)
  | v64 => exact Puts.bytes (writeV64_ne_nil value)
  | string =>
    refine (Puts.length (List.length (α := Byte) value)).andThen ?_
    by_cases empty : 0 < List.length (α := Byte) value
    · rw [if_pos empty]
      exact Puts.bytes (List.length_pos_iff.mp empty)
    · rw [if_neg empty]
      have none : value = ([] : List Byte) := List.length_eq_zero_iff.mp (by omega)
      rw [none]
      exact Puts.nothing
  | pair first second firstPuts secondPuts =>
    exact (firstPuts value.1).andThen (secondPuts value.2)
  | vector element ih | list element ih | set element ih | unorderedSet element ih =>
    exact Puts.items value ih
  | map key value keyPuts valuePuts | unorderedMap key value keyPuts valuePuts =>
    exact Puts.items _ fun item =>
      (keyPuts item.1).andThen (valuePuts item.2)

section Source

variable {State : Type} {source : ByteSource State} {holds : State → List Byte → Prop}

theorem getSparse_simulates (held : source.Holds holds) {w : Nat}
    (capacity : Nat) (loadInt : List Byte → Option (BitVec w)) :
    Simulates holds (getSparse source capacity loadInt)
      (getSparse ByteSource.list capacity loadInt) :=
  (Simulates.peekByte held).bind fun _ =>
    (Simulates.lift _).bind fun _ =>
      (Simulates.readExactly held _).bind fun _ => Simulates.lift _

section Related

variable {related : ∀ α : Type, Reader State α → Reader (List Byte) α → Prop}
  (respects : source.Respects related)

include respects

theorem getWord_related {size : Nat} (positive : 0 < size) :
    related _ (getWord source size) (getWord ByteSource.list size) :=
  respects.bind (respects.readExactly positive) fun _ => respects.pure _

theorem getLength_related : related _ (getLength source) (getLength ByteSource.list) :=
  respects.bind (getWord_related respects (by decide)) fun _ =>
    respects.pure _

theorem getString_related : related _ (getString source) (getString ByteSource.list) := by
  refine respects.bind (getLength_related respects) fun length =>
    respects.bind (respects.lift _) fun _ => ?_
  by_cases positive : 0 < length
  · rw [if_pos positive, if_pos positive]
    exact respects.readExactly (by omega)
  · rw [if_neg positive, if_neg positive]
    exact respects.pure _

variable {α β : Type} {getItem : Reader State α} {model : Reader (List Byte) α}
  (item : related α getItem model)

include item

theorem getEntry_related {getValue : Reader State β} {valueModel : Reader (List Byte) β}
    (value : related β getValue valueModel) :
    related _ (getEntry getItem getValue) (getEntry model valueModel) :=
  respects.bind item fun _ => respects.bind value fun _ => respects.pure _

theorem getVector_related :
    related _ (getVector source getItem) (getVector ByteSource.list model) :=
  respects.bind (getLength_related respects) fun _ =>
    respects.bind (respects.lift _) fun _ =>
      respects.bind (respects.lift _) fun _ => respects.collect item _ _ _

theorem getItems_related (insert : List α → α → List α) :
    related _ (getItems source getItem insert) (getItems ByteSource.list model insert) :=
  respects.bind (getLength_related respects) fun _ =>
    respects.bind (respects.lift _) fun _ => respects.collect item _ _ _

end Related

/-- `operator>>` does what it does on a list of bytes. -/
theorem get_simulates (held : source.Holds holds) (type : WireType) :
    Simulates holds (get source type) (get ByteSource.list type) := by
  have respects := Simulates.respects held
  induction type with
  | scalar kind => exact getWord_related respects kind.size_pos
  | v32 => exact getSparse_simulates held 5 loadI32
  | v64 => exact getSparse_simulates held 9 loadI64
  | string => exact getString_related respects
  | pair first second firstSim secondSim =>
    exact getEntry_related respects firstSim secondSim
  | vector element ih => exact getVector_related respects ih
  | list element ih => exact getItems_related respects ih pushBack
  | set element ih | unorderedSet element ih => exact getItems_related respects ih insertItem
  | map key value keySim valueSim | unorderedMap key value keySim valueSim =>
    exact getItems_related respects (getEntry_related respects keySim valueSim) insertIntoMap

end Source

theorem marshalSource_holds (start : Heap) (origin : Chain) :
    marshalSource.Holds fun state bytes =>
      Sound state.1 state.2 ∧ state.2.content state.1 = bytes ∧
        ∃ count, Shrinks start origin count state.1 state.2.toChain where
  read := by
    rintro ⟨heap, m⟩ bytes ⟨sound, rfl, count, dropped⟩ n
    obtain ⟨heap', m', readEq, sound', shrinks, _⟩ := sound.read_eq n
    refine ⟨(heap', m'), ?_, sound', shrinks.content, count + n, dropped.trans shrinks⟩
    simp [marshalSource, readEq]
  peek := by
    rintro ⟨heap, m⟩ bytes ⟨sound, rfl, _⟩ n
    exact sound.peek_eq n

end SRPC.Marshalling
