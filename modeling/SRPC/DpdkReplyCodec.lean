import SRPC.TransportCodec

/-!
# Results of DPDK servers

A server writes results with `operator<<` of `TransportMarshal`, and the proxy
reads them with `operator>>` of `Marshal`.  The two differ on sparse integers.
-/

namespace SRPC.Dpdk

open LittleEndian SparseInt Marshalling ByteSource List

namespace TransportMarshal

/-- There are no sparse integers in the type. -/
abbrev SparseFree : WireType → Prop := SparseLeaves False False

variable {type : WireType}

theorem SparseLeaves.mono {one one' two two' : Prop} (first : one → one') (second : two → two')
    (leaves : SparseLeaves one two type) : SparseLeaves one' two' type := by
  induction type with
  | scalar kind | string => trivial
  | v32 => exact first leaves
  | v64 => exact second leaves
  | pair one two oneLeaves twoLeaves =>
    exact ⟨oneLeaves leaves.1, twoLeaves leaves.2⟩
  | vector element ih | list element ih | set element ih | unorderedSet element ih =>
    exact ih leaves
  | map key value keyLeaves valueLeaves | unorderedMap key value keyLeaves valueLeaves =>
    exact ⟨keyLeaves leaves.1, valueLeaves leaves.2⟩

theorem marshal_get_encode (free : SparseFree type) {value : Value type}
    (proper : Proper type value) (short : Short type value) (stream : List Byte) :
    Marshalling.get ByteSource.list type (encode type value ++ stream) = some (value, stream) :=
  read_encode (marshal_get_readsContainers _) (free.mono False.elim False.elim) proper short stream

theorem exists_value (type : WireType) :
    ∃ value : Value type, Proper type value ∧ Short type value := by
  induction type with
  | scalar kind => exact ⟨0#(8 * kind.size), trivial, trivial⟩
  | v32 => exact ⟨0#32, trivial, trivial⟩
  | v64 => exact ⟨0#64, trivial, trivial⟩
  | string => exact ⟨([] : List Byte), trivial, Nat.two_pow_pos 31⟩
  | pair first second firstValue secondValue =>
    obtain ⟨x, properX, shortX⟩ := firstValue
    obtain ⟨y, properY, shortY⟩ := secondValue
    exact ⟨(x, y), ⟨properX, properY⟩, shortX, shortY⟩
  | vector element | list element | set element | unorderedSet element =>
    exact ⟨([] : List (Value element)), by simp [Proper], by simp [Short]⟩
  | map key value | unorderedMap key value =>
    exact ⟨([] : List (Value key × Value value)), by simp [Proper],
      by simp [Short]⟩

/-- A value whose encoding `operator>>` of `Marshal` does not accept. -/
def Refused (type : WireType) (value : Value type) : Prop :=
  Proper type value ∧ Short type value ∧ ∀ stream,
    Marshalling.get ByteSource.list type (encode type value ++ stream) = none

theorem refused_v32 : Refused .v32 (0xFFFFFFFF#32) := by
  refine ⟨trivial, trivial, fun stream => ?_⟩
  have bytes : encode .v32 (0xFFFFFFFF#32) = [0xFF#8, 0xFF#8, 0xFF#8, 0xFF#8] := by decide
  have size : ¬ bufSize 0xFF#8 ≤ 5 := by decide
  rw [bytes, Marshalling.get, getSparse_list]
  simp [readSparse, guard, size]
  rfl

theorem refused_v64 : Refused .v64 (0xFFFFFFFFFFFFFFFE#64) := by
  refine ⟨trivial, trivial, fun stream => ?_⟩
  have bytes : encode .v64 (0xFFFFFFFFFFFFFFFE#64) =
      [0xFE#8, 0xFF#8, 0xFF#8, 0xFF#8, 0xFF#8, 0xFF#8, 0xFF#8, 0xFF#8] := by
    decide
  have size : bufSize 0xFE#8 = 8 := by decide
  have failed : loadI64 [0xFE#8, 0xFF#8, 0xFF#8, 0xFF#8, 0xFF#8, 0xFF#8,
      0xFF#8, 0xFF#8] = none := by decide
  rw [bytes, Marshalling.get, getSparse_list]
  simp [readSparse, guard, size, failed]
  rfl

theorem bind_eq_none {α β : Type} {reader : Reader (List Byte) α}
    {next : α → Reader (List Byte) β} {bytes : List Byte}
    (failed : reader bytes = none ∨ ∃ value rest,
      reader bytes = some (value, rest) ∧ next value rest = none) :
    (reader >>= next) bytes = none := by
  show (reader bytes).bind (fun pair => next pair.1 pair.2) = none
  rcases failed with failed | ⟨value, rest, readEq, failed⟩
  · rw [failed]
    rfl
  · rw [readEq]
    exact failed

section Single

variable {α : Type} {body : Reader (List Byte) α} {encoding : List Byte}

theorem collect_single (insert : List α → α → List α)
    (refused : ∀ stream, body (encoding ++ stream) = none) (stream : List Byte) :
    collect body insert 1 [] (encoding ++ stream) = none := bind_eq_none (.inl (refused stream))

theorem getItems_single (insert : List α → α → List α)
    (refused : ∀ stream, body (encoding ++ stream) = none) (stream : List Byte) :
    getItems ByteSource.list body insert (encodeLength 1 ++ encoding ++ stream) = none := by
  rw [append_assoc]
  refine bind_eq_none (.inr ⟨_, _, getLength_encodeLength (by decide) _, ?_⟩)
  exact bind_eq_none (.inr ⟨1, _, lift_eq_some.mpr ⟨rfl, rfl⟩,
    collect_single insert refused stream⟩)

theorem getVector_single (refused : ∀ stream, body (encoding ++ stream) = none)
    (stream : List Byte) :
    getVector ByteSource.list body (encodeLength 1 ++ encoding ++ stream) = none := by
  rw [append_assoc]
  refine bind_eq_none (.inr ⟨_, _, getLength_encodeLength (by decide) _, ?_⟩)
  refine bind_eq_none (.inr ⟨(), _, lift_eq_some.mpr ⟨rfl, rfl⟩, ?_⟩)
  exact bind_eq_none (.inr ⟨1, _, lift_eq_some.mpr ⟨rfl, rfl⟩,
    collect_single pushBack refused stream⟩)

end Single

theorem exists_refused_pair {first second : WireType}
    (sparse : ¬ (SparseFree first ∧ SparseFree second))
    (firstRefused : ¬ SparseFree first → ∃ x, Refused first x)
    (secondRefused : ¬ SparseFree second → ∃ y, Refused second y) :
    ∃ x y, (Proper first x ∧ Proper second y) ∧
      (Short first x ∧ Short second y) ∧ ∀ stream, getEntry (Marshalling.get ByteSource.list first)
          (Marshalling.get ByteSource.list second)
          (encode first x ++ encode second y ++ stream) = none := by
  by_cases free : SparseFree first
  · obtain ⟨x, properX, shortX⟩ := exists_value first
    obtain ⟨y, properY, shortY, refused⟩ := secondRefused fun other => sparse ⟨free, other⟩
    refine ⟨x, y, ⟨properX, properY⟩, ⟨shortX, shortY⟩, fun stream => ?_⟩
    rw [append_assoc]
    exact bind_eq_none (.inr ⟨x, _, marshal_get_encode free properX shortX _,
      bind_eq_none (.inl (refused stream))⟩)
  · obtain ⟨x, properX, shortX, refused⟩ := firstRefused free
    obtain ⟨y, properY, shortY⟩ := exists_value second
    refine ⟨x, y, ⟨properX, properY⟩, ⟨shortX, shortY⟩, fun stream => ?_⟩
    rw [append_assoc]
    exact bind_eq_none (.inl (refused _))

theorem exists_refused (sparse : ¬ SparseFree type) : ∃ value, Refused type value := by
  have few : 1 < 2 ^ 31 := by decide
  induction type with
  | scalar kind | string => exact absurd trivial sparse
  | v32 => exact ⟨_, refused_v32⟩
  | v64 => exact ⟨_, refused_v64⟩
  | pair first second firstRefused secondRefused =>
    obtain ⟨x, y, proper, short, refused⟩ := exists_refused_pair sparse firstRefused secondRefused
    exact ⟨(x, y), proper, short, refused⟩
  | vector element ih =>
    obtain ⟨item, proper, short, refused⟩ := ih sparse
    refine ⟨([item] : List (Value element)), by simpa [Proper] using proper,
      ⟨few, by simpa using short⟩, fun stream => ?_⟩
    show getVector ByteSource.list _
      (encodeLength 1 ++ [item].flatMap (encode element) ++ stream) = none
    rw [flatMap_singleton]
    exact getVector_single refused stream
  | list element ih =>
    obtain ⟨item, proper, short, refused⟩ := ih sparse
    refine ⟨([item] : List (Value element)), by simpa [Proper] using proper,
      ⟨few, by simpa using short⟩, fun stream => ?_⟩
    show getItems ByteSource.list _ _
      (encodeLength 1 ++ [item].flatMap (encode element) ++ stream) = none
    rw [flatMap_singleton]
    exact getItems_single pushBack refused stream
  | set element ih | unorderedSet element ih =>
    obtain ⟨item, proper, short, refused⟩ := ih sparse
    refine ⟨([item] : List (Value element)), ⟨nodup_singleton _, by simpa using proper⟩,
      ⟨few, by simpa using short⟩, fun stream => ?_⟩
    show getItems ByteSource.list _ _
      (encodeLength 1 ++ [item].flatMap (encode element) ++ stream) = none
    rw [flatMap_singleton]
    exact getItems_single insertItem refused stream
  | map key value keyRefused valueRefused | unorderedMap key value keyRefused valueRefused =>
    obtain ⟨x, y, proper, short, refused⟩ := exists_refused_pair sparse keyRefused valueRefused
    refine ⟨([(x, y)] : List (Value key × Value value)), ⟨nodup_singleton _, by simpa using proper⟩,
      ⟨few, by simpa using short⟩, fun stream => ?_⟩
    show getItems ByteSource.list _ _ (encodeLength 1 ++
      [(x, y)].flatMap (fun item =>
        encode key item.1 ++ encode value item.2) ++ stream) = none
    rw [flatMap_singleton]
    exact getItems_single insertIntoMap refused stream

theorem marshal_get_content (type : WireType) {heap : Heap} {m : Marshal} (sound : Sound heap m) :
    match Marshalling.get ByteSource.list type (m.content heap) with
    | none => Marshalling.get marshalSource type (heap, m) = none
    | some (value, rest) => ∃ heap' m', Marshalling.get marshalSource type (heap, m) =
          some (value, heap', m') ∧ m'.content heap' = rest := by
  have simulated := Marshalling.get_simulates
    (marshalSource_holds heap m.toChain) type (heap, m) (m.content heap)
    ⟨sound, rfl, 0, Shrinks.refl sound.wellFormed⟩
  cases decoded : Marshalling.get ByteSource.list type (m.content heap) with
  | none =>
    rw [decoded] at simulated
    exact simulated
  | some pair =>
    rw [decoded] at simulated
    obtain ⟨⟨heap', m'⟩, readEq, _, rest, _⟩ := simulated
    exact ⟨heap', m', readEq, rest⟩

end TransportMarshal

open TransportMarshal

/-- `operator<<` of `TransportMarshal` writes the encoding of a value.  That
`operator>>` of `Marshal` brings back every value of a type from a marshal that
holds its encoding, and leaves what follows, is the case exactly for the types
without sparse integers. -/
theorem dpdk_reply_codec (type : WireType) :
    (∀ value, Writes (TransportMarshal.put type value) (TransportMarshal.encode type value)) ∧
    ((∀ value, Proper type value → Short type value → ∀ heap m stream, Sound heap m →
        m.content heap = TransportMarshal.encode type value ++ stream →
        ∃ heap' m', Marshalling.get marshalSource type (heap, m) =
            some (value, heap', m') ∧ m'.content heap' = stream) ↔
      SparseFree type) := by
  refine ⟨TransportMarshal.put_writes type, ?_, ?_⟩
  · intro agrees
    by_contra sparse
    obtain ⟨value, proper, short, refused⟩ := exists_refused sparse
    have nonempty : TransportMarshal.encode type value ≠ [] :=
      length_pos_iff.mp (length_encode_pos type value)
    obtain ⟨heap, m, -, sound, content⟩ := (Puts.bytes nonempty).content (sound_empty blankHeap)
    have held : m.content heap = TransportMarshal.encode type value ++ [] := by
      rw [content, append_nil]
      rfl
    obtain ⟨heap', m', readEq, -⟩ := agrees value proper short heap m [] sound held
    have failed : Marshalling.get marshalSource type (heap, m) = none := by
      have decoded := marshal_get_content type sound
      rwa [held, refused] at decoded
    rw [failed] at readEq
    cases readEq
  · intro free value proper short heap m stream sound held
    have decoded := marshal_get_content type sound
    rw [held, marshal_get_encode free proper short] at decoded
    exact decoded

/-- The four bytes of `64` are read as one byte, which stands for `-64`. -/
theorem dpdk_reply_loses_v32 :
    TransportMarshal.encode .v32 (64#32) = [0x40, 0, 0, 0] ∧
    ((putBytes (TransportMarshal.encode .v32 (64#32))
      (blankHeap, Marshal.empty)).bind fun written =>
        (getSparse marshalSource 5 loadI32 written.2).map fun result =>
          (result.1, result.2.2.content result.2.1)) =
      some (-64#32, [0, 0, 0]) := by
  decide

end SRPC.Dpdk
