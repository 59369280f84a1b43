import SRPC.PacketRoundTrip

/-!
# Decoding inside the packet

`operator>>` of `TransportMarshal` copies from its buffer without looking at
the length of the packet.  A packet is decoded from its own bytes exactly if the
same reader succeeds on these bytes alone.
-/

namespace SRPC.Dpdk

open LittleEndian Marshalling ByteSource List

/-- The memory from the beginning of a buffer on, the cursor, and the reads that
were made, with their offsets and lengths. -/
structure ReadCursor where
  area : ByteArea
  offset : BitVec 16
  reads : List (Nat × Nat)

namespace ReadCursor

/-- After `allot_buffer_x`. -/
def start (area : ByteArea) : ReadCursor := ⟨area, BitVec.ofNat 16 (dataOffset + 1), []⟩

/-- `read` and `peek`. -/
def source : ByteSource ReadCursor where
  read n cursor := some (cursor.area.load cursor.offset.toNat n,
    { cursor with
      offset := cursor.offset + BitVec.ofNat 16 n
      reads := cursor.reads ++ [(cursor.offset.toNat, n)] })
  peek n cursor := some (cursor.area.load cursor.offset.toNat n)

/-- The bytes of the packet behind the cursor. -/
def left (dataLen : Nat) (cursor : ReadCursor) : List Byte :=
  cursor.area.load cursor.offset.toNat (dataLen - cursor.offset.toNat)

/-- All reads were inside the packet. -/
def Within (dataLen : Nat) (cursor : ReadCursor) : Prop :=
  ∀ read ∈ cursor.reads, 0 < read.2 ∧ read.1 + read.2 ≤ dataLen

/-- Moreover the cursor has not wrapped and is not behind the packet. -/
structure Stays (dataLen : Nat) (cursor : ReadCursor) : Prop where
  within : cursor.Within dataLen
  straight : cursor.offset.toNat = dataOffset + 1 + (cursor.reads.map Prod.snd).sum
  before : cursor.reads = [] ∨ cursor.offset.toNat ≤ dataLen

theorem stays_start (area : ByteArea) (dataLen : Nat) : Stays dataLen (start area) where
  within := nofun
  straight := by
    show (BitVec.ofNat 16 (dataOffset + 1)).toNat = dataOffset + 1 + 0
    decide
  before := .inl rfl

theorem Stays.few {dataLen : Nat} {cursor : ReadCursor}
    (stays : Stays dataLen cursor) : cursor.reads.length ≤ dataLen := by
  rcases stays.before with none | ahead
  · rw [none]
    exact Nat.zero_le _
  · have lengths : cursor.reads.length ≤ (cursor.reads.map Prod.snd).sum := by
      rw [← length_map Prod.snd]
      refine length_le_sum_of_one_le _ fun length member => ?_
      obtain ⟨read, readMember, rfl⟩ := mem_map.mp member
      exact (stays.within read readMember).1
    have straight := stays.straight
    omega

theorem Within.of_append {dataLen : Nat} {cursor next : ReadCursor}
    {more : List (Nat × Nat)} (within : next.Within dataLen)
    (grows : next.reads = cursor.reads ++ more) : cursor.Within dataLen := by
  intro read member
  refine within read ?_
  rw [grows]
  exact mem_append_left _ member

end ReadCursor

open ReadCursor

/-- A reader takes from the buffer what another takes from the bytes of the
packet.  Where the other fails it fails as well or leaves the packet. -/
structure Follows (dataLen : BitVec 16) (α : Type)
    (reader : Reader ReadCursor α) (model : Reader (List Byte) α) : Prop where
  follows : ∀ {cursor value rest}, Stays dataLen.toNat cursor →
    model (cursor.left dataLen.toNat) = some (value, rest) →
      ∃ next, reader cursor = some (value, next) ∧ Stays dataLen.toNat next ∧
        next.left dataLen.toNat = rest
  leaves : ∀ {cursor value next}, Stays dataLen.toNat cursor →
    model (cursor.left dataLen.toNat) = none →
      reader cursor = some (value, next) → ¬ next.Within dataLen.toNat
  grows : ∀ {cursor value next}, reader cursor = some (value, next) →
    ∃ more, next.reads = cursor.reads ++ more

namespace Follows

variable {dataLen : BitVec 16} {α β : Type}

theorem pure (value : α) : Follows dataLen α (pure value) (pure value) where
  follows := by
    rintro cursor _ _ stays ⟨⟩
    exact ⟨cursor, rfl, stays, rfl⟩
  leaves := nofun
  grows := by
    rintro cursor _ _ ⟨⟩
    exact ⟨[], (append_nil _).symm⟩

theorem lift (result : Option α) : Follows dataLen α (StateT.lift result) (StateT.lift result) where
  follows := by
    intro cursor value rest stays taken
    obtain ⟨rfl, rfl⟩ := lift_eq_some.mp taken
    exact ⟨cursor, rfl, stays, rfl⟩
  leaves := by
    intro cursor value next stays failed taken
    obtain ⟨rfl, rfl⟩ := lift_eq_some.mp taken
    cases failed
  grows := by
    intro cursor value next taken
    obtain ⟨-, rfl⟩ := lift_eq_some.mp taken
    exact ⟨[], (append_nil _).symm⟩

theorem bind {reader : Reader ReadCursor α} {model : Reader (List Byte) α}
    {after : α → Reader ReadCursor β} {afterModel : α → Reader (List Byte) β}
    (first : Follows dataLen α reader model)
    (second : ∀ value, Follows dataLen β (after value) (afterModel value)) :
    Follows dataLen β (reader >>= after) (model >>= afterModel) where
  follows := by
    intro cursor result rest stays taken
    obtain ⟨value, middle, firstEq, secondEq⟩ := bind_eq_some.mp taken
    obtain ⟨next, readerEq, nextStays, leftEq⟩ := first.follows stays firstEq
    rw [← leftEq] at secondEq
    obtain ⟨last, afterEq, lastStays, restEq⟩ := (second value).follows nextStays secondEq
    exact ⟨last, bind_eq_some.mpr ⟨value, next, readerEq, afterEq⟩, lastStays, restEq⟩
  leaves := by
    intro cursor result last stays failed taken
    obtain ⟨value, next, readerEq, afterEq⟩ := bind_eq_some.mp taken
    cases modelEq : model (cursor.left dataLen.toNat) with
    | none =>
      obtain ⟨more, grown⟩ := (second value).grows afterEq
      intro within
      exact first.leaves stays modelEq readerEq (within.of_append grown)
    | some pair =>
      obtain ⟨other, rest⟩ := pair
      obtain ⟨next', sameEq, nextStays, leftEq⟩ :=
        first.follows stays modelEq
      rw [readerEq] at sameEq
      cases sameEq
      refine (second value).leaves nextStays ?_ afterEq
      change (model (cursor.left dataLen.toNat) >>=
        fun (value, rest) => afterModel value rest) = none at failed
      rw [modelEq] at failed
      rw [leftEq]
      exact failed
  grows := by
    intro cursor result last taken
    obtain ⟨value, next, readerEq, afterEq⟩ := bind_eq_some.mp taken
    obtain ⟨more, firstGrown⟩ := first.grows readerEq
    obtain ⟨others, secondGrown⟩ := (second value).grows afterEq
    exact ⟨more ++ others, by
      rw [secondGrown, firstGrown, append_assoc]⟩

theorem readExactly_source (cursor : ReadCursor) (n : Nat) :
    ReadCursor.source.readExactly n cursor =
      some (cursor.area.load cursor.offset.toNat n,
        { cursor with
          offset := cursor.offset + BitVec.ofNat 16 n
          reads := cursor.reads ++ [(cursor.offset.toNat, n)] }) := by
  simp only [ByteSource.readExactly, ReadCursor.source, some_bind, ByteArea.length_load, guard,
    if_true]
  rfl

theorem readExactly {n : Nat} (positive : 0 < n) :
    Follows dataLen (List Byte) (ReadCursor.source.readExactly n)
      (ByteSource.list.readExactly n) where
  follows := by
    intro cursor value rest stays taken
    obtain ⟨length, split⟩ := readExactly_list_eq_some.mp taken
    have enough : n ≤ dataLen.toNat - cursor.offset.toNat := by
      have total := congrArg List.length split
      rw [ReadCursor.left, ByteArea.length_load, length_append] at total
      omega
    have bound := dataLen.isLt
    have moved : (cursor.offset + BitVec.ofNat 16 n).toNat = cursor.offset.toNat + n := by
      rw [BitVec.toNat_add, BitVec.toNat_ofNat]
      omega
    have parts : cursor.left dataLen.toNat = cursor.area.load cursor.offset.toNat n ++
          cursor.area.load (cursor.offset.toNat + n)
            (dataLen.toNat - (cursor.offset.toNat + n)) := by
      rw [ReadCursor.left, ← ByteArea.load_add]
      congr 1
      omega
    obtain ⟨valueEq, restEq⟩ := append_inj (split.symm.trans parts)
      (by rw [length, ByteArea.length_load])
    rw [valueEq]
    refine ⟨_, readExactly_source cursor n, ⟨?_, ?_, .inr ?_⟩, ?_⟩
    · exact forall_mem_concat stays.within ⟨positive, by simp only; omega⟩
    · show (cursor.offset + BitVec.ofNat 16 n).toNat = _
      rw [moved, stays.straight, map_append, sum_append]
      exact Nat.add_assoc _ _ _
    · rw [moved]
      omega
    · rw [restEq, ReadCursor.left, moved]
  leaves := by
    intro cursor value next stays failed taken within
    rw [readExactly_source] at taken
    cases taken
    obtain ⟨-, inside⟩ := within (cursor.offset.toNat, n)
      (mem_append_right _ (mem_singleton.mpr rfl))
    have short : ¬ n ≤ (cursor.left dataLen.toNat).length := by
      intro enough
      rw [readExactly_list_eq_some.mpr ⟨length_take_of_le enough,
        (take_append_drop n _).symm⟩] at failed
      cases failed
    rw [ReadCursor.left, ByteArea.length_load] at short
    simp only at inside
    omega
  grows := by
    intro cursor value next taken
    rw [readExactly_source] at taken
    cases taken
    exact ⟨_, rfl⟩

theorem respects : ReadCursor.source.Respects (Follows dataLen) where
  pure := pure
  bind := bind
  lift := lift
  readExactly := readExactly

end Follows

/-- The bytes of the packet behind its type. -/
def packetBytes (area : ByteArea) (dataLen : BitVec 16) : List Byte :=
  area.load (dataOffset + 1) (dataLen.toNat - (dataOffset + 1))

/-- A request is decoded, from bytes of the packet only, in no more rounds than
the packet has bytes. -/
def DecodesInside (area : ByteArea) (dataLen : BitVec 16) (types : List WireType) : Prop :=
  ∃ request last, readRequest ReadCursor.source types (.start area) = some (request, last) ∧
    Stays dataLen.toNat last ∧ last.reads.length ≤ dataLen.toNat

/-- A packet is decoded from its own bytes exactly if its bytes alone can be
decoded, and then it gives what they give. -/
theorem decoding_stays_inside_iff (area : ByteArea) (dataLen : BitVec 16) (types : List WireType) :
    (DecodesInside area dataLen types ↔
      (readRequest ByteSource.list types (packetBytes area dataLen)).isSome) ∧
    ∀ request last, Stays dataLen.toNat last →
      readRequest ReadCursor.source types (.start area) = some (request, last) →
      ∃ rest, readRequest ByteSource.list types (packetBytes area dataLen) =
        some (request, rest) := by
  have reads : Follows dataLen _ (readRequest ReadCursor.source types)
      (readRequest ByteSource.list types) := readRequest_related Follows.respects types
  have starts := stays_start area dataLen.toNat
  have bytesEq : (ReadCursor.start area).left dataLen.toNat = packetBytes area dataLen := rfl
  have agrees : ∀ request last, Stays dataLen.toNat last →
      readRequest ReadCursor.source types (.start area) = some (request, last) →
      ∃ rest, readRequest ByteSource.list types (packetBytes area dataLen) =
        some (request, rest) := by
    intro request last stays taken
    cases modelEq : readRequest ByteSource.list types (packetBytes area dataLen) with
    | none => exact absurd stays.within (reads.leaves starts modelEq taken)
    | some pair =>
      obtain ⟨other, rest⟩ := pair
      obtain ⟨next, sameEq, -⟩ := reads.follows starts modelEq
      rw [taken] at sameEq
      cases sameEq
      exact ⟨rest, rfl⟩
  refine ⟨⟨?_, ?_⟩, agrees⟩
  · rintro ⟨request, last, taken, stays, -⟩
    obtain ⟨rest, modelEq⟩ := agrees request last stays taken
    rw [modelEq]
    rfl
  · intro decodes
    obtain ⟨⟨request, rest⟩, modelEq⟩ := Option.isSome_iff_exists.mp decodes
    obtain ⟨last, taken, stays, -⟩ := reads.follows starts modelEq
    exact ⟨request, last, taken, stays, stays.few⟩

def lengthPacket (length : BitVec 64) : ByteArea :=
  ByteArea.store (fun _ => 0) 59 (toBytes 8 length)

/-- A string of 100 bytes and a list of 3 words are read from what lies behind
the packet, and a string of `-1` bytes throws. -/
theorem announced_length_leaves_packet :
    (readRequest ReadCursor.source [.string]
      (.start (lengthPacket 100))).map (fun result => result.2.reads) =
        some [(43, 4), (47, 8), (55, 4), (59, 8), (67, 100)] ∧
    (readRequest ReadCursor.source [.list (.scalar .i32)]
      (.start (lengthPacket 3))).map (fun result => result.2.reads) =
        some [(43, 4), (47, 8), (55, 4), (59, 8), (67, 4), (71, 4), (75, 4)] ∧
    (readRequest ReadCursor.source [.string] (.start (lengthPacket (-1)))).isNone ∧
    ¬ DecodesInside (lengthPacket 100) 67 [.string] := by
  have beyond : (readRequest ReadCursor.source [.string]
      (.start (lengthPacket 100))).map (fun result => result.2.reads) =
        some [(43, 4), (47, 8), (55, 4), (59, 8), (67, 100)] := by
    decide +kernel
  refine ⟨beyond, by decide +kernel, by decide +kernel, ?_⟩
  rintro ⟨request, last, taken, stays, -⟩
  rw [taken] at beyond
  have reads : last.reads = _ := Option.some.inj beyond
  have outside := stays.within (67, 100) (by rw [reads]; decide)
  exact absurd outside.2 (by decide)

end SRPC.Dpdk
