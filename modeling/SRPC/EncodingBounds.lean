import SRPC.FormatHeader
import SRPC.PacketCursor
import SRPC.TransportCodec

/-!
# Encoding inside the buffer

A sequence of operations on a marshal stays in the room of its buffer and leaves
consistent length fields exactly if every operation has room.
-/

namespace SRPC.Dpdk

open LittleEndian Marshalling TransportMarshal List

/-- The length fields behind `format_header`. -/
structure Lengths (base : ByteArea) (cursor : Cursor) (layout : Layout) : Prop where
  size : (cursor.area base).load layout.markOffset 4 =
    toBytes 4 (BitVec.ofNat 32 (layout.total - layout.markLen))
  dataLen : cursor.dataLen.toNat = layout.offset
  pktLen : cursor.pktLen.toNat = layout.offset
  totalLength : (cursor.area base).load (ipHdrOffset + 2) 2 =
    lengthField (layout.offset - ipHdrOffset)
  dgramLen : (cursor.area base).load (udpHdrOffset + 4) 2 =
    lengthField (layout.offset - udpHdrOffset)

/-- Nothing was written behind the room, and the cursor is where it is meant to
be. -/
structure Kept (cursor : Cursor) (layout : Layout) : Prop where
  inside : ∀ field ∈ cursor.stores, Inside field
  offset : cursor.offset.toNat = layout.offset

/-- So it is in every state, and the length fields are consistent whenever they
were filled in. -/
def StaysInside (base : ByteArea) :
    Cursor → Layout → List Operation → Prop
  | cursor, layout, [] => Kept cursor layout
  | cursor, layout, operation :: operations =>
    Kept cursor layout ∧
    (operation = .formatHeader → Lengths base (cursor.step operation) (layout.step operation)) ∧
    StaysInside base (cursor.step operation) (layout.step operation) operations

theorem StaysInside.kept {base : ByteArea} {cursor : Cursor} {layout : Layout}
    {operations : List Operation} (stays : StaysInside base cursor layout operations) :
    Kept cursor layout := by
  cases operations with
  | nil => exact stays
  | cons operation operations => exact stays.1

/-- The cursor and its bookmark are where the layout has them. -/
structure Tracks (cursor : Cursor) (layout : Layout) : Prop extends Kept cursor layout where
  markOffset : cursor.bookMarkOffset.toNat = layout.markOffset
  markLen : cursor.bookMarkLen.toNat = layout.markLen
  reserved : layout.markLen ≤ layout.total
  apart : layout.markOffset = 0 ∨ dataOffset < layout.markOffset

theorem tracks_fresh : Tracks .fresh .fresh where
  inside := by decide
  offset := by decide
  markOffset := rfl
  markLen := rfl
  reserved := Nat.le_refl 0
  apart := .inl rfl

section Steps

variable {base : ByteArea} {cursor : Cursor} {layout : Layout}

theorem area_append (base : ByteArea) (cursor : Cursor) (fields : List Field)
    {others : Cursor} (same : others.stores = cursor.stores ++ fields) :
    others.area base = fields.foldl
      (fun area field => area.store field.1 field.2) (cursor.area base) := by
  rw [Cursor.area, same, foldl_append]
  rfl

section

variable (tracks : Tracks cursor layout)

include tracks

theorem Tracks.put {argument : Argument} (fits : layout.Fits (.put argument)) :
    Tracks (cursor.step (.put argument)) (layout.step (.put argument)) := by
  obtain ⟨pieces, putEq, stored, -⟩ := Cursor.put_emits argument cursor
  have room : cursor.offset.toNat + (encodeArgument argument).length ≤ dataRoom := by
    rw [tracks.offset]
    exact fits
  have stepEq : cursor.step (.put argument) = _ := congrArg Prod.snd putEq
  rw [stepEq]
  refine ⟨⟨?_, ?_⟩, tracks.markOffset, tracks.markLen,
    Nat.le_trans tracks.reserved (Nat.le_add_right _ _), tracks.apart⟩
  · intro field member
    exact (mem_append.mp member).elim (tracks.inside field) ((stored room).1 field)
  · show (cursor.offset + _).toNat = dataOffset + 1 + (layout.total + _)
    rw [toNat_add_ofNat room, tracks.offset, Layout.offset]
    omega

theorem Tracks.setBookMark {n : BitVec 16} (fits : layout.Fits (.setBookMark n)) :
    Tracks (cursor.step (.setBookMark n)) (layout.step (.setBookMark n)) := by
  refine ⟨⟨tracks.inside, ?_⟩, tracks.offset, rfl, Nat.le_add_left _ _, .inr ?_⟩
  · show (cursor.offset + n).toNat = dataOffset + 1 + (layout.total + n.toNat)
    have room : layout.offset + n.toNat < 2 ^ 16 := fits
    rw [BitVec.toNat_add, tracks.offset, Nat.mod_eq_of_lt room, Layout.offset]
    omega
  · show dataOffset < dataOffset + 1 + layout.total
    omega

theorem Tracks.padding : Tracks cursor.padding (layout.step .formatHeader) := by
  have offsetEq := tracks.offset
  rw [Layout.offset] at offsetEq
  rw [Cursor.padding]
  split
  · rename_i short
    refine ⟨⟨?_, ?_⟩, tracks.markOffset, tracks.markLen,
      Nat.le_trans tracks.reserved (Nat.le_add_right _ _), tracks.apart⟩
    · refine forall_mem_concat tracks.inside ?_
      rw [Inside, length_replicate, dataRoom]
      omega
    · show 64 = dataOffset + 1 + (layout.total + (64 - layout.offset))
      rw [Layout.offset]
      omega
  · have none : 64 - layout.offset = 0 := by
      rw [← tracks.offset]
      omega
    refine ⟨⟨tracks.inside, ?_⟩, tracks.markOffset, tracks.markLen,
      Nat.le_trans tracks.reserved (Nat.le_add_right _ _), tracks.apart⟩
    show _ = dataOffset + 1 + (layout.total + (64 - layout.offset))
    rw [none]
    exact tracks.offset

theorem inside_headerStores :
    (∀ field ∈ cursor.headerStores, Inside field) ↔
      layout.markOffset + 4 ≤ dataRoom := by
  have ip : Inside (ipHdrOffset + 2, lengthField (cursor.offset.toNat - ipHdrOffset)) := by
    rw [Inside, length_lengthField]
    show ipHdrOffset + 2 + 2 ≤ dataRoom
    decide
  have udp : Inside (udpHdrOffset + 4, lengthField (cursor.offset.toNat - udpHdrOffset)) := by
    rw [Inside, length_lengthField]
    show udpHdrOffset + 4 + 2 ≤ dataRoom
    decide
  simp only [Cursor.headerStores, forall_mem_cons, not_mem_nil,
    false_imp_iff, implies_true, ip, udp, and_true]
  rw [Inside, length_toBytes, tracks.markOffset]

theorem Tracks.formatHeader (fits : layout.Fits .formatHeader) :
    Tracks (cursor.step .formatHeader) (layout.step .formatHeader) := by
  have padded := tracks.padding
  refine ⟨⟨?_, padded.offset⟩, padded.markOffset, padded.markLen, padded.reserved, padded.apart⟩
  intro field member
  exact (mem_append.mp member).elim (padded.inside field)
    ((inside_headerStores padded).mpr fits field)

theorem Tracks.contentSize_eq :
    cursor.contentSize = BitVec.ofNat 32 (layout.total - layout.markLen) := by
  have reserved := tracks.reserved
  have content : ((cursor.offset.toNat : Int) - dataOffset - cursor.bookMarkLen.toNat - 1) =
      ((layout.total - layout.markLen : Nat) : Int) := by
    rw [tracks.offset, tracks.markLen, Layout.offset]
    omega
  rw [Cursor.contentSize, content, BitVec.ofInt_natCast]

theorem Tracks.lengths : Lengths base (cursor.step .formatHeader) (layout.step .formatHeader) := by
  have padded := tracks.padding
  have apart := padded.apart
  have offsetEq := padded.offset
  have areaEq : (cursor.step .formatHeader).area base = _ :=
    area_append base cursor.padding cursor.padding.headerStores rfl
  rw [dataOffset] at apart
  refine ⟨?_, offsetEq, ?_, ?_, ?_⟩
  · have loaded := load_foldl_store_field (show cursor.padding.headerStores[0]? = some _ from rfl)
      (by
        rw [length_toBytes, padded.markOffset]
        simp only [Cursor.headerStores, drop_succ_cons, drop_zero,
          forall_mem_cons, length_lengthField, ipHdrOffset, udpHdrOffset]
        refine ⟨by omega, by omega, forall_mem_nil _⟩)
      (cursor.padding.area base)
    rw [length_toBytes, padded.markOffset, padded.contentSize_eq] at loaded
    rw [areaEq]
    exact loaded
  · show (cursor.padding.offset.setWidth 32).toNat = _
    rw [BitVec.toNat_setWidth, offsetEq]
    have bound := cursor.padding.offset.isLt
    omega
  · have loaded := load_foldl_store_field (show cursor.padding.headerStores[1]? = some _ from rfl)
      (by
        rw [length_lengthField]
        simp only [Cursor.headerStores, drop_succ_cons, drop_zero,
          forall_mem_cons, length_lengthField, ipHdrOffset, udpHdrOffset]
        refine ⟨by omega, forall_mem_nil _⟩)
      (cursor.padding.area base)
    rw [length_lengthField, offsetEq] at loaded
    rw [areaEq]
    exact loaded
  · have loaded := load_foldl_store_field (show cursor.padding.headerStores[2]? = some _ from rfl)
      (forall_mem_nil _) (cursor.padding.area base)
    rw [length_lengthField, offsetEq] at loaded
    rw [areaEq]
    exact loaded

end

variable {operation : Operation}

theorem Tracks.step (tracks : Tracks cursor layout) (fits : layout.Fits operation) :
    Tracks (cursor.step operation) (layout.step operation) := by
  cases operation with
  | put argument => exact tracks.put fits
  | setBookMark n => exact tracks.setBookMark fits
  | formatHeader => exact tracks.formatHeader fits

theorem Tracks.fits_of_kept (tracks : Tracks cursor layout)
    (kept : Kept (cursor.step operation) (layout.step operation)) : layout.Fits operation := by
  cases operation with
  | put argument =>
    obtain ⟨pieces, putEq, -, leaves⟩ := Cursor.put_emits argument cursor
    have stepEq : cursor.step (.put argument) = _ := congrArg Prod.snd putEq
    have inside := kept.inside
    rw [stepEq] at inside
    have positive : 0 < (encodeArgument argument).length :=
      length_encode_pos argument.type argument.value
    rcases leaves fun piece member =>
      inside piece (mem_append_right _ member) with empty | room
    · rw [empty] at positive
      exact absurd positive (Nat.lt_irrefl 0)
    · rw [tracks.offset] at room
      exact room
  | setBookMark n =>
    have offset := kept.offset
    have bound := (cursor.offset + n).isLt
    change (cursor.offset + n).toNat = dataOffset + 1 + (layout.total + n.toNat) at offset
    show dataOffset + 1 + layout.total + n.toNat < 2 ^ 16
    omega
  | formatHeader =>
    exact (inside_headerStores tracks.padding).mp fun field member =>
      kept.inside field (mem_append_right _ member)

theorem Tracks.staysInside_iff (tracks : Tracks cursor layout) (operations : List Operation) :
    StaysInside base cursor layout operations ↔ layout.FitsAll operations := by
  induction operations generalizing cursor layout with
  | nil => exact iff_of_true tracks.toKept trivial
  | cons operation operations ih =>
    constructor
    · rintro ⟨-, -, stays⟩
      have fits := tracks.fits_of_kept stays.kept
      exact ⟨fits, (ih (tracks.step fits)).mp stays⟩
    · rintro ⟨fits, rest⟩
      refine ⟨tracks.toKept, ?_, (ih (tracks.step fits)).mpr rest⟩
      rintro rfl
      exact tracks.lengths

end Steps

/-- Encoding into a fresh buffer stays inside it exactly if every operation has
room. -/
theorem encoding_stays_inside_iff (base : ByteArea) (operations : List Operation) :
    StaysInside base .fresh .fresh operations ↔
      Layout.fresh.FitsAll operations := tracks_fresh.staysInside_iff operations

def stringArgument (n : Nat) : Argument := ⟨.string, (List.replicate n 0 : List Byte)⟩

theorem step_stringArgument (cursor : Cursor) (n : Nat) :
    (cursor.step (.put (stringArgument n))).offset = cursor.offset + BitVec.ofNat 16 (8 + n) := by
  obtain ⟨_, putEq, -⟩ := Cursor.put_emits (stringArgument n) cursor
  have length : (encodeArgument (stringArgument n)).length = 8 + n := by
    show (TransportMarshal.encodeLength (List.replicate n (0 : Byte)).length ++
      List.replicate n 0).length = 8 + n
    rw [length_append, length_replicate, TransportMarshal.encodeLength, length_toBytes]
  show (Cursor.put (stringArgument n) cursor).2.offset = _
  rw [putEq, length]

variable {n : Nat}

theorem mem_stores_stringArgument (cursor : Cursor) (positive : 0 < n) :
    ((cursor.offset + 8).toNat, List.replicate n 0) ∈
      (cursor.step (.put (stringArgument n))).stores := by
  have written : 0 < (List.replicate n (0 : Byte)).length := by
    rw [length_replicate]
    exact positive
  show _ ∈ Cursor.stores (((Cursor.write
    (TransportMarshal.encodeLength (List.replicate n (0 : Byte)).length)) >>=
      fun _ => if 0 < (List.replicate n (0 : Byte)).length then
        Cursor.write (List.replicate n 0) else pure ()) cursor).2
  rw [if_pos written]
  exact mem_append_right _ (mem_singleton.mpr rfl)

def sized : Cursor := Cursor.fresh.step (.setBookMark 4)

theorem stringArgument_leaves (long : dataRoom < 55 + n) :
    (∃ field ∈ (sized.step (.put (stringArgument n))).stores, field.1 + field.2.length = 55 + n) ∧
    ¬ StaysInside (fun _ => 0) .fresh .fresh [.setBookMark 4, .put (stringArgument n)] := by
  have member := mem_stores_stringArgument sized (show 0 < n by rw [dataRoom] at long; omega)
  refine ⟨⟨_, member, by rw [length_replicate]; rfl⟩, ?_⟩
  rintro ⟨-, -, -, -, kept⟩
  have inside := kept.inside _ member
  rw [Inside, length_replicate] at inside
  exact absurd inside (Nat.not_le_of_lt long)

theorem stringArgument_wraps (whole : BitVec.ofNat 16 (8 + n) = 0#16) :
    (sized.step (.put (stringArgument n))).offset = sized.offset ∧
    ((sized.step (.put (stringArgument n))).step .formatHeader).dataLen = 64 := by
  have back : (sized.step (.put (stringArgument n))).offset = sized.offset := by
    rw [step_stringArgument, whole, BitVec.add_zero]
  refine ⟨back, ?_⟩
  have short : (sized.step (.put (stringArgument n))).offset.toNat < 64 := by
    rw [back]
    decide
  show (Cursor.padding _).offset = 64
  rw [Cursor.padding, if_pos short]

/-- A string of 2100 bytes is written 107 bytes beyond the room.  One of 65528
bytes brings the cursor back to where it was, and `format_header` makes a packet
of 64 bytes of it. -/
theorem long_string_leaves_buffer :
    ((∃ field ∈ (sized.step (.put (stringArgument 2100))).stores,
        field.1 + field.2.length = 55 + 2100) ∧
      ¬ StaysInside (fun _ => 0) .fresh .fresh [.setBookMark 4, .put (stringArgument 2100)]) ∧
    (sized.step (.put (stringArgument 65528))).offset = sized.offset ∧
    ((sized.step (.put (stringArgument 65528))).step .formatHeader).dataLen = 64 :=
  ⟨stringArgument_leaves (by decide), stringArgument_wraps (by decide)⟩

section Checked

variable {base : ByteArea} {cursor : Cursor} {layout : Layout} {pool : Pool}
  {m : TransportMarshal} {id : Nat}

/-- The operation on a marshal that fails where the room ends. -/
def Operation.action : Operation → Action
  | .put argument => putArgument argument
  | .setBookMark n => TransportMarshal.setBookMark n.toNat
  | .formatHeader => TransportMarshal.formatHeader

/-- The two marshals are at the same place of the same bytes. -/
structure Agrees (base : ByteArea) (cursor : Cursor) (pool : Pool) (id : Nat)
    (m : TransportMarshal) : Prop where
  buffer : m.reqData = some id
  offset : m.offset = cursor.offset.toNat
  bookMarkOffset : m.bookMarkOffset = cursor.bookMarkOffset.toNat
  bookMarkLen : m.bookMarkLen = cursor.bookMarkLen.toNat
  data : (pool.mbuf id).data = cursor.area base

theorem agrees_allotBuffer (pool : Pool) (id : Nat) (m : TransportMarshal) :
    ∃ pool' m', allotBuffer id (pool, m) = some ((), pool', m') ∧
      Agrees (pool.mbuf id).data .fresh pool' id m' :=
  ⟨_, _, allotBuffer_eq id, rfl, rfl, rfl, rfl, Pool.data_store _ _ _ _⟩

section

variable (agrees : Agrees base cursor pool id m)

include agrees

theorem Agrees.put (tracks : Tracks cursor layout) {argument : Argument}
    (fits : layout.Fits (.put argument)) :
    ∃ pool' m', putArgument argument (pool, m) = some ((), pool', m') ∧
      Agrees base (cursor.step (.put argument)) pool' id m' := by
  obtain ⟨pieces, putEq, stored, -⟩ := Cursor.put_emits argument cursor
  have stepEq : cursor.step (.put argument) = _ := congrArg Prod.snd putEq
  have room : cursor.offset.toNat + (encodeArgument argument).length ≤ dataRoom := by
    rw [tracks.offset]
    exact fits
  have wrote : putArgument argument (pool, m) =
      TransportMarshal.write (encodeArgument argument) (pool, m) :=
    put_writes argument.type argument.value pool m id agrees.buffer (by rw [agrees.offset]; omega)
  rw [write_eq agrees.buffer, agrees.offset] at wrote
  refine ⟨_, _, wrote.trans (if_pos room), ?_⟩
  rw [stepEq]
  refine ⟨agrees.buffer, (toNat_add_ofNat room).symm, agrees.bookMarkOffset, agrees.bookMarkLen, ?_⟩
  rw [Pool.data_store, agrees.data, ← (stored room).2]
  exact (area_append base cursor pieces rfl).symm

theorem Agrees.padded :
    m.padded.offset = cursor.padding.offset.toNat ∧
      m.padArea (cursor.area base) = cursor.padding.area base := by
  rw [Cursor.padding, TransportMarshal.padded, padArea, agrees.offset]
  split
  · rename_i short
    exact ⟨max_eq_right (Nat.le_of_lt short),
      (area_append base cursor [(cursor.offset.toNat,
        List.replicate (64 - cursor.offset.toNat) 0)] rfl).symm⟩
  · rename_i long
    have none : 64 - cursor.offset.toNat = 0 := by omega
    exact ⟨max_eq_left (Nat.le_of_not_lt long), by
      rw [none, replicate_zero, ByteArea.store_nil]⟩

theorem Agrees.formatHeader (tracks : Tracks cursor layout) (fits : layout.Fits .formatHeader) :
    ∃ pool' m', TransportMarshal.formatHeader (pool, m) = some ((), pool', m') ∧
      Agrees base (cursor.step .formatHeader) pool' id m' := by
  obtain ⟨offsetEq, areaEq⟩ := agrees.padded
  have room : m.bookMarkOffset + 4 ≤ dataRoom := by
    rw [agrees.bookMarkOffset, tracks.markOffset]
    exact fits
  have marks : cursor.padding.bookMarkOffset = cursor.bookMarkOffset ∧
      cursor.padding.bookMarkLen = cursor.bookMarkLen := by
    rw [Cursor.padding]
    split <;> exact ⟨rfl, rfl⟩
  refine ⟨_, _, formatHeader_eq agrees.buffer room, agrees.buffer, offsetEq, ?_, ?_, ?_⟩
  · exact agrees.bookMarkOffset.trans (congrArg BitVec.toNat marks.1.symm)
  · exact agrees.bookMarkLen.trans (congrArg BitVec.toNat marks.2.symm)
  · have sizeEq : m.padded.contentSize = cursor.padding.contentSize := by
      rw [TransportMarshal.contentSize, Cursor.contentSize, offsetEq, marks.2, ← agrees.bookMarkLen]
      rfl
    rw [data_formatPool, formatArea, agrees.data, areaEq, sizeEq, offsetEq,
      agrees.bookMarkOffset, ← marks.1]
    exact (area_append base cursor.padding cursor.padding.headerStores
      rfl).symm

/-- An operation that has room does the same with checks. -/
theorem Agrees.step (tracks : Tracks cursor layout) {operation : Operation}
    (fits : layout.Fits operation) :
    ∃ pool' m', operation.action (pool, m) = some ((), pool', m') ∧
      Agrees base (cursor.step operation) pool' id m' := by
  cases operation with
  | put argument => exact agrees.put tracks fits
  | setBookMark n =>
    refine ⟨_, _, rfl, agrees.buffer, ?_, agrees.offset, rfl, agrees.data⟩
    have offset := (tracks.setBookMark fits).offset
    show m.offset + n.toNat = _
    rw [offset, agrees.offset, tracks.offset]
    exact Nat.add_assoc _ _ _
  | formatHeader => exact agrees.formatHeader tracks fits

/-- As long as every operation has room the marshal that fails at the end of
the room does what the one without checks does. -/
theorem Agrees.run (tracks : Tracks cursor layout) {operations : List Operation}
    (fits : layout.FitsAll operations) :
    ∃ pool' m', operations.forM Operation.action (pool, m) = some ((), pool', m') ∧
      Agrees base (operations.foldl Cursor.step cursor) pool' id m' := by
  induction operations generalizing cursor layout pool m with
  | nil => exact ⟨pool, m, rfl, agrees⟩
  | cons operation operations ih =>
    obtain ⟨fitsNow, rest⟩ := fits
    obtain ⟨pool₁, m₁, actionEq, agrees₁⟩ := agrees.step tracks fitsNow
    obtain ⟨pool', m', restEq, agrees'⟩ := ih agrees₁ (tracks.step fitsNow) rest
    exact ⟨pool', m', (bind_apply actionEq).trans restEq, agrees'⟩

end

/-- Where the code stays inside the buffer, the marshal that fails at the end of
the room does the same. -/
theorem checked_marshal_agrees (pool : Pool) (id : Nat) (m : TransportMarshal)
    {operations : List Operation}
    (inside : StaysInside (pool.mbuf id).data .fresh .fresh operations) :
    ∃ pool' m', (allotBuffer id >>= fun _ => operations.forM Operation.action) (pool, m) =
        some ((), pool', m') ∧
      Agrees (pool.mbuf id).data (operations.foldl Cursor.step .fresh) pool' id m' := by
  obtain ⟨pool₁, m₁, allotEq, agrees⟩ := agrees_allotBuffer pool id m
  obtain ⟨pool', m', runEq, agrees'⟩ :=
    agrees.run tracks_fresh ((tracks_fresh.staysInside_iff operations).mp inside)
  exact ⟨pool', m', (bind_apply allotEq).trans runEq, agrees'⟩

def sampleOperations : List Operation :=
  [.setBookMark 4, .put ⟨.scalar .i32, 5#32⟩, .put (stringArgument 3), .formatHeader]

theorem checked_marshal_agrees_sample :
    ∃ pool' m', (allotBuffer 0 >>= fun _ => sampleOperations.forM Operation.action)
        (samplePool, .empty) = some ((), pool', m') ∧
      Agrees (samplePool.mbuf 0).data (sampleOperations.foldl Cursor.step .fresh) pool' 0 m' :=
  checked_marshal_agrees samplePool 0 .empty ((tracks_fresh.staysInside_iff _).mpr
    ⟨(by decide : 47 < 2 ^ 16), (by decide : 51 ≤ dataRoom), (by decide : 62 ≤ dataRoom),
      (by decide : 47 ≤ dataRoom), trivial⟩)

end Checked

end SRPC.Dpdk
