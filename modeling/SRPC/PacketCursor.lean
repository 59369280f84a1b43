import SRPC.PacketBuilders

/-!
# Writing without a check

`TransportMarshal` does not look at the room of its buffer.  Its cursor has
sixteen bits and every store goes through, wherever it ends.
-/

namespace SRPC.Dpdk

open LittleEndian Marshalling TransportMarshal

/-- The marshal as the code has it, with the lengths of its buffer. -/
structure Cursor where
  stores : List Field
  dataLen : BitVec 16
  pktLen : BitVec 32
  bookMarkOffset : BitVec 16
  bookMarkLen : BitVec 16
  offset : BitVec 16
  deriving DecidableEq

inductive Operation
  | put (argument : Argument)
  | setBookMark (n : BitVec 16)
  | formatHeader

namespace Cursor

/-- After `allot_buffer` of a fresh buffer. -/
def fresh : Cursor where
  stores := [(dataOffset, [0x09])]
  dataLen := 0
  pktLen := 0
  bookMarkOffset := 0
  bookMarkLen := 0
  offset := BitVec.ofNat 16 (dataOffset + 1)

def write (bytes : List Byte) : StateM Cursor Unit := fun cursor =>
  ((), { cursor with
    stores := cursor.stores ++ [(cursor.offset.toNat, bytes)]
    offset := cursor.offset + BitVec.ofNat 16 bytes.length })

/-- `operator<<`. -/
def put (argument : Argument) : StateM Cursor Unit := putWith write argument.type argument.value

def setBookMark (n : BitVec 16) (cursor : Cursor) : Cursor :=
  { cursor with
    bookMarkOffset := cursor.offset
    bookMarkLen := n
    offset := cursor.offset + n }

def padding (cursor : Cursor) : Cursor :=
  if cursor.offset.toNat < 64 then
    { cursor with
      stores := cursor.stores ++ [(cursor.offset.toNat,
        List.replicate (64 - cursor.offset.toNat) 0)]
      offset := 64 }
  else cursor

/-- Computed in `int` and stored as a word of four bytes. -/
def contentSize (cursor : Cursor) : BitVec 32 :=
  BitVec.ofInt 32 ((cursor.offset.toNat : Int) - dataOffset - cursor.bookMarkLen.toNat - 1)

/-- What `format_header` stores behind the padding. -/
def headerStores (cursor : Cursor) : List Field :=
  [(cursor.bookMarkOffset.toNat, toBytes 4 cursor.contentSize),
    (ipHdrOffset + 2, lengthField (cursor.offset.toNat - ipHdrOffset)),
    (udpHdrOffset + 4, lengthField (cursor.offset.toNat - udpHdrOffset))]

def formatHeader (cursor : Cursor) : Cursor :=
  let cursor := cursor.padding
  { cursor with
    stores := cursor.stores ++ cursor.headerStores
    dataLen := cursor.offset
    pktLen := cursor.offset.setWidth 32 }

def step (cursor : Cursor) : Operation → Cursor
  | .put argument => (put argument cursor).2
  | .setBookMark n => cursor.setBookMark n
  | .formatHeader => cursor.formatHeader

/-- What the stores make of the buffer. -/
def area (base : ByteArea) (cursor : Cursor) : ByteArea :=
  cursor.stores.foldl (fun area field => area.store field.1 field.2) base

end Cursor

/-- All bytes of a store lie in the room of the buffer. -/
def Inside (field : Field) : Prop := field.1 + field.2.length ≤ dataRoom

instance (field : Field) : Decidable (Inside field) :=
  inferInstanceAs (Decidable (_ ≤ _))

/-- An action that writes these bytes without a check.  If they fit they are
stored one behind the other; if not, a store leaves the room. -/
def Emits (action : StateM Cursor Unit) (bytes : List Byte) : Prop :=
  ∀ cursor, ∃ pieces : List Field,
    action cursor = ((), { cursor with
      stores := cursor.stores ++ pieces
      offset := cursor.offset + BitVec.ofNat 16 bytes.length }) ∧
    (cursor.offset.toNat + bytes.length ≤ dataRoom →
      (∀ piece ∈ pieces, Inside piece) ∧
      ∀ area : ByteArea, pieces.foldl (fun area field => area.store field.1 field.2) area =
          area.store cursor.offset.toNat bytes) ∧
    ((∀ piece ∈ pieces, Inside piece) → bytes = [] ∨ cursor.offset.toNat + bytes.length ≤ dataRoom)

theorem toNat_add_ofNat {offset : BitVec 16} {n : Nat} (room : offset.toNat + n ≤ dataRoom) :
    (offset + BitVec.ofNat 16 n).toNat = offset.toNat + n := by
  rw [dataRoom] at room
  rw [BitVec.toNat_add, BitVec.toNat_ofNat]
  omega

namespace Emits

variable {first second : StateM Cursor Unit} {before after : List Byte}

theorem content (bytes : List Byte) : Emits (Cursor.write bytes) bytes := by
  intro cursor
  refine ⟨[(cursor.offset.toNat, bytes)], rfl, fun room => ⟨?_, fun _ => rfl⟩,
    fun inside => .inr (inside _ List.mem_cons_self)⟩
  intro piece member
  rw [List.mem_singleton.mp member]
  exact room

theorem nothing : Emits (pure ()) [] := by
  intro cursor
  refine ⟨[], ?_, fun _ => ⟨nofun, fun area => ByteArea.store_nil.symm⟩, fun _ => .inl rfl⟩
  simp only [List.append_nil, List.length_nil, BitVec.add_zero]
  rfl

theorem andThen (one : Emits first before) (two : Emits second after) :
    Emits (first >>= fun _ => second) (before ++ after) := by
  intro cursor
  obtain ⟨pieces, firstEq, firstFits, firstLeaves⟩ := one cursor
  obtain ⟨others, secondEq, secondFits, secondLeaves⟩ := two
    { cursor with
      stores := cursor.stores ++ pieces
      offset := cursor.offset + BitVec.ofNat 16 before.length }
  refine ⟨pieces ++ others, ?_, ?_, ?_⟩
  · show second (first cursor).2 = _
    rw [firstEq, secondEq, List.append_assoc, List.length_append,
      BitVec.ofNat_add, BitVec.add_assoc]
  · intro room
    rw [List.length_append] at room
    obtain ⟨firstInside, firstStores⟩ := firstFits (by omega)
    have moved : (cursor.offset + BitVec.ofNat 16 before.length).toNat =
        cursor.offset.toNat + before.length := toNat_add_ofNat (by omega)
    simp only [moved] at secondFits
    obtain ⟨secondInside, secondStores⟩ := secondFits (by omega)
    refine ⟨?_, ?_⟩
    · intro piece member
      exact (List.mem_append.mp member).elim (firstInside piece) (secondInside piece)
    · intro area
      rw [List.foldl_append, firstStores, secondStores, ByteArea.store_append]
  · intro inside
    have firstRoom := firstLeaves fun piece member =>
      inside piece (List.mem_append_left _ member)
    have secondRoom := secondLeaves fun piece member =>
      inside piece (List.mem_append_right _ member)
    rcases firstRoom with rfl | firstRoom
    · simpa using secondRoom
    · simp only [toNat_add_ofNat firstRoom] at secondRoom
      rcases secondRoom with rfl | secondRoom
      · rw [List.append_nil]
        exact .inr firstRoom
      · rw [List.length_append]
        exact .inr (by omega)

end Emits

theorem Cursor.put_emits (argument : Argument) :
    Emits (Cursor.put argument) (encodeArgument argument) :=
  putWith_induction Emits.content Emits.nothing
    (fun one two => one.andThen two) argument.type argument.value

/-- What is meant: the bytes written and reserved, and the bookmark, in numbers
without a bound. -/
structure Layout where
  total : Nat
  markOffset : Nat
  markLen : Nat
  deriving DecidableEq, Repr

namespace Layout

def fresh : Layout := ⟨0, 0, 0⟩

def offset (layout : Layout) : Nat := dataOffset + 1 + layout.total

def step (layout : Layout) : Operation → Layout
  | .put argument =>
    { layout with
      total := layout.total + (encodeArgument argument).length }
  | .setBookMark n => ⟨layout.total + n.toNat, layout.offset, n.toNat⟩
  | .formatHeader =>
    { layout with total := layout.total + (64 - layout.offset) }

/-- An operation has room: a value in the buffer, a reservation in the cursor,
the size in the buffer. -/
def Fits (layout : Layout) : Operation → Prop
  | .put argument =>
    layout.offset + (encodeArgument argument).length ≤ dataRoom
  | .setBookMark n => layout.offset + n.toNat < 2 ^ 16
  | .formatHeader => layout.markOffset + 4 ≤ dataRoom

/-- Every operation has room. -/
def FitsAll : Layout → List Operation → Prop
  | _, [] => True
  | layout, operation :: operations =>
    layout.Fits operation ∧ (layout.step operation).FitsAll operations

end Layout

end SRPC.Dpdk
