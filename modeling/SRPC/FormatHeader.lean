import SRPC.PacketBuilders

/-!
# What `format_header` changes

`format_header` pads short packets and fills in lengths.  In the packets that open
a connection no bookmark is set, so the size goes over the destination address.
-/

namespace SRPC.Dpdk

open LittleEndian Marshalling TransportMarshal

/-- The bytes that `format_header` is meant to fill in: the reserved bookmark,
the padding, and the length fields of the IPv4 and UDP headers. -/
def LengthByte (m : TransportMarshal) (address : Nat) : Prop :=
  (m.bookMarkOffset ≤ address ∧ address < m.bookMarkOffset + m.bookMarkLen) ∨
    (m.offset ≤ address ∧ address < 64) ∨
      (ipHdrOffset + 2 ≤ address ∧ address < ipHdrOffset + 4) ∨
        (udpHdrOffset + 4 ≤ address ∧ address < udpHdrOffset + 6)

instance (m : TransportMarshal) (address : Nat) : Decidable (LengthByte m address) :=
  inferInstanceAs (Decidable (_ ∨ _))

/-- `format_header` succeeds and changes no other byte of any buffer. -/
def OnlyLengths (pool : Pool) (m : TransportMarshal) : Prop :=
  ∃ pool' m', formatHeader (pool, m) = some ((), pool', m') ∧
    m'.reqData = m.reqData ∧
      ∀ id address, m.reqData ≠ some id ∨ ¬ LengthByte m address →
        (pool'.mbuf id).data address = (pool.mbuf id).data address

namespace TransportMarshal

variable {pool : Pool} {m : TransportMarshal} {id : Nat}

/-- The marshal behind the padding. -/
def padded (m : TransportMarshal) : TransportMarshal := { m with offset := max m.offset 64 }

def padArea (m : TransportMarshal) (area : ByteArea) : ByteArea :=
  area.store m.offset (List.replicate (64 - m.offset) 0)

/-- The buffer after `format_header`. -/
def formatArea (m : TransportMarshal) (area : ByteArea) : ByteArea :=
  (((m.padArea area).store m.bookMarkOffset
    (toBytes 4 m.padded.contentSize)).store (ipHdrOffset + 2)
      (lengthField (m.padded.offset - ipHdrOffset))).store (udpHdrOffset + 4)
        (lengthField (m.padded.offset - udpHdrOffset))

/-- All buffers after `format_header`. -/
def formatPool (m : TransportMarshal) (pool : Pool) (id : Nat) : Pool :=
  ((((pool.store id m.offset (List.replicate (64 - m.offset) 0)).store id
    m.bookMarkOffset (toBytes 4 m.padded.contentSize)).setLen id
      m.padded.offset).store id (ipHdrOffset + 2)
        (lengthField (m.padded.offset - ipHdrOffset))).store id
          (udpHdrOffset + 4) (lengthField (m.padded.offset - udpHdrOffset))

theorem padding_eq (buffer : m.reqData = some id) :
    padding (pool, m) = some ((), pool.store id m.offset
      (List.replicate (64 - m.offset) 0), m.padded) := by
  by_cases short : m.offset < 64
  · have room : m.offset + (List.replicate (64 - m.offset) (0 : Byte)).length ≤ dataRoom := by
      rw [List.length_replicate, dataRoom]
      omega
    simp only [padding, short, if_true, storeAt_eq buffer room, padded,
      max_eq_right (Nat.le_of_lt short)]
    rfl
  · have none : 64 - m.offset = 0 := by omega
    simp only [padding, short, if_false, padded, none, List.replicate_zero,
      Pool.store_nil, max_eq_left (Nat.le_of_not_lt short)]

theorem setLen_eq (buffer : m.reqData = some id) :
    setLen (pool, m) = some ((), pool.setLen id m.offset, m) := by
  simp only [setLen, buffer, some_bind]
  rfl

theorem length_lengthField (length : Nat) : (lengthField length).length = 2 := length_toBytes 2 _

theorem formatHeader_eq (buffer : m.reqData = some id) (room : m.bookMarkOffset + 4 ≤ dataRoom) :
    formatHeader (pool, m) = some ((), m.formatPool pool id, m.padded) := by
  have buffer' : m.padded.reqData = some id := buffer
  have sized : m.padded.bookMarkOffset + (toBytes 4 m.padded.contentSize).length ≤ dataRoom := by
    rw [length_toBytes]
    exact room
  have ip : ipHdrOffset + 2 + (lengthField (m.padded.offset - ipHdrOffset)).length ≤ dataRoom := by
    rw [length_lengthField]
    decide
  have udp : udpHdrOffset + 4 +
      (lengthField (m.padded.offset - udpHdrOffset)).length ≤ dataRoom := by
    rw [length_lengthField]
    decide
  simp only [formatHeader, padding_eq buffer, storeAt_eq buffer' sized,
    setLen_eq buffer', storeAt_eq buffer' ip, some_bind]
  exact storeAt_eq buffer' udp

theorem data_formatPool :
    ((m.formatPool pool id).mbuf id).data = m.formatArea (pool.mbuf id).data := by
  simp only [formatPool, Pool.data_store, Pool.data_setLen, formatArea, padArea]

theorem formatPool_of_ne {other : Nat} (ne : other ≠ id) :
    (m.formatPool pool id).mbuf other = pool.mbuf other := by
  simp only [formatPool, Pool.store_of_ne _ _ _ ne, Pool.setLen_of_ne _ _ ne]

theorem formatArea_of_not_lengthByte {area : ByteArea} {address : Nat}
    (other : ¬ LengthByte m address) :
    m.formatArea area address =
      area.store m.bookMarkOffset (toBytes 4 m.padded.contentSize) address := by
  simp only [LengthByte, not_or, not_and, Nat.not_lt] at other
  obtain ⟨_, padding, ip, udp⟩ := other
  unfold formatArea
  rw [ByteArea.store_of_outside, ByteArea.store_of_outside]
  · apply ByteArea.store_congr
    apply ByteArea.store_of_outside
    rw [List.length_replicate]
    omega
  · rw [length_lengthField]
    omega
  · rw [length_lengthField]
    omega

theorem onlyLengths_iff (buffer : m.reqData = some id) (room : m.bookMarkOffset + 4 ≤ dataRoom) :
    OnlyLengths pool m ↔ ∀ address, ¬ LengthByte m address →
      (pool.mbuf id).data.store m.bookMarkOffset (toBytes 4 m.padded.contentSize) address =
          (pool.mbuf id).data address := by
  constructor
  · rintro ⟨pool', m', formatted, _, unchanged⟩ address free
    rw [formatHeader_eq buffer room] at formatted
    cases formatted
    have same := unchanged id address (Or.inr free)
    rwa [data_formatPool, formatArea_of_not_lengthByte free] at same
  · intro unchanged
    refine ⟨_, _, formatHeader_eq buffer room, rfl, ?_⟩
    intro other address unmeant
    by_cases same : other = id
    · subst same
      have free : ¬ LengthByte m address := unmeant.resolve_left fun ne => ne buffer
      rw [data_formatPool, formatArea_of_not_lengthByte free, unchanged address free]
    · rw [formatPool_of_ne same]

theorem onlyLengths_of_marked (buffer : m.reqData = some id)
    (room : m.bookMarkOffset + 4 ≤ dataRoom) (four : m.bookMarkLen = 4) : OnlyLengths pool m := by
  refine (onlyLengths_iff buffer room).mpr fun address free => ?_
  apply ByteArea.store_of_outside
  simp only [LengthByte, not_or, not_and, Nat.not_lt, four] at free
  rw [length_toBytes]
  omega

theorem onlyLengths_iff_of_unmarked (buffer : m.reqData = some id)
    (start : m.bookMarkOffset = 0) (zero : m.bookMarkLen = 0) (long : 64 ≤ m.offset) :
    OnlyLengths pool m ↔
      (pool.mbuf id).data.load 0 4 = toBytes 4 m.contentSize := by
  have room : m.bookMarkOffset + 4 ≤ dataRoom := by
    rw [start]
    decide
  have same : m.padded = m := by
    unfold padded
    rw [max_eq_left long]
  rw [onlyLengths_iff buffer room, same, start]
  have agrees : _ ↔ (pool.mbuf id).data.load 0
      (toBytes 4 m.contentSize).length = toBytes 4 m.contentSize := ByteArea.store_agrees_iff
  rw [length_toBytes] at agrees
  rw [← agrees]
  constructor
  · intro unchanged address _ first
    refine unchanged address ?_
    simp only [LengthByte, start, zero, ipHdrOffset, udpHdrOffset]
    omega
  · intro unchanged address _
    by_cases first : address < 0 + 4
    · exact unchanged address (Nat.zero_le _) first
    · apply ByteArea.store_of_outside
      rw [length_toBytes]
      omega

end TransportMarshal

namespace Builder

variable {conn : TransportConnection} {data : ByteArea} {pool pool' : Pool}
  {m m' : TransportMarshal}

/-- The builder reserves the place of the size. -/
def SetsBookMark : Builder → Prop
  | .request _ _ _ => True
  | .reply _ _ _ _ => True
  | .connect _ => False
  | .ack => False

theorem assemble_request (xid : BitVec 64) (rpcId : BitVec 32) (arguments : List Argument) :
    assemble conn data (.request xid rpcId arguments) (pool, m) =
      write (toBytes 8 xid ++ toBytes 4 rpcId ++ arguments.flatMap encodeArgument)
        (((conn.getNewPkt pool data).2.store pool.next dataOffset [0x09]).store
          pool.next dataOffset [0x09], marked pool.next) := by
  show (beginRequest pool.next xid rpcId ((conn.getNewPkt pool data).2, m) >>=
    fun result => arguments.forM putArgument result.2) = _
  rw [beginRequest_eq]
  exact write_bind (putArguments_writes arguments) _ rfl (marked_room _)

theorem beginReply_marked (req : TransportMarshal) (xid : BitVec 64) (errorCode : BitVec 32)
    (begun : beginReply conn data req xid errorCode (pool, m) ≠ none) :
    ∃ base pkt, beginReply conn data req xid errorCode (pool, m) =
      write (toBytes 8 xid ++ toBytes 4 errorCode) (base, marked pkt) := by
  cases buffer : req.reqData with
  | none =>
    refine absurd ?_ begun
    show (replyBuffer conn data req (pool, m) >>= _) = none
    simp [replyBuffer, isTypeSt, buffer]
  | some pkt =>
    by_cases single : (pool.mbuf pkt).data dataOffset = 0x09
    · exact ⟨_, _, beginReply_of_st conn data xid errorCode buffer single⟩
    · exact ⟨_, _, beginReply_of_bg conn data xid errorCode buffer single⟩

variable {builder : Builder}

theorem assemble_marked (sets : builder.SetsBookMark)
    (assembled : builder.assemble conn data (pool, m) = some ((), pool', m')) :
    ∃ pkt offset, m' = { marked pkt with offset := offset } := by
  cases builder with
  | request xid rpcId arguments =>
    rw [assemble_request] at assembled
    obtain ⟨_, _, rfl⟩ := write_eq_some rfl assembled
    exact ⟨_, _, rfl⟩
  | reply req xid errorCode results =>
    obtain ⟨_, middle, begun, rest⟩ := ByteSource.bind_eq_some.mp assembled
    obtain ⟨_, ⟨pool₂, m₂⟩, put, sized⟩ := ByteSource.bind_eq_some.mp rest
    obtain ⟨base, pkt, beginEq⟩ := beginReply_marked req xid errorCode (by rw [begun]; simp)
    have whole : (write (toBytes 8 xid ++ toBytes 4 errorCode) (base, marked pkt) >>=
          fun result => results.forM putArgument result.2) = _ :=
      write_bind (putArguments_writes results) _ rfl (marked_room pkt)
    rw [← beginEq, begun] at whole
    obtain ⟨_, _, rfl⟩ := write_eq_some rfl (whole.symm.trans put)
    exact ⟨pkt, _, storeAt_marshal sized⟩
  | connect | ack => exact sets.elim

/-- The marshal of a packet that opens a connection. -/
def unmarked (pkt : Nat) : TransportMarshal := ⟨some pkt, 0, 0, dataOffset + 65⟩

theorem contentSize_unmarked (pkt : Nat) :
    toBytes 4 (unmarked pkt).contentSize = [0x40, 0, 0, 0] := by
  show toBytes 4 (BitVec.ofInt 32
    (((dataOffset + 65 : Nat) : Int) - dataOffset - (0 : Nat) - 1)) = _
  decide

variable {bytes : List Byte}

theorem sessionPacket_eq (pkt : Nat) (length : bytes.length = 64) :
    (do setPktTypeSm; write bytes : Action) (pool, ⟨some pkt, 0, 0, dataOffset + 1⟩) =
      some ((), (pool.store pkt dataOffset [0x07]).store pkt (dataOffset + 1)
        bytes, unmarked pkt) := by
  refine (bind_apply (setPktType_eq rfl 0x07)).trans ?_
  refine (write_eq rfl).trans ?_
  rw [length, if_pos (show dataOffset + 1 + 64 ≤ dataRoom by decide)]
  rfl

theorem load_session {pkt offset : Nat} (behind : 4 ≤ offset) :
    ((pool.store pkt offset bytes).mbuf pkt).data.load 0 4 = (pool.mbuf pkt).data.load 0 4 := by
  rw [Pool.data_store]
  apply ByteArea.load_store_of_outside
  omega

theorem assemble_unmarked (session : ¬ builder.SetsBookMark) :
    ∃ pool' pkt, builder.assemble conn data (pool, m) = some ((), pool', unmarked pkt) ∧
      (pool'.mbuf pkt).data.load 0 4 = conn.outAddr.mac.toList.take 4 := by
  cases builder with
  | request | reply => exact absurd trivial session
  | connect unused =>
    refine ⟨_, _, (bind_apply (allotBuffer_eq _)).trans (sessionPacket_eq _ (by decide)), ?_⟩
    rw [load_session (by decide), load_session (by decide), load_session (by decide)]
    exact load_getNewPkt conn _ data
  | ack =>
    have port : udpHdrOffset + (toBytes 2 (swap16 conn.srcAddr.port)).length ≤ dataRoom := by
      rw [length_toBytes]
      decide
    have length : (conAck conn.udpPort).length = 64 := by
      simp [conAck]
    refine ⟨_, _, (bind_apply (allotBuffer_eq _)).trans
      ((bind_apply (storeAt_eq rfl port)).trans (sessionPacket_eq _ length)), ?_⟩
    rw [load_session (by decide), load_session (by decide),
      load_session (by decide), load_session (by decide)]
    exact load_getNewPkt conn pool data

end Builder

/-- In a packet that was assembled `format_header` changes nothing but the
bytes it is meant to fill in exactly if the packet is a request or a reply, or
the destination address happens to begin with the size of the content. -/
theorem formatHeader_only_lengths (builder : Builder)
    (conn : TransportConnection) (data : ByteArea) (pool pool' : Pool) (m m' : TransportMarshal)
    (assembled : builder.assemble conn data (pool, m) = some ((), pool', m')) :
    OnlyLengths pool' m' ↔ builder.SetsBookMark ∨
      conn.outAddr.mac.toList.take 4 = [0x40, 0, 0, 0] := by
  by_cases sets : builder.SetsBookMark
  · obtain ⟨pkt, offset, rfl⟩ := Builder.assemble_marked sets assembled
    have room : dataOffset + 1 + 4 ≤ dataRoom := by decide
    exact iff_of_true (onlyLengths_of_marked rfl room rfl) (Or.inl sets)
  · obtain ⟨pool₁, pkt, assembleEq, first⟩ :
        ∃ pool₁ pkt, builder.assemble conn data (pool, m) = some ((), pool₁, Builder.unmarked pkt) ∧
          (pool₁.mbuf pkt).data.load 0 4 = conn.outAddr.mac.toList.take 4 :=
      Builder.assemble_unmarked sets
    rw [assembleEq] at assembled
    cases assembled
    have long : 64 ≤ dataOffset + 65 := by decide
    rw [onlyLengths_iff_of_unmarked rfl rfl rfl long, first, Builder.contentSize_unmarked]
    exact (or_iff_right sets).symm

def sampleConnection : TransportConnection where
  connId := 0
  outAddr := ⟨#v[0xEC, 0x0D, 0x9A, 0x11, 0x22, 0x33], 0x0201000A, 8501⟩
  srcAddr := ⟨#v[0xEC, 0x0D, 0x9A, 0x44, 0x55, 0x66], 0x0101000A, 9000⟩
  udpPort := 9000
  connected := false

def samplePool : Pool := ⟨fun _ => ⟨fun _ => 0, 0, 0⟩, 0⟩

theorem formatHeader_only_lengths_request :
    ∃ pool m, (Builder.request 3 7 [⟨.scalar .u8, (5#8)⟩]).assemble sampleConnection
        (fun _ => 0) (samplePool, .empty) = some ((), pool, m) ∧
      (OnlyLengths pool m ↔
        (Builder.request 3 7 [⟨.scalar .u8, (5#8)⟩]).SetsBookMark ∨
          sampleConnection.outAddr.mac.toList.take 4 = [0x40, 0, 0, 0]) :=
  ⟨_, _, rfl, formatHeader_only_lengths _ _ _ samplePool _ .empty _ rfl⟩

/-- The first bytes of the destination address of a connection request are
replaced by the size of its content. -/
theorem connect_loses_destination :
    ∃ pool m pool' m', (Builder.connect fun _ => 0).assemble sampleConnection (fun _ => 0)
        (samplePool, .empty) = some ((), pool, m) ∧
      formatHeader (pool, m) = some ((), pool', m') ∧
      m'.reqData = some 1 ∧ ¬ OnlyLengths pool m ∧
      (pool.mbuf 1).data.load 0 6 = [0xEC, 0x0D, 0x9A, 0x11, 0x22, 0x33] ∧
      (pool'.mbuf 1).data.load 0 6 = [0x40, 0, 0, 0, 0x22, 0x33] := by
  refine ⟨_, _, _, _, rfl, rfl, rfl, ?_, by decide +kernel, by decide +kernel⟩
  rintro ⟨pool', m', formatted, _, unchanged⟩
  cases formatted
  have changed := unchanged 1 0 (Or.inr (by decide))
  revert changed
  decide +kernel

end SRPC.Dpdk
