import SRPC.MarshalCodec
import SRPC.PacketStream

/-!
# The sending half of a TCP connection

`begin_request` and `begin_reply` reserve the place of the packet size, and
`end_request` and `end_reply` fill it in.  `handle_write` runs between packets only.
-/

namespace SRPC.Tcp

open LittleEndian SparseInt Marshalling PacketStream List

/-- `out_` with the heap its blocks lie in, `bmark_`, and whether `out_l_` is
held. -/
structure Sender where
  heap : Heap
  out : Marshal
  bmark : Option (List Cell)
  outL : Bool

namespace Sender

def new (heap : Heap) : Sender := ⟨heap, Marshal.empty, none, false⟩

/-- What `begin_request` and `begin_reply` share: take the lock, set the
bookmark and write the header. -/
def beginPacket (sender : Sender)
    (header : StateT (Heap × Marshal) Option Unit) : Option Sender := do
  let (bmark, heap, out) ← sender.out.setBookmark sender.heap 4
  let (_, heap, out) ← header (heap, out)
  return ⟨heap, out, some bmark, true⟩

/-- `operator<<`. -/
def put (sender : Sender) (type : WireType) (value : Value type) :
    Option Sender := do
  let (_, heap, out) ← Marshalling.put type value (sender.heap, sender.out)
  return { sender with heap := heap, out := out }

/-- `end_request` and `end_reply`. -/
def endPacket (sender : Sender) : Option Sender :=
  match sender.bmark with
  | none => some { sender with outL := false }
  | some bmark => do
    let (size, out) := sender.out.getAndResetWriteCnt
    let heap ← Marshal.writeBookmark sender.heap bmark (toBytes 4 size)
    return ⟨heap, out, none, false⟩

/-- `handle_write`: the bytes the kernel has accepted. -/
def handleWrite (sender : Sender) (answers : List Int) :
    Option (List Byte × Sender) := do
  let (_, _, sent, heap, out) ← sender.out.writeToFd sender.heap answers
  let _ ← out.isEmpty heap
  return (sent, { sender with heap := heap, out := out })

/-- Between two packets, with these bytes still to send. -/
structure Idle (sender : Sender) (queued : List Byte) : Prop where
  sound : Sound sender.heap sender.out
  content : sender.out.content sender.heap = queued
  writeCnt : sender.out.writeCnt = 0
  bmark : sender.bmark = none
  outL : sender.outL = false

/-- Behind the queued bytes and the reserved size lies the body of a packet
that has not ended. -/
structure Open (sender : Sender) (queued body : List Byte) : Prop where
  sound : Sound sender.heap sender.out
  writeCnt : sender.out.writeCnt = BitVec.ofNat 32 body.length
  outL : sender.outL = true
  layout : ∃ before bmark after, sender.bmark = some bmark ∧
    sender.out.cells = before ++ bmark ++ after ∧ bmark.length = 4 ∧
      before.map sender.heap.byte = queued ∧ after.map sender.heap.byte = body

variable {sender : Sender} {queued body : List Byte}

theorem idle_new (heap : Heap) : Idle (new heap) [] := ⟨sound_empty heap, rfl, rfl, rfl, rfl⟩

theorem map_byte_of_grows {heap heap' : Heap} {chain chain' : Chain}
    {added cells : List Cell} (wellFormed : WellFormed heap chain)
    (grows : Grows heap chain added heap' chain') (held : ∀ cell ∈ cells, cell ∈ chain.cells) :
    cells.map heap'.byte = cells.map heap.byte := by
  apply map_congr_left
  intro cell member
  exact grows.frame.byte_eq cell (wellFormed.cell_lt (held cell member))
    (wellFormed.not_writable (held cell member))

/-- The header is written behind the reserved size. -/
theorem Idle.beginPacket_eq (idle : Idle sender queued)
    {header : StateT (Heap × Marshal) Option Unit} (puts : Puts header body) :
    ∃ sender', sender.beginPacket header = some sender' ∧
      Open sender' queued body := by
  obtain ⟨bmark, heap₁, out₁, marked, length, sound₁, grows₁, written₁⟩ :=
    idle.sound.setBookmark_eq idle.writeCnt 4
  obtain ⟨heap₂, out₂, added, headerEq, sound₂, grows₂, held, written₂⟩ := puts heap₁ out₁ sound₁
  have cells := (grows₁.trans grows₂).cells
  have kept := idle.sound.wellFormed.content_eq_of_frame (grows₁.trans grows₂).frame
  refine ⟨⟨heap₂, out₂, some bmark, true⟩, ?_, sound₂, ?_, rfl,
    sender.out.cells, bmark, added, rfl, ?_, length, ?_, held⟩
  · simp only [beginPacket, marked, headerEq, some_bind]
    rfl
  · rw [written₂, written₁, idle.writeCnt]
    exact BitVec.zero_add _
  · rw [cells, append_assoc]
  · exact kept.trans idle.content

theorem Open.put_eq (opened : Open sender queued body) (type : WireType) (value : Value type) :
    ∃ sender', sender.put type value = some sender' ∧
      Open sender' queued (body ++ encode type value) := by
  obtain ⟨before, bmark, after, marked, cells, length, queuedEq, bodyEq⟩ :=
    opened.layout
  obtain ⟨heap', out', added, putEq, sound', grows, held, written⟩ :=
    put_puts type value sender.heap sender.out opened.sound
  have same (part : List Cell) (inside : ∀ cell ∈ part, cell ∈ sender.out.cells) :
      part.map heap'.byte = part.map sender.heap.byte :=
    map_byte_of_grows opened.sound.wellFormed grows inside
  refine ⟨{ sender with heap := heap', out := out' }, ?_, sound', ?_,
    opened.outL, before, bmark, after ++ added, marked, ?_, length, ?_, ?_⟩
  · simp only [put, putEq, some_bind]
    rfl
  · rw [written, opened.writeCnt, length_append, BitVec.ofNat_add]
  · rw [grows.cells, cells, append_assoc]
  · rw [same before (by simp +contextual [cells]), queuedEq]
  · rw [map_append, same after (by simp +contextual [cells]), bodyEq, held]

/-- The size is filled in, and the packet is whole. -/
theorem Open.endPacket_eq (opened : Open sender queued body) :
    ∃ sender', sender.endPacket = some sender' ∧
      Idle sender' (queued ++ frame body) := by
  obtain ⟨before, bmark, after, marked, cells, length, queuedEq, bodyEq⟩ :=
    opened.layout
  have distinct := opened.sound.wellFormed.nodup_cells
  rw [cells, append_assoc, nodup_append] at distinct
  obtain ⟨_, behind, apart⟩ := distinct
  rw [nodup_append] at behind
  have sizes : bmark.length = (toBytes 4 sender.out.writeCnt).length := by
    rw [length, length_toBytes]
  obtain ⟨heap', wrote, overwrites, filled⟩ :=
    writeBookmark_eq opened.sound.wellFormed sizes
      (fun cell member => by simp [cells, member]) behind.1
  have queuedSame : before.map heap'.byte = before.map sender.heap.byte :=
    map_congr_left fun cell member => overwrites.byte cell fun other =>
      apart cell member cell (mem_append_left _ other) rfl
  have bodySame : after.map heap'.byte = after.map sender.heap.byte :=
    map_congr_left fun cell member => overwrites.byte cell fun other =>
      behind.2.2 cell other cell member rfl
  refine ⟨⟨heap', { sender.out with writeCnt := 0 }, none, false⟩, ?_,
    ⟨opened.sound.wellFormed.overwrite overwrites, opened.sound.counted⟩, ?_, rfl,
    rfl, rfl⟩
  · simp only [endPacket, marked, Marshal.getAndResetWriteCnt, wrote, some_bind]
    rfl
  · show sender.out.cells.map heap'.byte = _
    rw [cells, map_append, map_append, queuedSame, filled, bodySame,
      queuedEq, bodyEq, opened.writeCnt, append_assoc, frame]

theorem Idle.handleWrite_eq (idle : Idle sender queued) (answers : List Int) :
    ∃ n sender', sender.handleWrite answers = some (queued.take n, sender') ∧
      KernelMoves (fun left => left ≠ 0) answers queued.length n ∧
        Idle sender' (queued.drop n) := by
  obtain ⟨n, results, heap', out', wrote, total, calls, sound', shrinks, written⟩ :=
    idle.sound.writeToFd_eq answers
  rw [idle.content] at calls
  refine ⟨n, { sender with heap := heap', out := out' }, ?_, ⟨results, calls, total⟩, sound', ?_,
    written.trans idle.writeCnt, idle.bmark, idle.outL⟩
  · simp only [handleWrite, wrote, sound'.isEmpty_eq, some_bind, idle.content]
    rfl
  · rw [shrinks.content, idle.content]

/-- Some bytes are queued, and there may be a packet that has not ended. -/
def Queues (sender : Sender) (queued : List Byte) :
    Option (List Byte) → Prop
  | none => sender.Idle queued
  | some body => sender.Open queued body

variable {building : Option (List Byte)}

theorem Queues.idle (queues : sender.Queues queued building)
    (free : sender.outL = false) : building = none ∧ sender.Idle queued := by
  cases building with
  | none => exact ⟨rfl, queues⟩
  | some body => cases (Open.outL queues).symm.trans free

theorem Queues.opened (queues : sender.Queues queued building) (taken : sender.outL = true) :
    ∃ body, building = some body ∧ sender.Open queued body := by
  cases building with
  | none => cases (Idle.outL queues).symm.trans taken
  | some body => exact ⟨body, rfl, queues⟩

theorem Open.content (opened : Open sender queued body) :
    ∃ reserved, reserved.length = 4 ∧
      sender.out.content sender.heap = queued ++ reserved ++ body := by
  obtain ⟨before, bmark, after, _, cells, length, queuedEq, bodyEq⟩ :=
    opened.layout
  refine ⟨bmark.map sender.heap.byte, by rw [length_map, length], ?_⟩
  rw [Chain.content, cells, map_append, map_append, queuedEq, bodyEq]

theorem Queues.eq_nil (queues : sender.Queues queued building)
    (empty : sender.out.content sender.heap = []) : queued = [] := by
  cases building with
  | none => exact (Idle.content queues).symm.trans empty
  | some body =>
    obtain ⟨reserved, _, content⟩ := Open.content queues
    rw [empty] at content
    simp only [append_assoc, nil_eq, append_eq_nil_iff] at content
    exact content.1

end Sender

end SRPC.Tcp
