import SRPC.MarshalTransfer
import SRPC.TcpSender
import SRPC.UdpClient

/-!
# Appending a marshal to a packet of a TCP connection

In the TCP build `operator<<` moves all bytes of a marshal to the end of the
output marshal, where a request or reply is being built.
-/

namespace SRPC.Tcp

open Marshalling PacketStream List

namespace Sender

/-- `ServerConnection::operator<<(Marshal&)`. -/
def putMarshal (sender : Sender) (m : Marshal) : Option (Sender × Marshal) := do
  let n ← m.getContentSize sender.heap
  let (_, heap, out, m) ← sender.out.readFromMarshal sender.heap m n
  return ({ sender with heap := heap, out := out }, m)

/-- `Client::operator<<(Marshal&)`. -/
def clientPutMarshal (sender : Sender) (status : Dpdk.Status) (m : Marshal) :
    Option (Sender × Marshal) :=
  if status = .connected then sender.putMarshal m else some (sender, m)

def putAll (sender : Sender) (values : List Dpdk.Argument) : Option Sender :=
  values.foldlM (fun sender value => sender.put value.type value.value) sender

def encodeAll (values : List Dpdk.Argument) : List Byte :=
  values.flatMap fun value => encode value.type value.value

/-- The last chunk of the output has no room. -/
def OutFull (sender : Sender) : Prop :=
  ∀ last ∈ sender.out.chunks.getLast?, last.writeIdx = last.size sender.heap

/-- The bytes of a marshal are at the end of the body, and whatever is written
later comes behind them and is counted with them. -/
def Appends (result : Option (Sender × Marshal)) (queued body content : List Byte) : Prop :=
  ∃ sender m, result = some (sender, m) ∧ m.content sender.heap = [] ∧
    sender.Open queued (body ++ content) ∧
    ∀ values, ∃ last, (sender.putAll values).bind endPacket = some last ∧
      last.Idle (queued ++ frame (body ++ content ++ encodeAll values))

variable {sender : Sender} {queued body : List Byte} {m : Marshal}

theorem Open.putAll_eq (opened : sender.Open queued body) (values : List Dpdk.Argument) :
    ∃ last, sender.putAll values = some last ∧
      last.Open queued (body ++ encodeAll values) := by
  induction values generalizing sender body with
  | nil => exact ⟨sender, rfl, by simpa [encodeAll] using opened⟩
  | cons value values ih =>
    obtain ⟨next, putEq, grown⟩ := opened.put_eq value.type value.value
    obtain ⟨last, allEq, whole⟩ := ih grown
    refine ⟨last, ?_, by simpa [encodeAll] using whole⟩
    rw [putAll, foldlM_cons, putEq]
    exact allEq

theorem Open.appends {content : List Byte} (opened : sender.Open queued (body ++ content))
    (drained : m.content sender.heap = []) : Appends (some (sender, m)) queued body content := by
  refine ⟨sender, m, rfl, drained, opened, fun values => ?_⟩
  obtain ⟨full, putEq, whole⟩ := opened.putAll_eq values
  obtain ⟨last, endEq, idle⟩ := whole.endPacket_eq
  exact ⟨last, by rw [putEq, Option.bind_some, endEq], idle⟩

theorem Open.transfers (opened : sender.Open queued body) {n : Nat}
    (enough : n ≤ (m.content sender.heap).length) {heap' : Heap} {out' m' : Marshal}
    (moved : Marshalling.Transfers sender.heap sender.out m n heap' out' m') :
    Open { sender with heap := heap', out := out' } queued
      (body ++ (m.content sender.heap).take n) := by
  obtain ⟨before, bmark, after, marked, cells, length, queuedEq, bodyEq⟩ :=
    opened.layout
  obtain ⟨added, cells', kept, new⟩ := moved.map_byte
  rw [cells, map_append, map_append, map_append, map_append] at kept
  obtain ⟨keptFront, keptAfter⟩ := append_inj kept (by simp)
  obtain ⟨keptBefore, -⟩ := append_inj keptFront (by simp)
  refine ⟨moved.targetSound, ?_, opened.outL, before, bmark, after ++ added,
    marked, ?_, length, keptBefore.trans queuedEq, ?_⟩
  · show out'.writeCnt = _
    rw [moved.writeCnt, opened.writeCnt, length_append, length_take,
      Nat.min_eq_left enough, BitVec.ofNat_add]
  · show out'.cells = _
    rw [cells', cells, append_assoc]
  · rw [map_append, keptAfter, bodyEq, new]

theorem Open.putMarshal_appends (opened : sender.Open queued body) (sound : Sound sender.heap m)
    (moves : ∃ heap' out' m', sender.out.readFromMarshal sender.heap m m.contentSize =
        some (m.contentSize, heap', out', m') ∧
      Marshalling.Transfers sender.heap sender.out m m.contentSize heap' out' m') :
    Appends (sender.putMarshal m) queued body (m.content sender.heap) := by
  obtain ⟨heap', out', m', readEq, moved⟩ := moves
  have whole := sound.length_content
  have extended := opened.transfers (Nat.le_of_eq whole.symm) moved
  rw [take_of_length_le (Nat.le_of_eq whole)] at extended
  have putEq : sender.putMarshal m = some ({ sender with heap := heap', out := out' }, m') := by
    rw [putMarshal, sound.getContentSize_eq]
    simp only [some_bind, readEq]
    rfl
  rw [putEq]
  refine extended.appends ?_
  show m'.content heap' = []
  rw [moved.sourceContent, drop_of_length_le (Nat.le_of_eq whole)]

theorem Open.putMarshal_iff (opened : sender.Open queued body) (sound : Sound sender.heap m)
    (apart : Apart sender.out.toChain m.toChain) :
    Appends (sender.putMarshal m) queued body (m.content sender.heap) ↔
      m.content sender.heap ≠ [] ∨ sender.OutFull := by
  have size := sound.length_content
  constructor
  · rintro ⟨next, m', putEq, -⟩
    by_contra neither
    rw [not_or, not_not] at neither
    obtain ⟨empty, room⟩ := neither
    rw [empty, length_nil] at size
    have notFull : ∃ last ∈ sender.out.chunks.getLast?, last.writeIdx ≠ last.size sender.heap := by
      simpa [OutFull] using room
    obtain ⟨last, isLast, notFull⟩ := notFull
    obtain ⟨front, chunks⟩ := getLast?_eq_some_iff.mp isLast
    have valid := opened.sound.wellFormed.valid last (by simp [chunks])
    have refused := opened.sound.readFromMarshal_nothing sound apart chunks
      (Nat.lt_of_le_of_ne valid.2.1 notFull)
    rw [putMarshal, sound.getContentSize_eq, ← size] at putEq
    simp only [some_bind, refused] at putEq
    cases putEq
  · rintro (filled | full)
    · refine opened.putMarshal_appends sound
        (opened.sound.readFromMarshal_transfers sound apart ?_ (Nat.le_refl _))
      rw [← size]
      exact length_pos_iff.mpr filled
    · exact opened.putMarshal_appends sound
        (opened.sound.readFromMarshal_shares sound apart full (Nat.le_refl _))

end Sender

end SRPC.Tcp
