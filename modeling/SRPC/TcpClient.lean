import SRPC.IndexedLists
import SRPC.MarshalCodecFootprint
import SRPC.SparseIntBuffer
import SRPC.TcpReceiver

/-!
# The receiving half of a `TCPClient`

`handle_read` of the client hands the result of each packet that has arrived in
full to the future that is pending under its id.
-/

namespace SRPC.Tcp

open LittleEndian SparseInt Marshalling PacketStream ByteSource List

/-- A future, with the number of times it was notified. -/
structure Future where
  xid : BitVec 64
  errorCode : BitVec 32
  reply : Marshal
  notified : Nat

/-- `in_`, `pending_fu_` and all futures ever created, with the heap their
blocks lie in.  A pending future is known by its place. -/
structure Client where
  heap : Heap
  in_ : Marshal
  pendingFu : BitVec 64 → Option Nat
  futures : List Future

namespace Client

def new (heap : Heap) : Client := ⟨heap, Marshal.empty, fun _ => none, []⟩

/-- `new Future(xid)`, entered into `pending_fu_`. -/
def newFuture (client : Client) (xid : BitVec 64) : Client :=
  { client with
    pendingFu := Function.update client.pendingFu xid (some client.futures.length)
    futures := client.futures ++ [⟨xid, 0, Marshal.empty, 0⟩] }

/-- A round of `handle_read` after the packet size was read, with the id of the
future it notifies.  The length of the result is computed in `size_t`. -/
def takeReply (client : Client) (stack : Nat → Byte) (packetSize : BitVec 64) :
    Option (List (BitVec 64) × Client) := do
  let (xid, heap, in_) ← getV64 marshalSource stack (client.heap, client.in_)
  let (errorCode, heap, in_) ← getSparse marshalSource 5 loadI32 (heap, in_)
  match client.pendingFu xid with
  | none => return ([], { client with heap := heap, in_ := in_ })
  | some index =>
    let fu ← client.futures[index]?
    guard (fu.xid = xid)
    let n := packetSize - BitVec.ofNat 64 (valSize xid) -
      BitVec.ofNat 64 (valSize (BitVec.signExtend 64 errorCode))
    let (_, heap, reply, in_) ← fu.reply.readFromMarshal heap in_ n.toNat
    return ([xid],
      { heap := heap
        in_ := in_
        pendingFu := Function.update client.pendingFu xid none
        futures := client.futures.set index
          { fu with
            errorCode := errorCode
            reply := reply
            notified := fu.notified + 1 } })

/-- The loop of `handle_read`. -/
def replyLoop (stack : Nat → Nat → Byte) :
    Nat → Client → Option (List (BitVec 64) × Client)
  | 0, _ => none
  | fuel + 1, client => do
    match ← nextPacket client.heap client.in_ with
    | none => return ([], client)
    | some (packetSize, heap, in_) =>
      let (first, client) ← { client with heap := heap, in_ := in_ }.takeReply (stack fuel)
          packetSize
      let (notified, client) ← replyLoop stack fuel client
      return (first ++ notified, client)

/-- `TCPClient::handle_read`, with the ids of the futures it notifies. -/
def handleRead (client : Client) (wire : List Byte) (answers : List Int)
    (stack : Nat → Nat → Byte) :
    Option (List (BitVec 64) × List Byte × Client) := do
  let (n, _, wire, heap, in_) ← client.in_.readFromFd client.heap wire answers
  let client := { client with heap := heap, in_ := in_ }
  -- The number of bytes is kept in an `int`.
  if toI32 n = 0 then
    return ([], wire, client)
  else
    let (notified, client) ← replyLoop stack (in_.contentSize + 1) client
    return (notified, wire, client)

end Client

structure Reply where
  xid : BitVec 64
  errorCode : BitVec 32
  result : List Byte
  deriving DecidableEq, Repr

/-- The bytes behind the size. -/
def Reply.body (reply : Reply) : List Byte :=
  writeV64 reply.xid ++ (writeV32 reply.errorCode ++ reply.result)

namespace Client

/-- What has become of a future: nothing yet, or an error code and a result. -/
abbrev Outcome := Option (BitVec 32 × List Byte)

/-- The future has this outcome. -/
def Settled (heap : Heap) (fu : Future) : Outcome → Prop
  | none => fu.reply = Marshal.empty ∧ fu.notified = 0
  | some (errorCode, result) => Sound heap fu.reply ∧
      fu.reply.content heap = result ∧ fu.errorCode = errorCode ∧ fu.notified = 1

def readers (client : Client) : List Chain := client.futures.map fun fu => fu.reply.toChain

section Operations

variable {client : Client}

theorem getHeader_eq (sound : Sound client.heap client.in_)
    {stack : Nat → Byte} {xid : BitVec 64} {errorCode : BitVec 32} {middle rest : List Byte}
    (xidEq : getV64 ByteSource.list stack (client.in_.content client.heap) = some (xid, middle))
    (codeEq : getSparse ByteSource.list 5 loadI32 middle = some (errorCode, rest)) :
    ∃ heap₁ in₁ heap₂ in₂, getV64 marshalSource stack (client.heap, client.in_) =
        some (xid, heap₁, in₁) ∧
      getSparse marshalSource 5 loadI32 (heap₁, in₁) = some (errorCode, heap₂, in₂) ∧
      Sound heap₂ in₂ ∧
      Frame client.heap client.in_.toChain heap₂ in₂.toChain ∧
      in₁.content heap₁ = middle ∧ in₂.content heap₂ = rest := by
  have held := marshalSource_holds client.heap client.in_.toChain
  have first := getV64_simulates held stack (client.heap, client.in_) _
    ⟨sound, rfl, 0, Shrinks.refl sound.wellFormed⟩
  rw [xidEq] at first
  obtain ⟨⟨heap₁, in₁⟩, firstEq, held₁⟩ := first
  have second := getSparse_simulates held 5 loadI32 (heap₁, in₁) middle held₁
  rw [codeEq] at second
  obtain ⟨⟨heap₂, in₂⟩, secondEq, sound₂, content₂, _, shrinks⟩ := second
  exact ⟨heap₁, in₁, heap₂, in₂, firstEq, secondEq, sound₂, shrinks.frame, held₁.2.1, content₂⟩

theorem moveReply_eq (sound : Sound client.heap client.in_)
    (owned : Owned client.heap client.in_.toChain client.readers)
    {fu : Future} {index n : Nat} (found : client.futures[index]? = some fu)
    (emptyReply : fu.reply = Marshal.empty) (enough : n ≤ (client.in_.content client.heap).length)
    (errorCode : BitVec 32) :
    ∃ heap m in_, fu.reply.readFromMarshal client.heap client.in_ n = some (n, heap, m, in_) ∧
      Sound heap m ∧ Sound heap in_ ∧
      Shares client.heap Marshal.empty.toChain client.in_.toChain n heap m.toChain in_.toChain ∧
      Owned heap in_.toChain
        ((client.futures.set index
          { fu with
            errorCode := errorCode
            reply := m
            notified := fu.notified + 1 }).map fun fu => fu.reply.toChain) := by
  rw [sound.length_content] at enough
  obtain ⟨heap, m, in_, sharedEq, soundM, sound', shares, -⟩ := sound.readFromMarshal_eq enough
  rw [readers, map_split _ found, emptyReply] at owned
  have owned' := Owned.shareWith owned shares
  rw [← map_set_split (fun fu : Future => fu.reply.toChain) found
    { fu with
      errorCode := errorCode
      reply := m
      notified := fu.notified + 1 }] at owned'
  exact ⟨heap, m, in_, emptyReply ▸ sharedEq, soundM, sound', shares, owned'⟩

end Operations

/-- The client has received `bytes` that it has not taken apart yet, and its
futures have these outcomes.  The futures without one are pending. -/
structure Holds (client : Client) (bytes : List Byte) (outcomes : List Outcome) : Prop where
  sound : Sound client.heap client.in_
  owned : Owned client.heap client.in_.toChain client.readers
  content : client.in_.content client.heap = bytes
  futures : List.Forall₂ (Settled client.heap) client.futures outcomes
  xids : client.futures.map Future.xid = (List.range outcomes.length).map (BitVec.ofNat 64)
  few : outcomes.length ≤ 2 ^ 48
  pendingFu : ∀ xid, client.pendingFu xid =
    if outcomes[xid.toNat]? = some none then some xid.toNat else none

theorem holds_new (heap : Heap) : Holds (new heap) [] [] where
  sound := sound_empty heap
  owned := Owned.alone (WellFormed.empty heap)
  content := rfl
  futures := .nil
  xids := rfl
  few := Nat.zero_le _
  pendingFu := fun _ => rfl

variable {client : Client} {bytes later : List Byte} {outcomes : List Outcome} {heap' : Heap}

theorem Settled.congr {heap : Heap} {fu : Future} {outcome : Outcome}
    (settled : Settled heap fu outcome) (wellFormed : WellFormed heap' fu.reply.toChain)
    (same : fu.reply.content heap' = fu.reply.content heap) : Settled heap' fu outcome := by
  cases outcome with
  | none => exact settled
  | some values =>
    obtain ⟨sound, content, rest⟩ := settled
    exact ⟨⟨wellFormed, sound.counted⟩, same.trans content, rest⟩

theorem Holds.act (holds : Holds client bytes outcomes) {in' : Marshal} (sound' : Sound heap' in')
    (frame : Frame client.heap client.in_.toChain heap' in'.toChain) :
    Holds { client with heap := heap', in_ := in' } (in'.content heap') outcomes := by
  obtain ⟨owned, same⟩ := holds.owned.act frame sound'.wellFormed
  refine ⟨sound', owned, rfl, forall₂_imp_of_mem holds.futures ?_, holds.xids,
    holds.few, holds.pendingFu⟩
  intro fu member outcome settled
  exact settled.congr (owned.othersOk _ (mem_map_of_mem member)) (same _ (mem_map_of_mem member))

theorem Holds.receive (holds : Holds client bytes outcomes)
    (wire : List Byte) (answers : List Int) :
    ∃ n results heap in_, client.in_.readFromFd client.heap wire answers =
        some (n, results, wire.drop n, heap, in_) ∧
      KernelMoves (fun _ => True) answers wire.length n ∧
      Holds { client with heap := heap, in_ := in_ } (bytes ++ wire.take n) outcomes := by
  obtain ⟨n, results, heap, in_, readEq, moves, sound, frame, content⟩ :=
    receive_eq holds.sound wire answers
  refine ⟨n, results, heap, in_, readEq, moves, ?_⟩
  rw [← holds.content, ← content]
  exact holds.act sound frame

theorem Holds.newFuture (holds : Holds client bytes outcomes) (room : outcomes.length < 2 ^ 48) :
    Holds (client.newFuture (BitVec.ofNat 64 outcomes.length)) bytes (outcomes ++ [none]) := by
  have length := holds.futures.length_eq
  refine ⟨holds.sound, ?_, holds.content,
    rel_append holds.futures (.cons ⟨rfl, rfl⟩ .nil), ?_, ?_, ?_⟩
  · have owned := holds.owned.remember
    rw [readers, Client.newFuture, map_append]
    exact owned
  · rw [Client.newFuture, map_append, holds.xids, length_append,
      length_singleton, range_succ, map_append]
    rfl
  · rw [length_append, length_singleton]
    exact room
  · intro xid
    show Function.update client.pendingFu _ (some client.futures.length) xid = _
    by_cases new : xid = BitVec.ofNat 64 outcomes.length
    · have place : xid.toNat = outcomes.length := by
        rw [new, BitVec.toNat_ofNat]
        omega
      rw [place, ← new, Function.update_self, length]
      simp
    · have other : xid.toNat ≠ outcomes.length := by
        intro same
        exact new (by rw [← same, BitVec.ofNat_toNat, BitVec.setWidth_eq])
      have same : (outcomes ++ [none])[xid.toNat]? = outcomes[xid.toNat]? := by
        rcases Nat.lt_or_ge xid.toNat outcomes.length with inside | outside
        · exact getElem?_append_left inside
        · rw [getElem?_eq_none outside, getElem?_eq_none (by
            rw [length_append, length_singleton]; omega)]
      rw [Function.update_of_ne new, holds.pendingFu, same]

end Client

end SRPC.Tcp
