import SRPC.MarshalCodec
import SRPC.SparseIntBuffer
import SRPC.TcpReceiver

/-!
# The receiving half of a `TCPConnection`

`handle_read` of the server cuts off the packets that have arrived in full.  Each
becomes a `Request` whose marshal shares the chunks of `in_`.
-/

namespace SRPC.Tcp

open LittleEndian SparseInt Marshalling PacketStream ByteSource List

structure Request where
  xid : BitVec 64
  m : Marshal

/-- A request as the client means it: its id and the bytes that follow. -/
structure Call where
  xid : BitVec 64
  rest : List Byte
  deriving DecidableEq, Repr

/-- The bytes behind the size. -/
def Call.body (call : Call) : List Byte := writeV64 call.xid ++ call.rest

/-- `in_` and the requests that were cut off, with the heap their blocks lie
in.  A request that was deleted is left as an empty one. -/
structure Connection where
  heap : Heap
  in_ : Marshal
  requests : List Request

namespace Connection

def new (heap : Heap) : Connection := ⟨heap, Marshal.empty, []⟩

/-- The loop of `handle_read`, with the bytes of the requests it extracts.
`stack` is what the buffer for the request id holds in the rounds of the loop
before it is filled. -/
def extractLoop (stack : Nat → Nat → Byte) :
    Nat → Connection → Option (List (List Byte) × Connection)
  | 0, _ => none
  | fuel + 1, connection => do
    match ← nextPacket connection.heap connection.in_ with
    | none => return ([], connection)
    | some (packetSize, heap, in_) =>
      let (n, heap, m, in_) ← Marshal.empty.readFromMarshal heap in_ packetSize.toNat
      guard (n = packetSize.toNat)
      let body := m.content heap
      let (xid, heap, m) ← getV64 marshalSource (stack fuel) (heap, m)
      let (bodies, connection) ← extractLoop stack fuel
        ⟨heap, in_, connection.requests ++ [⟨xid, m⟩]⟩
      return (body :: bodies, connection)

/-- `handle_read` up to the calls of the handlers: the bytes of the requests it
extracts, the bytes the kernel still has, and the connection. -/
def handleRead (connection : Connection) (wire : List Byte)
    (answers : List Int) (stack : Nat → Nat → Byte) :
    Option (List (List Byte) × List Byte × Connection) := do
  let (n, _, wire, heap, in_) ← connection.in_.readFromFd connection.heap wire answers
  let connection := { connection with heap := heap, in_ := in_ }
  -- The number of bytes is kept in an `int`.
  if toI32 n = 0 then
    return ([], wire, connection)
  else
    let (bodies, connection) ← extractLoop stack (in_.contentSize + 1) connection
    return (bodies, wire, connection)

/-- A handler reads from its request. -/
def readRequest (connection : Connection) (index n : Nat) :
    Option Connection := do
  let request ← connection.requests[index]?
  let (_, heap, m) ← request.m.read connection.heap n
  return { connection with
    heap := heap
    requests := connection.requests.set index { request with m := m } }

def deleteRequest (connection : Connection) (index : Nat) :
    Option Connection := do
  let request ← connection.requests[index]?
  let heap ← request.m.delete connection.heap
  return { connection with
    heap := heap
    requests := connection.requests.set index { request with m := Marshal.empty } }

/-- The marshals that share blocks with `in_`. -/
def readers (connection : Connection) : List Chain :=
  connection.requests.map fun request => request.m.toChain

/-- The marshal of the request has what follows the id. -/
structure Carries (heap : Heap) (request : Request) (call : Call) : Prop where
  sound : Sound heap request.m
  content : request.m.content heap = call.rest
  xid : ¬ LosesByte call.xid → request.xid = call.xid

/-- The connection has received `bytes` that it has not extracted yet, and its
requests are these calls. -/
structure Holds (connection : Connection) (bytes : List Byte) (calls : List Call) : Prop where
  sound : Sound connection.heap connection.in_
  owned : Owned connection.heap connection.in_.toChain connection.readers
  content : connection.in_.content connection.heap = bytes
  requests : List.Forall₂ (Carries connection.heap) connection.requests calls

theorem holds_new (heap : Heap) : Holds (new heap) [] [] :=
  ⟨sound_empty heap, Owned.alone (WellFormed.empty heap), rfl, .nil⟩

variable {connection : Connection} {bytes later : List Byte} {calls : List Call} {call : Call}
  {heap' : Heap} {request : Request}

theorem Carries.congr {heap : Heap} (carries : Carries heap request call)
    (wellFormed : WellFormed heap' request.m.toChain)
    (same : request.m.content heap' = request.m.content heap) : Carries heap' request call :=
  ⟨⟨wellFormed, carries.sound.counted⟩, same.trans carries.content, carries.xid⟩

theorem Holds.act (holds : Holds connection bytes calls) {in' : Marshal} (sound' : Sound heap' in')
    (frame : Frame connection.heap connection.in_.toChain heap' in'.toChain) :
    Holds { connection with heap := heap', in_ := in' } (in'.content heap') calls := by
  obtain ⟨owned, same⟩ := holds.owned.act frame sound'.wellFormed
  refine ⟨sound', owned, rfl, forall₂_imp_of_mem holds.requests ?_⟩
  intro request member call carries
  exact carries.congr (owned.othersOk _ (mem_map_of_mem member)) (same _ (mem_map_of_mem member))

variable {more : List Byte}

theorem Holds.moveBody {body : List Byte} (holds : Holds connection (frame body ++ more) calls)
    (small : body.length < 2 ^ 31) :
    ∃ heap₁ in₁ heap₂ m in₂, nextPacket connection.heap connection.in_ =
        some (some (BitVec.ofNat 64 body.length, heap₁, in₁)) ∧
      Marshal.empty.readFromMarshal heap₁ in₁ (BitVec.ofNat 64 body.length).toNat =
          some ((BitVec.ofNat 64 body.length).toNat, heap₂, m, in₂) ∧
      Holds { connection with heap := heap₁, in_ := in₁ } (body ++ more) calls ∧
      Shares heap₁ Marshal.empty.toChain in₁.toChain body.length heap₂ m.toChain in₂.toChain ∧
      Sound heap₂ in₂ ∧ Sound heap₂ m ∧ m.content heap₂ = body := by
  obtain ⟨heap₁, in₁, nextEq, sound₁, frame₁, content₁⟩ :=
    nextPacket_of_frame holds.sound holds.content small
  have holds₁ := holds.act sound₁ frame₁
  rw [content₁] at holds₁
  have size : (BitVec.ofNat 64 body.length).toNat = body.length := by
    rw [BitVec.toNat_ofNat]
    omega
  have enough : body.length ≤ in₁.contentSize := by
    rw [← sound₁.length_content, content₁, length_append]
    omega
  obtain ⟨heap₂, m, in₂, sharedEq, soundM, sound₂, shares, _⟩ := sound₁.readFromMarshal_eq enough
  refine ⟨heap₁, in₁, heap₂, m, in₂, nextEq, by rw [size]; exact sharedEq,
    holds₁, shares, sound₂, soundM, ?_⟩
  rw [shares.targetContent, content₁, take_left']
  · rfl
  · rfl

variable {fuel : Nat}

/-- A round extracts one request. -/
theorem Holds.extractBody {body : List Byte} {xid : BitVec 64}
    (holds : Holds connection (frame body ++ more) calls) (small : body.length < 2 ^ 31)
    {stack : Nat → Nat → Byte}
    (decoded : getV64 ByteSource.list (stack fuel) body = some (xid, call.rest))
    (xidEq : ¬ LosesByte call.xid → xid = call.xid) :
    ∃ heap in_ m, Holds ⟨heap, in_, connection.requests ++ [⟨xid, m⟩]⟩ more (calls ++ [call]) ∧
      extractLoop stack (fuel + 1) connection =
        (extractLoop stack fuel ⟨heap, in_, connection.requests ++ [⟨xid, m⟩]⟩).map fun result =>
            (body :: result.1, result.2) := by
  obtain ⟨heap₁, in₁, heap₂, m₂, in₂, nextEq, sharedEq, holds₁, shares, sound₂,
    soundM, bodyEq⟩ := holds.moveBody small
  have owned₂ := holds₁.owned.share shares
  -- Decoding the request id only drops bytes of the new request.
  have simulated := getV64_simulates (marshalSource_holds heap₂ m₂.toChain)
    (stack fuel) (heap₂, m₂) body ⟨soundM, bodyEq, 0, Shrinks.refl soundM.wellFormed⟩
  rw [decoded] at simulated
  obtain ⟨⟨heap₃, m₃⟩, decodedEq, soundM₃, contentM₃, count, shrinks₃⟩ := simulated
  have owned₃ := owned₂.consume shrinks₃
  have bytes₃ : ∀ chain : Chain, chain.content heap₃ = chain.content heap₁ :=
    fun chain => content_congr fun cell _ =>
      (shrinks₃.bytes cell).trans (shares.bytes cell)
  refine ⟨heap₃, in₂, m₃, ⟨?_, ?_, ?_, ?_⟩, ?_⟩
  · exact ⟨owned₃.ownerOk, sound₂.counted⟩
  · rw [readers, map_append]
    exact owned₃
  · rw [content_congr fun cell _ => shrinks₃.bytes cell, shares.sourceContent,
      holds₁.content, drop_left]
  · refine rel_append (forall₂_imp_of_mem holds₁.requests ?_)
      (.cons ⟨soundM₃, contentM₃, xidEq⟩ .nil)
    intro request member call carries
    exact carries.congr (owned₃.othersOk _ (mem_append_left _ (mem_map_of_mem member))) (bytes₃ _)
  · simp only [extractLoop, nextEq, sharedEq, bodyEq, decodedEq, some_bind, guard_true]
    cases extractLoop stack fuel ⟨heap₃, in₂, connection.requests ++ [⟨xid, m₃⟩]⟩ <;> rfl

theorem Holds.extract (holds : Holds connection (frame call.body ++ more) calls)
    (small : call.body.length < 2 ^ 31) (stack : Nat → Nat → Byte) (fuel : Nat) :
    ∃ connection', Holds connection' more (calls ++ [call]) ∧
      extractLoop stack (fuel + 1) connection =
        (extractLoop stack fuel connection').map fun result =>
          (call.body :: result.1, result.2) := by
  obtain ⟨xid, decoded, xidEq⟩ := getV64_writeV64 call.xid (stack fuel) call.rest
  obtain ⟨heap, in_, m, extracted⟩ := holds.extractBody small decoded xidEq
  exact ⟨_, extracted⟩

variable {coming : List Call}

theorem Holds.extractLoop_eq (holds : Holds connection bytes calls)
    (stream : bytes ++ later = frames (coming.map Call.body))
    (small : ∀ call ∈ coming, call.body.length < 2 ^ 31) (stack : Nat → Nat → Byte)
    (fueled : bytes.length < fuel) :
    ∃ complete rest left connection', coming = complete ++ rest ∧
      extractLoop stack fuel connection = some (complete.map Call.body, connection') ∧
      Holds connection' left (calls ++ complete) ∧
        left ++ later = frames (rest.map Call.body) ∧ ¬ Complete left := by
  have takes (connection : Connection) (taken : List Call) (call : Call)
      (rest : List Call) (more : List Byte) (fuel : Nat) (split : coming = taken ++ call :: rest)
      (holds : Holds connection (frame call.body ++ more) (calls ++ taken)) :
      ∃ connection', Holds connection' more (calls ++ (taken ++ [call])) ∧
        extractLoop stack (fuel + 1) connection =
          (extractLoop stack fuel connection').map fun result =>
            (call.body :: result.1, result.2) := by
    rw [← append_assoc]
    exact holds.extract (small call (by simp [split])) stack fuel
  have waits (connection : Connection) (taken rest : List Call)
      (bytes : List Byte) (fuel : Nat) (split : coming = taken ++ rest)
      (holds : Holds connection bytes (calls ++ taken))
      (unfinished : Unfinished (rest.map Call.body) bytes) :
      extractLoop stack (fuel + 1) connection = some ([], connection) := by
    have nextEq := nextPacket_of_unfinished holds.sound
      (holds.content ▸ unfinished) (forall_mem_map.mpr
        fun call member => small call (by simp [split, member]))
    simp only [extractLoop, nextEq, some_bind]
    rfl
  exact loop_takes (fun call member => Nat.lt_trans (small call member) (by decide)) takes
    waits rfl ((append_nil calls).symm ▸ holds) stream fueled

theorem Holds.receive (holds : Holds connection bytes calls)
    (wire : List Byte) (answers : List Int) :
    ∃ n results heap in_, connection.in_.readFromFd connection.heap wire answers =
        some (n, results, wire.drop n, heap, in_) ∧
      KernelMoves (fun _ => True) answers wire.length n ∧
      Holds { connection with heap := heap, in_ := in_ } (bytes ++ wire.take n) calls := by
  obtain ⟨n, results, heap, in_, readEq, moves, sound, frame, content⟩ :=
    receive_eq holds.sound wire answers
  refine ⟨n, results, heap, in_, readEq, moves, ?_⟩
  rw [← holds.content, ← content]
  exact holds.act sound frame

/-- A call of `handle_read` extracts the requests that have arrived in full,
unless it reads nothing or a multiple of `2 ^ 32` bytes. -/
theorem Holds.handleRead_eq (holds : Holds connection bytes calls) {wire : List Byte}
    (stream : bytes ++ wire ++ later = frames (coming.map Call.body))
    (small : ∀ call ∈ coming, call.body.length < 2 ^ 31) (answers : List Int)
    (stack : Nat → Nat → Byte) :
    ∃ n complete rest left connection', coming = complete ++ rest ∧
      connection.handleRead wire answers stack =
        some (complete.map Call.body, wire.drop n, connection') ∧
      Holds connection' left (calls ++ complete) ∧
        left ++ wire.drop n ++ later = frames (rest.map Call.body) ∧
          Reads answers n wire bytes left := by
  obtain ⟨n, _, heap₁, in₁, readEq, moves, holds₁⟩ := holds.receive wire answers
  have stream₁ : (bytes ++ wire.take n) ++ (wire.drop n ++ later) = frames (coming.map Call.body) :=
    (stream_received bytes wire later n).trans stream
  have fueled : (bytes ++ wire.take n).length < in₁.contentSize + 1 := by
    rw [← holds₁.content, holds₁.sound.length_content]
    exact Nat.lt_succ_self _
  by_cases nothing : toI32 n = 0
  · refine ⟨n, [], coming, _, _, rfl, ?_, by simpa using holds₁,
      by rw [append_assoc]; exact stream₁, moves, absurd nothing, fun _ => rfl⟩
    simp only [handleRead, readEq, some_bind, nothing, if_true]
    rfl
  · obtain ⟨complete, rest, left, connection', comingEq, loopEq, holds', left',
      waiting⟩ := holds₁.extractLoop_eq stream₁ small stack fueled
    refine ⟨n, complete, rest, left, connection', comingEq, ?_, holds',
      by rw [append_assoc]; exact left', moves, fun _ => waiting, (absurd · nothing)⟩
    simp only [handleRead, readEq, some_bind, nothing, if_false, loopEq]
    rfl

variable {index : Nat}

theorem Holds.replace (holds : Holds connection bytes calls) (request' : Request) {call' : Call}
    {count : Nat} (found : connection.requests[index]? = some request)
    (shrinks : Shrinks connection.heap request.m.toChain count heap' request'.m.toChain)
    (carries : Carries heap' request' call') :
    Holds { connection with
      heap := heap'
      requests := connection.requests.set index request' } bytes
      (calls.set index call') := by
  have owned := holds.owned
  rw [readers, map_split _ found] at owned
  have owned' := owned.consume shrinks
  rw [← map_set_split (fun request : Request => request.m.toChain) found request'] at owned'
  have same (chain : Chain) : chain.content heap' = chain.content connection.heap :=
    content_congr fun cell _ => shrinks.bytes cell
  refine ⟨⟨owned'.ownerOk, holds.sound.counted⟩, owned',
    (same _).trans holds.content, forall₂_set holds.requests carries ?_⟩
  intro other member call old
  exact old.congr (owned'.othersOk _ (mem_map_of_mem member)) (same _)

theorem Holds.readRequest_eq (holds : Holds connection bytes calls)
    (called : calls[index]? = some call) (n : Nat) :
    ∃ connection', connection.readRequest index n = some connection' ∧
      Holds connection' bytes (calls.set index { call with rest := call.rest.drop n }) := by
  obtain ⟨request, found, carries⟩ := forall₂_getElem holds.requests called
  obtain ⟨heap', m', readEq, sound', shrinks, _⟩ := carries.sound.read_eq n
  refine ⟨_, ?_, holds.replace { request with m := m' } found shrinks ⟨sound', ?_, carries.xid⟩⟩
  · simp only [readRequest, found, readEq, some_bind]
    rfl
  · rw [shrinks.content, carries.content]

theorem Holds.deleteRequest_eq (holds : Holds connection bytes calls)
    (called : calls[index]? = some call) :
    ∃ connection', connection.deleteRequest index = some connection' ∧
      Holds connection' bytes (calls.set index { call with rest := [] }) := by
  obtain ⟨request, found, carries⟩ := forall₂_getElem holds.requests called
  obtain ⟨heap', tail, deleted, shrinks⟩ := delete_shrinks carries.sound.wellFormed
  obtain rfl : tail = none := shrinks.wellFormed.tail
  refine ⟨_, ?_, holds.replace { request with m := Marshal.empty } found shrinks
    ⟨sound_empty heap', rfl, carries.xid⟩⟩
  simp only [deleteRequest, found, Marshal.delete, deleted, some_bind]
  rfl

end Connection

end SRPC.Tcp
