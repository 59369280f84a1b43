import SRPC.TcpReplyScan
import SRPC.TcpServerRuns

/-!
# A client connection under any stream

A server may answer anything, in pieces of any size.  `handle_read` of the
client is followed call by call and round by round, with the lengths it passes
to `read_from_marshal`.
-/

namespace SRPC.Tcp

open LittleEndian SparseInt Marshalling PacketStream ByteSource Function List

/-- The length passed to `read_from_marshal`, and the bytes of the packet that
were not read yet. -/
structure Passing where
  passed : Nat
  remaining : Nat
  deriving DecidableEq, Repr

/-- A request is begun, or `handle_read` is called. -/
inductive ReplyInput
  | request (xid : BitVec 64)
  | read (reading : Reading)

namespace Client

/-- What a round passes to `read_from_marshal`, if it comes to it. -/
def passing (client : Client) (stack : Nat → Byte) (packetSize : BitVec 64) :
    Option Passing := do
  let (xid, heap, in_) ← getV64 marshalSource stack (client.heap, client.in_)
  let (errorCode, _, in_) ← getSparse marshalSource 5 loadI32 (heap, in_)
  guard (client.pendingFu xid).isSome
  return ⟨resultLength packetSize xid errorCode,
    (packetSize.toInt - ((client.in_.contentSize - in_.contentSize : Nat) : Int)).toNat⟩

/-- What each round passes to `read_from_marshal`. -/
def passings (stack : Nat → Nat → Byte) : Nat → Client → List Passing
  | 0, _ => []
  | fuel + 1, client =>
    match nextPacket client.heap client.in_ with
    | some (some (packetSize, heap, in_)) =>
      let client := { client with heap := heap, in_ := in_ }
      (client.passing (stack fuel) packetSize).toList ++
        match client.takeReply (stack fuel) packetSize with
        | none => []
        | some (_, client) => passings stack fuel client
    | _ => []

/-- What a call of `handle_read` takes from the bytes that the kernel has. -/
def taken (client : Client) (incoming : List Byte) (answers : List Int) : List Byte :=
  match client.in_.readFromFd client.heap incoming answers with
  | none => []
  | some (n, _) => incoming.take n

/-- What a call of `handle_read` passes. -/
def readPassings (client : Client) (reading : Reading) : List Passing :=
  match client.in_.readFromFd client.heap reading.incoming reading.answers with
  | none => []
  | some (n, _, _, heap, in_) =>
    if toI32 n = 0 then []
    else passings reading.stack (in_.contentSize + 1) { client with heap := heap, in_ := in_ }

/-- Requests and calls of `handle_read` one after the other, unless one
fails. -/
def receiveAll : Client → List ReplyInput → Option (List Passing × Client)
  | client, [] => some ([], client)
  | client, .request xid :: inputs => (client.newFuture xid).receiveAll inputs
  | client, .read reading :: inputs => do
    let (_, _, next) ← client.handleRead reading.incoming reading.answers reading.stack
    let (later, last) ← next.receiveAll inputs
    return (client.readPassings reading ++ later, last)

/-- What the calls of `handle_read` receive. -/
def arrivals : Client → List ReplyInput → List Arrival
  | _, [] => []
  | client, .request xid :: inputs =>
    .request xid :: (client.newFuture xid).arrivals inputs
  | client, .read reading :: inputs =>
    .bytes (client.taken reading.incoming reading.answers) reading.stack ::
      match client.handleRead reading.incoming reading.answers reading.stack with
      | none => []
      | some (_, _, next) => next.arrivals inputs

/-- The client takes it all and never passes on more than is there. -/
def Survives (client : Client) (inputs : List ReplyInput) : Prop :=
  ∃ passings last, client.receiveAll inputs = some (passings, last) ∧
    ∀ passing ∈ passings, passing.passed ≤ passing.remaining

/-- The client has these bytes, and each pending future is an empty one under
its own id. -/
structure Ready (client : Client) (inbox : Inbox) : Prop where
  sound : Sound client.heap client.in_
  owned : Owned client.heap client.in_.toChain client.readers
  left : client.in_.content client.heap = inbox.left
  pending : ∀ xid, inbox.pending xid = (client.pendingFu xid).isSome
  futures : ∀ xid index, client.pendingFu xid = some index →
    ∃ fu, client.futures[index]? = some fu ∧ fu.xid = xid ∧ fu.reply = Marshal.empty

theorem ready_new (heap : Heap) : Ready (new heap) ⟨[], fun _ => false⟩ where
  sound := sound_empty heap
  owned := Owned.alone (WellFormed.empty heap)
  left := rfl
  pending := fun _ => rfl
  futures := nofun

variable {client : Client} {inbox : Inbox} {heap : Heap} {in_ : Marshal}

theorem Ready.act (ready : Ready client inbox) (sound : Sound heap in_)
    (frame : Frame client.heap client.in_.toChain heap in_.toChain) :
    Ready { client with heap := heap, in_ := in_ } { inbox with left := in_.content heap } :=
  ⟨sound, (ready.owned.act frame sound.wellFormed).1, rfl, ready.pending, ready.futures⟩

theorem Ready.newFuture (ready : Ready client inbox) (xid : BitVec 64) :
    Ready (client.newFuture xid) { inbox with pending := update inbox.pending xid true } where
  sound := ready.sound
  owned := by
    have owned := ready.owned.remember
    rw [readers, Client.newFuture, map_append]
    exact owned
  left := ready.left
  pending := by
    intro other
    show update inbox.pending xid true other = (update client.pendingFu xid _ other).isSome
    by_cases same : other = xid
    · rw [same, update_self, update_self]
      rfl
    · rw [update_of_ne same, update_of_ne same, ready.pending]
  futures := by
    intro other index found
    change update client.pendingFu xid (some client.futures.length) other = some index at found
    by_cases same : other = xid
    · rw [same, update_self] at found
      cases found
      exact ⟨⟨xid, 0, Marshal.empty, 0⟩, by simp [Client.newFuture], same.symm, rfl⟩
    · rw [update_of_ne same] at found
      obtain ⟨fu, fuEq, rest⟩ := ready.futures other index found
      exact ⟨fu, getElem?_append_of_some _ fuEq, rest⟩

variable {xid : BitVec 64}

theorem Ready.settle (ready : Ready client inbox) {index n : Nat}
    (pending : client.pendingFu xid = some index) (enough : n ≤ inbox.left.length)
    (errorCode : BitVec 32) :
    ∃ fu heap m in_, client.futures[index]? = some fu ∧ fu.xid = xid ∧
      fu.reply.readFromMarshal client.heap client.in_ n = some (n, heap, m, in_) ∧
      Ready
        { heap := heap
          in_ := in_
          pendingFu := update client.pendingFu xid none
          futures := client.futures.set index
            { fu with
              errorCode := errorCode
              reply := m
              notified := fu.notified + 1 } }
        ⟨inbox.left.drop n, update inbox.pending xid false⟩ := by
  obtain ⟨fu, found, xidEq, emptyReply⟩ := ready.futures xid index pending
  rw [← ready.left] at enough
  obtain ⟨heap, m, in_, sharedEq, -, sound, shares, owned⟩ :=
    moveReply_eq ready.sound ready.owned found emptyReply enough errorCode
  refine ⟨fu, heap, m, in_, found, xidEq, sharedEq, sound, owned, ?_,
    fun other => ?_, fun other otherIndex otherPending => ?_⟩
  · rw [shares.sourceContent, ready.left]
  · by_cases same : other = xid
    · simp [same]
    · show update inbox.pending xid false other = (update client.pendingFu xid none other).isSome
      rw [update_of_ne same, update_of_ne same, ready.pending]
  · change update client.pendingFu xid none other = some otherIndex
      at otherPending
    have different : other ≠ xid := by
      rintro rfl
      rw [update_self] at otherPending
      cases otherPending
    rw [update_of_ne different] at otherPending
    obtain ⟨otherFu, otherFound, otherXid, otherEmpty⟩ :=
      ready.futures other otherIndex otherPending
    have elsewhere : index ≠ otherIndex := by
      rintro rfl
      rw [found] at otherFound
      cases otherFound
      exact different (otherXid.symm.trans xidEq)
    exact ⟨otherFu, (getElem?_set_ne elsewhere).trans otherFound, otherXid, otherEmpty⟩

variable {stack : Nat → Byte} {errorCode : BitVec 32} {rest : List Byte}

theorem Ready.header (ready : Ready client inbox)
    (decoded : replyHeader stack inbox.left = some (xid, errorCode, rest)) :
    ∃ heap₁ in₁ heap₂ in₂, getV64 marshalSource stack (client.heap, client.in_) =
        some (xid, heap₁, in₁) ∧
      getSparse marshalSource 5 loadI32 (heap₁, in₁) = some (errorCode, heap₂, in₂) ∧
      Ready { client with heap := heap₂, in_ := in₂ } { inbox with left := rest } := by
  simp only [replyHeader, bind_eq_some_iff]
    at decoded
  obtain ⟨⟨_, middle⟩, xidEq, ⟨_, _⟩, codeEq, same⟩ := decoded
  cases same
  rw [← ready.left] at xidEq
  obtain ⟨heap₁, in₁, heap₂, in₂, firstEq, secondEq, sound, frame, -, content⟩ :=
    getHeader_eq ready.sound xidEq codeEq
  refine ⟨heap₁, in₁, heap₂, in₂, firstEq, secondEq, ?_⟩
  rw [← content]
  exact ready.act sound frame

theorem Ready.header_none (ready : Ready client inbox)
    (undecoded : replyHeader stack inbox.left = none) (packetSize : BitVec 64) :
    client.takeReply stack packetSize = none := by
  have held := marshalSource_holds client.heap client.in_.toChain
  have first := getV64_simulates held stack (client.heap, client.in_) inbox.left
    ⟨ready.sound, ready.left, 0, Shrinks.refl ready.sound.wellFormed⟩
  rw [takeReply]
  simp only [replyHeader, Option.bind_eq_bind] at undecoded
  cases xidEq : getV64 ByteSource.list stack inbox.left with
  | none =>
    rw [xidEq] at first
    rw [first]
    rfl
  | some decoded =>
    rw [xidEq] at first undecoded
    obtain ⟨⟨heap₁, in₁⟩, firstEq, held₁⟩ := first
    have second := getSparse_simulates held 5 loadI32 (heap₁, in₁) decoded.2 held₁
    cases codeEq : getSparse ByteSource.list 5 loadI32 decoded.2 with
    | none =>
      rw [codeEq] at second
      simp only [firstEq, second, Option.bind_eq_bind, Option.bind_some, Option.bind_none]
    | some code =>
      simp [codeEq] at undecoded

theorem Ready.passing_eq (ready : Ready client inbox)
    (decoded : replyHeader stack inbox.left = some (xid, errorCode, rest)) (size : BitVec 32) :
    client.passing stack (size.signExtend 64) =
      if inbox.pending xid then
        some ⟨resultLength (size.signExtend 64) xid errorCode,
          (size.toInt - ((inbox.left.length - rest.length : Nat) : Int)).toNat⟩
      else none := by
  obtain ⟨heap₁, in₁, heap₂, in₂, xidEq, codeEq, ready₂⟩ := ready.header decoded
  have length : client.in_.contentSize = inbox.left.length := by
    rw [← ready.sound.length_content, ready.left]
  have length₂ : in₂.contentSize = rest.length := by
    rw [← ready₂.sound.length_content, ready₂.left]
  simp only [passing, xidEq, codeEq, some_bind,
    length, length₂, BitVec.toInt_signExtend_of_le (by decide : 32 ≤ 64), ← ready.pending xid]
  cases inbox.pending xid <;> rfl

/-- A round of the client does what a round over the bytes does.  Where the
latter cannot go on, the former fails or passes too much. -/
theorem Ready.round (ready : Ready client inbox) (stack : Nat → Byte)
    {size : BitVec 32} (whole : size.toInt ≤ inbox.left.length) :
    match inbox.round stack size with
    | none => client.takeReply stack (size.signExtend 64) = none ∨
        ∃ passing, client.passing stack (size.signExtend 64) = some passing ∧
          ¬ passing.passed ≤ passing.remaining
    | some later => ∃ events next,
        client.takeReply stack (size.signExtend 64) = some (events, next) ∧
        Ready next later ∧
        ∀ passing ∈ client.passing stack (size.signExtend 64),
          passing.passed ≤ passing.remaining := by
  cases decoded : replyHeader stack inbox.left with
  | none =>
    simp only [Inbox.round, decoded, Option.bind_eq_bind, Option.bind_none]
    exact .inl (ready.header_none decoded _)
  | some header =>
    obtain ⟨xid, errorCode, rest⟩ := header
    have passingEq := ready.passing_eq decoded size
    have fitsIff := resultLength_le_iff size xid errorCode (inbox.left.length - rest.length)
    obtain ⟨heap₁, in₁, heap₂, in₂, xidEq, codeEq, ready₂⟩ := ready.header decoded
    have isPending := ready.pending xid
    simp only [Inbox.round, decoded, some_bind]
    cases found : client.pendingFu xid with
    | none =>
      rw [found, Option.isSome_none] at isPending
      simp only [isPending, Bool.false_eq_true, if_false]
      refine ⟨[], _, ?_, ready₂, ?_⟩
      · simp only [takeReply, xidEq, codeEq, found, some_bind]
        rfl
      · simp [passingEq, isPending]
    | some index =>
      rw [found, Option.isSome_some] at isPending
      rw [isPending, if_pos rfl] at passingEq
      simp only [isPending, if_true]
      by_cases fits : Fits size.toInt (inbox.left.length - rest.length)
          (canonicalLength xid errorCode)
      · have passes := fitsIff.mpr fits
        have shorter := replyHeader_length decoded
        obtain ⟨fu, heap₃, m, in₃, fuEq, fuXid, sharedEq, ready₃⟩ :=
          ready₂.settle found (n := resultLength (size.signExtend 64) xid errorCode)
            (by simp only; omega) errorCode
        simp only [guard, if_pos fits, Option.pure_def]
        refine ⟨[xid], _, ?_, ready₃, ?_⟩
        · rw [resultLength] at sharedEq
          simp only [takeReply, xidEq, codeEq, found, fuEq, fuXid, sharedEq, some_bind, guard_true]
          rfl
        · intro passing member
          rw [passingEq] at member
          cases member
          exact passes
      · simp only [guard, if_neg fits, failure]
        exact .inr ⟨_, passingEq, fun passes => fits (fitsIff.mp passes)⟩

theorem whole_of_announced {bytes : List Byte} (announced : Announced bytes) :
    (packetSize bytes).toInt ≤ (bytes.drop 4).length := by
  rcases announced.cases with negative | ⟨body, more, rfl, small⟩
  · omega
  · rw [toInt_packetSize_frame small, frame, append_assoc,
      drop_left' (length_toBytes 4 _), length_append]
    omega

theorem replyLoop_of_next (stack : Nat → Nat → Byte) (fuel : Nat) {packetSize : BitVec 64}
    (nextEq : nextPacket client.heap client.in_ = some (some (packetSize, heap, in_))) :
    replyLoop stack (fuel + 1) client =
      ({ client with heap := heap, in_ := in_ }.takeReply (stack fuel) packetSize).bind fun taken =>
          (replyLoop stack fuel taken.2).map (Prod.map (taken.1 ++ ·) id) := by
  rw [replyLoop, nextEq]
  simp only [some_bind]
  congr 1
  funext taken
  cases replyLoop stack fuel taken.2 <;> rfl

theorem Ready.replyLoop_scan (ready : Ready client inbox) (stack : Nat → Nat → Byte) (fuel : Nat) :
    match inbox.scan stack fuel with
    | .waiting later => ∃ events next,
        replyLoop stack fuel client = some (events, next) ∧ Ready next later ∧
        ∀ passing ∈ passings stack fuel client, passing.passed ≤ passing.remaining
    | _ => replyLoop stack fuel client = none ∨
        ∃ passing ∈ passings stack fuel client, ¬ passing.passed ≤ passing.remaining := by
  induction fuel generalizing client inbox with
  | zero => exact .inl rfl
  | succ fuel ih =>
    rw [Inbox.scan]
    by_cases announced : Announced inbox.left
    · rw [if_pos announced]
      obtain ⟨heap, in_, nextEq, sound, shrinks⟩ :=
        nextPacket_of_announced ready.sound (ready.left ▸ announced)
      have ready₁ := ready.act sound shrinks.frame
      have content : in_.content heap = inbox.left.drop 4 := by
        rw [← ready.left]
        exact shrinks.content
      rw [content] at ready₁
      rw [ready.left] at nextEq
      have round := ready₁.round (stack fuel) (whole_of_announced announced)
      have loopEq := replyLoop_of_next stack fuel nextEq
      cases roundEq : Inbox.round (stack fuel) (packetSize inbox.left)
          { inbox with left := inbox.left.drop 4 } with
      | none =>
        rw [roundEq] at round
        rcases round with failed | ⟨passing, passingEq, exceeds⟩
        · exact .inl (by rw [loopEq, failed, Option.bind_none])
        · exact .inr ⟨passing, by simp [passings, nextEq, passingEq], exceeds⟩
      | some later =>
        rw [roundEq] at round
        obtain ⟨first, next, takeEq, nextReady, firstPasses⟩ := round
        have rest := ih nextReady
        have passingsEq : passings stack (fuel + 1) client =
            ({ client with heap := heap, in_ := in_ }.passing (stack fuel)
              ((packetSize inbox.left).signExtend 64)).toList ++ passings stack fuel next := by
          simp only [passings, nextEq, takeEq]
        rw [loopEq, takeEq, Option.bind_some, passingsEq]
        simp only
        cases scanEq : Inbox.scan stack fuel later with
        | waiting last =>
          rw [scanEq] at rest
          obtain ⟨events, final, restEq, finalReady, restPasses⟩ := rest
          refine ⟨first ++ events, final, by rw [restEq]; rfl, finalReady, ?_⟩
          intro passing member
          rcases mem_append.mp member with now | then_
          · exact firstPasses passing (Option.mem_toList.mp now)
          · exact restPasses passing then_
        | poisoned | exhausted =>
          rw [scanEq] at rest
          rcases rest with failed | ⟨passing, member, exceeds⟩
          · exact .inl (by rw [failed]; rfl)
          · exact .inr ⟨passing, mem_append_right _ member, exceeds⟩
    · rw [if_neg announced]
      have nextEq := nextPacket_of_not_announced ready.sound (ready.left ▸ announced)
      have none_passed : passings stack (fuel + 1) client = [] := by
        simp only [passings, nextEq]
      refine ⟨[], client, ?_, ready, ?_⟩
      · simp only [replyLoop, nextEq, some_bind]
        rfl
      · rw [none_passed]
        exact forall_mem_nil _

theorem Ready.receive (ready : Ready client inbox) (wire : List Byte) (answers : List Int) :
    ∃ n results heap in_, client.in_.readFromFd client.heap wire answers =
        some (n, results, wire.drop n, heap, in_) ∧
      n ≤ wire.length ∧
      Ready { client with heap := heap, in_ := in_ }
        { inbox with left := inbox.left ++ wire.take n } := by
  obtain ⟨n, results, heap, in_, readEq, moves, sound, frame, content⟩ :=
    receive_eq ready.sound wire answers
  refine ⟨n, results, heap, in_, readEq, moves.le, ?_⟩
  rw [← ready.left, ← content]
  exact ready.act sound frame

theorem Ready.handleRead_scan (ready : Ready client inbox) (reading : Reading) :
    match inbox.afterRead (client.taken reading.incoming reading.answers) reading.stack with
    | .waiting later => ∃ events wire next,
        client.handleRead reading.incoming reading.answers reading.stack =
          some (events, wire, next) ∧ Ready next later ∧
        ∀ passing ∈ client.readPassings reading, passing.passed ≤ passing.remaining
    | _ =>
      client.handleRead reading.incoming reading.answers reading.stack = none ∨
      ∃ passing ∈ client.readPassings reading, ¬ passing.passed ≤ passing.remaining := by
  obtain ⟨n, results, heap, in_, readEq, enough, received⟩ :=
    ready.receive reading.incoming reading.answers
  have takenEq : client.taken reading.incoming reading.answers = reading.incoming.take n := by
    simp only [taken, readEq]
  have length : (reading.incoming.take n).length = n := length_take_of_le enough
  have fuel : in_.contentSize = (inbox.left ++ reading.incoming.take n).length := by
    rw [← received.sound.length_content, received.left]
  have passingsEq : client.readPassings reading = if toI32 n = 0 then [] else
      passings reading.stack (in_.contentSize + 1) { client with heap := heap, in_ := in_ } := by
    simp only [readPassings, readEq]
  rw [takenEq, Inbox.afterRead, length, passingsEq]
  simp only [Client.handleRead, readEq, some_bind]
  by_cases empty : toI32 n = 0
  · simp only [if_pos empty]
    exact ⟨_, _, _, rfl, received, forall_mem_nil _⟩
  · simp only [if_neg empty, fuel]
    have loop := received.replyLoop_scan reading.stack
      ((inbox.left ++ reading.incoming.take n).length + 1)
    cases scanEq : Inbox.scan reading.stack ((inbox.left ++ reading.incoming.take n).length + 1)
        { inbox with left := inbox.left ++ reading.incoming.take n } with
    | waiting later =>
      rw [scanEq] at loop
      obtain ⟨events, next, loopEq, nextReady, passes⟩ := loop
      exact ⟨events, reading.incoming.drop n, next, by rw [loopEq]; rfl, nextReady, passes⟩
    | poisoned | exhausted =>
      rw [scanEq] at loop
      exact loop.imp_left fun failed => by rw [failed]; rfl

theorem survives_read_iff (reading : Reading) (inputs : List ReplyInput) :
    client.Survives (.read reading :: inputs) ↔
      ∃ events wire next, client.handleRead reading.incoming reading.answers reading.stack =
          some (events, wire, next) ∧
        (∀ passing ∈ client.readPassings reading, passing.passed ≤ passing.remaining) ∧
        next.Survives inputs := by
  simp only [Survives, receiveAll, bind_eq_some_iff]
  constructor
  · rintro ⟨passings, last, ⟨⟨events, wire, next⟩, readEq, ⟨later, end_⟩, restEq, same⟩, passes⟩
    cases same
    exact ⟨events, wire, next, readEq,
      fun passing member => passes passing (mem_append_left _ member), later, end_, restEq,
      fun passing member => passes passing (mem_append_right _ member)⟩
  · rintro ⟨events, wire, next, readEq, now, later, last, restEq, passes⟩
    refine ⟨_, last, ⟨_, readEq, _, restEq, rfl⟩, ?_⟩
    intro passing member
    exact (mem_append.mp member).elim (now passing) (passes passing)

theorem not_survives_read {reading : Reading}
    (stops : client.handleRead reading.incoming reading.answers reading.stack = none ∨
      ∃ passing ∈ client.readPassings reading,
        ¬ passing.passed ≤ passing.remaining) (inputs : List ReplyInput) :
    ¬ client.Survives (.read reading :: inputs) := by
  rw [survives_read_iff]
  rintro ⟨events, wire, next, readEq, passes, -⟩
  rcases stops with failed | ⟨passing, member, exceeds⟩
  · exact nomatch failed.symm.trans readEq
  · exact exceeds (passes passing member)

theorem Ready.survives_iff (ready : Ready client inbox) (inputs : List ReplyInput) :
    client.Survives inputs ↔ inbox.Digestible (client.arrivals inputs) := by
  induction inputs generalizing client inbox with
  | nil => exact iff_of_true ⟨[], client, rfl, nofun⟩ trivial
  | cons input inputs ih =>
    cases input with
    | request xid => exact ih (ready.newFuture xid)
    | read reading =>
      have call := ready.handleRead_scan reading
      rw [arrivals, Inbox.Digestible]
      cases scanEq : inbox.afterRead (client.taken reading.incoming reading.answers)
          reading.stack with
      | waiting later =>
        rw [scanEq] at call
        obtain ⟨events, wire, next, readEq, nextReady, passes⟩ := call
        rw [survives_read_iff]
        simp only [readEq]
        rw [← ih nextReady]
        exact ⟨fun ⟨_, _, _, same, _, survives⟩ => by
            cases same
            exact survives,
          fun survives => ⟨events, wire, next, rfl, passes, survives⟩⟩
      | poisoned =>
        rw [scanEq] at call
        exact iff_of_false (not_survives_read call inputs) id
      | exhausted =>
        exact absurd scanEq (inbox.afterRead_ne_exhausted _ _)

end Client

open Client in
/-- A client survives a stream exactly if no reply it comes to is poisoned. -/
theorem tcp_client_survives_iff (heap : Heap) (inputs : List ReplyInput) :
    (Client.new heap).Survives inputs ↔
      Inbox.Digestible ⟨[], fun _ => false⟩ ((Client.new heap).arrivals inputs) :=
  (ready_new heap).survives_iff inputs

def answered (bytes : List Byte) : List ReplyInput :=
  [.request 0, .read ⟨bytes, [100], fun _ _ => 0⟩]

/-- A reply of no bytes, an error code in nine bytes and a reply of `-1` bytes
are fatal.  An id that is written in two bytes where one does takes a byte of
the reply behind it. -/
theorem malformed_reply_stops_client :
    (∀ bytes ∈ ([[0, 0, 0, 0], [2, 0, 0, 0, 0, 0xFF, 0, 0, 0, 0, 0, 0, 0, 0],
        [0xFF, 0xFF, 0xFF, 0xFF, 0, 0]] : List (List Byte)),
      ((Client.new blankHeap).receiveAll (answered bytes)).isNone) ∧
    ((Client.new blankHeap).receiveAll (answered [3, 0, 0, 0, 0x80, 0, 0, 5])).map Prod.fst =
        some [⟨1, 0⟩] := by
  decide +kernel

end SRPC.Tcp
