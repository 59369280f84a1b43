import SRPC.TcpRequests

/-!
# Framing of TCP requests

The packets that are neither extracted nor being written lie, one behind the
other, in the input of the server, on the wire and in the output of the client.
-/

namespace SRPC.Tcp

open LittleEndian SparseInt Marshalling PacketStream TransitionRuns List

/-- The requests `complete` have been extracted, the requests `coming` are on
their way.  Of a request the handlers have `unread` a last part. -/
structure InTransit (path : RequestPath) (issued : Issued)
    (complete coming unread : List Call) (arrived queued : List Byte) : Prop where
  calls : issued.calls = complete ++ coming
  small : ∀ call ∈ issued.calls, call.body.length < 2 ^ 31
  queues : path.client.Queues queued (issued.building.map Call.body)
  xidCounter : path.xidCounter = BitVec.ofNat 64
    (issued.calls.length + issued.building.toList.length)
  holds : path.server.Holds arrived unread
  unread : List.Forall₂ (fun left call => left.xid = call.xid ∧ left.rest <:+ call.rest)
    unread complete
  stream : arrived ++ path.wire ++ queued = frames (coming.map Call.body)

/-- The marshal of a request has what follows the id in these bytes. -/
def Carried (heap : Heap) (request : Request) (body : List Byte) : Prop :=
  ∃ xid, body = writeV64 xid ++ request.m.content heap ∧ (¬ LosesByte xid → request.xid = xid)

theorem beginRequest_puts (xid : BitVec 64) (rpcId : BitVec 32) :
    Puts (do putV64 xid; Marshalling.put (.scalar .i32) rpcId) (writeV64 xid ++ toBytes 4 rpcId) :=
  (Puts.bytes (writeV64_ne_nil xid)).andThen (put_puts (.scalar .i32) rpcId)

namespace InTransit

variable {path : RequestPath} {issued : Issued}
  {complete coming unread : List Call} {arrived queued : List Byte}

theorem new (clientHeap serverHeap : Heap) :
    InTransit (RequestPath.new clientHeap serverHeap) Issued.nothing [] [] [] [] [] where
  calls := rfl
  small := by simp [Issued.nothing]
  queues := Sender.idle_new clientHeap
  xidCounter := rfl
  holds := Connection.holds_new serverHeap
  unread := .nil
  stream := rfl

theorem idle (transit : InTransit path issued complete coming unread arrived queued)
    (free : path.client.outL = false) : issued.building = none ∧ path.client.Idle queued := by
  obtain ⟨none, idle⟩ := transit.queues.idle free
  exact ⟨Option.map_eq_none_iff.mp none, idle⟩

theorem opened (transit : InTransit path issued complete coming unread arrived queued)
    (taken : path.client.outL = true) :
    ∃ call, issued.building = some call ∧
      path.client.Open queued call.body := by
  obtain ⟨body, some, opened⟩ := transit.queues.opened taken
  obtain ⟨call, building, rfl⟩ := Option.map_eq_some_iff.mp some
  exact ⟨call, building, opened⟩

end InTransit

/-- The requests that a step adds to those of the server have these bytes. -/
def Adds (path next : RequestPath) (bodies : List (List Byte)) : Prop :=
  List.Forall₂ (Carried next.server.heap)
    (next.server.requests.drop path.server.requests.length) bodies

theorem adds_nothing {path next : RequestPath}
    (same : next.server.requests.length = path.server.requests.length) : Adds path next [] := by
  rw [Adds, drop_of_length_le same.le]
  exact .nil

/-- The path takes this input and delivers more of the requests. -/
def Proceeds (path : RequestPath) (issued : Issued) (complete : List Call)
    (input : RequestInput) : Prop :=
  ∃ path' more coming unread arrived queued,
    path.step input = some (more.map Call.body, path') ∧ path.Moves path' input ∧
      Adds path path' (more.map Call.body) ∧
        InTransit path' (issued.next input) (complete ++ more) coming unread arrived queued

section Steps

variable {path : RequestPath} {issued : Issued}
  {complete coming unread : List Call} {arrived queued : List Byte}

section

variable (transit : InTransit path issued complete coming unread arrived queued)

include transit

theorem beginRequest_proceeds (free : path.client.outL = false) (rpcId : BitVec 32) :
    Proceeds path issued complete (.beginRequest rpcId) := by
  obtain ⟨none, idle⟩ := transit.idle free
  have xid := transit.xidCounter
  rw [none, Option.toList_none, length_nil, Nat.add_zero] at xid
  obtain ⟨client', beginEq, opened⟩ := idle.beginPacket_eq (beginRequest_puts path.xidCounter rpcId)
  refine ⟨{ path with
      client := client'
      xidCounter := path.xidCounter + 1 }, [], coming, unread, arrived,
    queued, ?_, ⟨rfl, rfl⟩, adds_nothing rfl, ?_⟩
  · simp only [RequestPath.step, beginRequest, beginEq, some_bind]
    rfl
  · rw [append_nil]
    refine ⟨transit.calls, transit.small, ?_, ?_, transit.holds, transit.unread, transit.stream⟩
    · rw [xid] at opened
      exact opened
    · show path.xidCounter + 1 = _
      rw [xid]
      exact (BitVec.ofNat_add _ _).symm

theorem put_proceeds (taken : path.client.outL = true) (type : WireType) (value : Value type) :
    Proceeds path issued complete (.put type value) := by
  obtain ⟨call, building, opened⟩ := transit.opened taken
  obtain ⟨client', putEq, opened'⟩ := opened.put_eq type value
  refine ⟨{ path with client := client' }, [], coming, unread, arrived,
    queued, ?_, ⟨rfl, rfl⟩, adds_nothing rfl, ?_⟩
  · simp only [RequestPath.step, putEq, some_bind]
    rfl
  · rw [append_nil]
    refine ⟨transit.calls, transit.small, ?_, ?_, transit.holds, transit.unread, transit.stream⟩
    · rw [Issued.next, building]
      simpa [Call.body, Sender.Queues] using opened'
    · rw [transit.xidCounter, Issued.next, building]
      rfl

theorem endRequest_proceeds (taken : path.client.outL = true)
    (short : ∀ call ∈ issued.building, call.body.length < 2 ^ 31) :
    Proceeds path issued complete .endRequest := by
  obtain ⟨call, building, opened⟩ := transit.opened taken
  obtain ⟨client', endEq, idle⟩ := opened.endPacket_eq
  refine ⟨{ path with client := client' }, [], coming ++ [call], unread,
    arrived, queued ++ frame call.body, ?_, ⟨rfl, rfl⟩, adds_nothing rfl, ?_⟩
  · simp only [RequestPath.step, endRequest, endEq, some_bind]
    rfl
  · rw [append_nil, Issued.next, building, Option.toList_some]
    refine ⟨?_, ?_, idle, ?_, transit.holds, transit.unread, ?_⟩
    · simp only [transit.calls, append_assoc]
    · exact forall_mem_concat transit.small (short call building)
    · rw [transit.xidCounter, building]
      simp
    · rw [← append_assoc, transit.stream, map_append, frames_append]
      simp

theorem handleWrite_proceeds (free : path.client.outL = false) (answers : List Int) :
    Proceeds path issued complete (.handleWrite answers) := by
  obtain ⟨none, idle⟩ := transit.idle free
  obtain ⟨n, client', writeEq, moves, idle'⟩ := idle.handleWrite_eq answers
  have content : path.outBytes = queued := idle.content
  refine ⟨{ path with
      client := client'
      wire := path.wire ++ queued.take n }, [], coming, unread, arrived,
    queued.drop n, ?_, ⟨rfl, n, content ▸ moves, by rw [content]⟩, adds_nothing rfl, ?_⟩
  · simp only [RequestPath.step, writeEq, some_bind]
    rfl
  · rw [append_nil]
    refine ⟨transit.calls, transit.small, ?_, transit.xidCounter, transit.holds, transit.unread, ?_⟩
    · show client'.Queues (queued.drop n) (issued.building.map Call.body)
      rw [none]
      exact idle'
    · rw [← transit.stream]
      simp

theorem handleRead_proceeds (answers : List Int) (stack : Nat → Nat → Byte) :
    Proceeds path issued complete (.handleRead answers stack) := by
  have small : ∀ call ∈ coming, call.body.length < 2 ^ 31 := by
    intro call member
    refine transit.small call ?_
    rw [transit.calls]
    exact mem_append_right _ member
  obtain ⟨n, more, rest, left, server', rfl, readEq, holds', stream, reads⟩ :=
    transit.holds.handleRead_eq transit.stream small answers stack
  rw [← transit.holds.content, ← holds'.content] at reads
  refine ⟨{ path with wire := path.wire.drop n, server := server' },
    more, rest, unread ++ more, left, queued, ?_, ⟨n, rfl, reads⟩, ?_, ?_⟩
  · simp only [RequestPath.step, readEq, some_bind]
    rfl
  · have fresh := forall₂_drop unread.length holds'.requests
    rw [drop_left, ← transit.holds.requests.length_eq] at fresh
    rw [Adds, forall₂_map_right_iff]
    exact fresh.imp fun request call carries =>
      ⟨call.xid, by rw [carries.content]; rfl, carries.xid⟩
  · refine ⟨?_, transit.small, transit.queues, transit.xidCounter, holds', ?_, stream⟩
    · rw [append_assoc]
      exact transit.calls
    · refine rel_append transit.unread ?_
      exact forall₂_same.mpr fun call _ => ⟨rfl, suffix_refl _⟩

end

variable {index : Nat} {input : RequestInput}

section

variable (transit : InTransit path issued complete coming unread arrived queued)

include transit

theorem replace_proceeds (same : issued.next input = issued) {left : Call} (left' : Call)
    (found : unread[index]? = some left) (xid : left'.xid = left.xid)
    (rest : left'.rest <:+ left.rest) {server' : Connection}
    (stepEq : path.step input = some ([], { path with server := server' }))
    (holds : server'.Holds arrived (unread.set index left'))
    (moves : RequestPath.inBytes { path with server := server' } = path.inBytes →
      path.Moves { path with server := server' } input) : Proceeds path issued complete input := by
  have quiet : path.Moves { path with server := server' } input :=
    moves (holds.content.trans transit.holds.content.symm)
  have count : server'.requests.length = path.server.requests.length := by
    rw [holds.requests.length_eq, length_set, transit.holds.requests.length_eq]
  refine ⟨{ path with server := server' }, [], coming,
    unread.set index left', arrived, queued, stepEq, quiet, adds_nothing count, ?_⟩
  rw [append_nil, same]
  refine ⟨transit.calls, transit.small, transit.queues, transit.xidCounter,
    holds, ?_, transit.stream⟩
  have before := forall₂_iff_get.mp transit.unread
  rw [forall₂_iff_get]
  refine ⟨by rw [length_set]; exact before.1, ?_⟩
  intro i inside within
  rw [length_set] at inside
  have old := before.2 i inside within
  simp only [get_eq_getElem, getElem_set] at old ⊢
  split
  · rename_i here
    subst here
    obtain ⟨_, atIndex⟩ := List.getElem?_eq_some_iff.mp found
    rw [atIndex] at old
    exact ⟨xid.trans old.1, rest.trans old.2⟩
  · exact old

theorem readRequest_proceeds (given : index < path.server.requests.length) (n : Nat) :
    Proceeds path issued complete (.readRequest index n) := by
  have inside : index < unread.length := by
    rw [← transit.holds.requests.length_eq]
    exact given
  have found := getElem?_eq_getElem inside
  obtain ⟨server', readEq, holds⟩ := transit.holds.readRequest_eq found n
  refine replace_proceeds transit rfl
    { unread[index] with rest := unread[index].rest.drop n } found rfl
    (drop_suffix n _) ?_ holds (⟨·, rfl⟩)
  simp only [RequestPath.step, readEq, some_bind]
  rfl

theorem deleteRequest_proceeds (given : index < path.server.requests.length) :
    Proceeds path issued complete (.deleteRequest index) := by
  have inside : index < unread.length := by
    rw [← transit.holds.requests.length_eq]
    exact given
  have found := getElem?_eq_getElem inside
  obtain ⟨server', deleteEq, holds⟩ := transit.holds.deleteRequest_eq found
  refine replace_proceeds transit rfl { unread[index] with rest := [] } found
    rfl nil_suffix ?_ holds (⟨·, rfl⟩)
  simp only [RequestPath.step, deleteEq, some_bind]
  rfl

theorem step_proceeds (allowed : issued.Allows path input) :
    Proceeds path issued complete input := by
  cases input with
  | beginRequest rpcId => exact beginRequest_proceeds transit allowed rpcId
  | put type value => exact put_proceeds transit allowed type value
  | endRequest => exact endRequest_proceeds transit allowed.1 allowed.2
  | handleWrite answers => exact handleWrite_proceeds transit allowed answers
  | handleRead answers stack => exact handleRead_proceeds transit answers stack
  | readRequest index n => exact readRequest_proceeds transit allowed n
  | deleteRequest index => exact deleteRequest_proceeds transit allowed

end

end Steps

/-- A step, recorded in what was issued. -/
def requestStep (state : RequestPath × Issued) (input : RequestInput) :
    Option (List (List Byte) × RequestPath × Issued) := do
  let (bodies, path) ← state.1.step input
  return (bodies, path, state.2.next input)

/-- The log has the bodies of the requests extracted so far. -/
def Delivering (log : List (List Byte)) (state : RequestPath × Issued) : Prop :=
  ∃ complete coming unread arrived queued, log = complete.map Call.body ∧
    InTransit state.1 state.2 complete coming unread arrived queued

theorem requestStep_delivers (log : List (List Byte))
    (state : RequestPath × Issued) (input : RequestInput) (delivering : Delivering log state)
    (allowed : state.2.Allows state.1 input) :
    ∃ bodies next, requestStep state input = some (bodies, next) ∧
      Delivering (log ++ bodies) next := by
  obtain ⟨complete, coming, unread, arrived, queued, rfl, transit⟩ := delivering
  obtain ⟨path', more, coming', unread', arrived', queued', stepEq, -, -, transit'⟩ :=
    step_proceeds transit allowed
  refine ⟨_, (path', state.2.next input), ?_, complete ++ more, coming',
    unread', arrived', queued', map_append.symm, transit'⟩
  simp [requestStep, stepEq]

theorem InTransit.outContent {path : RequestPath} {issued : Issued}
    {complete coming unread : List Call} {arrived queued : List Byte}
    (transit : InTransit path issued complete coming unread arrived queued) :
    match issued.building with
    | none => path.client.out.content path.client.heap = queued
    | some call => ∃ reserved, reserved.length = 4 ∧
        path.client.out.content path.client.heap = queued ++ reserved ++ call.body := by
  have queues := transit.queues
  cases building : issued.building with
  | none =>
    rw [building] at queues
    exact Sender.Idle.content queues
  | some call =>
    rw [building] at queues
    exact Sender.Open.content queues

theorem requestStep_counts (log : List (List Byte)) (state : RequestPath × Issued)
    (input : RequestInput) (bodies : List (List Byte)) (next : RequestPath × Issued)
    (delivering : Delivering log state) (allowed : state.2.Allows state.1 input)
    (waiting : ¬ Complete state.1.inBytes)
    (stepEq : requestStep state input = some (bodies, next)) :
    ¬ Complete next.1.inBytes ↔ state.1.Counts input := by
  obtain ⟨complete, coming, unread, arrived, queued, -, transit⟩ := delivering
  obtain ⟨path', more, rest, unread', left, queued', pathEq, moves, -, transit'⟩ :=
    step_proceeds transit allowed
  simp only [requestStep, pathEq, some_bind] at stepEq
  cases stepEq
  cases input with
  | handleRead answers stack =>
    obtain ⟨n, wire, reads⟩ := moves
    have stream : path'.inBytes ++ (path'.wire ++ queued') = frames (rest.map Call.body) := by
      rw [← append_assoc, RequestPath.inBytes, transit'.holds.content]
      exact transit'.stream
    have small : ∀ body ∈ rest.map Call.body, body.length < 2 ^ 31 := by
      refine forall_mem_map.mpr fun call member => transit'.small call ?_
      rw [transit'.calls]
      exact mem_append_right _ member
    rw [reads.not_complete_iff waiting stream small, RequestPath.Counts, pathEq, ← wire]
    simp
  | _ => exact iff_of_true (moves.1 ▸ waiting) trivial

/-- In every run no assertion fails, the server extracts a first part of the
issued requests with exactly their bytes, and the packets of all others lie in
order in its input, on the wire and in the output of the client.  Each further
step moves the bytes that the kernel lets it move, and the requests that it adds
to those of the server carry their bytes.  No complete packet is left in the
input exactly if `handle_read` never counts the bytes it has read as none; then,
when nothing else is on its way, every request has been extracted. -/
theorem tcp_request_framing (clientHeap serverHeap : Heap) (inputs : List RequestInput)
    (allowed : Admissible requestStep (fun state input => state.2.Allows state.1 input)
      (RequestPath.new clientHeap serverHeap, Issued.nothing) inputs) :
    ∃ log path issued, run requestStep
        (RequestPath.new clientHeap serverHeap, Issued.nothing) inputs = some (log, path, issued) ∧
      (∃ rest, issued.calls.map Call.body = log ++ rest ∧
        ∃ queued, path.inBytes ++ path.wire ++ queued = frames rest ∧
          match issued.building with
          | none => path.outBytes = queued
          | some call => ∃ reserved, reserved.length = 4 ∧
              path.outBytes = queued ++ reserved ++ call.body) ∧
      (∀ input, issued.Allows path input → ∃ bodies next,
        path.step input = some (bodies, next) ∧ path.Moves next input ∧ Adds path next bodies) ∧
      ((∀ first second, inputs = first ++ second → ∃ log last, run requestStep
          (RequestPath.new clientHeap serverHeap, Issued.nothing) first = some (log, last) ∧
            ¬ Complete last.1.inBytes) ↔
        Admissible requestStep (fun state input => state.1.Counts input)
          (RequestPath.new clientHeap serverHeap, Issued.nothing) inputs) ∧
      (Admissible requestStep (fun state input => state.1.Counts input)
          (RequestPath.new clientHeap serverHeap, Issued.nothing) inputs →
        path.wire = [] → path.outBytes = [] → log = issued.calls.map Call.body) := by
  have start : Delivering [] (RequestPath.new clientHeap serverHeap, Issued.nothing) :=
    ⟨[], [], [], [], [], rfl, InTransit.new clientHeap serverHeap⟩
  obtain ⟨log, ⟨path, issued⟩, runEq, complete, coming, unread, arrived, queued, logEq, transit⟩ :=
    run_of_admissible requestStep_delivers [] start inputs allowed
  rw [nil_append] at logEq
  have calls : issued.calls.map Call.body = log ++ coming.map Call.body := by
    rw [transit.calls, map_append, logEq]
  have stream : path.inBytes ++ path.wire ++ queued = frames (coming.map Call.body) := by
    rw [RequestPath.inBytes, transit.holds.content]
    exact transit.stream
  have counted := intact_iff_of_preserved requestStep_delivers requestStep_counts []
    start (show ¬ Complete [] by decide) inputs allowed
  refine ⟨log, path, issued, runEq, ⟨_, calls, queued, stream, transit.outContent⟩, ?_, counted, ?_⟩
  · intro input accepted
    obtain ⟨next, more, -, -, -, -, stepEq, moves, adds, -⟩ := step_proceeds transit accepted
    exact ⟨_, next, stepEq, moves, adds⟩
  · intro counts noWire nothing
    obtain ⟨_, last, lastEq, waiting⟩ := counted.mpr counts inputs [] (append_nil _).symm
    cases lastEq.symm.trans runEq
    rw [noWire, transit.queues.eq_nil nothing, append_nil, append_nil] at stream
    rw [calls, eq_nil_of_not_complete stream waiting, append_nil]

def sampleRequests : List RequestInput :=
  [.beginRequest 7, .put (.scalar .u8) (5#8), .endRequest,
    .handleWrite [3, -1], .handleRead [3] (fun _ _ => 0xA5), .beginRequest 9,
    .endRequest, .handleWrite [100], .handleRead [2, 100] (fun _ _ => 0xA5),
    .readRequest 0 4, .deleteRequest 1]

theorem tcp_request_framing_sample :
    ∃ log path issued, run requestStep
        (RequestPath.new blankHeap blankHeap, Issued.nothing) sampleRequests =
          some (log, path, issued) ∧
      path.wire = [] ∧ path.outBytes = [] ∧
        log = issued.calls.map Call.body ∧ log = [[0, 7, 0, 0, 0, 5], [1, 9, 0, 0, 0]] := by
  obtain ⟨log, path, issued, runEq, -, -, -, all⟩ :=
    tcp_request_framing blankHeap blankHeap sampleRequests (by decide +kernel)
  have final : (run requestStep (RequestPath.new blankHeap blankHeap, Issued.nothing)
      sampleRequests).map (fun result => (result.1, result.2.1.wire, result.2.1.outBytes)) =
        some ([[0, 7, 0, 0, 0, 5], [1, 9, 0, 0, 0]], [], []) := by
    decide +kernel
  rw [runEq, Option.map_some, Option.some_inj, Prod.mk.injEq, Prod.mk.injEq] at final
  obtain ⟨logEq, noWire, nothing⟩ := final
  exact ⟨log, path, issued, runEq, noWire, nothing, all (by decide +kernel) noWire nothing, logEq⟩

end SRPC.Tcp
