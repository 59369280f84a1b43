import SRPC.PollRegistrations
import SRPC.TcpReplies

/-!
# The write events of a TCP connection

A `TCPClient` or `TCPConnection` that ends a packet asks its poll thread for
`EPOLLOUT` events; `handle_write` gives them up when the output is empty.  Events
are edge-triggered.
-/

namespace SRPC.Tcp

open LittleEndian SparseInt Marshalling PacketStream TransitionRuns

/-- The sending half of a connection in the world of its poll thread. -/
structure PolledSender where
  world : Polling.World
  poll : Polling.Pollable
  sender : Sender
  /-- The socket can take bytes. -/
  writable : Bool
  /-- `epoll` has an `EPOLLOUT` event that has not been fetched. -/
  ready : Bool
  /-- The poll thread has fetched one that it has not handled. -/
  fetched : Bool

inductive OutputInput
  | beginRequest (xid : BitVec 64) (rpcId : BitVec 32)
  | beginReply (req : Request) (errorCode : BitVec 32)
  | put (type : WireType) (value : Value type)
  | endPacket
  /-- The socket has been full, or may take more. -/
  | becomesFull
  | becomesWritable
  | epollWait
  /-- The kernel takes some bytes several times and then none; whether it could
  have taken more if it was not asked, and whether the socket became writable in
  between. -/
  | handleWrite (answers : List Int) (room edge : Bool)

namespace PolledSender

def readWrite : Polling.Flags := Polling.read ||| Polling.write

/-- `poll_mode`. -/
def pollMode (sender : Sender) : Option Polling.Flags := do
  let empty ← sender.out.isEmpty sender.heap
  return if ¬empty then Polling.read ||| Polling.write else Polling.read

def register (world : Polling.World) (poll : Polling.Pollable) (sender : Sender)
    (writable : Bool) : Option PolledSender := do
  let mode ← pollMode sender
  let world ← world.add poll mode
  return ⟨world, poll, sender, writable,
    writable && decide (Polling.addEvents mode &&& Polling.epollOut ≠ 0), false⟩

/-- The registration asks for `EPOLLOUT` events. -/
def asksForOut (polled : PolledSender) : Bool :=
  match polled.world.epoll (polled.world.fd polled.poll) with
  | none => false
  | some registration => decide (registration.events &&& Polling.epollOut ≠ 0)

/-- `update_mode`.  A call of `epoll_ctl` looks at the socket anew. -/
def updateMode (polled : PolledSender) (newMode : Polling.Flags) :
    Option PolledSender := do
  let fd := polled.world.fd polled.poll
  let (_, modified) ← polled.world.thread.updateMode polled.poll newMode fd
  let world ← polled.world.updateMode polled.poll newMode
  let polled := { polled with world := world }
  return if modified = none then polled
    else { polled with ready := polled.writable && polled.asksForOut }

/-- A step that needs `out_l_` waits while another thread has it. -/
def locked (polled : PolledSender) (act : Option PolledSender) : Option PolledSender :=
  if polled.sender.outL then some polled else act

/-- A step of the thread that has `out_l_`. -/
def locking (polled : PolledSender) (act : Option PolledSender) : Option PolledSender :=
  if polled.sender.outL then act else some polled

def endPacket (polled : PolledSender) : Option PolledSender := do
  let sender ← polled.sender.endPacket
  { polled with sender := sender }.updateMode readWrite

def handleWrite (polled : PolledSender) (answers : List Int) (room edge : Bool) :
    Option PolledSender := do
  let (_, results, _, heap, out) ← polled.sender.out.writeToFd polled.sender.heap answers
  let empty ← out.isEmpty heap
  let polled := { polled with
    sender := { polled.sender with heap := heap, out := out }
    writable := if -1 ∈ results then false else room
    ready := polled.ready || (edge && polled.asksForOut) }
  if empty then polled.updateMode Polling.read else some polled

def next (polled : PolledSender) : OutputInput → Option PolledSender
  | .beginRequest xid rpcId => polled.locked
      ((beginRequest polled.sender xid rpcId).map fun sender =>
        { polled with sender := sender })
  | .beginReply req errorCode => polled.locked
      ((beginReply polled.sender req errorCode).map fun sender =>
        { polled with sender := sender })
  | .put type value => polled.locking
      ((polled.sender.put type value).map fun sender =>
        { polled with sender := sender })
  | .endPacket => polled.locking polled.endPacket
  | .becomesFull => some { polled with writable := false }
  | .becomesWritable => some { polled with
      writable := true
      ready := polled.ready || polled.asksForOut }
  | .epollWait =>
    if polled.fetched then some polled
    else some { polled with
      ready := false
      fetched := polled.ready && polled.writable }
  | .handleWrite answers room edge =>
    if polled.fetched then
      polled.locked ({ polled with fetched := false }.handleWrite answers room edge)
    else some polled

def step (polled : PolledSender) (input : OutputInput) : Option (List Unit × PolledSender) :=
  (polled.next input).map fun polled => ([], polled)

/-- A `write` that succeeds takes at least one byte. -/
def Lawful (_ : PolledSender) : OutputInput → Prop
  | .handleWrite answers _ _ => ∀ answer ∈ answers, 0 < answer
  | _ => True

/-- While no packet is being written, output that waits is waited for: write
events are asked for, and there is one to be handled unless the socket is full. -/
structure Flowing (polled : PolledSender) : Prop where
  waiting : polled.sender.outL = false →
    polled.sender.out.content polled.sender.heap ≠ [] →
    (∃ mode, polled.world.thread.mode (polled.world.fd polled.poll) = some mode ∧
      mode &&& Polling.write ≠ 0) ∧
    (polled.ready = true ∨ polled.fetched = true ∨ polled.writable = false)
  idle : polled.sender.outL = false →
    polled.sender.out.content polled.sender.heap = [] →
    polled.world.thread.mode (polled.world.fd polled.poll) = some Polling.read

section Flow

variable {polled : PolledSender} {queued : List Byte}
  {building : Option (List Byte)} {mode : Polling.Flags}

/-- Write events are wanted while there is something to write. -/
def modeFor (queued : List Byte) : Polling.Flags :=
  if queued = [] then Polling.read else readWrite

/-- The poll thread and epoll have this mode. -/
structure InMode (polled : PolledSender) (mode : Polling.Flags) : Prop where
  member : polled.poll ∈ polled.world.thread.pollSet
  recorded : polled.world.thread.mode (polled.world.fd polled.poll) = some mode
  found : polled.world.epoll (polled.world.fd polled.poll) =
    some ⟨polled.poll, Polling.modEvents mode⟩

/-- The mode is that of the bytes that are queued, and these are waited for. -/
structure Flow (polled : PolledSender) (queued : List Byte)
    (building : Option (List Byte)) : Prop where
  queues : polled.sender.Queues queued building
  inMode : polled.InMode (modeFor queued)
  waits : queued ≠ [] → polled.ready = true ∨ polled.fetched = true ∨ polled.writable = false

theorem InMode.asksForOut_eq (inMode : polled.InMode mode) :
    polled.asksForOut =
      decide (Polling.modEvents mode &&& Polling.epollOut ≠ 0) := by
  rw [asksForOut, inMode.found]

theorem InMode.asksForOut (inMode : polled.InMode (modeFor queued))
    (waiting : queued ≠ []) : polled.asksForOut = true := by
  rw [inMode.asksForOut_eq, modeFor, if_neg waiting]
  decide

theorem InMode.updateMode (inMode : polled.InMode mode) (newMode : Polling.Flags) :
    ∃ next, polled.updateMode newMode = some next ∧ next.InMode newMode ∧
      next.sender = polled.sender ∧ next.writable = polled.writable ∧
      next.fetched = polled.fetched ∧
      next.ready = if newMode = mode then polled.ready
        else polled.writable && next.asksForOut := by
  have updated := Polling.World.updateMode_eq inMode.member inMode.recorded inMode.found newMode
  obtain ⟨thread, threadEq⟩ : ∃ thread, polled.world.thread.updateMode polled.poll
      newMode (polled.world.fd polled.poll) =
        some (thread, if newMode ≠ mode then some newMode else none) := by
    rw [Polling.PollThread.updateMode, if_pos inMode.member, inMode.recorded]
    exact ⟨_, rfl⟩
  have inNewMode : ∀ ready, InMode { polled with
      world := { polled.world with
        thread := { polled.world.thread with
          mode := Function.update polled.world.thread.mode
            (polled.world.fd polled.poll) (some newMode) }
        epoll := Function.update polled.world.epoll (polled.world.fd polled.poll)
          (some ⟨polled.poll, Polling.modEvents newMode⟩) }
      ready := ready } newMode :=
    fun _ => ⟨inMode.member, Function.update_self _ _ _, Function.update_self _ _ _⟩
  rw [PolledSender.updateMode, threadEq]
  by_cases same : newMode = mode
  · rw [if_neg fun ne => ne same]
    simp only [some_bind, updated]
    exact ⟨_, rfl, inNewMode _, rfl, rfl, rfl, (if_pos same).symm⟩
  · rw [if_pos same]
    simp only [some_bind, updated]
    exact ⟨_, rfl, inNewMode _, rfl, rfl, rfl, (if_neg same).symm⟩

section

variable (flow : polled.Flow queued building)

include flow

theorem Flow.beginPacket {header : StateT (Heap × Marshal) Option Unit} {body : List Byte}
    (puts : Puts header body) :
    ∃ next building, polled.locked ((polled.sender.beginPacket header).map
      fun sender => { polled with sender := sender }) = some next ∧
        next.Flow queued building := by
  rw [locked]
  split
  · exact ⟨polled, building, rfl, flow⟩
  · rename_i free
    obtain ⟨_, idle⟩ := flow.queues.idle (Bool.eq_false_iff.mpr free)
    obtain ⟨sender, begun, opened⟩ := idle.beginPacket_eq puts
    rw [begun]
    exact ⟨_, some body, rfl, opened, ⟨flow.inMode.member, flow.inMode.recorded,
      flow.inMode.found⟩, flow.waits⟩

theorem Flow.put (type : WireType) (value : Value type) :
    ∃ next building, polled.locking ((polled.sender.put type value).map
      fun sender => { polled with sender := sender }) = some next ∧
        next.Flow queued building := by
  rw [locking]
  split
  · rename_i taken
    obtain ⟨body, _, opened⟩ := flow.queues.opened taken
    obtain ⟨sender, putEq, longer⟩ := opened.put_eq type value
    rw [putEq]
    exact ⟨_, some _, rfl, longer, ⟨flow.inMode.member, flow.inMode.recorded,
      flow.inMode.found⟩, flow.waits⟩
  · exact ⟨polled, building, rfl, flow⟩

theorem Flow.endPacket :
    ∃ next queued building, polled.locking polled.endPacket = some next ∧
      next.Flow queued building := by
  rw [locking]
  split
  · rename_i taken
    obtain ⟨body, _, opened⟩ := flow.queues.opened taken
    obtain ⟨sender, ended, idle⟩ := opened.endPacket_eq
    have inMode : InMode { polled with sender := sender } (modeFor queued) :=
      ⟨flow.inMode.member, flow.inMode.recorded, flow.inMode.found⟩
    obtain ⟨next, updated, inNewMode, senderEq, writable, fetched, ready⟩ :=
      inMode.updateMode readWrite
    have some : queued ++ frame body ≠ [] := by
      refine List.ne_nil_of_length_pos ?_
      rw [List.length_append, length_frame]
      omega
    have mode : modeFor (queued ++ frame body) = readWrite := if_neg some
    rw [PolledSender.endPacket, ended]
    refine ⟨next, queued ++ frame body, none, updated, ?_, by rwa [mode], ?_⟩
    · rw [senderEq]
      exact idle
    · intro _
      rw [ready, writable, fetched]
      split
      · rename_i same
        refine flow.waits ?_
        rintro rfl
        cases same
      · rw [← mode] at inNewMode
        rw [inNewMode.asksForOut some, Bool.and_true]
        cases polled.writable with
        | true => exact .inl rfl
        | false => exact .inr (.inr rfl)
  · exact ⟨polled, queued, building, rfl, flow⟩

theorem Flow.handleWrite {answers : List Int} (positive : ∀ answer ∈ answers, 0 < answer)
    (room edge : Bool) :
    ∃ next queued building, polled.locked
        ({ polled with fetched := false }.handleWrite answers room edge) = some next ∧
      next.Flow queued building := by
  rw [locked]
  split
  · exact ⟨polled, queued, building, rfl, flow⟩
  · rename_i free
    obtain ⟨_, idle⟩ := flow.queues.idle (Bool.eq_false_iff.mpr free)
    obtain ⟨n, results, heap, out, wrote, total, calls, sound, shrinks, written⟩ :=
      idle.sound.writeToFd_eq answers
    have left : out.content heap = queued.drop n := by
      rw [shrinks.content, idle.content]
    have refused : out.contentSize = 0 ∨ -1 ∈ results := by
      refine (calls.of_positive (fun _ => not_not.mp) positive).imp (fun all => ?_) And.left
      rw [← sound.length_content, shrinks.content, List.length_drop, total, all, Nat.sub_self]
    let sender := { polled.sender with heap := heap, out := out }
    have idleLeft : sender.Idle (queued.drop n) :=
      ⟨sound, left, written.trans idle.writeCnt, idle.bmark, idle.outL⟩
    let after : PolledSender := { polled with
      sender := sender
      writable := if -1 ∈ results then false else room
      ready := polled.ready || (edge && polled.asksForOut)
      fetched := false }
    have inMode : after.InMode (modeFor queued) :=
      ⟨flow.inMode.member, flow.inMode.recorded, flow.inMode.found⟩
    have length := sound.length_content
    rw [left] at length
    rw [PolledSender.handleWrite, wrote]
    simp only [some_bind, sound.isEmpty_eq]
    by_cases empty : out.contentSize = 0
    · -- Everything has been written, and write events are given up.
      have nothing : queued.drop n = [] := List.eq_nil_of_length_eq_zero (length.trans empty)
      obtain ⟨next, updated, inNewMode, senderEq, _⟩ := inMode.updateMode Polling.read
      rw [if_pos (beq_iff_eq.mpr empty)]
      refine ⟨next, [], none, updated, ?_, inNewMode, fun some => absurd rfl some⟩
      rw [senderEq, ← nothing]
      exact idleLeft
    · have some : queued ≠ [] := by
        rintro rfl
        rw [List.drop_nil, List.length_nil] at length
        exact empty length.symm
      have still : queued.drop n ≠ [] := by
        intro nothing
        rw [nothing, List.length_nil] at length
        exact empty length.symm
      have mode : modeFor queued = modeFor (queued.drop n) := by
        rw [modeFor, modeFor, if_neg some, if_neg still]
      rw [if_neg (by rwa [beq_iff_eq])]
      exact ⟨after, queued.drop n, none, rfl, idleLeft, mode ▸ inMode, fun _ =>
        .inr (.inr (if_pos (refused.resolve_left empty)))⟩

theorem Flow.becomesWritable :
    Flow { polled with
      writable := true
      ready := polled.ready || polled.asksForOut } queued building where
  queues := flow.queues
  inMode := ⟨flow.inMode.member, flow.inMode.recorded, flow.inMode.found⟩
  waits := by
    intro waiting
    refine .inl ?_
    dsimp only
    rw [flow.inMode.asksForOut waiting, Bool.or_true]

theorem Flow.epollWait (handled : polled.fetched = false) :
    Flow { polled with
      ready := false
      fetched := polled.ready && polled.writable } queued building where
  queues := flow.queues
  inMode := ⟨flow.inMode.member, flow.inMode.recorded, flow.inMode.found⟩
  waits := by
    intro waiting
    obtain ready | fetched | full := flow.waits waiting
    · cases writable : polled.writable with
      | false => exact .inr (.inr rfl)
      | true =>
        refine .inr (.inl ?_)
        rw [ready]
        rfl
    · rw [handled] at fetched
      cases fetched
    · exact .inr (.inr full)

/-- Every step keeps the mode in step with the output. -/
theorem Flow.next {input : OutputInput} (lawful : polled.Lawful input) :
    ∃ next queued building, polled.next input = some next ∧
      next.Flow queued building := by
  cases input with
  | beginRequest xid rpcId =>
    obtain ⟨next, building, nextEq, nextFlow⟩ := flow.beginPacket (beginRequest_puts xid rpcId)
    exact ⟨next, queued, building, nextEq, nextFlow⟩
  | beginReply req errorCode =>
    obtain ⟨next, building, nextEq, nextFlow⟩ :=
      flow.beginPacket (beginReply_puts req.xid errorCode)
    exact ⟨next, queued, building, nextEq, nextFlow⟩
  | put type value =>
    obtain ⟨next, building, nextEq, nextFlow⟩ := flow.put type value
    exact ⟨next, queued, building, nextEq, nextFlow⟩
  | endPacket => exact flow.endPacket
  | becomesFull =>
    exact ⟨_, queued, building, rfl, flow.queues, ⟨flow.inMode.member,
      flow.inMode.recorded, flow.inMode.found⟩, fun _ => .inr (.inr rfl)⟩
  | becomesWritable => exact ⟨_, queued, building, rfl, flow.becomesWritable⟩
  | epollWait =>
    rw [PolledSender.next]
    split
    · exact ⟨polled, queued, building, rfl, flow⟩
    · rename_i handled
      exact ⟨_, queued, building, rfl, flow.epollWait (Bool.eq_false_iff.mpr handled)⟩
  | handleWrite answers room edge =>
    rw [PolledSender.next]
    split
    · exact flow.handleWrite lawful room edge
    · exact ⟨polled, queued, building, rfl, flow⟩

theorem Flow.flowing : polled.Flowing := by
  constructor
  · intro free some
    obtain ⟨_, idle⟩ := flow.queues.idle free
    rw [idle.content] at some
    refine ⟨⟨modeFor queued, flow.inMode.recorded, ?_⟩, flow.waits some⟩
    rw [modeFor, if_neg some]
    decide
  · intro free none
    obtain ⟨_, idle⟩ := flow.queues.idle free
    rw [idle.content] at none
    rw [flow.inMode.recorded, modeFor, if_pos none]

end

theorem register_flow {world : Polling.World} {poll : Polling.Pollable}
    {sender : Sender} (idle : sender.Idle []) {writable : Bool}
    (registered : register world poll sender writable = some polled) : polled.Flow [] none := by
  have empty : sender.out.contentSize = 0 := by
    rw [← idle.sound.length_content, idle.content, List.length_nil]
  have mode : pollMode sender = some Polling.read := by
    rw [pollMode, idle.sound.isEmpty_eq, empty]
    rfl
  simp only [register, mode, some_bind] at registered
  obtain ⟨added, addEq, same⟩ := bind_eq_some_iff.mp registered
  cases same
  obtain ⟨member, fd, recorded, found⟩ := Polling.World.add_eq_some addEq
  rw [Polling.addEvents_eq (by decide)] at found
  refine ⟨idle, ⟨member, ?_, ?_⟩, fun some => absurd rfl some⟩
  · rw [fd]
    exact recorded
  · rw [fd]
    exact found

end Flow

/-- From a connection that was registered without output, whatever packets are
written and whatever the kernel takes and reports, no step fails and output never
stalls. -/
theorem output_never_stalls (world : Polling.World) (poll : Polling.Pollable)
    (sender : Sender) (idle : sender.Idle []) (writable : Bool) (start : PolledSender)
    (registered : register world poll sender writable = some start)
    (inputs : List OutputInput) (lawful : Admissible step Lawful start inputs) :
    ∃ log last, run step start inputs = some (log, last) ∧ last.Flowing := by
  have preserved : ∀ (log : List Unit) (polled : PolledSender) (input : OutputInput),
      (∃ queued building, polled.Flow queued building) → polled.Lawful input →
      ∃ outputs next, polled.step input = some (outputs, next) ∧
        ∃ queued building, next.Flow queued building := by
    rintro log polled input ⟨queued, building, flow⟩ law
    obtain ⟨next, queued, building, nextEq, nextFlow⟩ := flow.next law
    exact ⟨[], next, by rw [step, nextEq]; rfl, queued, building, nextFlow⟩
  obtain ⟨log, last, runEq, queued, building, flow⟩ :=
    run_of_admissible preserved [] ⟨[], none, register_flow idle registered⟩ inputs lawful
  exact ⟨log, last, runEq, flow.flowing⟩

def sampleInputs : List OutputInput :=
  [.beginRequest 1 7, .put (.scalar .i32) (5 : BitVec 32), .endPacket, .epollWait,
    .handleWrite [3] true false, .becomesWritable, .epollWait, .handleWrite [100] true true]

def sampleWorld : Polling.World := (Polling.World.new fun _ => 0).openFd 0 5

theorem output_never_stalls_sample :
    ∃ start log last, register sampleWorld 0 (Sender.new blankHeap) true = some start ∧
      run step start sampleInputs = some (log, last) ∧ last.Flowing := by
  obtain ⟨start, registered⟩ : ∃ start,
      register sampleWorld 0 (Sender.new blankHeap) true = some start := ⟨_, rfl⟩
  have lawful : Admissible step Lawful start sampleInputs := by
    refine admissible_of_forall start sampleInputs fun input member polled => ?_
    simp only [sampleInputs, List.mem_cons, List.not_mem_nil, or_false] at member
    rcases member with rfl | rfl | rfl | rfl | rfl | rfl | rfl | rfl
    all_goals simp [Lawful]
  obtain ⟨log, last, runEq, flowing⟩ := output_never_stalls sampleWorld 0
    (Sender.new blankHeap) (Sender.idle_new blankHeap) true start registered sampleInputs lawful
  exact ⟨start, log, last, registered, runEq, flowing⟩

end PolledSender

end SRPC.Tcp
