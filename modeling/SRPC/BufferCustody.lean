import SRPC.EventLoop

/-!
# No received buffer is lost

Every buffer that the event loop receives is to be transmitted, queued for a
connection or freed.  Session packets, packets of an unknown type and requests of
an unknown kind are left where they are.
-/

namespace SRPC.Dpdk

open LittleEndian TransitionRuns List

namespace EventLoop

variable {network : Network} {loop next : EventLoop} {packet : RxPacket} {answers : Nat → Bool}

/-- With those that are lost all received buffers are accounted for, and nothing
is left to be transmitted when a burst is received. -/
structure Accounted (loop : EventLoop) : Prop where
  counts : ∀ mbuf, loop.received.count mbuf = loop.held.count mbuf + loop.lost.count mbuf
  idle : loop.phase = .receiving → loop.txBufs = []

theorem accounted_start (threadId numThreads : Nat) (serving : Bool) (handlers : BitVec 32 → Bool) :
    Accounted (start threadId numThreads serving handlers) where
  counts := fun _ => rfl
  idle := fun _ => rfl

theorem Accounted.conserved_iff (accounted : Accounted loop) : loop.Conserved ↔ loop.lost = [] := by
  rw [Conserved, perm_iff_count]
  constructor
  · intro same
    refine eq_nil_iff_forall_not_mem.mpr fun mbuf => ?_
    rw [← count_eq_zero]
    have total := accounted.counts mbuf
    rw [same mbuf] at total
    omega
  · intro none mbuf
    have total := accounted.counts mbuf
    rw [none, count_nil] at total
    exact total

theorem count_held (loop : EventLoop) (mbuf : Nat) :
    loop.held.count mbuf = loop.pending.count mbuf + loop.txBufs.count mbuf +
      (loop.queued.map Prod.snd).count mbuf + loop.freed.count mbuf +
        loop.transmitted.count mbuf := by
  simp only [held, count_append]

/-- The step puts the buffer in one place, or loses it. -/
structure Places (loop : EventLoop) (mbuf : Nat) (next : EventLoop) : Prop where
  phase : next.phase = loop.phase
  received : next.received = loop.received
  counts : ∀ other, next.held.count other + next.lost.count other =
    loop.held.count other + loop.lost.count other + [mbuf].count other
  lost : ∃ more, next.lost = loop.lost ++ more

theorem manage_eq {input : HostInput} (managed : loop.manage network input = some next) :
    ∃ host sconn, next = { loop with host := host, sconn := sconn } := by
  simp only [manage, bind_eq_some_iff] at managed
  obtain ⟨⟨sent, host⟩, -, same⟩ := managed
  cases same
  exact ⟨_, _, rfl⟩

theorem places_free (loop : EventLoop) (mbuf : Nat) : Places loop mbuf (loop.free mbuf).drop where
  phase := rfl
  received := rfl
  counts := by
    intro other
    simp only [count_held, free, drop, pending, count_append]
    omega
  lost := ⟨[], (append_nil _).symm⟩

theorem places_lose {mbuf : Nat} {host : Host} {sconn : Nat → Bool} {dropped : Nat} :
    Places loop mbuf { loop with
      host := host
      sconn := sconn
      droppedPackets := dropped
      lost := loop.lost ++ [mbuf] } where
  phase := rfl
  received := rfl
  counts := by
    intro other
    simp only [count_held, pending, count_append]
    omega
  lost := ⟨[mbuf], rfl⟩

theorem places_dispatch (dispatched : loop.dispatch answers packet = some next) :
    Places loop packet.mbuf next := by
  rw [dispatch] at dispatched
  split at dispatched
  · cases dispatched
    exact places_free loop packet.mbuf
  · rename_i index found
    split at dispatched
    · split at dispatched
      · cases dispatched
        refine ⟨rfl, rfl, fun other => ?_, [], (append_nil _).symm⟩
        simp only [count_held, pending, count_append]
        omega
      · cases dispatched
    · split at dispatched
      · split at dispatched
        · cases dispatched
          refine ⟨rfl, rfl, fun other => ?_, [], (append_nil _).symm⟩
          simp only [count_held, pending, map_append, map_singleton, count_append]
          omega
        · cases dispatched
          exact places_free loop packet.mbuf
      · cases dispatched
        exact places_lose

theorem processPacket_low (low : ¬ PktType.rr ≤ packet.pktType)
    (processed : loop.processPacket network answers packet = some next) :
    ∃ host sconn dropped, next = { loop with
      host := host
      sconn := sconn
      droppedPackets := dropped
      lost := loop.lost ++ [packet.mbuf] } := by
  rw [processPacket, if_neg low] at processed
  split at processed
  · obtain ⟨managed, managedEq, rfl⟩ := Option.map_eq_some_iff.mp processed
    have unchanged : ∃ host sconn, managed = { loop with host := host, sconn := sconn } := by
      rw [processSession] at managedEq
      split at managedEq
      · exact manage_eq managedEq
      · split at managedEq
        · exact manage_eq managedEq
        · cases managedEq
          exact ⟨_, _, rfl⟩
    obtain ⟨host, sconn, rfl⟩ := unchanged
    exact ⟨host, sconn, loop.droppedPackets, rfl⟩
  · cases processed
    exact ⟨_, _, _, rfl⟩

theorem places_processPacket (processed : loop.processPacket network answers packet = some next) :
    Places loop packet.mbuf next := by
  by_cases high : PktType.rr ≤ packet.pktType
  · rw [processPacket, if_pos high] at processed
    exact places_dispatch processed
  · obtain ⟨host, sconn, dropped, rfl⟩ := processPacket_low high processed
    exact places_lose

theorem processPacket_of_handles (handles : loop.Handles packet)
    (network : Network) (answers : Nat → Bool) :
    ∃ next, loop.processPacket network answers packet = some next ∧
      next.lost = loop.lost := by
  obtain ⟨high, known⟩ := handles
  rw [processPacket, if_pos high, dispatch]
  cases found : loop.outConnections packet.connId with
  | none => exact ⟨_, rfl, rfl⟩
  | some index =>
    simp only
    rcases known index found with ⟨single, handler, server⟩ | background
    · rw [if_pos single, handler, server]
      exact ⟨_, rfl, rfl⟩
    · have other : packet.pktType ≠ PktType.rr := by
        rw [background]
        decide
      rw [if_neg other, if_pos background]
      split
      · exact ⟨_, rfl, rfl⟩
      · exact ⟨_, rfl, rfl⟩

theorem lost_of_not_handles (unhandled : ¬ loop.Handles packet)
    (processed : loop.processPacket network answers packet = some next) :
    next.lost = loop.lost ++ [packet.mbuf] := by
  by_cases high : PktType.rr ≤ packet.pktType
  · rw [processPacket, if_pos high, dispatch] at processed
    cases found : loop.outConnections packet.connId with
    | none =>
      refine absurd ⟨high, ?_⟩ unhandled
      rw [found]
      exact nofun
    | some index =>
      have other : ¬ ((packet.pktType = PktType.rr ∧
          loop.handlers packet.rpcId = true ∧ loop.sconn index = true) ∨
            packet.pktType = PktType.rrBg) := by
        intro handled
        refine unhandled ⟨high, fun place placeEq => ?_⟩
        rw [found] at placeEq
        cases placeEq
        exact handled
      rw [not_or] at other
      rw [found] at processed
      simp only [if_neg other.2] at processed
      split at processed
      · rename_i single
        split at processed
        · rename_i handled
          rw [Bool.and_eq_true] at handled
          exact absurd ⟨single, handled⟩ other.1
        · cases processed
      · cases processed
        rfl
  · obtain ⟨host, sconn, dropped, rfl⟩ := processPacket_low high processed
    rfl

theorem count_dequeueBurst (conn count : Nat) (queued : List (Nat × Nat)) (mbuf : Nat) :
    (queued.map Prod.snd).count mbuf = (dequeueBurst conn count queued).1.count mbuf +
        ((dequeueBurst conn count queued).2.map Prod.snd).count mbuf := by
  fun_induction dequeueBurst conn count queued with
  | case1 queued => simp
  | case2 count => simp
  | case3 count mbuf' queued taken rest result ih =>
    rw [result] at ih
    simp only [map_cons, count_cons, ih]
    omega
  | case4 count index mbuf' queued apart taken rest result ih =>
    rw [result] at ih
    simp only [map_cons, count_cons, ih]
    omega

theorem Accounted.process (accounted : Accounted loop) {rest : List RxPacket}
    (phase : loop.phase = .processing (packet :: rest)) (places : Places loop packet.mbuf next) :
    Accounted { next with phase := .processing rest } where
  counts := by
    intro mbuf
    have total := accounted.counts mbuf
    have moved := places.counts mbuf
    rw [← places.received] at total
    have nextPhase := places.phase.trans phase
    simp only [count_held, pending, nextPhase, phase, map_cons,
      count_cons, count_nil] at total moved ⊢
    omega
  idle := nofun

theorem Accounted.receive (accounted : Accounted loop)
    (phase : loop.phase = .receiving) (burst : List RxPacket) :
    Accounted { loop with
      phase := .processing burst
      received := loop.received ++ burst.map RxPacket.mbuf
      txBufs := if burst.isEmpty then loop.txBufs else [] } where
  counts := by
    intro mbuf
    have total := accounted.counts mbuf
    rw [count_held] at total ⊢
    simp only [pending, phase, accounted.idle phase, count_append, count_nil, ite_self] at total ⊢
    omega
  idle := nofun

theorem Accounted.transmit (accounted : Accounted loop) (phase : loop.phase = .transmitting) :
    Accounted { loop with
      phase := .receiving
      transmitted := loop.transmitted ++ loop.txBufs
      txBufs := [] } where
  counts := by
    intro mbuf
    have total := accounted.counts mbuf
    rw [count_held] at total ⊢
    simp only [pending, phase, count_append, count_nil] at total ⊢
    omega
  idle := fun _ => rfl

theorem Accounted.consume (accounted : Accounted loop) (conn count : Nat) :
    Accounted { loop with
      queued := (dequeueBurst conn count loop.queued).2
      freed := loop.freed ++ (dequeueBurst conn count loop.queued).1 } where
  counts := by
    intro mbuf
    have total := accounted.counts mbuf
    have split := count_dequeueBurst conn count loop.queued mbuf
    rw [count_held] at total ⊢
    simp only [pending, count_append] at total ⊢
    omega
  idle := accounted.idle

variable {log : List Empty}

theorem Accounted.goOn (accounted : Accounted loop) {burst : List RxPacket}
    (stepEq : loop.step network (.goOn burst answers) = some (log, next)) :
    Accounted next ∧ ∃ more, next.lost = loop.lost ++ more := by
  have nothing : ∃ more, loop.lost = loop.lost ++ more := ⟨[], (append_nil _).symm⟩
  simp only [EventLoop.step] at stepEq
  split at stepEq
  · rename_i phase
    cases stepEq
    exact ⟨accounted.receive phase burst, nothing⟩
  · rename_i phase
    cases stepEq
    have counts := accounted.counts
    simp only [held, pending, phase, map_nil] at counts
    exact ⟨⟨counts, nofun⟩, nothing⟩
  · rename_i packet rest phase
    split at stepEq
    · cases stepEq
      exact ⟨accounted, nothing⟩
    · obtain ⟨processed, processedEq, same⟩ := bind_eq_some_iff.mp stepEq
      cases same
      have places := places_processPacket processedEq
      exact ⟨accounted.process phase places, places.lost⟩
  · rename_i phase
    cases stepEq
    have counts := accounted.counts
    simp only [held, pending, phase] at counts
    exact ⟨⟨counts, nofun⟩, nothing⟩
  · rename_i phase
    cases stepEq
    exact ⟨accounted.transmit phase, nothing⟩

variable {input : LoopInput}

/-- Every step keeps account of the buffers. -/
theorem Accounted.step (accounted : Accounted loop)
    (stepEq : loop.step network input = some (log, next)) :
    Accounted next ∧ ∃ more, next.lost = loop.lost ++ more := by
  cases input with
  | goOn burst answers => exact accounted.goOn stepEq
  | consume conn count =>
    cases stepEq
    exact ⟨accounted.consume conn (min count 32), [], (append_nil _).symm⟩
  | elsewhere input =>
    obtain ⟨managed, managedEq, same⟩ := bind_eq_some_iff.mp stepEq
    cases same
    obtain ⟨host, sconn, rfl⟩ := manage_eq managedEq
    exact ⟨⟨accounted.counts, accounted.idle⟩, [], (append_nil _).symm⟩

theorem step_of_disposes (disposes : loop.Disposes network input) :
    ∃ next, loop.step network input = some ([], next) ∧
      next.lost = loop.lost := by
  cases input with
  | goOn burst answers =>
    simp only [EventLoop.step]
    cases phase : loop.phase with
    | receiving | managing | transmitting => exact ⟨_, rfl, rfl⟩
    | processing rest =>
      cases rest with
      | nil => exact ⟨_, rfl, rfl⟩
      | cons packet rest =>
        simp only [Disposes, phase] at disposes
        by_cases waits : loop.Waits packet
        · exact ⟨loop, by simp [waits], rfl⟩
        · obtain ⟨next, processedEq, same⟩ := processPacket_of_handles
            (disposes.resolve_left waits) network answers
          exact ⟨{ next with phase := .processing rest }, by
            simp [waits, processedEq], same⟩
  | consume conn count => exact ⟨_, rfl, rfl⟩
  | elsewhere input =>
    obtain ⟨⟨sent, host⟩, hostEq⟩ := Option.isSome_iff_exists.mp disposes
    obtain ⟨next, managedEq⟩ : ∃ next, loop.manage network input = some next :=
      Option.isSome_iff_exists.mp (by simp [manage, hostEq])
    obtain ⟨host, sconn, same⟩ := manage_eq managedEq
    exact ⟨next, by simp [EventLoop.step, managedEq], by rw [same]⟩

theorem lost_of_not_disposes (careless : ¬ loop.Disposes network input)
    (stepEq : loop.step network input = some (log, next)) : next.lost ≠ [] := by
  cases input with
  | goOn burst answers =>
    simp only [Disposes] at careless
    split at careless
    · rename_i packet rest phase
      rw [not_or] at careless
      simp only [EventLoop.step, phase, if_neg careless.1] at stepEq
      obtain ⟨processed, processedEq, same⟩ := bind_eq_some_iff.mp stepEq
      cases same
      show processed.lost ≠ []
      rw [lost_of_not_handles careless.2 processedEq]
      simp
    · exact absurd trivial careless
  | consume conn count => exact absurd trivial careless
  | elsewhere input =>
    obtain ⟨managed, managedEq, -⟩ := bind_eq_some_iff.mp stepEq
    simp only [manage, bind_eq_some_iff]
      at managedEq
    obtain ⟨result, hostEq, -⟩ := managedEq
    refine absurd ?_ careless
    rw [Disposes, hostEq]
    rfl

theorem Accounted.conserved_of_disposes (accounted : Accounted loop) (conserved : loop.Conserved)
    (disposes : loop.Disposes network input) :
    ∃ log next, loop.step network input = some (log, next) ∧
      next.Conserved := by
  obtain ⟨next, stepEq, same⟩ := step_of_disposes disposes
  refine ⟨[], next, stepEq, (accounted.step stepEq).1.conserved_iff.mpr ?_⟩
  exact same.trans (accounted.conserved_iff.mp conserved)

theorem Accounted.disposes_of_conserved (accounted : Accounted loop)
    (stepEq : loop.step network input = some (log, next)) (conserved : next.Conserved) :
    loop.Conserved ∧ loop.Disposes network input := by
  obtain ⟨nextAccounted, more, grows⟩ := accounted.step stepEq
  have complete := nextAccounted.conserved_iff.mp conserved
  constructor
  · apply accounted.conserved_iff.mpr
    exact (append_eq_nil_iff.mp (grows.symm.trans complete)).1
  · by_contra careless
    exact lost_of_not_disposes careless stepEq complete

/-- Over any run of the event loop the received buffers are those that are
still to be processed, to be transmitted or queued, or were freed or
transmitted, exactly if every packet was one that is disposed of. -/
theorem received_buffers_conserved_iff (network : Network)
    (threadId numThreads : Nat) (serving : Bool)
    (handlers : BitVec 32 → Bool) (inputs : List LoopInput) :
    (∃ log last, run (EventLoop.step network)
      (EventLoop.start threadId numThreads serving handlers) inputs =
        some (log, last) ∧ last.Conserved) ↔
    Admissible (EventLoop.step network) (EventLoop.Disposes network)
      (EventLoop.start threadId numThreads serving handlers) inputs := by
  have accounted := accounted_start threadId numThreads serving handlers
  rw [run_intact_iff (fun _ _ _ _ accounted stepEq => (accounted.step stepEq).1)
    (fun _ _ accounted conserved => accounted.conserved_of_disposes conserved)
    (fun _ _ _ _ accounted => accounted.disposes_of_conserved) accounted]
  exact and_iff_right (accounted.conserved_iff.mpr rfl)

def listening : Network := ⟨⟨Vector.replicate 6 0, 2, 8501⟩, fun _ => Vector.replicate 6 0, 1⟩

-- Another thread accepts a connection.  The request that comes over it is
-- answered, the background one queued and taken, that of a stranger freed.
example :
    (run (EventLoop.step listening) (EventLoop.start 0 1 true fun _ => true)
      (.elsewhere (.receive ⟨1, 2, 0x2823, 0x3521, .con⟩) ::
        List.replicate 4 (.goOn [] fun _ => true) ++
        List.replicate 7 (.goOn
          [⟨7, 1, 2, 0x2823, 0xfc21, PktType.rr, 0, 0, 5⟩,
            ⟨8, 1, 2, 0x2823, 0xfc21, PktType.rrBg, 0, 0, 5⟩,
            ⟨9, 3, 2, 0x2823, 0xfc21, PktType.rr, 0, 0, 5⟩] fun _ => true) ++ [.consume 0 32])).map
      (fun (_, last) => (last.received, last.transmitted, last.freed)) =
    some ([7, 8, 9], [7], [9, 8]) := by
  decide +kernel

/-- A packet that asks for a connection, one of an unknown type and a request
without a connection are received.  Only the buffer of the last is freed. -/
theorem session_buffer_lost :
    (run (EventLoop.step listening) (EventLoop.start 0 1 true fun _ => true)
      (List.replicate 6 (.goOn
        [⟨7, 1, 2, 0x2823, 0x3521, PktType.sm, ReqType.con, 0, 0⟩,
          ⟨8, 1, 2, 0x2823, 0x3521, 0x00, 0, 0, 0⟩, ⟨9, 1, 2, 0x2823, 0x3521, PktType.rr, 0, 0, 5⟩]
        fun _ => true))).map (fun (_, last) => (last.received, last.held)) =
    some ([7, 8, 9], [9]) := by
  decide +kernel

end EventLoop

end SRPC.Dpdk
