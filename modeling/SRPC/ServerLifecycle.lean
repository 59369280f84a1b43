import SRPC.ServerConnections

/-!
# Connections that never go away

`close` never finds its connection in `Server::sconns_`.  What `server_loop` has
accepted stays connected, and `sconns_ctr_` keeps counting it.
-/

namespace SRPC.Connections

open TransitionRuns List

/-- How far `stop` has come.  Once `server_loop` is at its end no connection is
accepted any more. -/
def StopFits (log : List Closing) (world : World) : StopPc → Prop
  | .idle => world.server.status = .running
  | .joining => True
  | .copying => world.loop = .ended
  | .closing sconns => world.loop = .ended ∧
      (∀ sconn ∈ sconns, sconn < world.conns.length) ∧
      (log = [] → sconns = world.server.sconns)
  | .waiting => world.loop = .ended ∧ (log = [] → world.conns = [])
  | .returned => world.loop = .ended ∧ world.conns = []

/-- The connection is as `server_loop` has made it, but for running requests. -/
def Alive (conn : TcpConnection) : Prop := conn = ⟨.connected, true, 2 + conn.jobs, conn.jobs⟩

/-- A call of `close` that has changed nothing. -/
def Closing.Idle (closing : Closing) : Prop :=
  closing.sconn ∈ closing.after.server.sconns ∧
    ∃ conn, closing.before.conns[closing.sconn]? = some conn ∧ conn.status = .connected

/-- No connection has been closed. -/
structure Undisturbed (log : List Closing) (world : World) : Prop where
  base : world.server.base = ⟨[], world.conns.length⟩
  sconns : world.server.sconns = List.range world.conns.length
  alive : ∀ conn ∈ world.conns, Alive conn
  pending : world.pendingRemove = []
  idle : ∀ closing ∈ log, closing.Idle
  ended : world.loop = .ended → world.server.listening = false ∧ world.server.status = .stopped
  stop : StopFits log world world.stop

theorem undisturbed_started : Undisturbed [] started :=
  ⟨rfl, rfl, by simp [started], rfl, by simp, by simp [started], rfl⟩

theorem Closing.Idle.not_proper {closing : Closing} (idle : closing.Idle) : ¬ closing.Proper := by
  obtain ⟨member, conn, found, connected⟩ := idle
  intro proper
  exact ((proper conn found).1 connected).1 member

variable {log : List Closing} {world : World}

theorem Undisturbed.lifecycle_iff (undisturbed : Undisturbed log world) :
    Lifecycle log world ↔ log = [] := by
  constructor
  · intro lifecycle
    refine eq_nil_iff_forall_not_mem.mpr fun closing member => ?_
    exact (undisturbed.idle closing member).not_proper (lifecycle.closed closing member)
  · rintro rfl
    refine ⟨fun sconn conn found => ?_, by simp, fun past => ?_⟩
    · have inside := lt_of_getElem? found
      have alive := undisturbed.alive conn (mem_of_getElem? found)
      rw [undisturbed.sconns, mem_range, alive]
      simp [inside]
    · have none : world.conns = [] := by
        have fits := undisturbed.stop
        obtain waiting | returned := past
        · rw [waiting] at fits
          exact fits.2 rfl
        · rw [returned] at fits
          exact fits.2
      rw [undisturbed.sconns, none]
      rfl

variable {sconn : Nat}

theorem World.close_alive (inside : sconn < world.conns.length)
    (unfound : world.server.base.sconns = []) (alive : ∀ conn ∈ world.conns, Alive conn) :
    world.close sconn = some world := by
  have found := getElem?_eq_getElem inside
  have same := alive _ (mem_of_getElem? found)
  rw [World.close, found]
  have counted : world.conns[sconn].refcnt ≠ 0 := by rw [same]; simp
  have connected : world.conns[sconn].status = .connected := by rw [same]
  simp only [if_neg counted, if_pos connected, unfound]
  exact if_neg not_mem_nil

theorem Undisturbed.closeRecorded (undisturbed : Undisturbed log world)
    (inside : sconn < world.conns.length) (stop : StopPc)
    (fits : ∀ closing, StopFits (log ++ [closing]) { world with stop := stop } stop) :
    ∃ outputs next, { world with stop := stop }.closeRecorded sconn =
      some (outputs, next) ∧ Undisturbed (log ++ outputs) next := by
  let stopping : World := { world with stop := stop }
  have closeEq : stopping.close sconn = some stopping :=
    World.close_alive inside (by simp [stopping, undisturbed.base]) undisturbed.alive
  refine ⟨[⟨sconn, stopping, stopping⟩], stopping, ?_, ?_⟩
  · rw [World.closeRecorded, closeEq]
    rfl
  · refine { undisturbed with idle := ?_, stop := fits _ }
    refine forall_mem_concat undisturbed.idle ?_
    have found := getElem?_eq_getElem inside
    have alive := undisturbed.alive _ (mem_of_getElem? found)
    exact ⟨undisturbed.sconns ▸ mem_range.mpr inside, _, found, by rw [alive]⟩

theorem StopFits.append {stop : StopPc} (fits : StopFits log world stop)
    (closing : Closing) : StopFits (log ++ [closing]) world stop := by
  match stop, fits with
  | .idle, running => exact running
  | .joining, _ => trivial
  | .copying, ended => exact ended
  | .closing _, ⟨ended, inside, _⟩ => exact ⟨ended, inside, by simp⟩
  | .waiting, ⟨ended, _⟩ => exact ⟨ended, by simp⟩
  | .returned, fits => exact fits

section

variable (undisturbed : Undisturbed log world)

include undisturbed

theorem Undisturbed.setJobs (sconn : Nat) {conn : TcpConnection} (alive : Alive conn) :
    Undisturbed log { world with conns := world.conns.set sconn conn } where
  base := by simpa using undisturbed.base
  sconns := by simpa using undisturbed.sconns
  alive := by
    intro other member
    obtain old | rfl := mem_or_eq_of_mem_set member
    · exact undisturbed.alive other old
    · exact alive
  pending := undisturbed.pending
  idle := undisturbed.idle
  ended := undisturbed.ended
  stop := by
    have fits := undisturbed.stop
    match stopEq : world.stop with
    | .joining => trivial
    | .idle | .copying | .closing _ | .waiting | .returned =>
      rw [stopEq] at fits
      simpa [StopFits] using fits

theorem Undisturbed.takes (inside : sconn < world.conns.length) :
    ∃ next, world.takes sconn = some next ∧ Undisturbed log next := by
  have found := getElem?_eq_getElem inside
  have alive := undisturbed.alive _ (mem_of_getElem? found)
  rw [World.takes, found, alive]
  refine ⟨_, if_neg (by simp), undisturbed.setJobs sconn ?_⟩
  simp [Alive, Nat.add_assoc]

theorem Undisturbed.gives (inside : sconn < world.conns.length) :
    ∃ next, world.gives sconn = some next ∧ Undisturbed log next := by
  have found := getElem?_eq_getElem inside
  have alive := undisturbed.alive _ (mem_of_getElem? found)
  generalize world.conns[sconn] = conn at found alive
  rw [World.gives, found]
  by_cases jobless : conn.jobs = 0
  · exact ⟨world, if_pos jobless, undisturbed⟩
  · let given : TcpConnection := { conn with refcnt := conn.refcnt - 1, jobs := conn.jobs - 1 }
    have refcnt : conn.refcnt = 2 + conn.jobs := congrArg (·.refcnt) alive
    refine ⟨{ world with conns := world.conns.set sconn given }, ?_, undisturbed.setJobs sconn ?_⟩
    · simp only [if_neg jobless, World.release, getElem?_set_self inside, set_set]
      rw [if_neg (by omega), if_neg (by omega)]
    · rw [Alive, TcpConnection.mk.injEq]
      exact ⟨congrArg (·.status) alive, congrArg (·.socketOpen) alive,
        by simp only [given]; omega, rfl⟩

theorem Undisturbed.insert (inserting : world.loop = .inserting) :
    Undisturbed log { world.insert with loop := .selecting } where
  base := by simp [World.insert, undisturbed.base]
  sconns := by
    simp [World.insert, undisturbed.sconns, range_succ]
  alive := by
    refine forall_mem_concat undisturbed.alive ?_
    rfl
  pending := undisturbed.pending
  idle := undisturbed.idle
  ended := by simp
  stop := by
    have fits := undisturbed.stop
    show StopFits log _ world.stop
    cases stopEq : world.stop <;> rw [stopEq] at fits <;> simp_all [StopFits, World.insert]

theorem Undisturbed.removePending : world.removePending = some world := by
  obtain ⟨server, conns, pollSet, pendingRemove, loop, stop⟩ := world
  cases undisturbed.pending
  rfl

theorem Undisturbed.stop_early (unended : world.loop ≠ .ended) :
    (world.stop = .idle ∧ world.server.status = .running) ∨
      world.stop = .joining := by
  have fits := undisturbed.stop
  match stopEq : world.stop with
  | .idle =>
    rw [stopEq] at fits
    exact .inl ⟨rfl, fits⟩
  | .joining => exact .inr rfl
  | .copying =>
    rw [stopEq] at fits
    exact absurd fits unended
  | .closing _ | .waiting | .returned =>
    rw [stopEq] at fits
    exact absurd fits.1 unended

/-- `stop` closes no connection. -/
theorem Undisturbed.goOnStop :
    ∃ outputs next, world.goOnStop = some (outputs, next) ∧
      Undisturbed (log ++ outputs) next := by
  have fits := undisturbed.stop
  have same : Undisturbed (log ++ []) world := by rwa [append_nil]
  rw [World.goOnStop]
  match stopEq : world.stop with
  | .idle => exact ⟨_, _, rfl, same⟩
  | .joining =>
    by_cases ended : world.loop = .ended
    · simp only [if_pos ended, if_pos (undisturbed.ended ended)]
      exact ⟨_, _, rfl, { same with stop := ended }⟩
    · simp only [if_neg ended]
      exact ⟨_, _, rfl, same⟩
  | .copying =>
    rw [stopEq] at fits
    refine ⟨_, _, rfl, { same with stop := ⟨fits, ?_, fun _ => rfl⟩ }⟩
    intro sconn member
    rwa [undisturbed.sconns, mem_range] at member
  | .closing [] =>
    rw [stopEq] at fits
    refine ⟨_, _, rfl, { same with stop := ⟨fits.1, fun unclosed => ?_⟩ }⟩
    rw [append_nil] at unclosed
    have empty := (fits.2.2 unclosed).symm
    rw [undisturbed.sconns, range_eq_nil] at empty
    exact length_eq_zero_iff.mp empty
  | .closing (sconn :: sconns) =>
    rw [stopEq] at fits
    obtain ⟨ended, inside, -⟩ := fits
    refine undisturbed.closeRecorded (inside sconn mem_cons_self) _ ?_
    intro closing
    exact ⟨ended, fun other member =>
      inside other (mem_cons_of_mem _ member), by simp⟩
  | .waiting =>
    rw [stopEq] at fits
    have counted : world.server.base.sconnsCtr = world.conns.length := by
      rw [undisturbed.base]
    by_cases empty : world.conns = []
    · have zero : world.server.base.sconnsCtr = 0 := by
        rw [counted, empty]
        rfl
      simp only [if_pos (Int.le_of_eq zero), if_pos zero]
      exact ⟨_, _, rfl, { same with
        stop := ⟨fits.1, empty⟩
        ended := fun ended => ⟨(undisturbed.ended ended).1, rfl⟩ }⟩
    · have nonempty := length_pos_iff.mpr empty
      have positive : ¬ world.server.base.sconnsCtr ≤ 0 := by omega
      simp only [if_neg positive]
      exact ⟨_, _, rfl, same⟩
  | .returned => exact ⟨_, _, rfl, same⟩

theorem Undisturbed.loopStep (unended : world.loop ≠ .ended) {loop : LoopPc}
    (goesOn : loop ≠ .ended) : Undisturbed log { world with loop := loop } := by
  refine { undisturbed with
    ended := fun ended => absurd ended goesOn, stop := ?_ }
  obtain ⟨stopEq, running⟩ | stopEq := undisturbed.stop_early unended
  · show StopFits log _ world.stop
    rw [stopEq]
    exact running
  · simp only [stopEq, StopFits]

theorem Undisturbed.loopEnds (unended : world.loop ≠ .ended)
    (stopping : world.server.status ≠ .running) :
    Undisturbed log { world with
      server := { world.server with listening := false, status := .stopped }
      loop := .ended } := by
  refine { undisturbed with ended := fun _ => ⟨rfl, rfl⟩, stop := ?_ }
  obtain ⟨stopEq, running⟩ | stopEq := undisturbed.stop_early unended
  · exact absurd running stopping
  · simp only [stopEq, StopFits]

theorem Undisturbed.stops (outside : world.stop = .idle ∨ world.stop = .returned) :
    (world.server.status = .running ∧ world.loop ≠ .ended) ∨
      (world.server.status ≠ .running ∧ world.loop = .ended) := by
  have fits := undisturbed.stop
  obtain stopEq | stopEq := outside
  · rw [stopEq] at fits
    refine .inl ⟨fits, fun ended => ?_⟩
    cases fits.symm.trans (undisturbed.ended ended).2
  · rw [stopEq] at fits
    refine .inr ⟨fun running => ?_, fits.1⟩
    cases running.symm.trans (undisturbed.ended fits.1).2

end

theorem step_undisturbed (log : List Closing) (world : World) (input : Input)
    (undisturbed : Undisturbed log world) :
    ∃ outputs next, step world input = some (outputs, next) ∧
      Undisturbed (log ++ outputs) next := by
  have same : Undisturbed (log ++ []) world := by rwa [append_nil]
  cases input with
  | accept =>
    rw [step]
    split
    · rename_i running
      exact ⟨_, _, rfl, same.loopStep (by simp [running.1]) (by simp)⟩
    · exact ⟨_, _, rfl, same⟩
  | insert =>
    rw [step]
    split
    · rename_i inserting
      exact ⟨_, _, rfl, same.insert inserting⟩
    · exact ⟨_, _, rfl, same⟩
  | loopEnds =>
    rw [step]
    split
    · rename_i ending
      exact ⟨_, _, rfl, same.loopEnds (by simp [ending.1]) ending.2⟩
    · exact ⟨_, _, rfl, same⟩
  | handleError sconn =>
    rw [step]
    split
    · rename_i inside
      exact undisturbed.closeRecorded inside world.stop undisturbed.stop.append
    · exact ⟨_, _, rfl, same⟩
  | removePending =>
    rw [step, undisturbed.removePending]
    exact ⟨_, _, rfl, same⟩
  | takes sconn =>
    rw [step]
    split
    · rename_i inside
      obtain ⟨next, takesEq, later⟩ := same.takes inside
      rw [takesEq]
      exact ⟨_, _, rfl, later⟩
    · exact ⟨_, _, rfl, same⟩
  | gives sconn =>
    rw [step]
    split
    · rename_i inside
      obtain ⟨next, givesEq, later⟩ := same.gives inside
      rw [givesEq]
      exact ⟨_, _, rfl, later⟩
    · exact ⟨_, _, rfl, same⟩
  | stop =>
    rw [step]
    split
    · rename_i outside
      obtain ⟨running, unended⟩ | ⟨stopped, ended⟩ := undisturbed.stops outside
      · rw [if_pos running]
        exact ⟨_, _, rfl, { same with
          ended := fun ended => absurd ended unended, stop := trivial }⟩
      · rw [if_neg stopped]
        exact ⟨_, _, rfl, { same with stop := ended }⟩
    · exact ⟨_, _, rfl, same⟩
  | goOnStop => exact undisturbed.goOnStop

theorem run_undisturbed (inputs : List Input) :
    ∃ log world, run step started inputs = some (log, world) ∧
      Undisturbed log world := by
  have preserved : ∀ log world input, Undisturbed log world → True →
      ∃ outputs next, step world input = some (outputs, next) ∧
        Undisturbed (log ++ outputs) next :=
    fun log world input undisturbed _ =>
      step_undisturbed log world input undisturbed
  exact run_of_admissible preserved [] undisturbed_started inputs
    (admissible_of_forall _ _ fun _ _ _ => trivial)

/-- The lifecycle holds exactly as long as no connection is closed. -/
theorem connection_lifecycle_iff (inputs : List Input) :
    ∃ log world, run step started inputs = some (log, world) ∧
      (Lifecycle log world ↔ log = []) := by
  obtain ⟨log, world, runEq, undisturbed⟩ := run_undisturbed inputs
  exact ⟨log, world, runEq, undisturbed.lifecycle_iff⟩

variable {next : World} {events : List Closing}

theorem World.length_release (released : world.release sconn = some next) :
    next.conns.length = world.conns.length := by
  grind [World.release]

theorem World.length_close (closed : world.close sconn = some next) :
    next.conns.length = world.conns.length := by
  have removed (world : World) : (world.pollMgrRemove sconn).conns = world.conns := by
    rw [World.pollMgrRemove]
    split <;> rfl
  simp only [World.close] at closed
  split at closed
  · cases closed
  · split_ifs at closed
    · rw [World.length_release closed, length_set, removed]
    all_goals
      cases closed
      rfl

theorem World.length_gives (given : world.gives sconn = some next) :
    next.conns.length = world.conns.length := by
  simp only [World.gives] at given
  split at given
  · cases given
  · split_ifs at given
    · cases given
      rfl
    · rw [World.length_release given, length_set]

theorem Undisturbed.length_le {input : Input} (undisturbed : Undisturbed log world)
    (stepEq : step world input = some (events, next)) : world.conns.length ≤ next.conns.length := by
  cases input with
  | removePending =>
    rw [step, undisturbed.removePending] at stepEq
    cases stepEq
    exact Nat.le_refl _
  | _ =>
    grind [step, World.goOnStop, World.closeRecorded, → World.length_close, World.takes,
      World.insert, World.length_gives, Option.map_eq_some_iff]

theorem Undisturbed.returned (undisturbed : Undisturbed log world)
    (returned : world.stop = .returned) : world.conns = [] := by
  have fits := undisturbed.stop
  rw [returned] at fits
  exact fits.2

/-- `stop` returns only if no connection was accepted.  Once there is one it
never does, in any continuation: no step takes a connection away. -/
theorem stop_waits_for_ever (inputs : List Input) :
    ∃ log world, run step started inputs = some (log, world) ∧
      (world.stop = .returned → world.conns = []) ∧
      (world.conns ≠ [] → ∀ later, ∃ log' last, run step world later =
        some (log', last) ∧ last.conns ≠ [] ∧ last.stop ≠ .returned) := by
  obtain ⟨log, world, runEq, undisturbed⟩ := run_undisturbed inputs
  refine ⟨log, world, runEq, undisturbed.returned, fun accepted later => ?_⟩
  let Invariant (log : List Closing) (last : World) :=
    Undisturbed log last ∧ world.conns.length ≤ last.conns.length
  have preserved : ∀ log last input, Invariant log last → True →
      ∃ outputs next, step last input = some (outputs, next) ∧ Invariant (log ++ outputs) next := by
    rintro log last input ⟨undisturbed, longer⟩ -
    obtain ⟨outputs, next, stepEq, undisturbed'⟩ := step_undisturbed log last input undisturbed
    exact ⟨outputs, next, stepEq, undisturbed', Nat.le_trans longer (undisturbed.length_le stepEq)⟩
  have start : Invariant log world := ⟨undisturbed, Nat.le_refl _⟩
  obtain ⟨log', last, laterEq, undisturbed', longer⟩ := run_of_admissible preserved
    log start later (admissible_of_forall _ _ fun _ _ _ => trivial)
  have still : last.conns ≠ [] :=
    length_pos_iff.mp (Nat.lt_of_lt_of_le (length_pos_iff.mpr accepted) longer)
  exact ⟨log', last, laterEq, still, fun returned => still (undisturbed'.returned returned)⟩

/-- A peer closes its connection, and then the server stops. -/
def peerCloses : List Input :=
  [.accept, .insert, .handleError 0, .removePending, .stop, .loopEnds,
    .goOnStop, .goOnStop, .goOnStop, .goOnStop, .removePending, .goOnStop]

/-- After two calls of `close` it is still there, and `stop` waits for it. -/
theorem closed_connection_stays :
    (run step started peerCloses).map (fun result =>
        (result.1.map Closing.sconn, result.2)) =
      some ([0, 0],
        ⟨⟨⟨[], 1⟩, [0], .stopped, false⟩, [⟨.connected, true, 2, 0⟩], [0], [],
          .ended, .waiting⟩) := by
  decide +kernel

end SRPC.Connections
