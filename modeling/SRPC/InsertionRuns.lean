import SRPC.ConnectionKeys
import SRPC.TransportThreads

/-!
# The loops of the event loops execute once

A connection is put into each `sm_ring` once.  `poll_jobs` has no such guard: a
client that is handed to a thread for the second time makes it spin.
-/

namespace SRPC.Dpdk

open LittleEndian InsertionLoops TransitionRuns Host List

theorem ServerTables.process_rings {network : Network}
    {tables next : ServerTables} {packet : Packet}
    {events : List HandshakeEvent} {sent : List Packet}
    (processed : tables.process network packet = some (events, sent, next)) :
    (next.smRings = tables.smRings ∧
      next.conns.length = tables.conns.length) ∨
    (packet.message = .con ∧
      next.smRings = tables.smRings.map (fun ring => ring ++ [tables.conns.length]) ∧
      next.conns.length = tables.conns.length + 1) := by
  rw [process] at processed
  split at processed
  next con =>
    simp only [accept, bind_eq_some_iff]
      at processed
    obtain ⟨⟨ack, after⟩, accepted, same⟩ := processed
    cases same
    split at accepted
    · simp only [bind_eq_some_iff] at accepted
      obtain ⟨index, -, conn, -, same⟩ := accepted
      cases same
      exact .inl ⟨rfl, rfl⟩
    · cases accepted
      exact .inr ⟨con, rfl, by simp⟩
  next udpPort conAck =>
    split at processed
    · cases processed
      exact .inl ⟨rfl, rfl⟩
    · simp only [bind_eq_some_iff] at processed
      obtain ⟨conn, -, same⟩ := processed
      cases same
      exact .inl ⟨rfl, by simp⟩

/-- No ring has a connection twice, nor the one that is being dialled. -/
structure Host.RingsDistinct (host : Host) : Prop where
  nodup : ∀ ring ∈ host.tables.smRings, ring.Nodup
  entered : ∀ ring ∈ host.tables.smRings, ∀ index ∈ ring,
    index < host.tables.conns.length ∧ host.dialling ≠ some index
  dialling : ∀ index, host.dialling = some index → index < host.tables.conns.length

/-- One connection at most is put into the rings. -/
def Host.Extends (host next : Host) : Prop :=
  next.tables.smRings = host.tables.smRings ∨ ∃ index,
    next.tables.smRings = host.tables.smRings.map fun ring => ring ++ [index]

namespace Host.RingsDistinct

variable {network : Network} {host next : Host} {sent : List Packet}

theorem append (distinct : host.RingsDistinct) {index : Nat}
    (rings : next.tables.smRings = host.tables.smRings.map fun ring => ring ++ [index])
    (absent : ∀ ring ∈ host.tables.smRings, index ∉ ring)
    (created : index < next.tables.conns.length)
    (more : host.tables.conns.length ≤ next.tables.conns.length)
    (free : next.dialling = none) : next.RingsDistinct where
  nodup := by
    intro ring member
    rw [rings] at member
    obtain ⟨shorter, old, rfl⟩ := mem_map.mp member
    simpa using (distinct.nodup shorter old).concat (absent shorter old)
  entered := by
    intro ring member other inside
    rw [rings] at member
    obtain ⟨shorter, old, rfl⟩ := mem_map.mp member
    refine ⟨?_, by simp [free]⟩
    obtain earlier | last := mem_append.mp inside
    · exact (distinct.entered shorter old other earlier).1.trans_le more
    · rw [mem_singleton.mp last]
      exact created
  dialling := by simp [free]

theorem connect (distinct : host.RingsDistinct) (ip : BitVec 32)
    (port : BitVec 16) : (host.connect network ip port).2.RingsDistinct where
  nodup := distinct.nodup
  entered := by
    intro ring member index inside
    have earlier := (distinct.entered ring member index inside).1
    refine ⟨by simpa [Host.connect] using Nat.lt_succ_of_lt earlier, ?_⟩
    intro same
    exact absurd (Option.some.inj same) (Nat.ne_of_gt earlier)
  dialling := by
    intro index same
    cases same
    simp [Host.connect]

theorem finish (distinct : host.RingsDistinct)
    (stepEq : host.step network .finish = some (sent, next)) :
    next.RingsDistinct ∧ host.Extends next := by
  rw [Host.step] at stepEq
  split at stepEq
  · cases stepEq
    exact ⟨distinct, .inl rfl⟩
  next index dialling =>
    simp only [bind_eq_some_iff] at stepEq
    obtain ⟨conn, -, stepEq⟩ := stepEq
    split at stepEq
    · simp only [ServerTables.rekey, bind_eq_some_iff] at stepEq
      obtain ⟨tables, ⟨entry, -, rekeyed⟩, same⟩ := stepEq
      cases rekeyed
      cases same
      refine ⟨distinct.append rfl ?_ ?_ ?_ rfl, .inr ⟨index, rfl⟩⟩
      · intro ring member inside
        exact (distinct.entered ring member index inside).2 dialling
      · simpa using distinct.dialling index dialling
      · simp
    · cases stepEq
      exact ⟨distinct, .inl rfl⟩

theorem receive (distinct : host.RingsDistinct) {packet : Packet}
    (stepEq : host.step network (.receive packet) = some (sent, next)) :
    next.RingsDistinct ∧ host.Extends next := by
  rw [Host.step] at stepEq
  split at stepEq
  · cases stepEq
    exact ⟨distinct, .inl rfl⟩
  · cases stepEq
    exact ⟨distinct, .inl rfl⟩
  next other held =>
    simp only [bind_eq_some_iff] at stepEq
    obtain ⟨⟨events, answers, tables⟩, processed, same⟩ := stepEq
    cases same
    obtain ⟨rings, conns⟩ | ⟨con, rings, conns⟩ := ServerTables.process_rings processed
    · refine ⟨⟨?_, ?_, ?_⟩, .inl rings⟩
      · rw [rings]
        exact distinct.nodup
      · rw [rings, conns]
        exact distinct.entered
      · rw [conns]
        exact distinct.dialling
    · have free : host.dialling = none := by
        cases dialling : host.dialling with
        | none => rfl
        | some index =>
          cases serving : host.serving with
          | false => exact (other con serving).elim
          | true => exact (held _ con serving dialling).elim
      refine ⟨distinct.append rings ?_ ?_ ?_ free, .inr ⟨_, rings⟩⟩
      · intro ring member inside
        exact absurd (distinct.entered ring member _ inside).1 (lt_irrefl _)
      · simp [conns]
      · simp [conns]

end Host.RingsDistinct

/-- The thread has taken its connections from this ring. -/
structure ThreadSets.TakesRing (sets : ThreadSets) (ring : List Nat) : Prop where
  taken : sets.smTaken ≤ ring.length
  tConns : sets.tConns = ring.take sets.smTaken

theorem ThreadSets.TakesRing.append {sets : ThreadSets} {ring : List Nat}
    (takes : sets.TakesRing ring) (more : List Nat) : sets.TakesRing (ring ++ more) where
  taken := takes.taken.trans (by simp)
  tConns := by
    rw [takes.tConns, take_append_of_le_length takes.taken]

namespace TransportThreads

/-- Nothing comes to a thread twice. -/
structure Distinct (threads : TransportThreads) : Prop where
  rings : threads.host.RingsDistinct
  conns : ∀ (thread : Nat) (sets : ThreadSets) (ring : List Nat),
    threads.threads[thread]? = some sets →
    threads.host.tables.smRings[thread]? = some ring → sets.TakesRing ring
  jobs : ∀ (thread : Nat) (sets : ThreadSets) (ring : List Nat),
    threads.threads[thread]? = some sets →
    threads.polls.pollReqQ[thread]? = some ring → (sets.pollJobs ++ ring).Nodup

theorem distinct_start (numThreads : Nat) (serving : Bool) :
    (start numThreads serving).Distinct where
  rings := by
    refine ⟨?_, ?_, by simp [start, Host.new]⟩
    · intro ring member
      rw [eq_of_mem_replicate member]
      exact nodup_nil
    · intro ring member index inside
      rw [eq_of_mem_replicate member] at inside
      cases inside
  conns := by
    intro thread sets ring setsAt ringAt
    rw [eq_of_mem_replicate (mem_of_getElem? setsAt)]
    exact ⟨Nat.zero_le _, rfl⟩
  jobs := by
    intro thread sets ring setsAt ringAt
    rw [eq_of_mem_replicate (mem_of_getElem? setsAt), eq_of_mem_replicate (mem_of_getElem? ringAt)]
    exact nodup_nil

namespace Distinct

variable {network : Network} {threads next : TransportThreads} {reached : List Insertion}

theorem extend (distinct : threads.Distinct) {host : Host}
    (rings : host.RingsDistinct) (extended : threads.host.Extends host)
    (dialler : Option Nat) (returned : List Nat) :
    Distinct ⟨host, dialler, returned, threads.polls, threads.threads⟩ where
  rings := rings
  conns := by
    intro thread sets ring setsAt ringAt
    obtain same | ⟨index, longer⟩ := extended
    · exact distinct.conns thread sets ring setsAt (same ▸ ringAt)
    · rw [longer, getElem?_map] at ringAt
      obtain ⟨shorter, shorterAt, rfl⟩ := Option.map_eq_some_iff.mp ringAt
      exact (distinct.conns thread sets shorter setsAt shorterAt).append _
  jobs := distinct.jobs

variable {thread : Nat} {polls : PollQueues}

theorem replace (distinct : threads.Distinct) {sets : ThreadSets}
    (elsewhere : ∀ other, other ≠ thread →
      polls.pollReqQ[other]? = threads.polls.pollReqQ[other]?)
    (takes : ∀ ring, threads.host.tables.smRings[thread]? = some ring → sets.TakesRing ring)
    (nodup : ∀ ring, polls.pollReqQ[thread]? = some ring → (sets.pollJobs ++ ring).Nodup) :
    Distinct { threads with
      polls := polls
      threads := threads.threads.set thread sets } where
  rings := distinct.rings
  conns := by
    intro other others ring othersAt ringAt
    obtain ⟨rfl, rfl⟩ | ⟨different, othersAt⟩ := getElem?_set_eq_some othersAt
    · exact takes ring ringAt
    · exact distinct.conns other others ring othersAt ringAt
  jobs := by
    intro other others ring othersAt ringAt
    obtain ⟨rfl, rfl⟩ | ⟨different, othersAt⟩ := getElem?_set_eq_some othersAt
    · exact nodup ring ringAt
    · rw [elsewhere other different] at ringAt
      exact distinct.jobs other others ring othersAt ringAt

theorem acceptInserts_once (host : Host) (packet : Packet) :
    ∀ insertion ∈ acceptInserts network host packet, insertion.ExecutesOnce := by
  intro insertion member
  rw [acceptInserts] at member
  split at member
  · split at member
    · cases member
    next absent =>
      rw [mem_singleton.mp member]
      exact insertEntry_new _ absent
  · cases member

theorem processSmReq (distinct : threads.Distinct)
    (stepEq : threads.processSmReq thread = some (reached, next)) :
    next.Distinct ∧ ∀ insertion ∈ reached, insertion.ExecutesOnce := by
  simp only [TransportThreads.processSmReq, bind_eq_some_iff] at stepEq
  obtain ⟨sets, setsAt, ring, ringAt, stepEq⟩ := stepEq
  split at stepEq
  · cases stepEq
    exact ⟨distinct, by simp⟩
  have takes := distinct.conns thread sets ring setsAt ringAt
  have whole : sets.tConns ++ (ring.drop sets.smTaken).take 8 = ring.take (sets.smTaken + 8) := by
    rw [takes.tConns, ← take_add]
  have nodup : (sets.tConns ++ (ring.drop sets.smTaken).take 8).Nodup := by
    rw [whole]
    exact (distinct.rings.nodup ring (mem_of_getElem? ringAt)).sublist (take_sublist _ _)
  obtain ⟨found, insertEq, once⟩ := insertAll_new nodup
  rw [insertEq] at stepEq
  cases stepEq
  refine ⟨distinct.replace (fun _ _ => rfl) ?_ ?_, ?_⟩
  · intro other otherAt
    obtain rfl := Option.some.inj (ringAt.symm.trans otherAt)
    refine ⟨?_, ?_⟩
    · have := takes.taken
      simp only [length_take, length_drop]
      omega
    · dsimp only
      rw [whole, length_take, length_drop, take_eq_take_iff]
      have := takes.taken
      omega
  · exact fun other => distinct.jobs thread sets other setsAt
  · intro insertion member
    obtain ⟨entry, inside, rfl⟩ := mem_map.mp member
    exact once entry inside

theorem doPollJob (distinct : threads.Distinct)
    (stepEq : threads.doPollJob thread = some (reached, next)) :
    next.Distinct ∧ ∀ insertion ∈ reached, insertion.ExecutesOnce := by
  simp only [TransportThreads.doPollJob, bind_eq_some_iff] at stepEq
  obtain ⟨sets, setsAt, ring, ringAt, stepEq⟩ := stepEq
  split at stepEq
  · cases stepEq
    exact ⟨distinct, by simp⟩
  have nodup := distinct.jobs thread sets ring setsAt ringAt
  rw [← take_append_drop 8 ring, ← append_assoc] at nodup
  obtain ⟨found, insertEq, once⟩ := insertAll_new (nodup.sublist (sublist_append_left _ _))
  rw [insertEq] at stepEq
  cases stepEq
  refine ⟨distinct.replace ?_ ?_ ?_, ?_⟩
  · exact fun other different => getElem?_set_ne different.symm
  · intro other otherAt
    have takes := distinct.conns thread sets other setsAt otherAt
    exact ⟨takes.taken, takes.tConns⟩
  · intro other otherAt
    obtain ⟨-, rfl⟩ | ⟨different, -⟩ := getElem?_set_eq_some otherAt
    · exact nodup
    · exact absurd rfl different
  · intro insertion member
    obtain ⟨entry, inside, rfl⟩ := mem_map.mp member
    exact once entry inside

theorem addPollJob (distinct : threads.Distinct) {client : Nat}
    (added : threads.polls.addPollJob client = some polls)
    (anew : client ∉ threads.jobs threads.polls.nextThread) (returned : List Nat) :
    Distinct { threads with returned := returned, polls := polls } where
  rings := distinct.rings
  conns := distinct.conns
  jobs := by
    intro thread sets ring setsAt ringAt
    rw [PollQueues.addPollJob] at added
    split at added
    · cases added
    obtain ⟨waiting, waitingAt, rfl⟩ := Option.map_eq_some_iff.mp added
    obtain ⟨rfl, rfl⟩ | ⟨-, ringAt⟩ := getElem?_set_eq_some ringAt
    · have absent : client ∉ sets.pollJobs ++ waiting := by
        simpa [TransportThreads.jobs, setsAt, waitingAt] using anew
      have nodup := distinct.jobs _ sets waiting setsAt waitingAt
      simpa using nodup.concat absent
    · exact distinct.jobs thread sets ring setsAt ringAt

theorem step (distinct : threads.Distinct) {input : ThreadsInput} (anew : threads.HandsAnew input)
    (stepEq : threads.step network input = some (reached, next)) :
    next.Distinct ∧ ∀ insertion ∈ reached, insertion.ExecutesOnce := by
  cases input with
  | connect client addr =>
    cases addr with
    | none =>
      cases stepEq
      exact ⟨⟨distinct.rings, distinct.conns, distinct.jobs⟩, by simp⟩
    | some addr =>
      rw [TransportThreads.step] at stepEq
      split at stepEq
      · cases stepEq
        exact ⟨distinct, by simp⟩
      · cases stepEq
        refine ⟨distinct.extend (distinct.rings.connect _ _) (.inl rfl) _ _,
          by simp⟩
  | finish =>
    simp only [TransportThreads.step, bind_eq_some_iff] at stepEq
    obtain ⟨⟨sent, host⟩, hostEq, stepEq⟩ := stepEq
    obtain ⟨rings, extended⟩ := distinct.rings.finish hostEq
    split at stepEq
    · cases stepEq
      exact ⟨distinct.extend rings extended _ _, by simp⟩
    · cases stepEq
      exact ⟨distinct.extend rings extended _ _, by simp⟩
  | addPollJob place =>
    simp only [TransportThreads.step, bind_eq_some_iff] at stepEq
    obtain ⟨client, clientAt, polls, added, same⟩ := stepEq
    cases same
    exact ⟨distinct.addPollJob added (anew client clientAt) _, by simp⟩
  | receive packet =>
    simp only [TransportThreads.step, bind_eq_some_iff] at stepEq
    obtain ⟨⟨sent, host⟩, hostEq, same⟩ := stepEq
    cases same
    obtain ⟨rings, extended⟩ := distinct.rings.receive hostEq
    exact ⟨distinct.extend rings extended _ _, acceptInserts_once _ packet⟩
  | processSmReq thread => exact distinct.processSmReq stepEq
  | doPollJob thread => exact distinct.doPollJob stepEq

end Distinct

theorem run_executes_once {network : Network}
    {threads last : TransportThreads} {inputs : List ThreadsInput}
    {reached : List Insertion} (distinct : threads.Distinct)
    (anew : Admissible (step network) HandsAnew threads inputs)
    (runEq : run (step network) threads inputs = some (reached, last)) :
    last.Distinct ∧ ∀ insertion ∈ reached, insertion.ExecutesOnce := by
  induction inputs generalizing threads reached with
  | nil =>
    cases runEq
    exact ⟨distinct, by simp⟩
  | cons input inputs ih =>
    obtain ⟨first, next, later, stepEq, laterEq, rfl⟩ := run_cons_eq_some runEq
    obtain ⟨fresh, rest⟩ := anew
    rw [stepEq] at rest
    obtain ⟨nextDistinct, once⟩ := distinct.step fresh stepEq
    obtain ⟨lastDistinct, others⟩ := ih nextDistinct rest laterEq
    refine ⟨lastDistinct, fun insertion member => ?_⟩
    obtain member | member := mem_append.mp member
    · exact once insertion member
    · exact others insertion member

variable {sets : ThreadSets} {ring : List Nat}

theorem step_doPollJob (network : Network) {threads : TransportThreads} {thread : Nat}
    (setsAt : threads.threads[thread]? = some sets)
    (ringAt : threads.polls.pollReqQ[thread]? = some ring) (awake : sets.spins = false) :
    threads.step network (.doPollJob thread) =
      some ((insertAll sets.pollJobs (ring.take 8)).1.map
          fun entry => .pollJobs thread entry.1 entry.2,
        { threads with
          polls := { threads.polls with
            pollReqQ := threads.polls.pollReqQ.set thread (ring.drop 8) }
          threads := threads.threads.set thread
            { sets with
              pollJobs := (insertAll sets.pollJobs (ring.take 8)).2.1
              spins := !(insertAll sets.pollJobs (ring.take 8)).2.2 } }) := by
  simp [step, doPollJob, setsAt, ringAt, awake]

theorem doPollJob_new (network : Network) {threads : TransportThreads} {thread : Nat}
    (setsAt : threads.threads[thread]? = some sets)
    (ringAt : threads.polls.pollReqQ[thread]? = some ring) (awake : sets.spins = false)
    (burst : (sets.pollJobs ++ ring.take 8).Nodup) :
    ∃ reached next, threads.step network (.doPollJob thread) = some (reached, next) ∧
      next.threads[thread]? = some
        { sets with
          pollJobs := sets.pollJobs ++ ring.take 8
          spins := false } ∧
      next.polls.pollReqQ[thread]? = some (ring.drop 8) := by
  obtain ⟨found, insertEq, -⟩ := insertAll_new burst
  have stepEq := step_doPollJob network setsAt ringAt awake
  rw [insertEq] at stepEq
  refine ⟨_, _, stepEq, ?_, ?_⟩
  · exact getElem?_set_self (lt_of_getElem? setsAt)
  · exact getElem?_set_self (lt_of_getElem? ringAt)

/-- A thread for which a client waits that it has, or that waits twice, comes
to a loop that never ends. -/
theorem rounds_spin (network : Network) {thread : Nat} (count : Nat) {threads : TransportThreads}
    (setsAt : threads.threads[thread]? = some sets)
    (ringAt : threads.polls.pollReqQ[thread]? = some ring) (awake : sets.spins = false)
    (few : ring.length ≤ count) (start : sets.pollJobs.Nodup)
    (repeated : ¬(sets.pollJobs ++ ring).Nodup) :
    ∃ rounds reached last, run (step network) threads (List.replicate rounds (.doPollJob thread)) =
        some (reached, last) ∧
      ∃ insertion ∈ reached, insertion.NeverEnds := by
  induction count generalizing threads sets ring with
  | zero =>
    rw [length_eq_zero_iff.mp (Nat.le_zero.mp few)] at repeated
    exact absurd (by simpa using start) repeated
  | succ count ih =>
    by_cases burst : (sets.pollJobs ++ ring.take 8).Nodup
    · obtain ⟨found, next, stepEq, nextSets, nextRing⟩ :=
        doPollJob_new network setsAt ringAt awake burst
      have shorter : (ring.drop 8).length ≤ count := by
        rw [length_drop]
        omega
      have rest : ¬(sets.pollJobs ++ ring.take 8 ++ ring.drop 8).Nodup := by
        rwa [append_assoc, take_append_drop]
      obtain ⟨rounds, reached, last, runEq, insertion, member, never⟩ :=
        ih nextSets nextRing rfl shorter burst rest
      exact ⟨rounds + 1, _, last, run_cons stepEq runEq, insertion,
        mem_append_right found member, never⟩
    · obtain ⟨entry, member, never⟩ := insertAll_repeated start burst
      have stepEq := step_doPollJob network setsAt ringAt awake
      refine ⟨1, _, _, run_cons stepEq rfl, .pollJobs thread entry.1 entry.2, ?_, never⟩
      rw [append_nil]
      exact mem_map.mpr ⟨entry, member, rfl⟩

/-- A client that is handed to a thread that has it already brings the thread
into a loop that never ends. -/
theorem handed_again_spins (network : Network) {threads : TransportThreads} {place client : Nat}
    {polls : PollQueues} (clientAt : threads.returned[place]? = some client)
    (added : threads.polls.addPollJob client = some polls)
    (setsAt : threads.threads[threads.polls.nextThread]? = some sets) (awake : sets.spins = false)
    (nodup : (threads.jobs threads.polls.nextThread).Nodup)
    (again : client ∈ threads.jobs threads.polls.nextThread) :
    ∃ rounds reached last,
      run (step network) threads (.addPollJob place ::
          List.replicate rounds (.doPollJob threads.polls.nextThread)) = some (reached, last) ∧
      ∃ insertion ∈ reached, insertion.NeverEnds := by
  obtain ⟨next, stepEq, nextThreads, nextPolls⟩ :
      ∃ next, threads.step network (.addPollJob place) = some ([], next) ∧
        next.threads = threads.threads ∧ next.polls = polls := by
    refine ⟨{ threads with
      returned := threads.returned.eraseIdx place
      polls := polls }, ?_, rfl, rfl⟩
    simp [step, clientAt, added]
  rw [PollQueues.addPollJob] at added
  split at added
  · cases added
  obtain ⟨waiting, waitingAt, rfl⟩ := Option.map_eq_some_iff.mp added
  have inside := lt_of_getElem? waitingAt
  simp only [jobs, setsAt, waitingAt, Option.map_some, Option.getD_some] at nodup again
  have repeated : ¬(sets.pollJobs ++ (waiting ++ [client])).Nodup := by
    intro nodup
    rw [← append_assoc] at nodup
    exact disjoint_of_nodup_append nodup again (mem_singleton_self _)
  have queued : next.polls.pollReqQ[threads.polls.nextThread]? = some (waiting ++ [client]) := by
    rw [nextPolls]
    exact getElem?_set_self inside
  rw [← nextThreads] at setsAt
  obtain ⟨rounds, reached, last, runEq, spins⟩ :=
    rounds_spin network _ setsAt queued awake le_rfl
      (nodup.sublist (sublist_append_left _ _)) repeated
  exact ⟨rounds, reached, last, run_cons stepEq runEq, spins⟩

theorem handed_again_spins_polled : ∃ rounds reached last,
    run (step (networkOf 1)) ⟨Host.new 1 false, none, [5], ⟨0, [[]]⟩, [⟨0, [], [5], false⟩]⟩
        (.addPollJob 0 :: List.replicate rounds (.doPollJob 0)) = some (reached, last) ∧
      ∃ insertion ∈ reached, insertion.NeverEnds :=
  handed_again_spins (networkOf 1) rfl rfl rfl rfl (by decide) (by decide)

/-- As long as no client is handed to a thread that has it, every loop that is
reached executes its insertion once. -/
theorem insertions_execute_once (network : Network) (numThreads : Nat)
    (serving : Bool) (inputs : List ThreadsInput)
    (anew : Admissible (step network) HandsAnew (start numThreads serving) inputs)
    (reached : List Insertion) (last : TransportThreads)
    (runEq : run (step network) (start numThreads serving) inputs = some (reached, last)) :
    ∀ insertion ∈ reached, insertion.ExecutesOnce :=
  (run_executes_once (distinct_start numThreads serving) anew runEq).2

/-- A host is asked twice for one connection.  Of its own two clients one has no
address to dial; the other dials, and connects again later. -/
def twoClients : List ThreadsInput :=
  [.receive (conFrom 2 9000 1), .receive (conFrom 2 9000 1), .connect 5 none,
    .addPollJob 0, .connect 6 (some (2, 8501)), .receive (ackFrom 2 8700 1),
    .finish, .addPollJob 0, .processSmReq 0, .processSmReq 1, .doPollJob 0,
    .doPollJob 1, .connect 6 none, .addPollJob 0, .doPollJob 0]

theorem insertions_execute_once_twoClients :
    ∃ reached last, run (step (networkOf 1)) (start 2 true) twoClients = some (reached, last) ∧
      reached.length = 8 ∧ ∀ insertion ∈ reached, insertion.ExecutesOnce := by
  have counted : ((run (step (networkOf 1)) (start 2 true) twoClients).map
      fun result => result.1.length) = some 8 := by
    decide +kernel
  obtain ⟨⟨reached, last⟩, runEq, eight⟩ := Option.map_eq_some_iff.mp counted
  exact ⟨reached, last, runEq, eight, insertions_execute_once (networkOf 1) 2 true twoClients
      (by decide +kernel) reached last runEq⟩

/-- A client connects, is polled, and connects again.  There is one thread, and
the loop that it then comes to never ends. -/
theorem client_connected_again_spins :
    ∃ reached last, run (step (networkOf 1)) (start 1 false)
        [.connect 5 (some (2, 8501)), .receive (ackFrom 2 8700 1), .finish,
          .addPollJob 0, .doPollJob 0, .connect 5 (some (2, 8501)),
          .receive ⟨2, 1, swap16 8501, swap16 9001, .conAck 8701⟩, .finish,
          .addPollJob 0, .doPollJob 0] = some (reached, last) ∧
      ∃ insertion ∈ reached, insertion.NeverEnds ∧ ¬insertion.ExecutesOnce := by
  have never := insertItem_present (show 5 ∈ [5] by simp)
  refine ⟨_, _, rfl, .pollJobs 0 [5] 5, ?_, never, never.not_executesOnce⟩
  exact mem_cons_of_mem _ mem_cons_self

end TransportThreads

end SRPC.Dpdk
