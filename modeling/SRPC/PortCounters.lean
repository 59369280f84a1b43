import SRPC.ConnectionKeys

/-!
# How far the port counters carry

`s_port_counter` starts 300 ports below `u_port_counter`, so a host that is asked
for at most 300 connections does not draw a port twice.
-/

namespace SRPC.Dpdk

open LittleEndian

namespace Host

variable {network : Network} {host : Host}

def udpPorts (tables : ServerTables) : List (BitVec 16) :=
  tables.conns.map TransportConnection.udpPort

variable {sent : List Packet} {tables next : ServerTables} {packet : Packet}

theorem process_draws {events : List HandshakeEvent}
    (processed : tables.process network packet = some (events, sent, next)) :
    (next.sPortCounter = tables.sPortCounter ∧
      udpPorts next = udpPorts tables) ∨
    (packet.message = .con ∧
      next.sPortCounter = tables.sPortCounter + 1 ∧
      (udpPorts next = udpPorts tables ∨ udpPorts next =
        udpPorts tables ++ [tables.sPortCounter.setWidth 16])) := by
  cases message : packet.message with
  | con =>
    refine .inr ⟨rfl, ?_⟩
    simp only [ServerTables.process, message, bind_eq_some_iff] at processed
    obtain ⟨⟨ack, later⟩, accepted, same⟩ := processed
    cases same
    rw [ServerTables.accept] at accepted
    simp only at accepted
    split at accepted
    · simp only [bind_eq_some_iff] at accepted
      obtain ⟨index, -, conn, -, same⟩ := accepted
      cases same
      exact ⟨rfl, .inl rfl⟩
    · cases accepted
      exact ⟨rfl, .inr List.map_append⟩
  | conAck udpPort =>
    refine .inl ?_
    simp only [ServerTables.process, message] at processed
    split at processed
    · cases processed
      exact ⟨rfl, rfl⟩
    · rename_i index found
      simp only [bind_eq_some_iff] at processed
      obtain ⟨conn, connEq, same⟩ := processed
      cases same
      refine ⟨rfl, ?_⟩
      show (tables.conns.set index _).map _ = _
      rw [List.map_set]
      exact set_of_getElem? (by rw [List.getElem?_map, connEq]; rfl)

theorem rekey_draws {index : Nat} {conn : TransportConnection}
    (connEq : tables.conns[index]? = some conn) (rekeyed : tables.rekey index conn = some next) :
    next.sPortCounter = tables.sPortCounter ∧
      udpPorts next = udpPorts tables := by
  simp only [ServerTables.rekey, bind_eq_some_iff]
    at rekeyed
  obtain ⟨entry, -, same⟩ := rekeyed
  cases same
  refine ⟨rfl, ?_⟩
  show (tables.conns.set index _).map _ = _
  rw [List.map_set]
  exact set_of_getElem? (by rw [List.getElem?_map, connEq]; rfl)

/-- So many ports were drawn from the two counters, and the connections have
some of these. -/
structure Drawn (s u : Nat) (host : Host) : Prop where
  sPort : host.tables.sPortCounter = BitVec.ofNat 64 (8700 + s)
  uPort : host.uPortCounter = BitVec.ofNat 64 (9000 + u)
  ports : ∀ port ∈ udpPorts host.tables, (∃ k < s, port = BitVec.ofNat 16 (8700 + k)) ∨
      ∃ k < u, port = BitVec.ofNat 16 (9000 + k)

variable {s u : Nat}

theorem Drawn.unused (drawn : Drawn s u host) :
    (s < 300 → u ≤ 65236 →
      host.Unused (host.tables.sPortCounter.setWidth 16)) ∧
    (s ≤ 300 → u < 65236 →
      host.Unused (host.uPortCounter.setWidth 16)) := by
  rw [drawn.sPort, drawn.uPort, BitVec.setWidth_ofNat_of_le (by decide),
    BitVec.setWidth_ofNat_of_le (by decide)]
  have ports (conn : TransportConnection) (member : conn ∈ host.tables.conns) :=
    drawn.ports conn.udpPort (List.mem_map_of_mem member)
  constructor <;>
  · intro few many conn member same
    rcases ports conn member with ⟨k, below, portEq⟩ | ⟨k, below, portEq⟩ <;>
    · have equal := congrArg BitVec.toNat (portEq.symm.trans same)
      rw [BitVec.toNat_ofNat, BitVec.toNat_ofNat] at equal
      omega

theorem receive_cases {next : Host}
    (stepEq : host.step network (.receive packet) = some (sent, next)) :
    next = host ∨ ∃ events tables,
      host.tables.process network packet = some (events, sent, tables) ∧
        next = { host with tables := tables } := by
  simp only [Host.step] at stepEq
  split at stepEq
  · cases stepEq
    exact .inl rfl
  · cases stepEq
    exact .inl rfl
  · obtain ⟨⟨events, sent', tables⟩, processEq, same⟩ := bind_eq_some_iff.mp stepEq
    cases same
    exact .inr ⟨events, tables, processEq, rfl⟩

/-- A `CON` packet arrives. -/
def asks : HostInput → Bool
  | .receive packet => packet.message = .con
  | _ => false

def dials : HostInput → Bool
  | .connect _ _ => true
  | _ => false

/-- Every input draws its ports in turn. -/
theorem Drawn.step (drawn : Drawn s u host) {input : HostInput} {next : Host}
    (stepEq : host.step network input = some (sent, next)) :
    ∃ s' u', s' ≤ s + (asks input).toNat ∧ u' ≤ u + (dials input).toNat ∧
      Drawn s' u' next := by
  cases input with
  | connect ip port =>
    simp only [Host.step] at stepEq
    split at stepEq
    · cases stepEq
      exact ⟨s, u, Nat.le_add_right _ _, Nat.le_add_right _ _, drawn⟩
    · cases stepEq
      refine ⟨s, u + 1, Nat.le_add_right _ _, Nat.le_refl _, drawn.sPort, ?_, ?_⟩
      · show host.uPortCounter + 1 = _
        rw [drawn.uPort]
        exact (BitVec.ofNat_add _ 1).symm
      · intro port' member
        change port' ∈ (host.tables.conns ++ [_]).map _ at member
        rw [List.map_append, List.mem_append] at member
        rcases member with before | new
        · exact (drawn.ports port' before).imp_right
            (Exists.imp fun _ => And.imp_left Nat.lt_succ_of_lt)
        · rw [List.map_singleton, List.mem_singleton] at new
          refine .inr ⟨u, Nat.lt_succ_self u, ?_⟩
          rw [new]
          show host.uPortCounter.setWidth 16 = _
          rw [drawn.uPort, BitVec.setWidth_ofNat_of_le (by decide)]
  | finish =>
    refine ⟨s, u, Nat.le_add_right _ _, Nat.le_add_right _ _, ?_⟩
    simp only [Host.step] at stepEq
    split at stepEq
    · cases stepEq
      exact drawn
    · simp only [bind_eq_some_iff] at stepEq
      obtain ⟨conn, connEq, stepEq⟩ := stepEq
      split at stepEq
      · obtain ⟨tables, rekeyEq, same⟩ := bind_eq_some_iff.mp stepEq
        cases same
        obtain ⟨counter, ports⟩ := rekey_draws connEq rekeyEq
        exact ⟨counter.trans drawn.sPort, drawn.uPort, fun port member =>
          drawn.ports port (ports ▸ member)⟩
      · cases stepEq
        exact drawn
  | receive packet =>
    rcases receive_cases stepEq with rfl | ⟨events, tables, processEq, rfl⟩
    · exact ⟨s, u, Nat.le_add_right _ _, Nat.le_add_right _ _, drawn⟩
    rcases process_draws processEq with
      ⟨counter, ports⟩ | ⟨message, counter, ports⟩
    · exact ⟨s, u, Nat.le_add_right _ _, Nat.le_add_right _ _,
        counter.trans drawn.sPort, drawn.uPort, fun port member =>
          drawn.ports port (ports ▸ member)⟩
    · have asked : s + 1 ≤ s + (asks (.receive packet)).toNat := by
        simp [asks, message]
      refine ⟨s + 1, u, asked, Nat.le_add_right _ _, ?_, drawn.uPort, ?_⟩
      · rw [counter, drawn.sPort]
        exact (BitVec.ofNat_add _ 1).symm
      · intro port member
        have old (before : port ∈ udpPorts host.tables) :=
          (drawn.ports port before).imp_left (Exists.imp fun k => And.imp_left Nat.lt_succ_of_lt)
        rcases ports with same | grown
        · exact old (same ▸ member)
        · change port ∈ udpPorts tables at member
          rw [grown, List.mem_append, List.mem_singleton] at member
          rcases member with before | rfl
          · exact old before
          · refine .inl ⟨s, Nat.lt_succ_self s, ?_⟩
            rw [drawn.sPort, BitVec.setWidth_ofNat_of_le (by decide)]

variable {inputs : List HostInput}

theorem Drawn.admissible (drawn : Drawn s u host) (few : s + inputs.countP asks ≤ 300)
    (many : u + inputs.countP dials ≤ 65236) :
    TransitionRuns.Admissible (Host.step network) Host.DrawsUnused host inputs := by
  induction inputs generalizing host s u with
  | nil => trivial
  | cons input inputs ih =>
    rw [List.countP_cons] at few many
    refine ⟨?_, ?_⟩
    · cases input with
      | connect ip port =>
        intro _
        simp only [dials, if_true] at many
        exact drawn.unused.2 (by omega) (by omega)
      | finish => trivial
      | receive packet =>
        intro message _ _ _
        simp only [asks, message, decide_true, if_true] at few
        exact drawn.unused.1 (by omega) (by omega)
    · cases stepEq : host.step network input with
      | none => trivial
      | some result =>
        obtain ⟨s', u', asked, dialled, later⟩ := drawn.step stepEq
        refine ih later ?_ ?_
        · cases asking : asks input <;> simp [asking] at few asked <;> omega
        · cases dialing : dials input <;> simp [dialing] at many dialled <;>
            omega

theorem drawn_new (numThreads : Nat) (serving : Bool) :
    Drawn 0 0 (new numThreads serving) := ⟨rfl, rfl, nofun⟩

/-- A host that was asked for at most 300 connections and has dialled at most
65236 keeps its connections apart. -/
theorem run_keepsKeys_of_few (numThreads : Nat) (serving : Bool) (few : inputs.countP asks ≤ 300)
    (many : inputs.countP dials ≤ 65236) :
    ∃ sent last, TransitionRuns.run (Host.step network)
        (Host.new numThreads serving) inputs = some (sent, last) ∧
      last.KeepsKeys := by
  obtain ⟨sent, last, runEq, orderly⟩ :=
    run_orderly network numThreads serving inputs
      ((drawn_new numThreads serving).admissible (by omega) (by omega))
  exact ⟨sent, last, runEq, orderly.keeps⟩

theorem run_keepsKeys_of_few_bothWays :
    ∃ sent last, TransitionRuns.run (Host.step (networkOf 1)) (Host.new 1 true) bothWays =
      some (sent, last) ∧ last.KeepsKeys := run_keepsKeys_of_few 1 true (by decide) (by decide)

end Host

end SRPC.Dpdk
