import SRPC.TcpDispatch

/-! # A server connection under any stream -/

namespace SRPC.Tcp

open LittleEndian SparseInt Marshalling PacketStream ByteSource Connection List

/-- The requests `added` were extracted.  Each was passed to the handler of its
method or answered once, with `EINVAL` if it has no method and with `ENOENT` if
the method has no handler. -/
structure Serves (handlers : BitVec 32 → Bool) (bytes queued : List Byte)
    (calls : List Call) (responses : List Response) (connection : Connection)
    (server : Sender) (bodies : List (List Byte)) (left : List Byte)
    (added : List Call) : Prop where
  stream : bytes = frames bodies ++ left
  small : ∀ body ∈ bodies, body.length < 2 ^ 31
  waiting : ¬ Announced left
  decoded : List.Forall₂ Decodes bodies added
  responses : responses = added.map fun call => respond handlers call.rest
  holds : Holds connection left (calls ++ added.map (remaining handlers))
  replies : Sender.Idle server (queued ++ frames (added.filterMap (refusal handlers)))

/-- What a call of `handle_read` takes from the bytes that the kernel has. -/
def Connection.taken (connection : Connection) (incoming : List Byte)
    (answers : List Int) : List Byte :=
  match connection.in_.readFromFd connection.heap incoming answers with
  | none => []
  | some (n, _) => incoming.take n

/-- A call of `handle_read`: the bytes that the kernel has, its answers, and
the stack below the call. -/
structure Reading where
  incoming : List Byte
  answers : List Int
  stack : Nat → Nat → Byte

/-- Calls of `handle_read` one after the other: the bytes received, up to the
call that fails, and what the server has made of them unless one fails. -/
def serveStream (handlers : BitVec 32 → Bool) :
    Connection → Sender → List Reading →
      List Byte × Option (List Response × Connection × Sender)
  | connection, server, [] => ([], some ([], connection, server))
  | connection, server, reading :: readings =>
    let taken := connection.taken reading.incoming reading.answers
    match connection.readAndServe handlers server reading.incoming
        reading.answers reading.stack with
    | none => (taken, none)
    | some (responses, _, connection, server) =>
      let (later, outcome) := serveStream handlers connection server readings
      (taken ++ later, outcome.map fun (others, final) =>
        (responses ++ others, final))

variable {handlers : BitVec 32 → Bool} {connection : Connection}
  {server : Sender} {bytes queued : List Byte} {calls : List Call}

theorem Connection.Holds.taken_eq (holds : Holds connection bytes calls)
    (incoming : List Byte) (answers : List Int) :
    ∃ n results heap in_, connection.in_.readFromFd connection.heap incoming answers =
        some (n, results, incoming.drop n, heap, in_) ∧
      n ≤ incoming.length ∧
      connection.taken incoming answers = incoming.take n ∧
      Holds { connection with heap := heap, in_ := in_ }
        (bytes ++ connection.taken incoming answers) calls := by
  obtain ⟨n, results, heap, in_, readEq, moves, holds'⟩ := holds.receive incoming answers
  have taken : connection.taken incoming answers = incoming.take n := by
    rw [Connection.taken, readEq]
  exact ⟨n, results, heap, in_, readEq, moves.le, taken, taken ▸ holds'⟩

theorem Connection.Holds.length_received (holds : Holds connection bytes calls)
    (incoming : List Byte) (answers : List Int) :
    (bytes ++ connection.taken incoming answers).length ≤ bytes.length + incoming.length := by
  obtain ⟨n, -, -, -, -, enough, taken, -⟩ := holds.taken_eq incoming answers
  rw [taken, length_append, length_take]
  omega

section Reads

variable (handlers) (holds : Holds connection bytes calls)
  (waiting : ¬ Announced bytes) {incoming : List Byte} (small : incoming.length < 2 ^ 32)
  (bounded : bytes.length + incoming.length < 2 ^ 63) (answers : List Int)
  (stack : Nat → Nat → Byte)

include holds waiting small bounded

theorem readAndServe_harmless (idle : Sender.Idle server queued)
    (harmless : Harmless (bytes ++ connection.taken incoming answers)) :
    ∃ responses wire connection' server' bodies left added,
      connection.readAndServe handlers server incoming answers stack =
        some (responses, wire, connection', server') ∧
      Serves handlers (bytes ++ connection.taken incoming answers) queued calls
        responses connection' server' bodies left added := by
  have short := Nat.lt_of_le_of_lt (holds.length_received incoming answers) bounded
  obtain ⟨n, results, heap, in_, readEq, enough, taken, holds₁⟩ := holds.taken_eq incoming answers
  by_cases nothing : n = 0
  · subst nothing
    rw [taken, take_zero, append_nil] at holds₁ ⊢
    refine ⟨[], incoming, { connection with heap := heap, in_ := in_ }, server,
      [], bytes, [], ?_, rfl, by simp, waiting, .nil, rfl, by simpa using holds₁,
      by simpa using idle⟩
    simp [readAndServe, handleRead, readEq, toI32, serveAll]
  · have received := toI32_ne_zero (Nat.pos_of_ne_zero nothing) (by omega)
    have fueled : (bytes ++ connection.taken incoming answers).length < in_.contentSize + 1 := by
      rw [← holds₁.content, holds₁.sound.length_content]
      exact Nat.lt_succ_self _
    obtain ⟨result, bodies, left, added, loopEq, extracts⟩ :=
      holds₁.extractLoop_harmless short harmless stack fueled
    obtain ⟨connection', server', serveEq, served, ended⟩ :=
      extracts.holds.serveAll_eq handlers idle extracts.xids
    refine ⟨_, incoming.drop n, connection', server', bodies, left, added, ?_,
      extracts.stream, extracts.small, extracts.waiting, extracts.decoded, rfl, served, ended⟩
    have known := holds.requests.length_eq
    have later := extracts.holds.requests.length_eq
    simp [readAndServe, handleRead, readEq, received, loopEq, known, later, serveEq]

theorem readAndServe_harmful (server : Sender)
    (harmful : ¬ Harmless (bytes ++ connection.taken incoming answers)) :
    connection.readAndServe handlers server incoming answers stack = none := by
  have short := Nat.lt_of_le_of_lt (holds.length_received incoming answers) bounded
  obtain ⟨n, results, heap, in_, readEq, enough, taken, holds₁⟩ := holds.taken_eq incoming answers
  have positive : 0 < n := by
    rcases Nat.eq_zero_or_pos n with rfl | positive
    · rw [taken, take_zero, append_nil] at harmful
      exact absurd (harmless_of_not_announced waiting) harmful
    · exact positive
  have received := toI32_ne_zero positive (by omega)
  have failed := holds₁.extractLoop_eq_none short harmful stack (in_.contentSize + 1)
  simp [readAndServe, handleRead, readEq, received, failed]

end Reads

variable {responses : List Response} {bodies : List (List Byte)} {left : List Byte}
  {added : List Call}

theorem Serves.append {others : List Response} {connection' : Connection} {server' : Sender}
    {bodies' : List (List Byte)} {left' more : List Byte} {added' : List Call}
    (first : Serves handlers bytes queued calls responses connection server bodies left added)
    (second : Serves handlers (left ++ more) (queued ++ frames (added.filterMap (refusal handlers)))
      (calls ++ added.map (remaining handlers)) others connection' server' bodies' left' added') :
    Serves handlers (bytes ++ more) queued calls (responses ++ others)
      connection' server' (bodies ++ bodies') left' (added ++ added') := by
  refine ⟨?_, ?_, second.waiting, ?_, ?_, ?_, ?_⟩
  · rw [first.stream, append_assoc, second.stream, frames_append, append_assoc]
  · intro body member
    rcases mem_append.mp member with member | member
    · exact first.small body member
    · exact second.small body member
  · exact rel_append first.decoded second.decoded
  · rw [first.responses, second.responses, map_append]
  · simpa using second.holds
  · simpa [frames_append] using second.replies

theorem Serves.harmless
    (serves : Serves handlers bytes queued calls responses connection server
      bodies left added) : Harmless bytes := by
  rw [serves.stream, harmless_frames serves.small serves.decoded]
  exact harmless_of_not_announced serves.waiting

theorem serveStream_cases (handlers : BitVec 32 → Bool)
    (holds : Holds connection bytes calls) (waiting : ¬ Announced bytes)
    (idle : Sender.Idle server queued) {readings : List Reading}
    (small : ∀ reading ∈ readings, reading.incoming.length < 2 ^ 32)
    (bounded : bytes.length + (readings.map fun reading => reading.incoming.length).sum < 2 ^ 63) :
    (∃ received, serveStream handlers connection server readings =
        (received, none) ∧ ¬ Harmless (bytes ++ received)) ∨
      ∃ received responses connection' server' bodies left added,
        serveStream handlers connection server readings =
          (received, some (responses, connection', server')) ∧
        Serves handlers (bytes ++ received) queued calls responses connection'
          server' bodies left added := by
  induction readings generalizing connection server bytes queued calls with
  | nil =>
    refine .inr ⟨[], [], connection, server, [], bytes, [], rfl, by simp,
      by simp, waiting, .nil, rfl, by simpa using holds,
      by simpa using idle⟩
  | cons reading readings ih =>
    obtain ⟨short, smalls⟩ := forall_mem_cons.mp small
    rw [map_cons, sum_cons] at bounded
    by_cases harmless : Harmless (bytes ++ connection.taken reading.incoming reading.answers)
    · obtain ⟨responses, _, connection₁, server₁, bodies, left, added, readEq,
        serves⟩ := readAndServe_harmless handlers holds waiting short
          (by omega) reading.answers reading.stack idle harmless
      have length := holds.length_received reading.incoming reading.answers
      rw [serves.stream, length_append] at length
      rcases ih serves.holds serves.waiting serves.replies smalls (by omega)
        with ⟨received, restEq, harmful⟩ |
          ⟨received, others, connection', server', bodies', left', added', restEq, serves'⟩
      · refine .inl ⟨_, by simp only [serveStream, readEq, restEq]; rfl, ?_⟩
        rwa [← append_assoc, serves.stream, append_assoc,
          harmless_frames serves.small serves.decoded]
      · refine .inr ⟨_, responses ++ others, connection', server',
          bodies ++ bodies', left', added ++ added',
          by simp only [serveStream, readEq, restEq]; rfl, ?_⟩
        rw [← append_assoc]
        exact serves.append serves'
    · have readEq := readAndServe_harmful handlers holds waiting short
        (by omega) reading.answers reading.stack server harmless
      exact .inl ⟨_, by rw [serveStream, readEq], harmless⟩

/-- A server survives a stream, in whatever pieces it comes, exactly if there is
no packet in it that the server takes for complete and whose size is negative or
whose id is cut off.  Then it has dispatched or answered every packet. -/
theorem tcp_server_survives_iff (handlers : BitVec 32 → Bool)
    (inHeap outHeap : Heap) (readings : List Reading)
    (small : ∀ reading ∈ readings, reading.incoming.length < 2 ^ 32)
    (bounded :
      (readings.map fun reading => reading.incoming.length).sum < 2 ^ 63) :
    let stream :=
      serveStream handlers (Connection.new inHeap) (Sender.new outHeap) readings
    (stream.2.isSome ↔ Harmless stream.1) ∧
      ∀ result ∈ stream.2, ∃ bodies left added,
        Serves handlers stream.1 [] [] result.1 result.2.1 result.2.2 bodies
          left added := by
  rcases serveStream_cases handlers (Connection.holds_new inHeap)
    (by decide) (Sender.idle_new outHeap) small (by simpa using bounded) with
    ⟨received, streamEq, harmful⟩ |
      ⟨received, responses, connection, server, bodies, left, added, streamEq, serves⟩
  · simp only [streamEq]
    exact ⟨iff_of_false nofun harmful, nofun⟩
  · simp only [streamEq]
    refine ⟨iff_of_true rfl serves.harmless, ?_⟩
    rintro _ ⟨⟩
    exact ⟨bodies, left, added, serves⟩

def splitCalls : List Reading :=
  [⟨[5, 0, 0, 0, 0x2A], [100], fun _ _ => 0⟩, ⟨[7, 0, 0, 0], [100], fun _ _ => 0⟩,
    ⟨[1, 0, 0, 0, 0x2B], [100], fun _ _ => 0⟩]

theorem splitCalls_served :
    ((serveStream (· = 7) (Connection.new blankHeap) (Sender.new blankHeap)
      splitCalls).2.map fun result => result.1) = some [.dispatched 7, .answered einval] := by
  decide +kernel

theorem tcp_server_survives_splitCalls :
    Harmless (serveStream (· = 7) (Connection.new blankHeap) (Sender.new blankHeap) splitCalls).1 :=
  (tcp_server_survives_iff (· = 7) blankHeap blankHeap splitCalls
    (by simp [splitCalls]) (by simp [splitCalls])).1.mp (by
      have served := congrArg Option.isSome splitCalls_served
      rwa [Option.isSome_map] at served)

/-- A packet of no bytes, one of `-1` bytes, and one with an id that is cut off
are fatal. -/
theorem malformed_packet_stops_server :
    ([[0, 0, 0, 0], [0xFF, 0xFF, 0xFF, 0xFF], [1, 0, 0, 0, 0xFF]] :
        List (List Byte)).map
      (fun bytes =>
        (serveStream (· = 7) (Connection.new blankHeap) (Sender.new blankHeap)
          [⟨bytes, [100], fun _ _ => 0⟩]).2.isNone) =
    [true, true, true] := by
  decide +kernel

end SRPC.Tcp
