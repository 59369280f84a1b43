import SRPC.UdpReplyCalls

/-!
# Packets of callers that do not overlap

Two callers that overlap write into one packet, which is then enqueued twice.
-/

namespace SRPC.Dpdk

open TransportMarshal TransitionRuns

/-- A connected client, with nothing enqueued and no request open. -/
structure SharedClient.Ready (shared : SharedClient) : Prop where
  connected : shared.client.status = .connected
  conn : shared.client.conn ≠ none
  rings : 0 < shared.client.nrInrings
  enqueued : shared.client.outBufring = []
  opened : shared.opened = []

/-- Nothing is enqueued and no reply is open. -/
structure SharedConnection.Ready (shared : SharedConnection) : Prop where
  rings : 0 < shared.sconn.nrInrings
  enqueued : shared.sconn.outBufring = []
  requests : shared.requests = []
  opened : shared.opened = []

theorem SharedClient.Ready.holds {shared : SharedClient}
    (ready : shared.Ready) : shared.Holds [] := by
  refine ⟨ready.connected, ready.conn, ready.rings, ?_, ?_, .inl ready.opened⟩
  · rw [ready.enqueued]
    exact .nil ..
  · simp [ready.enqueued]

theorem SharedConnection.Ready.holds {shared : SharedConnection}
    (ready : shared.Ready) : shared.Holds [] := by
  have none : shared.reserved [] = [] := by
    simp [reserved, sentPkts, ready.enqueued, ready.requests, placedPkts]
  refine ⟨ready.rings, ?_, by simp, ?_, ?_, .inl ready.opened⟩
  · rw [ready.enqueued]
    exact .nil ..
  · simp [none]
  · simp [none]

/-- In a run without overlaps every packet that is enqueued is enqueued once
and holds what one caller means, in the order in which the callers end, and
nothing that was ended is missing. -/
theorem calls_do_not_mix (client : SharedClient) (calls : List RequestCall)
    (connection : SharedConnection) (replies : List ReplyCall) :
    (client.Ready →
      Admissible SharedClient.step (fun shared call => shared.Allows call ∧ shared.Alone call)
        client calls →
      ∃ drafts later, run SharedClient.step client calls = some (drafts, later) ∧
        Delivers later.pool 0x09 later.client.outBufring (drafts.map Draft.body)) ∧
    (connection.Ready →
      Admissible SharedConnection.step (fun shared call => shared.Allows call ∧ shared.Alone call)
        connection replies →
      ∃ events later, run SharedConnection.step connection replies = some (events, later) ∧
        Delivers later.pool 0x0a later.sconn.outBufring (SharedConnection.enqueuedBodies events) ∧
        ∀ pkt reply, .inPlace pkt reply ∈ events →
          (later.pool.mbuf pkt).Carries 0x0a reply.body) := by
  constructor
  · intro ready admissible
    have preserved (log : List Draft) (shared : SharedClient)
        (call : RequestCall) (holds : shared.Holds log)
        (allowed : shared.Allows call ∧ shared.Alone call) := holds.step call allowed
    obtain ⟨drafts, later, eq, holds⟩ := run_of_admissible preserved [] ready.holds calls admissible
    exact ⟨drafts, later, eq, holds.delivers⟩
  · intro ready admissible
    have preserved (log : List ReplyEvent) (shared : SharedConnection)
        (call : ReplyCall) (holds : shared.Holds log)
        (allowed : shared.Allows call ∧ shared.Alone call) := holds.step call allowed
    obtain ⟨events, later, eq, holds⟩ :=
      run_of_admissible preserved [] ready.holds replies admissible
    exact ⟨events, later, eq, holds.delivers, holds.placed⟩

def sampleClient : SharedClient := ⟨samplePool, (UdpClient.new 2).connect sampleConnection, []⟩

def separateCalls : List RequestCall :=
  [.beginRequest 0 7 fun _ => 0, .put 0 ⟨.scalar .u8, (5#8)⟩, .endRequest 0 0,
    .beginRequest 1 8 fun _ => 0, .endRequest 1 3]

def sampleServerConnection : SharedConnection :=
  ⟨samplePool, ⟨sampleConnection, 2, .empty, []⟩, [], []⟩

def separateReplies : List ReplyCall :=
  [.receive fun _ => 0x09, .receive fun _ => 0x0a, .beginReply 0 ⟨some 0, 0, 0, 59⟩ 3 0 fun _ => 0,
    .put 0 ⟨.scalar .u8, (5#8)⟩, .endReply 0 0,
    .beginReply 1 ⟨some 1, 0, 0, 59⟩ 4 0 fun _ => 0, .endReply 1 0]

theorem calls_do_not_mix_sample :
    (∃ drafts later, run SharedClient.step sampleClient separateCalls = some (drafts, later) ∧
      Delivers later.pool 0x09 later.client.outBufring (drafts.map Draft.body)) ∧
    ∃ events later, run SharedConnection.step sampleServerConnection
        separateReplies = some (events, later) ∧
      Delivers later.pool 0x0a later.sconn.outBufring (SharedConnection.enqueuedBodies events) ∧
      ∀ pkt reply, .inPlace pkt reply ∈ events →
        (later.pool.mbuf pkt).Carries 0x0a reply.body :=
  have separate := calls_do_not_mix sampleClient separateCalls
    sampleServerConnection separateReplies
  ⟨separate.1 ⟨rfl, by decide, by decide, rfl, rfl⟩ (by decide +kernel),
    separate.2 ⟨by decide, rfl, rfl, rfl⟩ (by decide +kernel)⟩

def overlappingCalls : List RequestCall :=
  [.beginRequest 0 7 fun _ => 0, .beginRequest 1 8 fun _ => 0, .endRequest 0 0, .endRequest 1 0]

/-- The packet of the second caller is enqueued twice and that of the first is
lost. -/
theorem overlapping_calls_mix :
    sampleClient.Ready ∧
    Admissible SharedClient.step SharedClient.Allows sampleClient overlappingCalls ∧
    ∃ drafts later, run SharedClient.step sampleClient overlappingCalls = some (drafts, later) ∧
      later.client.outBufring.map Prod.snd = [1, 1] ∧
      ¬ Delivers later.pool 0x09 later.client.outBufring (drafts.map Draft.body) := by
  refine ⟨⟨rfl, by decide, by decide, rfl, rfl⟩, (by decide +kernel), ?_⟩
  have observed : (run SharedClient.step sampleClient overlappingCalls).map
      (fun result => result.2.client.outBufring.map Prod.snd) = some [1, 1] := by decide +kernel
  obtain ⟨⟨drafts, later⟩, eq, ring⟩ := Option.map_eq_some_iff.mp observed
  refine ⟨drafts, later, eq, ring, fun delivers => ?_⟩
  have once := delivers.once
  rw [ring] at once
  exact absurd once (by decide)

end SRPC.Dpdk
