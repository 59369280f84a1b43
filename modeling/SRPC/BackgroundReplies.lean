import SRPC.BackgroundPoll
import SRPC.BusyPrefixes

/-!
# What a poll of a server connection does

Each request of a burst is answered in a buffer of its own, so that the
requests behind it and the replies before it stay as they are.
-/

namespace SRPC.Dpdk

open LittleEndian Marshalling TransportMarshal ByteSource BusyPrefixes List

section Connections

variable {sconn sconn' : UdpConnection} {pool later : Pool} {results : List Argument}

theorem UdpConnection.putAll_conn (putEq : sconn.putAll pool results = some (later, sconn')) :
    (sconn'.conn, sconn'.nrInrings) = (sconn.conn, sconn.nrInrings) := by
  rw [putAll_eq, Option.map_eq_some_iff] at putEq
  obtain ⟨_, -, same⟩ := putEq
  cases same
  rfl

theorem UdpConnection.endReply_conn {tries : Nat}
    (endEq : sconn.endReply pool tries = some (later, sconn')) :
    (sconn'.conn, sconn'.nrInrings) = (sconn.conn, sconn.nrInrings) := by
  simp only [UdpConnection.endReply, bind_eq_some_iff] at endEq
  obtain ⟨_, -, _, -, single, -, endEq⟩ := endEq
  split at endEq
  · simp only [bind_eq_some_iff] at endEq
    obtain ⟨_, -, same⟩ := endEq
    cases same
    rfl
  · simp only [bind_eq_some_iff] at endEq
    obtain ⟨_, -, _, -, same⟩ := endEq
    cases same
    rfl

theorem UdpConnection.reply_conn {draw : Draw} {req : TransportMarshal} {xid : BitVec 64}
    {errorCode : BitVec 32}
    (replyEq : sconn.reply pool draw req xid errorCode results = some (later, sconn')) :
    (sconn'.conn, sconn'.nrInrings) = (sconn.conn, sconn.nrInrings) := by
  simp only [UdpConnection.reply, UdpConnection.beginReply, bind_eq_some_iff] at replyEq
  obtain ⟨_, ⟨_, -, same⟩, _, putEq, endEq⟩ := replyEq
  cases same
  have filled := putAll_conn putEq
  exact (endReply_conn endEq).trans filled

end Connections

section Decoding

variable {pool later : Pool} {conn : TransportConnection} {handlers : Handlers} {request : Incoming}

/-- The marshal stands behind the size and the id of the request. -/
structure PolledRequest.Decodes (decoded : PolledRequest) (request : Incoming)
    (pool : Pool) : Prop where
  pkt : decoded.pkt = request.mbuf
  xid : decoded.xid = request.xid
  behind : dataOffset < decoded.m.offset
  held : ∃ rest, HoldsBytes pool request.mbuf (pool, decoded.m)
    (toBytes 4 request.rpcId ++ (request.arguments.flatMap encodeArgument ++ rest))

variable {decoded : PolledRequest}

theorem PolledRequest.Decodes.frame (decodes : decoded.Decodes request pool)
    (same : later.mbuf request.mbuf = pool.mbuf request.mbuf) : decoded.Decodes request later := by
  obtain ⟨rest, held⟩ := decodes.held
  exact ⟨decodes.pkt, decodes.xid, decodes.behind, rest, rfl, held.2.1,
    by rw [same]; exact held.2.2⟩

end Decoding

section Answering

variable {handlers : Handlers} {schedule : PollSchedule}
  {pool middle last : Pool} {sconn sconn₁ sconn₂ : UdpConnection}
  {request : Incoming} {done more : List Incoming}

/-- The requests that are answered at once have a reply in a new buffer, and
nothing else that was allocated has changed. -/
structure Polled (handlers : Handlers) (schedule : PollSchedule) (pool : Pool)
    (sconn : UdpConnection) (done : List Incoming) (last : Pool)
    (sconn' : UdpConnection) : Prop where
  conn : sconn'.conn = sconn.conn
  nrInrings : sconn'.nrInrings = sconn.nrInrings
  next : last.next = pool.next + (done.filter (Incoming.atOnce handlers schedule)).length
  frame : ∀ other, other < pool.next → other ∉ done.map Incoming.mbuf →
    last.mbuf other = pool.mbuf other
  replies : ∃ replies, sconn'.outBufring = sconn.outBufring ++ replies ∧
    replies.map Prod.snd = List.range' pool.next
      (done.filter (Incoming.atOnce handlers schedule)).length ∧
    List.Forall₂ (fun request reply =>
        request.RepliedBy handlers sconn.conn (last.mbuf reply.2))
      (done.filter (Incoming.atOnce handlers schedule)) replies

namespace Polled

theorem nil : Polled handlers schedule pool sconn [] pool sconn where
  conn := rfl
  nrInrings := rfl
  next := rfl
  frame _ _ _ := rfl
  replies := ⟨[], by simp, rfl, .nil⟩

theorem next_le (polled : Polled handlers schedule pool sconn done last sconn₁) :
    pool.next ≤ last.next := by
  rw [polled.next]
  exact Nat.le_add_right _ _

theorem append (first : Polled handlers schedule pool sconn done middle sconn₁)
    (second : Polled handlers schedule middle sconn₁ more last sconn₂)
    (allocated : ∀ request ∈ more, request.mbuf < pool.next) :
    Polled handlers schedule pool sconn (done ++ more) last sconn₂ where
  conn := second.conn.trans first.conn
  nrInrings := second.nrInrings.trans first.nrInrings
  next := by
    rw [second.next, first.next, filter_append, length_append, Nat.add_assoc]
  frame := by
    intro other old absent
    rw [map_append, mem_append, not_or] at absent
    rw [second.frame other (old.trans_le first.next_le) absent.2, first.frame other old absent.1]
  replies := by
    obtain ⟨replies, queued, buffers, replied⟩ := first.replies
    obtain ⟨others, queued', buffers', replied'⟩ := second.replies
    have kept : ∀ reply ∈ replies, last.mbuf reply.2 = middle.mbuf reply.2 := by
      intro reply member
      have inside := mem_map_of_mem (f := Prod.snd) member
      rw [buffers, mem_range'_1, ← first.next] at inside
      refine second.frame reply.2 inside.2 fun requested => ?_
      obtain ⟨request, member, same⟩ := mem_map.mp requested
      have := allocated request member
      omega
    refine ⟨replies ++ others, ?_, ?_, ?_⟩
    · rw [queued', queued, append_assoc]
    · rw [map_append, buffers, buffers', first.next, filter_append, length_append, range'_append_1]
    · rw [filter_append]
      refine rel_append ?_ ?_
      · rw [forall₂_iff_zip] at replied ⊢
        refine ⟨replied.1, fun {request reply} member => ?_⟩
        rw [kept reply (of_mem_zip member).2]
        exact replied.2 member
      · rw [first.conn] at replied'
        exact replied'

theorem answered (now : request.atOnce handlers schedule = true)
    (rings : 0 < sconn.nrInrings) {req : TransportMarshal}
    (buffer : req.reqData = some request.mbuf) (draw : Draw)
    {errorCode : BitVec 32} {results : List Argument}
    (body : idBytes request.xid errorCode ++ results.flatMap encodeArgument =
      request.replyBody handlers)
    (room : bodyOffset + (request.replyBody handlers).length ≤ dataRoom) :
    ∃ last sconn', sconn.reply (pool.store request.mbuf dataOffset [0x0a]) draw req
        request.xid errorCode results = some (last, sconn') ∧
      Polled handlers schedule pool sconn [request] last sconn' := by
  have background : ((pool.store request.mbuf dataOffset [0x0a]).mbuf
      request.mbuf).data dataOffset ≠ 0x09 := by
    rw [store_type]
    decide
  obtain ⟨last, sconn', number, replyEq, queued, carries, only⟩ :=
    sconn.reply_bg rings buffer background draw request.xid errorCode results (by rwa [body])
  obtain ⟨conn, nrInrings⟩ := Prod.mk.inj (UdpConnection.reply_conn replyEq)
  have allocated : (pool.store request.mbuf dataOffset [0x0a]).next = pool.next := rfl
  rw [body, allocated] at carries
  rw [allocated] at queued only
  refine ⟨last, sconn', replyEq, conn, nrInrings, ?_, ?_, ?_⟩
  · rw [only.next, TransportConnection.next_getNewPkt, allocated]
    simp [now]
  · intro other old absent
    have notNew : other ≠ (pool.store request.mbuf dataOffset [0x0a]).next := Nat.ne_of_lt old
    rw [only.mbuf other notNew, TransportConnection.getNewPkt_of_ne _ _ _ notNew]
    exact Pool.store_of_ne _ _ _ (by simpa using absent) _
  · refine ⟨[(number, pool.next)], queued, by simp [now], ?_⟩
    simp only [now, filter_cons_of_pos, filter_nil]
    exact .cons ⟨carries, only.addresses.trans (addresses_getNewPkt ..)⟩ .nil

end Polled

theorem Incoming.Waits.frame (waits : request.Waits handlers sconn.conn pool)
    (polled : Polled handlers schedule pool sconn done middle sconn₁)
    (same : middle.mbuf request.mbuf = pool.mbuf request.mbuf) :
    request.Waits handlers sconn₁.conn middle := by
  rw [polled.conn]
  exact ⟨same ▸ waits.requests, waits.allocated.trans_le polled.next_le, waits.serves⟩

variable {ring : List Incoming}

variable {rings : List (List Incoming)}

end Answering

end SRPC.Dpdk
