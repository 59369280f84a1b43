import SRPC.RequestBurst

/-! # The replies to a burst -/

namespace SRPC.Dpdk

open LittleEndian Marshalling TransportMarshal ByteSource List

section Buffers

variable {pool later : Pool} {rx : Nat}

theorem swapUdpAddresses_of_ne {other : Nat} (ne : other ≠ rx) :
    (swapUdpAddresses pool rx).mbuf other = pool.mbuf other := by
  simp [swapUdpAddresses, swappedFields, Pool.store_of_ne _ _ _ ne]

theorem Mbuf.Exchanges.of_sameAddresses {reply request earlier : Mbuf}
    (exchanges : reply.Exchanges request) (addresses : request.addresses = earlier.addresses)
    (macs : request.macs = earlier.macs) : reply.Exchanges earlier := by
  have offsets : udpHdrOffset = ipHdrOffset + 20 := rfl
  refine ⟨exchanges.srcMac.trans ?_, exchanges.dstMac.trans ?_,
    exchanges.srcIp.trans ?_, exchanges.dstIp.trans ?_,
    exchanges.srcPort.trans ?_, exchanges.dstPort.trans ?_⟩
  · exact ByteArea.load_of_load macs (by omega) (by omega)
  · exact ByteArea.load_of_load macs (by omega) (by omega)
  all_goals exact ByteArea.load_of_load addresses (by omega) (by omega)

end Buffers

variable {test : Incoming → Bool}

theorem filter_concat_of_pos {packet : Incoming} (holds : test packet = true)
    (done : List Incoming) : (done ++ [packet]).filter test = done.filter test ++ [packet] := by
  simp [filter_append, holds]

theorem filter_concat_of_neg {packet : Incoming} (fails : test packet = false)
    (done : List Incoming) : (done ++ [packet]).filter test = done.filter test := by
  simp [filter_append, fails]

namespace RxThread

variable {env : BurstEnvironment} {thread now : RxThread} {packet : Incoming} {done : List Incoming}

theorem answer_eq {index : Nat}
    (asks : (now.pool.mbuf packet.mbuf).Asks PktType.rr packet.xid packet.rpcId packet.arguments)
    (connected : (now.sconn index).isSome) {handler : Handler}
    (registered : env.handlers packet.rpcId = some handler)
    (serves : handler.Serves packet.xid packet.arguments)
    (atOnce : packet.atOnce env.handlers env.schedule = true)
    (room : now.nbTx < now.txBufs.length) :
    ∃ pool sconn req,
      now.answer env packet.mbuf index = some { now with
        pool := pool
        sconn := Function.update now.sconn index (some sconn)
        txBufs := now.txBufs.set now.nbTx packet.mbuf
        nbTx := now.nbTx + 1
        req := req } ∧
      now.AnsweredIn env packet (pool.mbuf packet.mbuf) ∧
      ∀ other, other ≠ packet.mbuf → pool.mbuf other = now.pool.mbuf other := by
  obtain ⟨sconn, sconnAt⟩ := Option.isSome_iff_exists.mp connected
  obtain ⟨size, read, rest, readEq, -, held⟩ := asks.readIds
  obtain ⟨req', buffer, runEq⟩ := Handler.run_eq serves.inputs asks.proper
    asks.short held sconn (env.schedule.draw packet.mbuf) packet.xid
  obtain ⟨later, sconn', replyEq, carries, only⟩ := sconn.reply_st buffer
    asks.carries.type (env.schedule.draw packet.mbuf) packet.xid 0
    (handler.call packet.arguments) serves.room
  have body : packet.replyBody env.handlers = handler.replyBody packet.xid packet.arguments := by
    simp [Incoming.replyBody, registered]
  refine ⟨swapUdpAddresses later packet.mbuf, sconn', read, ?_, ⟨?_, ?_⟩, ?_⟩
  · simp only [answer, allotBufferX, TransportMarshal.attach, readEq, registered, sconnAt,
      some_bind]
    cases attr : handler.attr with
    | fast =>
      simp only [runEq, replyEq, if_pos room]
      rfl
    | normal =>
      cases time : env.schedule.time packet.mbuf with
      | atOnce =>
        simp only [runEq, replyEq, if_pos room]
        rfl
      | later data =>
        simp [Incoming.atOnce, registered, attr, time] at atOnce
  · rw [body]
    exact carries.swapUdpAddresses
  · exact (exchanges_swapUdpAddresses later packet.mbuf).of_sameAddresses only.addresses only.macs
  · intro other ne
    rw [swapUdpAddresses_of_ne ne, only.mbuf other ne]

/-- What became of the packets so far. -/
structure Progress (env : BurstEnvironment) (thread : RxThread)
    (done : List Incoming) (now : RxThread) : Prop where
  processes : thread.Processes env done now
  nbTx : now.nbTx = (done.filter thread.answers).length
  capacity : now.txBufs.length = thread.txBufs.length
  outConnections : now.outConnections = thread.outConnections
  sconn : ∀ index, (thread.sconn index).isSome → (now.sconn index).isSome
  frame : ∀ other, other ∉ (done.filter thread.answers).map Incoming.mbuf →
    now.pool.mbuf other = thread.pool.mbuf other

namespace Progress

theorem start (env : BurstEnvironment) (thread : RxThread) (req : TransportMarshal) :
    thread.Progress env [] { thread with nbTx := 0, req := req } where
  processes := by constructor <;> simp
  nbTx := rfl
  capacity := rfl
  outConnections := rfl
  sconn _ connected := connected
  frame _ _ := rfl

variable (progress : thread.Progress env done now)

include progress

theorem mbuf_eq (fresh : packet.mbuf ∉ done.map Incoming.mbuf) :
    now.pool.mbuf packet.mbuf = thread.pool.mbuf packet.mbuf := by
  refine progress.frame _ fun member => fresh ?_
  obtain ⟨other, inside, same⟩ := mem_map.mp member
  exact mem_map.mpr ⟨other, mem_of_mem_filter inside, same⟩

theorem find_eq (fresh : packet.mbuf ∉ done.map Incoming.mbuf) :
    now.find packet.mbuf = thread.find packet.mbuf := by
  rw [find, find, progress.mbuf_eq fresh, progress.outConnections]

theorem drop (unknown : thread.find packet.mbuf = none) :
    thread.Progress env (done ++ [packet]) (now.drop packet.mbuf) := by
  have answered := filter_concat_of_neg
    (show thread.answers packet = false by simp [answers, unknown]) done
  have queued := fun index => filter_concat_of_neg
    (show thread.queues index packet = false by simp [queues, unknown]) done
  have strangers := filter_concat_of_pos
    (show thread.strange packet = true by simp [strange, unknown]) done
  obtain ⟨sent, replies, rings, freed, dropped⟩ := progress.processes
  refine ⟨⟨?_, ?_, ?_, ?_, ?_⟩, ?_, progress.capacity, progress.outConnections, progress.sconn, ?_⟩
  · rw [answered]
    exact sent
  · rw [answered]
    exact replies
  · intro index
    rw [queued index]
    exact rings index
  · rw [strangers, map_append, ← append_assoc, ← freed]
    rfl
  · rw [strangers, length_append, ← Nat.add_assoc, ← dropped]
    rfl
  · rw [answered]
    exact progress.nbTx
  · rw [answered]
    exact progress.frame

variable {index : Nat}

theorem enqueue (known : thread.find packet.mbuf = some index)
    (background : (thread.pool.mbuf packet.mbuf).pktType = PktType.rrBg)
    (ring : env.answers packet.mbuf 0 = true) :
    thread.Progress env (done ++ [packet]) (now.enqueue env packet.mbuf index) := by
  have answered := filter_concat_of_neg
    (show thread.answers packet = false by
      simp [answers, background, PktType.rr, PktType.rrBg]) done
  have strangers := filter_concat_of_neg
    (show thread.strange packet = false by simp [strange, known]) done
  have enqueued : EventLoop.enqueues (env.answers packet.mbuf) 1000001 0 = true := by
    rw [EventLoop.enqueues, ring, Bool.true_or]
  rw [RxThread.enqueue, if_pos enqueued]
  obtain ⟨sent, replies, rings, freed, dropped⟩ := progress.processes
  refine ⟨⟨?_, ?_, ?_, ?_, ?_⟩, ?_, progress.capacity, progress.outConnections, progress.sconn, ?_⟩
  · rw [answered]
    exact sent
  · rw [answered]
    exact replies
  · intro other
    dsimp only
    by_cases same : other = index
    · subst same
      have queued := filter_concat_of_pos
        (show thread.queues other packet = true by
          simp [queues, known, background]) done
      rw [queued, Function.update_self, rings, map_append, append_assoc]
      rfl
    · have queued := filter_concat_of_neg
        (show thread.queues other packet = false by
          simp [queues, known, Ne.symm same]) done
      rw [queued, Function.update_of_ne same, rings]
  · rw [strangers]
    exact freed
  · rw [strangers]
    exact dropped
  · rw [answered]
    exact progress.nbTx
  · rw [answered]
    exact progress.frame

theorem answer (known : thread.find packet.mbuf = some index)
    (single : (thread.pool.mbuf packet.mbuf).pktType = PktType.rr)
    (received : thread.Receives env packet) (fresh : packet.mbuf ∉ done.map Incoming.mbuf)
    (room : done.length < thread.txBufs.length) :
    ∃ next, now.answer env packet.mbuf index = some next ∧
      thread.Progress env (done ++ [packet]) next := by
  have answered := filter_concat_of_pos
    (show thread.answers packet = true by simp [answers, known, single]) done
  have queued := fun index => filter_concat_of_neg
    (show thread.queues index packet = false by
      simp [queues, single, PktType.rr, PktType.rrBg]) done
  have strangers := filter_concat_of_neg
    (show thread.strange packet = false by simp [strange, known]) done
  have same := progress.mbuf_eq fresh
  have roomNow : now.nbTx < now.txBufs.length := by
    rw [progress.nbTx, progress.capacity]
    exact (length_filter_le _ _).trans_lt room
  obtain ⟨asks, connected, handler, registered, serves, atOnce⟩ :=
    received.served index known single
  rw [← same] at asks
  obtain ⟨pool, sconn, req, answerEq, replied, others⟩ := answer_eq asks
    (progress.sconn index connected) registered serves atOnce roomNow
  obtain ⟨sent, replies, rings, freed, dropped⟩ := progress.processes
  refine ⟨_, answerEq, ⟨?_, ?_, ?_, ?_, ?_⟩, ?_, ?_, progress.outConnections, ?_, ?_⟩
  · dsimp only
    rw [answered, map_append, ← sent, take_add_one,
      getElem?_set_self roomNow, take_set_of_le (Nat.le_refl _)]
    rfl
  · rw [answered]
    intro other member
    obtain earlier | last := mem_append.mp member
    · have different : other.mbuf ≠ packet.mbuf := fun equal => fresh
        (equal ▸ mem_map_of_mem (mem_of_mem_filter earlier))
      dsimp only
      rw [others _ different]
      exact replies other earlier
    · rw [mem_singleton.mp last]
      exact ⟨replied.carries, same ▸ replied.exchanges⟩
  · intro other
    rw [queued other]
    exact rings other
  · rw [strangers]
    exact freed
  · rw [strangers]
    exact dropped
  · rw [answered, length_append, ← progress.nbTx]
    rfl
  · dsimp only
    rw [length_set, progress.capacity]
  · intro other connected
    dsimp only
    by_cases here : other = index
    · rw [here, Function.update_self]
      rfl
    · rw [Function.update_of_ne here]
      exact progress.sconn other connected
  · intro other absent
    rw [answered, map_append, mem_append, not_or] at absent
    dsimp only
    rw [others other (by simpa using absent.2), progress.frame other absent.1]

/-- A round takes the burst one packet further. -/
theorem processPacket (received : thread.Receives env packet)
    (fresh : packet.mbuf ∉ done.map Incoming.mbuf) (room : done.length < thread.txBufs.length) :
    ∃ next, now.processPacket env packet.mbuf = some next ∧
      thread.Progress env (done ++ [packet]) next := by
  have same := progress.mbuf_eq fresh
  have request : PktType.rr ≤ (thread.pool.mbuf packet.mbuf).pktType := by
    obtain single | background := received.pktType
    · rw [single]
      decide
    · rw [background]
      decide
  rw [RxThread.processPacket, same, if_pos request, progress.find_eq fresh]
  cases known : thread.find packet.mbuf with
  | none => exact ⟨_, rfl, progress.drop known⟩
  | some index =>
    obtain single | background := received.pktType
    · simp only [single, if_true]
      exact progress.answer known single received fresh room
    · refine ⟨now.enqueue env packet.mbuf index, ?_,
        progress.enqueue known background received.ring⟩
      simp [background, PktType.rr, PktType.rrBg]

end Progress

end RxThread

end SRPC.Dpdk
