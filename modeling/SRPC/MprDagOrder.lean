import SRPC.MprDagQueues

/-!
# Items that are white or handed out

An item is in the white queue or handed out exactly if it is ready.  A follower
becomes white with the last queue it had to wait for.
-/

namespace SRPC.MprDag

open FaultContracts SharedQueues List

variable {QueueId Data : Type} [DecidableEq QueueId]

namespace Dag

/-- The live items that are ready are white or handed out, once. -/
structure Colored (dag : Dag QueueId Data) (ids : Nat → List QueueId)
    (live handed : List Nat) (ready : Nat → Prop) : Prop where
  nodes : ∀ index ∈ live, ∃ node, dag.nodes[index]? = some (some node) ∧
    node.qids = ids index ∧ (node.color = .white ↔ index ∈ dag.qu)
  ready : ∀ index ∈ live, (index ∈ dag.qu ∨ index ∈ handed) ↔ ready index
  known : ∀ index ∈ dag.qu ++ handed, index ∈ live
  once : (dag.qu ++ handed).Nodup

/-- All queues are peeked at and hold the live items with these keys. -/
structure Holds (dag : Dag QueueId Data) (live : List Nat) (keys : Nat → List QueueId) : Prop where
  settled : dag.Settled
  contents : ∀ qid, dag.contents qid = queue live keys qid

/-- No node is lost, and the white queue grows at its end. -/
structure Whitens (dag next : Dag QueueId Data) : Prop where
  length : next.nodes.length = dag.nodes.length
  more : dag.qu <+: next.qu

omit [DecidableEq QueueId] in
theorem Whitens.trans {first second third : Dag QueueId Data}
    (before : first.Whitens second) (after : second.Whitens third) :
    first.Whitens third := ⟨after.length.trans before.length, before.more.trans after.more⟩

variable {dag : Dag QueueId Data} {ids keys : Nat → List QueueId}
  {live handed : List Nat} {ready later : Nat → Prop} {index : Nat}

omit [DecidableEq QueueId] in
theorem Colored.congr (colored : dag.Colored ids live handed ready)
    (same : ∀ index ∈ live, (later index ↔ ready index))
    {other : Dag QueueId Data} (nodes : other.nodes = dag.nodes)
    (qu : other.qu = dag.qu) : other.Colored ids live handed later := by
  refine ⟨?_, fun index member => ?_, ?_, ?_⟩
  · rw [nodes, qu]
    exact colored.nodes
  · rw [same index member, qu]
    exact colored.ready index member
  · rw [qu]
    exact colored.known
  · rw [qu]
    exact colored.once

omit [DecidableEq QueueId] in
theorem Colored.whiten (colored : dag.Colored ids live handed ready)
    {node : Node QueueId Data} (inLive : index ∈ live)
    (found : dag.nodes[index]? = some (some node)) (notYet : ¬ ready index) (now : later index)
    (same : ∀ other ∈ live, other ≠ index → (later other ↔ ready other)) :
    ({ dag with
      nodes := dag.nodes.set index (some { node with color := .white })
      qu := dag.qu ++ [index] } : Dag QueueId Data).Colored ids live handed later := by
  obtain ⟨inside, -⟩ := List.getElem?_eq_some_iff.mp found
  have absent := mt (colored.ready index inLive).mp notYet
  refine ⟨fun other member => ?_, fun other member => ?_, fun other member => ?_, ?_⟩
  · obtain ⟨old, oldFound, qids, color⟩ := colored.nodes other member
    by_cases isIndex : other = index
    · subst isIndex
      obtain rfl : node = old := by
        rw [found] at oldFound
        exact Option.some.inj (Option.some.inj oldFound)
      exact ⟨_, getElem?_set_self inside, qids, by simp⟩
    · refine ⟨old, ?_, qids, ?_⟩
      · rw [getElem?_set_ne (Ne.symm isIndex)]
        exact oldFound
      · simpa [isIndex] using color
  · by_cases isIndex : other = index
    · subst isIndex
      simp [now]
    · rw [same other member isIndex, ← colored.ready other member]
      simp [isIndex]
  · rw [append_assoc, mem_append, mem_append] at member
    rcases member with white | new | out
    · exact colored.known other (mem_append_left _ white)
    · obtain rfl := mem_singleton.mp new
      exact inLive
    · exact colored.known other (mem_append_right _ out)
  · have moved : (dag.qu ++ [index] ++ handed).Perm (index :: (dag.qu ++ handed)) := by
      rw [append_assoc]
      exact perm_middle
    refine moved.nodup_iff.mpr (nodup_cons.mpr ⟨?_, colored.once⟩)
    rwa [mem_append]

omit [DecidableEq QueueId] in
theorem Colored.extend (colored : dag.Colored ids live handed ready)
    {added : Nat → List QueueId} {node : Node QueueId Data}
    (below : ∀ index ∈ live, index < dag.nodes.length)
    (old : ∀ index ∈ live, added index = ids index)
    (new : node.qids = added dag.nodes.length) (color : node.color ≠ .white) :
    ({ dag with nodes := dag.nodes ++ [some node] } : Dag QueueId Data).Colored
      added (live ++ [dag.nodes.length]) handed fun index => index ∈ live ∧ ready index := by
  have fresh : dag.nodes.length ∉ live := fun member =>
    Nat.lt_irrefl _ (below _ member)
  have notKnown : dag.nodes.length ∉ dag.qu ++ handed := fun member =>
    fresh (colored.known _ member)
  refine ⟨fun index member => ?_, fun index member => ?_,
    fun index member => mem_append_left _ (colored.known index member), colored.once⟩
  · rcases mem_append.mp member with inLive | isNew
    · obtain ⟨node, found, qids, white⟩ := colored.nodes index inLive
      refine ⟨node, ?_, qids.trans (old index inLive).symm, white⟩
      rw [getElem?_append_left (below index inLive), found]
    · obtain rfl := mem_singleton.mp isNew
      refine ⟨node, by simp, new, iff_of_false color fun white => ?_⟩
      exact notKnown (mem_append_left _ white)
  · by_cases inLive : index ∈ live
    · simpa [inLive] using colored.ready index inLive
    · refine iff_of_false (fun out => ?_) fun both => inLive both.1
      exact inLive (colored.known index (mem_append.mpr out))

omit [DecidableEq QueueId] in
theorem Colored.handOut (colored : dag.Colored ids live handed ready)
    {qu : List Nat} (white : dag.qu = index :: qu)
    {node : Node QueueId Data} (found : dag.nodes[index]? = some (some node)) :
    ({ dag with
      nodes := dag.nodes.set index (some { node with color := .gray })
      qu := qu } : Dag QueueId Data).Colored ids live (handed ++ [index]) ready := by
  obtain ⟨inside, -⟩ := List.getElem?_eq_some_iff.mp found
  have moved : (qu ++ (handed ++ [index])).Perm (dag.qu ++ handed) := by
    rw [white, ← append_assoc]
    exact perm_append_singleton ..
  have once := moved.nodup_iff.mpr colored.once
  have notWhite : index ∉ qu := by
    have both := colored.once
    rw [white] at both
    exact (nodup_cons.mp (nodup_append.mp both).1).1
  refine ⟨fun other member => ?_, fun other member => ?_, fun other member => ?_, once⟩
  · obtain ⟨old, oldFound, qids, color⟩ := colored.nodes other member
    by_cases same : other = index
    · subst same
      obtain rfl : node = old := by
        rw [found] at oldFound
        exact Option.some.inj (Option.some.inj oldFound)
      exact ⟨_, getElem?_set_self inside, qids, by simp [notWhite]⟩
    · refine ⟨old, ?_, qids, ?_⟩
      · rw [getElem?_set_ne (Ne.symm same)]
        exact oldFound
      · simpa [white, same] using color
  · rw [← colored.ready other member, ← mem_append, ← mem_append]
    exact moved.mem_iff
  · exact colored.known other (moved.mem_iff.mp member)

omit [DecidableEq QueueId] in
theorem Colored.free (colored : dag.Colored ids live handed ready)
    (distinct : live.Nodup) (out : index ∈ handed)
    (same : ∀ other ∈ live, other ≠ index → (later other ↔ ready other)) :
    ({ dag with nodes := dag.nodes.set index none } : Dag QueueId Data).Colored
      ids (live.erase index) (handed.erase index) later := by
  obtain ⟨nodupQu, nodupHanded, apart⟩ := nodup_append.mp colored.once
  refine ⟨fun other member => ?_, fun other member => ?_, fun other member => ?_, ?_⟩
  · obtain ⟨ne, inLive⟩ := distinct.mem_erase_iff.mp member
    obtain ⟨node, found, qids, color⟩ := colored.nodes other inLive
    refine ⟨node, ?_, qids, color⟩
    rw [getElem?_set_ne (Ne.symm ne), found]
  · obtain ⟨ne, inLive⟩ := distinct.mem_erase_iff.mp member
    rw [same other inLive ne, ← colored.ready other inLive, mem_erase_of_ne ne]
  · have inLive : other ∈ live := by
      refine colored.known other ?_
      rcases mem_append.mp member with white | left
      · exact mem_append_left _ white
      · exact mem_append_right _ (mem_of_mem_erase left)
    refine distinct.mem_erase_iff.mpr ⟨?_, inLive⟩
    rintro rfl
    rcases mem_append.mp member with white | left
    · exact apart _ white _ out rfl
    · exact (nodupHanded.mem_erase_iff.mp left).1 rfl
  · refine nodup_append.mpr ⟨nodupQu, nodupHanded.erase index, ?_⟩
    intro first white second left
    exact apart first white second (mem_of_mem_erase left)

section Pushing

variable {added : Nat → List QueueId} {qids : List QueueId}

theorem ready_concat_old (old : ∀ index ∈ live, added index = ids index)
    {last : Nat} : ∀ index ∈ live ++ [last], index ≠ last →
      (Ready (live ++ [last]) added index ↔
        index ∈ live ∧ Ready live ids index) := by
  intro index member ne
  have inLive : index ∈ live :=
    (mem_append.mp member).resolve_right fun isNew =>
      ne (mem_singleton.mp isNew)
  rw [ready_concat_of_mem inLive, ready_congr old inLive, and_iff_right inLive]

theorem push_spec (holds : dag.Holds live ids)
    (colored : dag.Colored ids live handed (Ready live ids))
    (below : ∀ index ∈ live, index < dag.nodes.length)
    (old : ∀ index ∈ live, added index = ids index)
    (new : added dag.nodes.length = qids) (distinct : qids.Nodup) (data : Data) :
    Ensures (· = Fault.full) (dag.push qids data) fun next =>
      next.nodes.length = dag.nodes.length + 1 ∧
      next.Holds (live ++ [dag.nodes.length]) added ∧
      next.Colored added (live ++ [dag.nodes.length]) handed
        (Ready (live ++ [dag.nodes.length]) added) ∧
      dag.qu <+: next.qu := by
  let node : Node QueueId Data := ⟨qids, .black, data⟩
  let grown : Dag QueueId Data := { dag with nodes := dag.nodes ++ [some node] }
  have fresh : dag.nodes.length ∉ live := fun member =>
    Nat.lt_irrefl _ (below _ member)
  have queues (qid : QueueId) : grown.contents qid = queue live added qid := by
    rw [queue_congr old]
    exact holds.contents qid
  have absent : ∀ qid ∈ qids, dag.nodes.length ∉ grown.contents qid := by
    intro qid _ member
    rw [queues] at member
    exact fresh (mem_queue.mp member).1
  have settled : grown.Settled := holds.settled
  have nodeIds : node.qids = added dag.nodes.length := new.symm
  have extended := colored.extend below old nodeIds (show node.color ≠ .white by simp [node])
  have others := @ready_concat_old _ _ _ _ _ old dag.nodes.length
  refine (pushLoop_spec settled _ qids distinct true absent).bind ?_
  rintro ⟨gotoWhite, next⟩ ⟨queued, white⟩
  have nextHolds : next.Holds (live ++ [dag.nodes.length]) added := by
    refine ⟨queued.settled, fun qid => ?_⟩
    rw [queue_concat, new, ← queues]
    exact queued.contents qid
  have isReady : gotoWhite = true ↔
      Ready (live ++ [dag.nodes.length]) added dag.nodes.length := by
    rw [ready_concat_self fresh, new, show gotoWhite = _ from white]
    simp only [Bool.true_and, all_eq_true, decide_eq_true_eq, queues]
  have nodes : next.nodes = dag.nodes ++ [some node] := queued.nodes
  have qu : next.qu = dag.qu := queued.qu
  have nextColored := extended.congr (fun _ _ => Iff.rfl) nodes qu
  cases gotoWhite with
  | true =>
    have found : next.nodes[dag.nodes.length]? = some (some node) := by
      rw [nodes, getElem?_concat_length]
    refine (whiten_spec found).imp ?_
    rintro _ rfl
    exact ⟨by simp [nodes], ⟨nextHolds.settled, nextHolds.contents⟩,
      nextColored.whiten (mem_append_right _ mem_cons_self) found
        (fun both => fresh both.1) (isReady.mp rfl) others, ⟨[dag.nodes.length], by rw [qu]⟩⟩
  | false =>
    have notReady : ¬ Ready (live ++ [dag.nodes.length]) added
        dag.nodes.length := fun ready => Bool.false_ne_true (isReady.mpr ready)
    refine ⟨by simp [nodes], nextHolds, nextColored.congr (fun index member => ?_) rfl rfl,
      qu ▸ prefix_rfl⟩
    by_cases same : index = dag.nodes.length
    · subst same
      exact iff_of_false notReady fun both => fresh both.1
    · exact others index member same

end Pushing

section Popping

variable {retNode : Nat} {qid : QueueId} {rest : List Nat}

theorem trypop_peek (holds : dag.Holds live keys) (front : dag.contents qid = retNode :: rest) :
    ∃ popped next : Dag QueueId Data, dag.trypop qid = .ok (retNode, popped) ∧
      popped.peek qid = .ok (rest.head?, next) ∧ next.nodes = dag.nodes ∧
      next.qu = dag.qu ∧ next.Settled ∧
      ∀ other, next.contents other =
        if other = qid then rest else dag.contents other := by
  have some : dag.contents qid ≠ [] := by simp [front]
  obtain ⟨qu, found, contents⟩ := exists_queue some
  obtain ⟨tail, popEq, tailContents⟩ := MprQueue.trypop_spec (contents.trans front)
  obtain ⟨head, peekContents, peeked⟩ := tail.peek_spec
  refine ⟨dag.setQueue qid tail, dag.setQueue qid tail.peek.2, ?_, ?_, rfl, rfl,
    settled_setQueue (fun other qu _ => holds.settled other qu) peeked, ?_⟩
  · simp only [trypop, hashGet, found, bind, Except.bind, popEq]
    rfl
  · simp only [peek, hashGet, setQueue, Function.update_self]
    rw [← tailContents, ← head]
    simp [pure, Except.pure, bind, Except.bind]
  · intro other
    rw [contents_setQueue, peekContents, tailContents]

theorem pop_round (distinct : live.Nodup) (holds : dag.Holds live keys)
    (colored : dag.Colored ids live handed (Ready live keys))
    (front : queue live keys qid = retNode :: rest)
    (nodup : (keys retNode).Nodup) (ready : Ready live keys retNode)
    (own : ∀ other, other ≠ retNode → keys other = ids other) :
    ∃ popped, dag.trypop qid = .ok (retNode, popped) ∧
      Ensures (· = Fault.full) (popped.addNext qid) fun next =>
        next.Holds live (leave keys retNode qid) ∧
        next.Colored ids live handed (Ready live (leave keys retNode qid)) ∧
        dag.Whitens next := by
  obtain ⟨popped, next, popEq, peekEq, nodes, qu, settled, contents⟩ :=
    trypop_peek holds ((holds.contents qid).trans front)
  have nextHolds : next.Holds live (leave keys retNode qid) := by
    refine ⟨settled, fun other => ?_⟩
    rw [contents]
    split
    · rename_i same
      rw [same, queue_leave_self distinct nodup front]
    · rename_i ne
      rw [queue_leave_of_ne keys ne, holds.contents]
  have unchanged : dag.Whitens next := ⟨by rw [nodes], qu ▸ prefix_rfl⟩
  -- Nobody but the successor can have become ready.
  have others : ∀ other ∈ live, rest.head? ≠ some other →
      (Ready live (leave keys retNode qid) other ↔ Ready live keys other) := by
    intro other _ notNext
    by_cases same : other = retNode
    · subst same
      exact iff_of_true (ready.leave nodup qid) ready
    · exact ready_leave_of_not_next distinct nodup front same notNext
  refine ⟨popped, popEq, ?_⟩
  rw [addNext, peekEq]
  cases rest with
  | nil =>
    exact ⟨nextHolds, colored.congr (fun other member =>
      others other member (by simp)) nodes qu, unchanged⟩
  | cons index rest =>
    have notYet : ¬ Ready live keys index := not_ready_next distinct front
    have inLive : index ∈ live := by
      have queued : index ∈ queue live keys qid := by simp [front]
      exact (mem_queue.mp queued).1
    have ne : index ≠ retNode := fun same => notYet (same ▸ ready)
    obtain ⟨node, found, qids, color⟩ := colored.nodes index inLive
    rw [← nodes] at found
    have notWhite : ¬ node.color = .white := fun white =>
      mt (colored.ready index inLive).mp notYet (.inl (color.mp white))
    have nodeEq : next.node index = .ok node := by simp [Dag.node, found]
    have keysEq : node.qids = leave keys retNode qid index := by
      rw [qids, leave_of_ne keys qid ne, own index ne]
    have headEq := isHead_eq settled index node.qids true (by
      intro other member
      rw [nextHolds.contents]
      exact ne_nil_of_mem (mem_queue.mpr ⟨inLive, keysEq ▸ member⟩))
    have isReady : (true && node.qids.all fun other =>
        (next.contents other).head? = some index) = true ↔
          Ready live (leave keys retNode qid) index := by
      simp only [Bool.true_and, all_eq_true, decide_eq_true_eq, keysEq, nextHolds.contents]
      rfl
    show Ensures _ (next.node index >>= _) _
    rw [nodeEq]
    show Ensures _ (if node.color = .white then _ else _) _
    rw [if_neg notWhite, headEq]
    show Ensures _ (if (_ && _) = true then _ else _) _
    split
    · rename_i head
      refine (whiten_spec found).imp ?_
      rintro _ rfl
      have nextColored := colored.congr (fun _ _ => Iff.rfl) nodes qu
      refine ⟨⟨nextHolds.settled, nextHolds.contents⟩,
        nextColored.whiten inLive found notYet (isReady.mp head) ?_,
        ⟨by simp [nodes], ⟨[index], by rw [qu]⟩⟩⟩
      intro other member ne
      exact others other member (by simpa using Ne.symm ne)
    · rename_i notHead
      refine ⟨nextHolds, colored.congr (fun other member => ?_) nodes qu, unchanged⟩
      by_cases same : other = index
      · subst same
        exact iff_of_false (mt isReady.mpr notHead) notYet
      · exact others other member (by simpa using Ne.symm same)

theorem popLoop_spec (distinct : live.Nodup) {qids : List QueueId} (holds : dag.Holds live keys)
    (colored : dag.Colored ids live handed (Ready live keys))
    (remaining : qids.Perm (keys retNode)) (nodup : (keys retNode).Nodup)
    (ready : Ready live keys retNode) (own : ∀ other, other ≠ retNode → keys other = ids other)
    {found : Option Nat} (same : ∀ index ∈ found, index = retNode) :
    Ensures (· = Fault.full) (popLoop qids found dag) fun result =>
      result.1 = (if qids = [] then found else some retNode) ∧
      ∃ left, left retNode = [] ∧
        (∀ other, other ≠ retNode → left other = ids other) ∧
        result.2.Holds live left ∧
        result.2.Colored ids live handed (Ready live left) ∧ dag.Whitens result.2 := by
  induction qids generalizing dag keys found with
  | nil =>
    exact ⟨rfl, keys, remaining.symm.eq_nil, own, holds, colored, ⟨rfl, prefix_rfl⟩⟩
  | cons qid qids ih =>
    have member : qid ∈ keys retNode := remaining.mem_iff.mp mem_cons_self
    obtain ⟨rest, front⟩ : ∃ rest, queue live keys qid = retNode :: rest :=
      head?_eq_some_iff.mp (ready qid member)
    obtain ⟨popped, popEq, added⟩ := pop_round distinct holds colored front nodup ready own
    have keysLeft : leave keys retNode qid retNode =
        (keys retNode).erase qid := Function.update_self ..
    have agrees : found.all (· = retNode) = true := by
      cases found with
      | none => rfl
      | some index => simp [same index rfl]
    rw [popLoop, popEq]
    show Ensures _ (if found.all (· = retNode) = true then _ else _) _
    rw [if_pos agrees]
    refine added.bind fun next nextHolds => ?_
    obtain ⟨nextHolds, nextColored, more⟩ := nextHolds
    have sameNext : ∀ index ∈ some retNode, index = retNode := by simp
    refine (ih nextHolds nextColored ?_ ?_ (ready.leave nodup qid) ?_ sameNext).imp ?_
    · rw [keysLeft]
      exact cons_perm_iff_perm_erase.mp remaining |>.2
    · rw [keysLeft]
      exact nodup.erase qid
    · intro other ne
      rw [leave_of_ne keys qid ne, own other ne]
    · rintro result ⟨retEq, left, gone, others, holds, colored, longer⟩
      exact ⟨by simp [retEq], left, gone, others, holds, colored, more.trans longer⟩

end Popping

end Dag

end SRPC.MprDag
