import SRPC.IndexedLists
import SRPC.MprDagOrder

/-! # Runs of a dag -/

namespace SRPC.MprDag

open FaultContracts SharedQueues TransitionRuns List

variable {QueueId Data : Type} [DecidableEq QueueId]

namespace System

/-- The dag holds the live items, which are white or handed out if they are
ready. -/
structure Invariant (system : System QueueId Data) : Prop where
  count : system.items.length = system.dag.nodes.length
  sorted : system.live.Pairwise (· < ·)
  below : ∀ index ∈ system.live, index < system.dag.nodes.length
  proper : ∀ index ∈ system.live, system.ids index ≠ [] ∧ (system.ids index).Nodup
  holds : system.dag.Holds system.live system.ids
  colored : system.dag.Colored system.ids system.live system.handed (Ready system.live system.ids)

theorem start_invariant : (start : System QueueId Data).Invariant where
  count := rfl
  sorted := List.Pairwise.nil
  below := forall_mem_nil _
  proper := forall_mem_nil _
  holds := ⟨fun _ _ found => (by cases found), fun _ => rfl⟩
  colored := ⟨forall_mem_nil _, forall_mem_nil _, forall_mem_nil _, nodup_nil⟩

variable {system : System QueueId Data} {log : List Event} {index : Nat}

theorem Invariant.distinct (invariant : system.Invariant) : system.live.Nodup :=
  invariant.sorted.imp Nat.ne_of_lt

section Pushing

omit [DecidableEq QueueId] in
theorem ids_concat_of_lt {items : List (List QueueId)} (qids : List QueueId)
    (below : index < items.length) :
    ((items ++ [qids])[index]?).getD [] = (items[index]?).getD [] := by
  rw [getElem?_append_left below]

/-- What is known of a dag after `mpr_dag_push`. -/
structure Pushed (system : System QueueId Data) (qids : List QueueId)
    (dag : Dag QueueId Data) : Prop where
  invariant : ({ system with
    dag := dag
    items := system.items ++ [qids]
    live := system.live ++ [system.dag.nodes.length] } : System QueueId Data).Invariant
  more : system.dag.qu <+: dag.qu

/-- `mpr_dag_push` keeps the invariant. -/
theorem Invariant.push (invariant : system.Invariant) {qids : List QueueId}
    (nonempty : qids ≠ []) (distinct : qids.Nodup) (data : Data) :
    Ensures (· = Fault.full) (system.dag.push qids data) (system.Pushed qids) := by
  let added : Nat → List QueueId := fun other =>
    ((system.items ++ [qids])[other]?).getD []
  have old : ∀ other ∈ system.live, added other = system.ids other :=
    fun other member => ids_concat_of_lt qids (by
      rw [invariant.count]
      exact invariant.below other member)
  have new : added system.dag.nodes.length = qids := by
    simp [added, ← invariant.count]
  refine (Dag.push_spec invariant.holds invariant.colored invariant.below old
    new distinct data).imp ?_
  rintro dag ⟨length, holds, colored, more⟩
  refine ⟨⟨?_, ?_, ?_, ?_, holds, colored⟩, more⟩
  · simp [invariant.count, length]
  · refine pairwise_append.mpr ⟨invariant.sorted,
      pairwise_singleton .., fun other member last isNew => ?_⟩
    rw [mem_singleton.mp isNew]
    exact invariant.below other member
  · rw [length]
    exact forall_mem_concat (fun other inLive => Nat.lt_succ_of_lt (invariant.below other inLive))
      (Nat.lt_succ_self _)
  · show ∀ other ∈ system.live ++ [_], added other ≠ [] ∧ (added other).Nodup
    refine forall_mem_concat (fun other inLive => ?_) (new ▸ ⟨nonempty, distinct⟩)
    rw [old other inLive]
    exact invariant.proper other inLive

end Pushing

/-- `mpr_dag_getwhite` keeps the invariant. -/
theorem Invariant.getwhite (invariant : system.Invariant) :
    ∃ handedOut dag, system.dag.getwhite = .ok (handedOut, dag) ∧
      ({ system with
        dag := dag
        handed := system.handed ++ handedOut.toList } : System QueueId Data).Invariant ∧
      system.dag.qu = handedOut.toList ++ dag.qu := by
  cases white : system.dag.qu with
  | nil =>
    refine ⟨none, system.dag, by simp [Dag.getwhite, white], ?_, white.symm⟩
    simpa using invariant
  | cons index qu =>
    have inLive : index ∈ system.live := invariant.colored.known index (by simp [white])
    obtain ⟨node, found, -⟩ := invariant.colored.nodes index inLive
    have nodeEq : ({ system.dag with qu := qu } : Dag QueueId Data).node index = .ok node := by
      simp [Dag.node, found]
    refine ⟨some index, { system.dag with
      nodes := system.dag.nodes.set index (some { node with color := .gray })
      qu := qu }, ?_, ⟨?_, invariant.sorted, ?_, invariant.proper,
      ⟨invariant.holds.settled, invariant.holds.contents⟩,
      invariant.colored.handOut white found⟩, rfl⟩
    · simp only [Dag.getwhite, white, Dag.setColor, nodeEq]
      rfl
    · simpa using invariant.count
    · simpa using invariant.below

/-- What is known of a dag after `mpr_dag_pop`. -/
structure Popped (system : System QueueId Data) (index : Nat)
    (result : Nat × Data × Dag QueueId Data) : Prop where
  retNode : result.1 = index
  invariant : ({ system with
    dag := result.2.2
    live := system.live.erase index
    handed := system.handed.erase index } : System QueueId Data).Invariant
  more : system.dag.qu <+: result.2.2.qu

/-- `mpr_dag_pop` keeps the invariant. -/
theorem Invariant.pop (invariant : system.Invariant) {qids : List QueueId}
    (out : index ∈ system.handed) (own : qids.Perm (system.ids index)) :
    Ensures (· = Fault.full) (system.dag.pop qids) (system.Popped index) := by
  have inLive : index ∈ system.live := invariant.colored.known index (mem_append_right _ out)
  obtain ⟨nonempty, nodup⟩ := invariant.proper index inLive
  have some : qids ≠ [] := fun none =>
    nonempty (List.Perm.nil_eq (none ▸ own)).symm
  have ready := (invariant.colored.ready index inLive).mp (.inr out)
  have distinct := invariant.distinct
  have nothing : ∀ other ∈ (none : Option Nat), other = index := by simp
  refine (Dag.popLoop_spec distinct invariant.holds invariant.colored own nodup
    ready (fun _ _ => rfl) nothing).bind ?_
  rintro ⟨retNode, dag⟩ ⟨retEq, left, gone, others, holds, colored, whitens⟩
  obtain rfl : retNode = Option.some index := by
    rw [if_neg some] at retEq
    exact retEq
  obtain ⟨node, found, -⟩ := colored.nodes index inLive
  have nodeEq : dag.node index = .ok node := by simp [Dag.node, found]
  have same : ∀ other ∈ system.live.erase index,
      system.ids other = left other := fun other member =>
    (others other (distinct.mem_erase_iff.mp member).1).symm
  show Ensures _ (dag.node index >>= _) _
  rw [nodeEq]
  refine ⟨rfl, ⟨?_, invariant.sorted.sublist (erase_sublist ..), ?_, ?_,
    ⟨holds.settled, fun qid => ?_⟩, ?_⟩, whitens.more⟩
  · simpa [whitens.length] using invariant.count
  · intro other member
    rw [length_set, whitens.length]
    exact invariant.below other (mem_of_mem_erase member)
  · intro other member
    exact invariant.proper other (mem_of_mem_erase member)
  · refine (holds.contents qid).trans ?_
    rw [← queue_erase gone]
    exact (queue_congr same qid).symm
  · refine colored.free distinct out fun other member ne => ?_
    have kept := distinct.mem_erase_iff.mpr ⟨ne, member⟩
    exact (ready_congr same kept).trans (ready_erase gone ..)

end System

end SRPC.MprDag
