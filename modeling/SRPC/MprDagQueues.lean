import Mathlib.Algebra.Group.Nat.Defs
import SRPC.FaultContracts
import SRPC.MprDag
import SRPC.SharedQueues

/-!
# The queues of a dag

`mpr_queue_peek` moves the first item of a queue into the slot `head`.  Between
two calls all queues have been peeked at, so that it changes nothing.
-/

namespace SRPC.MprDag

open FaultContracts SharedQueues

variable {QueueId Data : Type} [DecidableEq QueueId]

namespace MprQueue

/-- Nothing is queued behind an absent head. -/
def Settled (qu : MprQueue) : Prop := qu.head = none → qu.queue = []

variable {qu : MprQueue}

theorem peek_spec (qu : MprQueue) :
    qu.peek.1 = qu.contents.head? ∧ qu.peek.2.contents = qu.contents ∧
      qu.peek.2.Settled := by
  obtain ⟨queue, head⟩ := qu
  cases head with
  | some data => exact ⟨rfl, rfl, fun none => by cases none⟩
  | none =>
    cases queue with
    | nil => exact ⟨rfl, rfl, fun _ => rfl⟩
    | cons data queue => exact ⟨rfl, rfl, fun none => by cases none⟩

theorem peek_of_settled (settled : qu.Settled) : qu.peek.2 = qu := by
  obtain ⟨queue, head⟩ := qu
  cases head with
  | some data => rfl
  | none =>
    obtain rfl : queue = [] := settled rfl
    rfl

theorem trypop_spec {index : Nat} {rest : List Nat} (contents : qu.contents = index :: rest) :
    ∃ later, qu.trypop = (some index, later) ∧ later.contents = rest := by
  obtain ⟨queue, head⟩ := qu
  cases head with
  | some data =>
    obtain ⟨rfl, rfl⟩ := List.cons.inj contents
    exact ⟨_, rfl, rfl⟩
  | none =>
    obtain rfl : queue = index :: rest := contents
    exact ⟨_, rfl, rfl⟩

theorem push_spec (qu : MprQueue) (index : Nat) :
    Ensures (· = Fault.full) (qu.push index)
      fun later => later.contents = qu.contents ++ [index] := by
  rw [push]
  split
  · exact (List.append_assoc ..).symm
  · rfl

end MprQueue

namespace Dag

def Settled (dag : Dag QueueId Data) : Prop := ∀ qid qu, dag.ht qid = some qu → qu.Settled

variable {dag : Dag QueueId Data} {qid other : QueueId} {qu : MprQueue}

theorem contents_setQueue (dag : Dag QueueId Data) (qid : QueueId)
    (qu : MprQueue) (other : QueueId) :
    (dag.setQueue qid qu).contents other =
      if other = qid then qu.contents else dag.contents other := by
  by_cases same : other = qid
  · subst same
    simp [contents, setQueue]
  · simp [contents, setQueue, same]

theorem settled_setQueue (settled : ∀ other qu, other ≠ qid →
    dag.ht other = some qu → qu.Settled) (last : qu.Settled) : (dag.setQueue qid qu).Settled := by
  intro other found eq
  by_cases same : other = qid
  · subst same
    obtain rfl : qu = found := by simpa [setQueue] using eq
    exact last
  · exact settled other found same (by simpa [setQueue, same] using eq)

omit [DecidableEq QueueId] in
theorem exists_queue (some : dag.contents qid ≠ []) :
    ∃ qu, dag.ht qid = Option.some qu ∧ qu.contents = dag.contents qid := by
  cases found : dag.ht qid with
  | none => exact absurd (by simp [contents, found, MprQueue.create, MprQueue.contents]) some
  | some qu => exact ⟨qu, rfl, by simp [contents, found]⟩

theorem setQueue_self (found : dag.ht qid = some qu) : dag.setQueue qid qu = dag := by
  rw [setQueue, ← found, Function.update_eq_self]

theorem peek_of_settled (settled : dag.Settled) (some : dag.contents qid ≠ []) :
    dag.peek qid = .ok ((dag.contents qid).head?, dag) := by
  obtain ⟨qu, found, same⟩ := exists_queue some
  have kept := MprQueue.peek_of_settled (settled qid qu found)
  simp only [peek, hashGet, found]
  show Except.ok (qu.peek.1, dag.setQueue qid qu.peek.2) = _
  rw [kept, setQueue_self found, qu.peek_spec.1, same]

theorem isHead_eq (settled : dag.Settled) (index : Nat) (qids : List QueueId)
    (gotoWhite : Bool) (some : ∀ qid ∈ qids, dag.contents qid ≠ []) :
    isHead index qids gotoWhite dag =
      .ok (gotoWhite && qids.all fun qid =>
        (dag.contents qid).head? = Option.some index, dag) := by
  induction qids generalizing gotoWhite with
  | nil => simp [isHead]
  | cons qid qids ih =>
    rw [isHead, peek_of_settled settled (some qid List.mem_cons_self)]
    show isHead index qids _ dag = _
    rw [ih _ fun other member => some other (List.mem_cons_of_mem _ member),
      List.all_cons, Bool.and_assoc]

/-- What the loop of `mpr_dag_push` leaves. -/
structure Queued (dag : Dag QueueId Data) (index : Nat) (qids : List QueueId)
    (later : Dag QueueId Data) : Prop where
  nodes : later.nodes = dag.nodes
  qu : later.qu = dag.qu
  contents : ∀ qid, later.contents qid = dag.contents qid ++ if qid ∈ qids then [index] else []
  settled : later.Settled

theorem pushLoop_spec (settled : dag.Settled) (index : Nat)
    (qids : List QueueId) (distinct : qids.Nodup) (gotoWhite : Bool)
    (absent : ∀ qid ∈ qids, index ∉ dag.contents qid) :
    Ensures (· = Fault.full) (pushLoop index qids gotoWhite dag) fun result =>
      dag.Queued index qids result.2 ∧
      result.1 = (gotoWhite && qids.all fun qid => dag.contents qid = []) := by
  induction qids generalizing dag gotoWhite with
  | nil => exact ⟨⟨rfl, rfl, by simp, settled⟩, by simp⟩
  | cons qid qids ih =>
    obtain ⟨notLater, distinctLater⟩ := List.nodup_cons.mp distinct
    have current : ((dag.ht qid).getD .create).contents = dag.contents qid :=
      rfl
    refine (MprQueue.push_spec _ index).bind fun pushed holds => ?_
    rw [current] at holds
    obtain ⟨head, contents, peeked⟩ := pushed.peek_spec
    let next := dag.setQueue qid pushed.peek.2
    have peekEq : (dag.setQueue qid pushed).peek qid = .ok (pushed.peek.1, next) := by
      simp only [peek, hashGet, setQueue, Function.update_self]
      simp [next, setQueue, pure, Except.pure, bind, Except.bind]
    have nextContents (other : QueueId) : next.contents other =
        dag.contents other ++ if other = qid then [index] else [] := by
      rw [contents_setQueue, contents, holds]
      split
      · rename_i same
        rw [same]
      · simp
    have nextSettled : next.Settled := settled_setQueue (fun other qu _ => settled other qu) peeked
    have first : decide (pushed.peek.1 = some index) =
        decide (dag.contents qid = []) := by
      rw [head, holds]
      have notHere := absent qid List.mem_cons_self
      cases items : dag.contents qid with
      | nil => simp
      | cons item rest =>
        have ne : item ≠ index := fun same => notHere (by simp [items, same])
        simp [ne]
    have laterNext : ∀ other ∈ qids, next.contents other = dag.contents other := by
      intro other member
      have ne : other ≠ qid := fun same => notLater (same ▸ member)
      rw [nextContents, if_neg ne, List.append_nil]
    rw [peekEq]
    refine (ih nextSettled distinctLater _ fun other member => ?_).imp ?_
    · rw [laterNext other member]
      exact absent other (List.mem_cons_of_mem _ member)
    · rintro ⟨white, later⟩ ⟨queued, whiteEq⟩
      refine ⟨⟨queued.nodes, queued.qu, fun other => ?_, queued.settled⟩, ?_⟩
      · rw [queued.contents, nextContents]
        by_cases same : other = qid
        · subst same
          simp [notLater]
        · simp [same]
      · have all : (qids.all fun other => next.contents other = []) =
            qids.all fun other => dag.contents other = [] := by
          rw [Bool.eq_iff_iff, List.all_eq_true, List.all_eq_true]
          exact forall₂_congr fun other member => by
            rw [laterNext other member]
        rw [whiteEq, first, all, List.all_cons, Bool.and_assoc]

omit [DecidableEq QueueId] in
theorem whiten_spec {index : Nat} {node : Node QueueId Data}
    (found : dag.nodes[index]? = some (some node)) :
    Ensures (· = Fault.full) (dag.whiten index) fun later => later = { dag with
      nodes := dag.nodes.set index (some { node with color := .white })
      qu := dag.qu ++ [index] } := by
  have nodeEq : dag.node index = .ok node := by simp [Dag.node, found]
  simp only [whiten, setColor, nodeEq]
  show Ensures _ (if dag.qu.length < 10000 then Except.ok _ else _) _
  split <;> rfl

end Dag

end SRPC.MprDag
