import Mathlib.Logic.Function.Basic
import SRPC.TransitionRuns

/-!
# A dag of items that share queues

`mpr_dag` puts every item into the queues of its ids.  An item that is at the
head of all its queues is put into the white queue, from which it is handed out.
-/

namespace SRPC.MprDag

inductive Color
  | gray
  | white
  | black
  deriving DecidableEq

/-- What ends a call: a `SAFE_ASSERT` that fails or a pointer that is not valid,
or a queue without room. -/
inductive Fault
  | assertion
  | full
  deriving DecidableEq

/-- `mpr_dag_node_t`. -/
structure Node (QueueId Data : Type) where
  qids : List QueueId
  color : Color
  data : Data

/-- `mpr_queue_t`, with the first item in `head` once it was peeked at. -/
structure MprQueue where
  queue : List Nat
  head : Option Nat
  deriving DecidableEq

namespace MprQueue

/-- `mpr_queue_create`. -/
def create : MprQueue := ⟨[], none⟩

/-- The items of a queue in their order. -/
def contents (qu : MprQueue) : List Nat := qu.head.toList ++ qu.queue

def trypop (qu : MprQueue) : Option Nat × MprQueue :=
  match qu.head with
  | some data => (some data, { qu with head := none })
  | none =>
    match qu.queue with
    | [] => (none, qu)
    | data :: queue => (some data, { qu with queue := queue })

/-- `mpr_queue_push`; the queues of a dag have room for 1000 items. -/
def push (qu : MprQueue) (data : Nat) : Except Fault MprQueue :=
  if qu.queue.length < 1000 then .ok { qu with queue := qu.queue ++ [data] }
  else .error .full

def peek (qu : MprQueue) : Option Nat × MprQueue :=
  match qu.head with
  | some data => (some data, qu)
  | none =>
    match qu.queue with
    | [] => (none, qu)
    | data :: queue => (some data, ⟨queue, some data⟩)

end MprQueue

variable {QueueId Data : Type} [DecidableEq QueueId]

/-- `mpr_dag_t`.  A node is known by its number among all nodes that were
allocated; it is gone once it was freed. -/
structure Dag (QueueId Data : Type) where
  nodes : List (Option (Node QueueId Data))
  ht : QueueId → Option MprQueue
  qu : List Nat

namespace Dag

/-- A node that was freed is not to be used. -/
def node (dag : Dag QueueId Data) (index : Nat) : Except Fault (Node QueueId Data) :=
  match dag.nodes[index]? with
  | some (some node) => .ok node
  | _ => .error .assertion

def setColor (dag : Dag QueueId Data) (index : Nat) (color : Color) :
    Except Fault (Dag QueueId Data) := do
  let node ← dag.node index
  return { dag with
    nodes := dag.nodes.set index (some { node with color := color }) }

/-- Puts a node into the white queue, if that has room. -/
def whiten (dag : Dag QueueId Data) (index : Nat) :
    Except Fault (Dag QueueId Data) := do
  let dag ← dag.setColor index .white
  if dag.qu.length < 10000 then .ok { dag with qu := dag.qu ++ [index] }
  else .error .full

def setQueue (dag : Dag QueueId Data) (qid : QueueId) (qu : MprQueue) : Dag QueueId Data :=
  { dag with ht := Function.update dag.ht qid (some qu) }

/-- `apr_hash_get` of a queue that is used. -/
def hashGet (dag : Dag QueueId Data) (qid : QueueId) : Except Fault MprQueue :=
  match dag.ht qid with
  | some qu => .ok qu
  | none => .error .assertion

/-- `mpr_queue_peek` of a queue of the dag. -/
def peek (dag : Dag QueueId Data) (qid : QueueId) :
    Except Fault (Option Nat × Dag QueueId Data) := do
  let qu ← dag.hashGet qid
  return (qu.peek.1, dag.setQueue qid qu.peek.2)

/-- The loop of `mpr_dag_push`; `goto_white` says whether the node is the head
of all queues so far. -/
def pushLoop (index : Nat) : List QueueId → Bool → Dag QueueId Data →
    Except Fault (Bool × Dag QueueId Data)
  | [], gotoWhite, dag => .ok (gotoWhite, dag)
  | qid :: qids, gotoWhite, dag => do
    let qu := (dag.ht qid).getD .create
    let qu ← qu.push index
    let (head, dag) ← (dag.setQueue qid qu).peek qid
    pushLoop index qids (gotoWhite && head = some index) dag

/-- `mpr_dag_push`. -/
def push (dag : Dag QueueId Data) (qids : List QueueId) (data : Data) :
    Except Fault (Dag QueueId Data) := do
  let index := dag.nodes.length
  let dag := { dag with nodes := dag.nodes ++ [some ⟨qids, .black, data⟩] }
  let (gotoWhite, dag) ← pushLoop index qids true dag
  if gotoWhite then dag.whiten index else .ok dag

/-- The inner loop of `mpr_dag_pop`: whether the node is the head of all these
queues. -/
def isHead (index : Nat) : List QueueId → Bool → Dag QueueId Data →
    Except Fault (Bool × Dag QueueId Data)
  | [], gotoWhite, dag => .ok (gotoWhite, dag)
  | qid :: qids, gotoWhite, dag => do
    let (head, dag) ← dag.peek qid
    isHead index qids (gotoWhite && head = some index) dag

/-- Add the next item of a queue to the white queue if it is ready. -/
def addNext (dag : Dag QueueId Data) (qid : QueueId) :
    Except Fault (Dag QueueId Data) := do
  let (head, dag) ← dag.peek qid
  match head with
  | none => return dag
  | some index =>
    let node ← dag.node index
    if node.color = .white then return dag
    else
      let (gotoWhite, dag) ← isHead index node.qids true dag
      if gotoWhite then dag.whiten index else return dag

/-- `mpr_queue_trypop` of a queue of the dag, which has to have an item. -/
def trypop (dag : Dag QueueId Data) (qid : QueueId) :
    Except Fault (Nat × Dag QueueId Data) := do
  let qu ← dag.hashGet qid
  match qu.trypop with
  | (some index, qu) => return (index, dag.setQueue qid qu)
  | (none, _) => .error .assertion

/-- The loop of `mpr_dag_pop`; all queues have to return the same node. -/
def popLoop : List QueueId → Option Nat → Dag QueueId Data →
    Except Fault (Option Nat × Dag QueueId Data)
  | [], retNode, dag => .ok (retNode, dag)
  | qid :: qids, retNode, dag => do
    let (index, dag) ← dag.trypop qid
    if retNode.all (· = index) then
      let dag ← dag.addNext qid
      popLoop qids (some index) dag
    else
      .error .assertion

/-- `mpr_dag_pop`: the node it frees and its data. -/
def pop (dag : Dag QueueId Data) (qids : List QueueId) :
    Except Fault (Nat × Data × Dag QueueId Data) := do
  let (retNode, dag) ← popLoop qids none dag
  match retNode with
  | none => .error .assertion
  | some index =>
    let node ← dag.node index
    return (index, node.data, { dag with nodes := dag.nodes.set index none })

/-- `mpr_dag_getwhite`: the node it hands out.  It waits for one; if it is
interrupted there is none. -/
def getwhite (dag : Dag QueueId Data) : Except Fault (Option Nat × Dag QueueId Data) :=
  match dag.qu with
  | [] => .ok (none, dag)
  | index :: qu => do
    let dag ← ({ dag with qu := qu } : Dag QueueId Data).setColor index .gray
    return (some index, dag)

def contents (dag : Dag QueueId Data) (qid : QueueId) : List Nat :=
  ((dag.ht qid).getD .create).contents

end Dag

/-- The dag with a record of all items: their ids in the order of the pushes,
which were not popped, and which of these were handed out. -/
structure System (QueueId Data : Type) where
  dag : Dag QueueId Data
  items : List (List QueueId)
  live : List Nat
  handed : List Nat

/-- A call of `mpr_dag_push`, `mpr_dag_getwhite` or `mpr_dag_pop`. -/
inductive Input (QueueId Data : Type)
  | push (qids : List QueueId) (data : Data)
  | getwhite
  | pop (qids : List QueueId)

inductive Event
  | pushed (index : Nat)
  | whitened (index : Nat)
  | handedOut (index : Nat)
  | popped (index : Nat)
  deriving DecidableEq

namespace System

def start : System QueueId Data := ⟨⟨[], fun _ => none, []⟩, [], [], []⟩

/-- The items that a call has put into the white queue. -/
def whitened (before after : Dag QueueId Data) : List Event :=
  (after.qu.drop before.qu.length).map .whitened

def stepExcept (system : System QueueId Data) :
    Input QueueId Data → Except Fault (List Event × System QueueId Data)
  | .push qids data => do
    let index := system.dag.nodes.length
    let dag ← system.dag.push qids data
    return (.pushed index :: whitened system.dag dag, { system with
      dag := dag
      items := system.items ++ [qids]
      live := system.live ++ [index] })
  | .getwhite => do
    let (index, dag) ← system.dag.getwhite
    return (index.toList.map .handedOut, { system with
      dag := dag
      handed := system.handed ++ index.toList })
  | .pop qids => do
    let (index, _, dag) ← system.dag.pop qids
    return (whitened system.dag dag ++ [.popped index], { system with
      dag := dag
      live := system.live.erase index
      handed := system.handed.erase index })

def step (system : System QueueId Data) (input : Input QueueId Data) :
    Option (List Event × System QueueId Data) := (system.stepExcept input).toOption

def ids (system : System QueueId Data) (index : Nat) : List QueueId :=
  (system.items[index]?).getD []

/-- The white queue has not overrun. -/
def Fits {α : Type} : Except Fault α → Prop
  | .error .full => False
  | _ => True

/-- An item is pushed with different ids, at least one, and popped with its ids
after it was handed out; no queue runs out of room. -/
def Allows (system : System QueueId Data) (input : Input QueueId Data) : Prop :=
  (match input with
    | .push qids _ => qids ≠ [] ∧ qids.Nodup
    | .getwhite => True
    | .pop qids => ∃ index ∈ system.handed, qids.Perm (system.ids index)) ∧
  Fits (system.stepExcept input)

instance {α : Type} (result : Except Fault α) : Decidable (Fits result) :=
  match result with
  | .ok _ => .isTrue trivial
  | .error .assertion => .isTrue trivial
  | .error .full => .isFalse id

instance decidableAllows (system : System QueueId Data)
    (input : Input QueueId Data) : Decidable (system.Allows input) :=
  match input with
  | .push _ _ => inferInstanceAs (Decidable ((_ ∧ _) ∧ _))
  | .getwhite => inferInstanceAs (Decidable (True ∧ _))
  | .pop _ => inferInstanceAs (Decidable ((∃ index ∈ system.handed, _) ∧ _))

/-- The nodes have a queue in common. -/
def Shares (system : System QueueId Data) (first second : Nat) : Prop :=
  ∃ qid, qid ∈ system.ids first ∧ qid ∈ system.ids second

/-- Items that share a queue are handled one after the other, in the order in
which they were pushed, and the handling never stops. -/
structure Serialised (log : List Event) (system : System QueueId Data) : Prop where
  whiteOnce : ∀ index, log.count (.whitened index) ≤ 1
  heads : ∀ index ∈ system.live, (index ∈ system.dag.qu ∨ index ∈ system.handed) ↔
      ∀ qid ∈ system.ids index, (system.dag.contents qid).head? = some index
  inOrder : ∀ before after later, log = before ++ .handedOut later :: after →
    ∀ index < later, system.Shares index later →
      ∃ first second, before = first ++ .popped index :: second ∧ .handedOut index ∈ first
  apart : ∀ first ∈ system.handed, ∀ second ∈ system.handed,
    system.Shares first second → first = second
  progress : system.live ≠ [] → ∃ index ∈ system.live, index ∈ system.dag.qu ∨ index ∈ system.handed

end System

end SRPC.MprDag
