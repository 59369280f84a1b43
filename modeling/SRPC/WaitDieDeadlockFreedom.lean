import Mathlib.Logic.Relation
import SRPC.WaitDieLockRuns

/-! # Deadlock freedom of a family of wait-die locks -/

namespace SRPC.WaitDie

variable {Txn LockId : Type*}

/-- A call of one of the locks. -/
def stepFamily [DecidableEq LockId] (locks : LockId → WaitDieALock Txn)
    (input : LockId × LockCall Txn) : Option (List (Callback Txn) × (LockId → WaitDieALock Txn)) :=
  (step (locks input.1) input.2).map fun result =>
    (result.1, Function.update locks input.1 result.2)

/-- `waiter` has a waiting request behind a conflicting one of `holder`. -/
def WaitsFor (locks : LockId → WaitDieALock Txn) (waiter holder : Txn) : Prop :=
  ∃ lock ahead behind, List.Sublist [ahead, behind] (locks lock).requests ∧
    Conflicts ahead behind ∧ behind.status = .wait ∧ behind.owner = waiter ∧ ahead.owner = holder

/-- A request for a transaction carries the priority of the transaction. -/
def UsesPriority (priorityOf : Txn → Int) (call : LockCall Txn) : Prop :=
  ∀ type priority owner, call = .vlock type priority owner → priority = priorityOf owner

/-- A transaction has one priority. -/
def Prioritized (priorityOf : Txn → Int) (lock : WaitDieALock Txn) : Prop :=
  ∀ req ∈ lock.requests, req.priority = priorityOf req.owner

variable {priorityOf : Txn → Int}

theorem prioritized_of_move {lock next : WaitDieALock Txn} {call : LockCall Txn}
    {callbacks : List (Callback Txn)} (uses : UsesPriority priorityOf call)
    (prioritized : Prioritized priorityOf lock) (move : Move lock call callbacks next) :
    Prioritized priorityOf next := by
  intro req member
  cases move with
  | grant nextId requests first | wait nextId requests first =>
    rw [requests, List.mem_append, List.mem_singleton] at member
    rcases member with member | rfl
    · exact prioritized req member
    · exact uses _ _ _ rfl
  | die nextId requests | skip nextId requests => exact prioritized req (requests ▸ member)
  | remove nextId before gone promoted after was waiting requests =>
    rw [requests, List.mem_append, List.mem_append] at member
    rcases member with member | member | member
    · exact prioritized req (by simp [was, member])
    · obtain ⟨old, oldMember, rfl⟩ := List.mem_map.mp member
      exact prioritized old (by simp [was, oldMember])
    · exact prioritized req (by simp [was, member])

variable {locks : LockId → WaitDieALock Txn}

theorem stepFamily_coherent [DecidableEq LockId] (coherent : ∀ lock, Coherent (locks lock))
    (input : LockId × LockCall Txn) :
    ∃ callbacks next, stepFamily locks input = some (callbacks, next) ∧
      (∀ lock, Coherent (next lock)) ∧
        ∀ priorityOf, UsesPriority priorityOf input.2 →
          (∀ lock, Prioritized priorityOf (locks lock)) →
            ∀ lock, Prioritized priorityOf (next lock) := by
  obtain ⟨callbacks, next, stepEq, move, restored⟩ := step_moves (coherent input.1) input.2
  refine ⟨callbacks, Function.update locks input.1 next,
    by simp [stepFamily, stepEq], ?_, ?_⟩
  · intro lock
    by_cases same : lock = input.1
    · subst same
      simpa using restored
    · simpa [same] using coherent lock
  · intro priorityOf uses prioritized lock
    by_cases same : lock = input.1
    · subst same
      simpa using prioritized_of_move uses (prioritized _) move
    · simpa [same] using prioritized lock

theorem priority_lt_of_waitsFor (coherent : ∀ lock, Coherent (locks lock))
    (prioritized : ∀ lock, Prioritized priorityOf (locks lock)) {waiter holder : Txn}
    (waits : WaitsFor locks waiter holder) : priorityOf waiter < priorityOf holder := by
  obtain ⟨lock, ahead, behind, order, conflict, _, rfl, rfl⟩ := waits
  have older := (List.pairwise_pair.mp ((coherent lock).ordered.sublist order)) conflict
  rw [← prioritized lock ahead (order.subset (by simp)),
    ← prioritized lock behind (order.subset (by simp))]
  exact older

/-- In every run over a family of locks, of two conflicting requests in one
queue the later has the strictly smaller priority value; and when every
transaction uses one priority, no transaction waits for itself through any
chain of waits over all the locks. -/
theorem waitsFor_acyclic [DecidableEq LockId] (inputs : List (LockId × LockCall Txn)) :
    ∃ log locks, TransitionRuns.run stepFamily (fun _ : LockId => fresh) inputs =
        some (log, locks) ∧
      (∀ lock, (locks lock).requests.Pairwise fun ahead behind =>
        Conflicts ahead behind → behind.priority < ahead.priority) ∧
      ∀ priorityOf : Txn → Int, (∀ input ∈ inputs, UsesPriority priorityOf input.2) →
          ¬ ∃ txn, Relation.TransGen (WaitsFor locks) txn txn := by
  let Invariant (_ : List (Callback Txn)) (locks : LockId → WaitDieALock Txn) :=
    (∀ lock, Coherent (locks lock)) ∧
      ∀ priorityOf, (∀ other ∈ inputs, UsesPriority priorityOf other.2) →
        ∀ lock, Prioritized priorityOf (locks lock)
  have start : Invariant [] fun _ => fresh :=
    ⟨fun _ => coherent_fresh, fun _ _ _ => by simp [Prioritized, fresh]⟩
  have preserved : ∀ log locks input, Invariant log locks → input ∈ inputs →
      ∃ callbacks next, stepFamily locks input = some (callbacks, next) ∧
        Invariant (log ++ callbacks) next := by
    rintro _ locks input ⟨coherent, prioritized⟩ member
    obtain ⟨callbacks, next, stepEq, restored, kept⟩ := stepFamily_coherent coherent input
    exact ⟨callbacks, next, stepEq, restored, fun priorityOf uses =>
      kept priorityOf (uses input member) (prioritized priorityOf uses)⟩
  obtain ⟨log, locks, runEq, coherent, prioritized⟩ :=
    TransitionRuns.run_of_admissible preserved [] start inputs
      (TransitionRuns.admissible_of_forall _ _ fun _ member _ => member)
  refine ⟨log, locks, runEq, fun lock => (coherent lock).ordered, ?_⟩
  rintro priorityOf uses ⟨txn, cycle⟩
  have decreasing : ∀ {waiter holder}, Relation.TransGen (WaitsFor locks) waiter holder →
        priorityOf waiter < priorityOf holder := by
    intro waiter holder path
    induction path with
    | single edge =>
      exact priority_lt_of_waitsFor coherent (prioritized _ uses) edge
    | tail _ edge ih =>
      exact Int.lt_trans ih (priority_lt_of_waitsFor coherent (prioritized _ uses) edge)
  exact Int.lt_irrefl _ (decreasing cycle)

end SRPC.WaitDie
