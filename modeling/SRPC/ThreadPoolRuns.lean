import SRPC.ThreadPoolSteps

/-! # Every accepted job runs exactly once -/

namespace SRPC.Threading

open TransitionRuns List

namespace Destructor

/-- The steps that the destructor has yet to take in a pool of `n` workers. -/
def rank (n : Nat) : Destructor → Nat
  | .alive => 3 * n + 4
  | .pushing i => n - i + 2 * n + 3
  | .joining i => n - i + n + 2
  | .sweeping i => n - i + 1
  | .returned => 0

end Destructor

def Worker.rank (worker : Worker) : Nat :=
  match worker.stage with
  | .tryPop => worker.stealOrder.length + 5
  | .sleep => worker.stealOrder.length + 4
  | .tryPopAgain => worker.stealOrder.length + 3
  | .steal rest => rest.length + 2
  | .pop => 1
  | .running _ => 0
  | .stopped => 0

namespace ThreadPool

variable {pool next : ThreadPool} {log : List Event} {id : Nat}

def load (pool : ThreadPool) : Nat :=
  2 * (pool.queues.map List.length).sum +
    (pool.workers.map fun worker => worker.stage.jobs.length).sum

/-- What is left to be done, most important first. -/
def rank (pool : ThreadPool) : Nat × Nat × Nat :=
  (pool.destructor.rank pool.queues.length, pool.load, (pool.workers.map Worker.rank).sum)

/-- The pool is nearer to its end. -/
def Lower (next pool : ThreadPool) : Prop := WellFoundedRelation.rel next.rank pool.rank

/-- The steps the pool takes by itself. -/
def Own (pool : ThreadPool) : Input → Prop
  | .work id => id < pool.workers.length
  | .destroy => True
  | _ => False

theorem lower_of_destructor
    (fewer : next.destructor.rank next.queues.length <
      pool.destructor.rank pool.queues.length) : next.Lower pool := Prod.Lex.left _ _ fewer

theorem lower_of_load (destructor : next.destructor = pool.destructor)
    (queues : next.queues.length = pool.queues.length)
    (less : next.load < pool.load) : next.Lower pool := by
  rw [Lower, rank, rank, destructor, queues]
  exact Prod.Lex.right _ (Prod.Lex.left _ _ less)

section Workers

variable {worker : Worker} {queueId : Nat} {stage : Stage}

theorem lower_goTo (found : pool.workers[id]? = some worker) (idle : worker.stage.jobs = [])
    (quiet : stage.jobs = []) (later : { worker with stage }.rank < worker.rank) :
    (pool.goTo id worker stage).Lower pool := by
  have jobs := sum_map_set (fun worker : Worker => worker.stage.jobs.length)
    { worker with stage } found
  have ranks := sum_map_set Worker.rank { worker with stage } found
  have same : (pool.goTo id worker stage).load = pool.load := by
    simp only [idle, quiet, length_nil, Nat.add_zero] at jobs
    rw [load, load, goTo, jobs]
  have fewer : ((pool.goTo id worker stage).workers.map Worker.rank).sum <
      (pool.workers.map Worker.rank).sum := by
    rw [goTo]
    dsimp only
    omega
  rw [Lower, rank, rank, same]
  exact Prod.Lex.right _ (Prod.Lex.right _ fewer)

theorem lower_take (found : pool.workers[id]? = some worker) (idle : worker.stage.jobs = [])
    {front : JobPtr} {rest : List JobPtr} (queued : pool.queues[queueId]? = some (front :: rest))
    (single : stage.jobs.length ≤ 1) :
    ({ pool with queues := pool.queues.set queueId rest }.goTo id worker stage).Lower pool := by
  refine lower_of_load rfl length_set ?_
  have jobs := sum_map_set (fun worker : Worker => worker.stage.jobs.length)
    { worker with stage } found
  have items := sum_map_set List.length rest queued
  simp only [idle, length_nil] at jobs
  rw [length_cons] at items
  rw [load, load, goTo]
  dsimp only
  omega

variable {outputs : List Event}

theorem popFrom_lower (found : pool.workers[id]? = some worker) (idle : worker.stage.jobs = [])
    {queue : List JobPtr} (queued : pool.queues[queueId]? = some queue)
    {pop : List JobPtr → Option (JobPtr × List JobPtr)}
    (pops : ∀ front rest, pop queue = some (front, rest) → queue = front :: rest)
    {otherwise : Stage} (quiet : otherwise.jobs = [])
    (later : pop queue = none → { worker with stage := otherwise }.rank < worker.rank)
    (popEq : pool.popFrom id worker queueId pop otherwise = some (outputs, next)) :
    next.Lower pool := by
  simp only [popFrom, queued] at popEq
  split at popEq
  · rename_i failed
    cases popEq
    exact lower_goTo found idle quiet (later failed)
  · rename_i rest popped
    cases popEq
    rw [pops _ _ popped] at queued
    exact lower_take found idle queued (Nat.zero_le 1)
  · rename_i job rest popped
    cases popEq
    rw [pops _ _ popped] at queued
    exact lower_take found idle queued (Nat.le_refl 1)

theorem runThread_lower (formed : pool.Formed) (found : pool.workers[id]? = some worker)
    (goesOn : worker.stage ≠ .stopped) (ready : worker.stage = .pop → pool.queues[id]? ≠ some [])
    (stepEq : pool.runThread id = some (outputs, next)) : next.Lower pool := by
  have queueAt : ∀ queueId, queueId < pool.queues.length →
      ∃ queue, pool.queues[queueId]? = some queue :=
    fun queueId inside => ⟨_, getElem?_eq_getElem inside⟩
  have inside := lt_of_getElem? found
  obtain ⟨own, queued⟩ := queueAt id (formed.workers ▸ inside)
  simp only [runThread, found] at stepEq
  cases stageEq : worker.stage with
  | tryPop | tryPopAgain =>
    rw [stageEq] at stepEq
    refine popFrom_lower found (by rw [stageEq]; rfl) queued
      (fun _ _ => Queue.tryPop_eq_some) rfl (fun _ => ?_) stepEq
    simp only [Worker.rank, stageEq]
    omega
  | sleep =>
    rw [stageEq] at stepEq
    cases stepEq
    refine lower_goTo found (by rw [stageEq]; rfl) rfl ?_
    simp only [Worker.rank, stageEq]
    omega
  | steal rest =>
    rw [stageEq] at stepEq
    have idle : worker.stage.jobs = [] := by
      rw [stageEq]
      rfl
    cases rest with
    | nil =>
      cases stepEq
      refine lower_goTo found idle rfl ?_
      simp only [Worker.rank, stageEq]
      omega
    | cons victim rest =>
      have later : { worker with stage := .steal rest }.rank < worker.rank := by
        simp only [Worker.rank, stageEq, length_cons]
        omega
      dsimp only at stepEq
      split at stepEq
      · obtain ⟨queue, victims⟩ := queueAt victim
          (formed.victims worker (mem_of_getElem? found) _ stageEq victim mem_cons_self)
        exact popFrom_lower found idle victims
          (fun _ _ popped => (Queue.tryPopButIgnore_eq_some popped).1) rfl (fun _ => later) stepEq
      · cases stepEq
        exact lower_goTo found idle rfl later
  | pop =>
    rw [stageEq] at stepEq
    refine popFrom_lower found (by rw [stageEq]; rfl) queued
      (fun _ _ => Queue.tryPop_eq_some) rfl (fun failed => ?_) stepEq
    cases own with
    | nil => exact absurd queued (ready stageEq)
    | cons front rest => cases failed
  | running job =>
    rw [stageEq] at stepEq
    cases stepEq
    refine lower_of_load rfl rfl ?_
    have jobs := sum_map_set (fun worker : Worker => worker.stage.jobs.length)
      { worker with stage := .tryPop } found
    have one : worker.stage.jobs.length = 1 := by
      rw [stageEq]
      rfl
    change _ = _ + 0 at jobs
    rw [load, load, goTo]
    dsimp only
    omega
  | stopped => exact absurd stageEq goesOn

end Workers

section Destruction

variable {i : Nat}

theorem sweep_lower {queue : List JobPtr} (phase : pool.destructor = .sweeping i)
    (queued : pool.queues[i]? = some queue) : (pool.sweep i queue).2.Lower pool := by
  have inside := lt_of_getElem? queued
  have popped : ∀ front rest, queue = front :: rest →
      { pool with queues := pool.queues.set i rest }.Lower pool := by
    rintro front rest rfl
    refine lower_of_load rfl length_set ?_
    have items := sum_map_set List.length rest queued
    rw [length_cons] at items
    rw [load, load]
    dsimp only
    omega
  rw [sweep]
  cases queue with
  | nil =>
    refine lower_of_destructor ?_
    rw [phase]
    simp only [Queue.tryPop, Destructor.rank]
    omega
  | cons front rest =>
    cases front with
    | none | some job => exact popped _ _ rfl

theorem destroy_lower (formed : pool.Formed) (goesOn : pool.destructor ≠ .returned)
    (ready : ∀ i worker, pool.destructor = .joining i →
      pool.workers[i]? = some worker → worker.stage = .stopped) : pool.destroy.2.Lower pool := by
  have workers := formed.workers
  cases phase : pool.destructor with
  | alive =>
    refine lower_of_destructor ?_
    simp only [destroy, phase, Destructor.rank]
    omega
  | pushing i =>
    refine lower_of_destructor ?_
    cases queued : pool.queues[i]? with
    | none =>
      simp only [destroy, phase, queued, Destructor.rank]
      omega
    | some queue =>
      have inside := lt_of_getElem? queued
      simp only [destroy, phase, queued, Destructor.rank, length_set]
      omega
  | joining i =>
    refine lower_of_destructor ?_
    cases found : pool.workers[i]? with
    | none =>
      simp only [destroy, phase, found, Destructor.rank]
      omega
    | some worker =>
      have inside := lt_of_getElem? found
      simp only [destroy, phase, found, ready i worker phase found, if_true, Destructor.rank]
      omega
  | sweeping i =>
    cases queued : pool.queues[i]? with
    | none =>
      refine lower_of_destructor ?_
      simp only [destroy, phase, queued, Destructor.rank]
      omega
    | some queue =>
      simp only [destroy, phase, queued]
      exact sweep_lower phase queued
  | returned => exact absurd phase goesOn

theorem Invariant.queue_ne_nil (invariant : Invariant log pool) {worker : Worker}
    (phase : pool.destructor = .joining i) (found : pool.workers[i]? = some worker)
    (waiting : worker.stage = .pop) : pool.queues[i]? ≠ some [] := by
  intro empty
  have total := invariant.pilled.pills i [] empty
  rw [pillsTaken_of_found found, waiting, phase] at total
  cases total

/-- Until the destructor returns, some step goes on. -/
theorem Invariant.progress (log : List Event) (pool : ThreadPool)
    (invariant : Invariant log pool) (going : ¬pool.destructor = .returned) :
    ∃ input outputs next, pool.Own input ∧
      pool.step input = some (outputs, next) ∧
      Invariant (log ++ outputs) next ∧ next.Lower pool := by
  by_cases waits : ∃ i worker, pool.destructor = .joining i ∧
      pool.workers[i]? = some worker ∧ worker.stage ≠ .stopped
  · obtain ⟨i, worker, phase, found, goesOn⟩ := waits
    have inside := lt_of_getElem? found
    obtain ⟨outputs, next, stepEq, kept⟩ := invariant.runThread inside
    exact ⟨.work i, outputs, next, inside, stepEq, kept,
      runThread_lower invariant.formed found goesOn (invariant.queue_ne_nil phase found) stepEq⟩
  · refine ⟨.destroy, _, _, trivial, rfl, invariant.destroy,
      destroy_lower invariant.formed going ?_⟩
    intro i worker phase found
    by_contra goesOn
    exact waits ⟨i, worker, phase, found, goesOn⟩

end Destruction

/-- Nothing is left: the queues are empty, and every accepted job has been
executed once. -/
structure Finished (log : List Event) (pool : ThreadPool) : Prop where
  empty : ∀ queue ∈ pool.queues, queue = []
  once : ∀ job, Event.accepted job ∈ log → log.count (.executed job) = 1

theorem Accounted.executed_le (accounted : Accounted log pool) (job : Nat) :
    log.count (.executed job) ≤ log.count (.accepted job) ∧
      log.count (.accepted job) ≤ 1 := by
  have total := accounted.held job
  have fresh := accounted.fresh job
  constructor
  · omega
  · rw [fresh]
    split <;> omega

theorem Invariant.finished (invariant : Invariant log pool)
    (returned : pool.destructor = .returned) : Finished log pool := by
  have empty : ∀ queue ∈ pool.queues, queue = [] := by
    intro queue member
    obtain ⟨id, queued⟩ := mem_iff_getElem?.mp member
    exact invariant.pilled.swept id queue (by rw [returned]; trivial) queued
  have stopped : ∀ worker ∈ pool.workers, worker.stage = .stopped := by
    intro worker member
    obtain ⟨id, found⟩ := mem_iff_getElem?.mp member
    exact invariant.pilled.joined id worker (by rw [returned]; trivial) found
  have nothing : pool.held = [] := by
    rw [held, append_eq_nil_iff]
    constructor
    · rw [flatten_eq_nil_iff]
      intro jobs member
      obtain ⟨queue, inQueues, rfl⟩ := mem_map.mp member
      rw [empty queue inQueues]
      rfl
    · rw [flatten_eq_nil_iff]
      intro jobs member
      obtain ⟨worker, inWorkers, rfl⟩ := mem_map.mp member
      rw [stopped worker inWorkers]
      rfl
  refine ⟨empty, fun job accepted => ?_⟩
  have total := invariant.accounted.held job
  have atMost := (invariant.accounted.executed_le job).2
  have atLeast := count_pos_iff.mpr accepted
  rw [nothing, count_nil] at total
  omega

theorem Pilled.own_pill (pilled : Pilled log pool) {worker queueId : Nat}
    (took : Event.tookPill worker queueId ∈ log) : worker = queueId := by
  by_contra other
  have none := pilled.taken worker queueId
  rw [if_neg other, count_eq_zero] at none
  exact none took

theorem Pilled.stopped_by_pill (pilled : Pilled log pool) {worker : Worker}
    (found : pool.workers[id]? = some worker) (stopped : worker.stage = .stopped) :
    log.count (.tookPill id id) = 1 := by
  rw [pilled.taken, if_pos rfl, pillsTaken_of_found found, stopped]
  rfl

/-- For every interleaving in which the calls that return 0 push their jobs
before the sweep, no step fails, no job is executed twice or without having been
accepted, and a worker stops by taking the pill of its own queue, which no other
worker takes.  When the destructor has returned all queues are empty and every
accepted job has been executed once, and it is always possible for the threads of
the pool to get there. -/
theorem jobs_run_exactly_once (n : Nat) (positive : 0 < n)
    (draws : Nat → Nat → Nat) (inputs : List Input)
    (admissible : Admissible step Allows (new n draws) inputs) :
    ∃ log last, run step (new n draws) inputs = some (log, last) ∧
      (∀ job, log.count (.executed job) ≤ log.count (.accepted job) ∧
        log.count (.accepted job) ≤ 1) ∧
      (∀ id queueId, Event.tookPill id queueId ∈ log → id = queueId) ∧
      (∀ id worker, last.workers[id]? = some worker → worker.stage = .stopped →
        log.count (.tookPill id id) = 1) ∧
      (last.destructor = .returned → Finished log last) ∧
      ∃ more later final, Admissible step Own last more ∧
        run step last more = some (later, final) ∧
        final.destructor = .returned ∧ Finished (log ++ later) final := by
  obtain ⟨log, last, runEq, invariant⟩ := run_of_admissible Invariant.step []
    (new_invariant positive draws) inputs admissible
  rw [nil_append] at invariant
  obtain ⟨more, later, final, own, moreEq, atEnd, returned⟩ :=
    reaches_of_progress rank Invariant.progress log last invariant
  exact ⟨log, last, runEq, invariant.accounted.executed_le, fun _ _ => invariant.pilled.own_pill,
    fun _ _ => invariant.pilled.stopped_by_pill, invariant.finished,
    more, later, final, own, moreEq, returned, atEnd.finished returned⟩

/-- Two workers: the second one steals a job, a call pushes its job behind the
pill, and the destructor runs what is left. -/
def sampleInputs : List Input :=
  [.runAsync, .nextQueue 0, .push 0, .runAsync, .nextQueue 0,
    .work 1, .work 1, .work 1, .work 1, .destroy, .destroy, .destroy, .destroy,
    .runAsync, .push 0, .work 1, .work 0, .work 1, .destroy, .destroy, .destroy,
    .destroy, .destroy, .destroy, .destroy]

theorem jobs_run_exactly_once_sample :
    ∃ log last, run step (new 2 fun _ _ => 0) sampleInputs = some (log, last) ∧
      last.destructor = .returned ∧ log.count (.executed 1) = 1 := by
  obtain ⟨log, last, runEq, _, _, _, finished, _⟩ :=
    jobs_run_exactly_once 2 (by decide) (fun _ _ => 0) sampleInputs (by decide +kernel)
  have sample : ((run step (new 2 fun _ _ => 0) sampleInputs).map fun result =>
      (result.2.destructor, decide (Event.accepted 1 ∈ result.1))) = some (.returned, true) := by
    decide +kernel
  rw [runEq] at sample
  simp only [Option.map_some, Option.some.injEq, Prod.mk.injEq, decide_eq_true_eq] at sample
  exact ⟨log, last, runEq, sample.1, (finished sample.1).once 1 sample.2⟩

end ThreadPool

end SRPC.Threading
