import SRPC.IndexedLists
import SRPC.TransitionRuns

/-!
# The thread pool

`ThreadPool` has a queue for each of its workers, who also steal from the queues of
the others.  The destructor pushes a null pointer, the death pill, to every queue,
joins the workers and runs the jobs that are left.
-/

namespace SRPC.Threading

/-- A pointer to a job.  A job is the number of the accepted call that has
brought it; the null pointer is the death pill. -/
abbrev JobPtr := Option Nat

namespace Queue

variable {α : Type}

def tryPop : List α → Option (α × List α)
  | [] => none
  | front :: rest => some (front, rest)

def tryPopButIgnore [DecidableEq α] (ignore : α) : List α → Option (α × List α)
  | [] => none
  | front :: rest => if front ≠ ignore then some (front, rest) else none

end Queue

/-- `Rand::next(lower, upper)` for a number that the generator has drawn. -/
def randNext (drawn lower upper : Nat) : Nat := lower + drawn % (upper - lower)

/-- One turn of the loop that shuffles `steal_order`. -/
def swap (order : List Nat) (i j : Nat) : List Nat :=
  (order.set j (order.getD i 0)).set i (order.getD j 0)

/-- The order in which a worker looks into the other queues. -/
def stealOrder (n : Nat) (draws : Nat → Nat) : List Nat :=
  (List.range (n - 1)).foldl (fun order i => swap order i (randNext (draws i) i n)) (List.range n)

/-- Where a worker is in `run_thread`: stages 0 and 2 try its own queue, 1
sleeps, 3 tries the queues of the others in the stealing order and 4 waits for
its own. -/
inductive Stage where
  | tryPop
  | sleep
  | tryPopAgain
  | steal (rest : List Nat)
  | pop
  | running (job : Nat)
  | stopped
  deriving DecidableEq, Repr

structure Worker where
  stealOrder : List Nat
  stage : Stage
  deriving DecidableEq, Repr

/-- How far the destructor has come: which queue gets the next pill, which
worker is joined next, which queue is being swept. -/
inductive Destructor where
  | alive
  | pushing (i : Nat)
  | joining (i : Nat)
  | sweeping (i : Nat)
  | returned
  deriving DecidableEq, Repr

/-- The destructor looks for jobs that are left over, or has done so. -/
def Destructor.Sweeps : Destructor → Prop
  | .sweeping _ => True
  | .returned => True
  | _ => False

instance : ∀ destructor : Destructor, Decidable destructor.Sweeps
  | .sweeping _ => .isTrue trivial
  | .returned => .isTrue trivial
  | .alive => .isFalse id
  | .pushing _ => .isFalse id
  | .joining _ => .isFalse id

/-- The pool with the calls of `run_async` that have found `should_stop_` unset,
each with its `queue_id` once it has one. -/
structure ThreadPool where
  shouldStop : Bool
  /-- An `i64`, which fewer than `2 ^ 63` jobs do not overflow. -/
  roundRobin : Nat
  queues : List (List JobPtr)
  workers : List Worker
  callers : List (Option Nat)
  destructor : Destructor
  /-- How many calls have returned 0. -/
  accepted : Nat
  deriving DecidableEq, Repr

inductive Event where
  | refused
  | accepted (job : Nat)
  | executed (job : Nat)
  | tookPill (worker queue : Nat)
  deriving DecidableEq, Repr

namespace ThreadPool

def new (n : Nat) (draws : Nat → Nat → Nat) : ThreadPool where
  shouldStop := false
  roundRobin := 0
  queues := List.replicate n []
  workers := (List.range n).map fun id => ⟨Threading.stealOrder n (draws id), .tryPop⟩
  callers := []
  destructor := .alive
  accepted := 0

/-- `run_async` up to its test: the call returns `EPERM` or goes on. -/
def runAsync (pool : ThreadPool) : List Event × ThreadPool :=
  if pool.shouldStop then ([.refused], pool)
  else ([], { pool with callers := pool.callers ++ [none] })

/-- Draws the queue of a job in turn. -/
def nextQueue (pool : ThreadPool) (caller : Nat) : ThreadPool :=
  if pool.callers[caller]? = some none then
    { pool with
      roundRobin := pool.roundRobin + 1
      callers := pool.callers.set caller (some (pool.roundRobin % pool.queues.length)) }
  else pool

def push (pool : ThreadPool) (caller : Nat) : Option (List Event × ThreadPool) :=
  match pool.callers[caller]? with
  | some (some queueId) =>
    match pool.queues[queueId]? with
    | none => none
    | some queue => some ([.accepted pool.accepted],
        { pool with
          queues := pool.queues.set queueId (queue ++ [some pool.accepted])
          callers := pool.callers.eraseIdx caller
          accepted := pool.accepted + 1 })
  | _ => some ([], pool)

def goTo (pool : ThreadPool) (id : Nat) (worker : Worker) (stage : Stage) : ThreadPool :=
  { pool with workers := pool.workers.set id { worker with stage } }

/-- A worker pops from a queue, or goes to another stage.  The null pointer
ends its loop, another job is run. -/
def popFrom (pool : ThreadPool) (id : Nat) (worker : Worker) (queueId : Nat)
    (pop : List JobPtr → Option (JobPtr × List JobPtr)) (otherwise : Stage) :
    Option (List Event × ThreadPool) :=
  match pool.queues[queueId]? with
  | none => none
  | some queue =>
    match pop queue with
    | none => some ([], pool.goTo id worker otherwise)
    | some (none, rest) => some ([.tookPill id queueId],
        { pool with queues := pool.queues.set queueId rest }.goTo id worker .stopped)
    | some (some job, rest) => some ([],
        { pool with queues := pool.queues.set queueId rest }.goTo id worker (.running job))

/-- The next step of a worker. -/
def runThread (pool : ThreadPool) (id : Nat) : Option (List Event × ThreadPool) :=
  match pool.workers[id]? with
  | none => none
  | some worker =>
    match worker.stage with
    | .tryPop => pool.popFrom id worker id Queue.tryPop .sleep
    | .sleep => some ([], pool.goTo id worker .tryPopAgain)
    | .tryPopAgain =>
      pool.popFrom id worker id Queue.tryPop (.steal worker.stealOrder)
    | .steal [] => some ([], pool.goTo id worker .pop)
    | .steal (victim :: rest) =>
      if victim ≠ id then
        pool.popFrom id worker victim (Queue.tryPopButIgnore none) (.steal rest)
      else some ([], pool.goTo id worker (.steal rest))
    -- an empty queue leaves the worker waiting
    | .pop => pool.popFrom id worker id Queue.tryPop .pop
    | .running job => some ([.executed job], pool.goTo id worker .tryPop)
    | .stopped => some ([], pool)

/-- The destructor tries to pop from a queue that is left over, and runs what it
gets. -/
def sweep (pool : ThreadPool) (i : Nat) (queue : List JobPtr) : List Event × ThreadPool :=
  match Queue.tryPop queue with
  | none => ([], { pool with destructor := .sweeping (i + 1) })
  | some (none, rest) => ([], { pool with queues := pool.queues.set i rest })
  | some (some job, rest) =>
    ([.executed job], { pool with queues := pool.queues.set i rest })

/-- One step of the destructor.  It waits for a worker that has not stopped. -/
def destroy (pool : ThreadPool) : List Event × ThreadPool :=
  match pool.destructor with
  | .alive => ([], { pool with shouldStop := true, destructor := .pushing 0 })
  | .pushing i =>
    match pool.queues[i]? with
    | none => ([], { pool with destructor := .joining 0 })
    | some queue => ([],
        { pool with
          queues := pool.queues.set i (queue ++ [none])
          destructor := .pushing (i + 1) })
  | .joining i =>
    match pool.workers[i]? with
    | none => ([], { pool with destructor := .sweeping 0 })
    | some worker =>
      if worker.stage = .stopped then
        ([], { pool with destructor := .joining (i + 1) })
      else ([], pool)
  | .sweeping i =>
    match pool.queues[i]? with
    | none => ([], { pool with destructor := .returned })
    | some queue => pool.sweep i queue
  | .returned => ([], pool)

end ThreadPool

/-- A step of some thread: a caller of `run_async`, a worker or the one that
destroys the pool. -/
inductive Input where
  | runAsync
  | nextQueue (caller : Nat)
  | push (caller : Nat)
  | work (id : Nat)
  | destroy
  deriving DecidableEq, Repr

namespace ThreadPool

def step (pool : ThreadPool) : Input → Option (List Event × ThreadPool)
  | .runAsync => some pool.runAsync
  | .nextQueue caller => some ([], pool.nextQueue caller)
  | .push caller => pool.push caller
  | .work id => pool.runThread id
  | .destroy => some pool.destroy

/-- The workers are those of the pool, and a call that returns 0 has pushed its
job before the sweep. -/
def Allows (pool : ThreadPool) : Input → Prop
  | .push _ => ¬pool.destructor.Sweeps
  | .work id => id < pool.workers.length
  | _ => True

instance decidableAllows (pool : ThreadPool) :
    ∀ input, Decidable (pool.Allows input)
  | .push _ => inferInstanceAs (Decidable (¬pool.destructor.Sweeps))
  | .work id => inferInstanceAs (Decidable (id < pool.workers.length))
  | .runAsync => .isTrue trivial
  | .nextQueue _ => .isTrue trivial
  | .destroy => .isTrue trivial

end ThreadPool

end SRPC.Threading
