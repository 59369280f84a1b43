import Mathlib.Data.List.GetD
import SRPC.ThreadPool

/-!
# Where the jobs and the pills of a thread pool are

A job that `run_async` has accepted is in one queue, or one worker runs it, or it
has been executed.  Every queue gets one pill, which stays there until its own
worker takes it.
-/

namespace SRPC.Threading

open List

namespace Queue

variable {α : Type} {rest : List α} {front : α}

theorem tryPop_eq_some {queue : List α} (popped : tryPop queue = some (front, rest)) :
    queue = front :: rest := by
  cases queue with
  | nil => cases popped
  | cons first others =>
    cases popped
    rfl

theorem tryPopButIgnore_eq_some [DecidableEq α] {ignore : α} {queue : List α}
    (popped : tryPopButIgnore ignore queue = some (front, rest)) :
    queue = front :: rest ∧ front ≠ ignore := by
  cases queue with
  | nil => cases popped
  | cons first others =>
    rw [tryPopButIgnore] at popped
    split at popped
    · rename_i other
      cases popped
      exact ⟨rfl, other⟩
    · cases popped

end Queue

section StealOrder

variable {order : List Nat} {n : Nat}

@[simp]
theorem length_swap (order : List Nat) (i j : Nat) : (swap order i j).length = order.length := by
  simp [swap]

theorem swap_lt {i j : Nat} (below : ∀ id ∈ order, id < n)
    (length : order.length = n) (iLt : i < n) (jLt : j < n) : ∀ id ∈ swap order i j, id < n := by
  have entry : ∀ k, k < n → order.getD k 0 < n := by
    intro k kLt
    rw [getD_eq_getElem order 0 (by omega)]
    exact below _ (getElem_mem _)
  intro id member
  obtain first | rfl := mem_or_eq_of_mem_set member
  · obtain old | rfl := mem_or_eq_of_mem_set first
    · exact below id old
    · exact entry i iLt
  · exact entry j jLt

theorem stealOrder_lt (n : Nat) (draws : Nat → Nat) : ∀ id ∈ stealOrder n draws, id < n := by
  have shuffled : ∀ turns : List Nat, (∀ i ∈ turns, i < n) →
      ∀ order : List Nat, order.length = n → (∀ id ∈ order, id < n) →
        ∀ id ∈ turns.foldl
          (fun order i => swap order i (randNext (draws i) i n)) order, id < n := by
    intro turns
    induction turns with
    | nil => exact fun _ order _ below => below
    | cons i turns ih =>
      intro inside order length below
      have iLt : i < n := inside i mem_cons_self
      have jLt : randNext (draws i) i n < n := by
        have drawn := Nat.mod_lt (draws i) (Nat.sub_pos_of_lt iLt)
        rw [randNext]
        omega
      exact ih (fun j member => inside j (mem_cons_of_mem _ member)) _
        (by rw [length_swap, length]) (swap_lt below length iLt jLt)
  refine shuffled _ ?_ _ length_range fun id member => mem_range.mp member
  intro i member
  have := mem_range.mp member
  omega

end StealOrder

def jobsOf (queue : List JobPtr) : List Nat := queue.filterMap id

theorem jobsOf_some_cons (job : Nat) (rest : List JobPtr) :
    jobsOf (some job :: rest) = job :: jobsOf rest :=
  rfl

theorem jobsOf_none_cons (rest : List JobPtr) : jobsOf (none :: rest) = jobsOf rest :=
  rfl

theorem jobsOf_append (first second : List JobPtr) :
    jobsOf (first ++ second) = jobsOf first ++ jobsOf second := filterMap_append

def Stage.jobs : Stage → List Nat
  | .running job => [job]
  | _ => []

def Stage.pills : Stage → Nat
  | .stopped => 1
  | _ => 0

namespace Destructor

/-- How many pills the queue was given. -/
def pills (destructor : Destructor) (queue : Nat) : Nat :=
  match destructor with
  | .alive => 0
  | .pushing i => if queue < i then 1 else 0
  | _ => 1

/-- The destructor has joined this worker. -/
def Joined (destructor : Destructor) (worker : Nat) : Prop :=
  match destructor with
  | .joining i => worker < i
  | .sweeping _ => True
  | .returned => True
  | _ => False

/-- The destructor has emptied this queue. -/
def Swept (destructor : Destructor) (queue : Nat) : Prop :=
  match destructor with
  | .sweeping i => queue < i
  | .returned => True
  | _ => False

end Destructor

namespace ThreadPool

variable {pool next : ThreadPool} {log : List Event} {id : Nat}

/-- The jobs in queues and in the hands of workers. -/
def held (pool : ThreadPool) : List Nat :=
  (pool.queues.map jobsOf).flatten ++ (pool.workers.map fun worker => worker.stage.jobs).flatten

/-- Every accepted job is held or has been executed, once. -/
structure Accounted (log : List Event) (pool : ThreadPool) : Prop where
  held : ∀ job, pool.held.count job + log.count (.executed job) = log.count (.accepted job)
  fresh : ∀ job, log.count (.accepted job) = if job < pool.accepted then 1 else 0

/-- The pool has a queue for every worker, and all queues that are named exist. -/
structure Formed (pool : ThreadPool) : Prop where
  nonempty : 0 < pool.queues.length
  workers : pool.workers.length = pool.queues.length
  callers : ∀ queueId, some queueId ∈ pool.callers → queueId < pool.queues.length
  orders : ∀ worker ∈ pool.workers, ∀ victim ∈ worker.stealOrder, victim < pool.queues.length
  victims : ∀ worker ∈ pool.workers, ∀ rest, worker.stage = .steal rest →
    ∀ victim ∈ rest, victim < pool.queues.length

def pillsTaken (pool : ThreadPool) (id : Nat) : Nat :=
  match pool.workers[id]? with
  | none => 0
  | some worker => worker.stage.pills

/-- A pill that has been pushed to a queue is still there or its own worker has
taken it. -/
structure Pilled (log : List Event) (pool : ThreadPool) : Prop where
  pills : ∀ id queue, pool.queues[id]? = some queue →
    queue.count none + pool.pillsTaken id = pool.destructor.pills id
  taken : ∀ id queueId, log.count (.tookPill id queueId) =
    if id = queueId then pool.pillsTaken id else 0
  joined : ∀ id worker, pool.destructor.Joined id →
    pool.workers[id]? = some worker → worker.stage = .stopped
  swept : ∀ id queue, pool.destructor.Swept id → pool.queues[id]? = some queue → queue = []

/-- Jobs and pills are accounted for. -/
structure Invariant (log : List Event) (pool : ThreadPool) : Prop where
  formed : pool.Formed
  accounted : Accounted log pool
  pilled : Pilled log pool

section Start

theorem new_pillsTaken (n : Nat) (draws : Nat → Nat → Nat) (id : Nat) :
    (new n draws).pillsTaken id = 0 := by
  rw [pillsTaken]
  split
  · rfl
  · rename_i worker found
    obtain ⟨_, _, rfl⟩ := mem_map.mp (mem_of_getElem? found)
    rfl

theorem new_invariant {n : Nat} (positive : 0 < n) (draws : Nat → Nat → Nat) :
    Invariant [] (new n draws) where
  formed := {
    nonempty := by simpa [new] using positive
    workers := by simp [new]
    callers := fun _ member => nomatch member
    orders := by
      intro worker member
      obtain ⟨id, _, rfl⟩ := mem_map.mp member
      simpa [new] using stealOrder_lt n (draws id)
    victims := by
      intro worker member rest stage
      obtain ⟨id, _, rfl⟩ := mem_map.mp member
      cases stage }
  accounted := {
    held := by
      intro job
      have queues : ((new n draws).queues.map jobsOf).flatten = [] := by
        simp [new, jobsOf]
      have workers : ((new n draws).workers.map fun worker => worker.stage.jobs).flatten = [] := by
        simp [new, Stage.jobs]
      rw [ThreadPool.held, queues, workers]
      rfl
    fresh := fun _ => rfl }
  pilled := {
    pills := by
      intro id queue found
      rw [eq_of_mem_replicate (mem_of_getElem? found), new_pillsTaken]
      rfl
    taken := fun _ _ => by rw [new_pillsTaken, ite_self]; rfl
    joined := fun _ _ joined => joined.elim
    swept := fun _ _ swept => swept.elim }

end Start

section Frames

variable {worker : Worker} {queue : List JobPtr} {queueId : Nat}

theorem count_held (pool : ThreadPool) (job : Nat) :
    pool.held.count job = (pool.queues.map jobsOf).flatten.count job +
      (pool.workers.map fun worker => worker.stage.jobs).flatten.count job := count_append

theorem count_held_goTo (found : pool.workers[id]? = some worker) (stage : Stage) (job : Nat) :
    (pool.goTo id worker stage).held.count job + worker.stage.jobs.count job =
      pool.held.count job + stage.jobs.count job := by
  have old : (pool.workers.map fun worker => worker.stage.jobs)[id]? = some worker.stage.jobs := by
    rw [getElem?_map, found, Option.map_some]
  have total := count_flatten_set stage.jobs old job
  rw [count_held, count_held, goTo, map_set]
  dsimp only
  omega

theorem count_held_setQueue (found : pool.queues[queueId]? = some queue)
    (new : List JobPtr) (job : Nat) :
    { pool with queues := pool.queues.set queueId new }.held.count job + (jobsOf queue).count job =
      pool.held.count job + (jobsOf new).count job := by
  have old : (pool.queues.map jobsOf)[queueId]? = some (jobsOf queue) := by
    rw [getElem?_map, found, Option.map_some]
  have total := count_flatten_set (jobsOf new) old job
  rw [count_held, count_held, map_set]
  dsimp only
  omega

theorem pillsTaken_of_found (found : pool.workers[id]? = some worker) :
    pool.pillsTaken id = worker.stage.pills := by
  rw [pillsTaken, found]

theorem pillsTaken_goTo (found : pool.workers[id]? = some worker) (stage : Stage) (other : Nat) :
    (pool.goTo id worker stage).pillsTaken other =
      if other = id then stage.pills else pool.pillsTaken other := by
  have inside := lt_of_getElem? found
  by_cases same : other = id
  · rw [if_pos same, same, pillsTaken, goTo, getElem?_set_self inside]
  · rw [if_neg same, pillsTaken, goTo, getElem?_set_ne (Ne.symm same)]
    rfl

variable {stage : Stage}

theorem pillsTaken_goTo_of_quiet (found : pool.workers[id]? = some worker)
    (quiet : stage.pills = worker.stage.pills) (other : Nat) :
    (pool.goTo id worker stage).pillsTaken other = pool.pillsTaken other := by
  rw [pillsTaken_goTo found, quiet, ← pillsTaken_of_found found]
  split
  · rename_i same
    rw [same]
  · rfl

theorem Formed.goTo (formed : pool.Formed) (found : pool.workers[id]? = some worker)
    (victims : ∀ rest, stage = .steal rest → ∀ victim ∈ rest, victim < pool.queues.length) :
    (pool.goTo id worker stage).Formed where
  nonempty := formed.nonempty
  workers := by rw [ThreadPool.goTo, length_set, formed.workers]
  callers := formed.callers
  orders := by
    intro other member
    obtain old | rfl := mem_or_eq_of_mem_set member
    · exact formed.orders other old
    · exact formed.orders worker (mem_of_getElem? found)
  victims := by
    intro other member
    obtain old | rfl := mem_or_eq_of_mem_set member
    · exact formed.victims other old
    · exact victims

theorem Formed.setQueue (formed : pool.Formed) (queueId : Nat) (queue : List JobPtr) :
    { pool with queues := pool.queues.set queueId queue }.Formed where
  nonempty := by rw [length_set]; exact formed.nonempty
  workers := by rw [length_set]; exact formed.workers
  callers := by rw [length_set]; exact formed.callers
  orders := by rw [length_set]; exact formed.orders
  victims := by rw [length_set]; exact formed.victims

variable {outputs : List Event}

theorem Accounted.step (accounted : Accounted log pool)
    (moved : ∀ job, next.held.count job + outputs.count (.executed job) = pool.held.count job)
    (accepted : next.accepted = pool.accepted)
    (noneAccepted : ∀ job, outputs.count (.accepted job) = 0) :
    Accounted (log ++ outputs) next where
  held := by
    intro job
    have total := accounted.held job
    have same := moved job
    rw [count_append, count_append, noneAccepted]
    omega
  fresh := by
    intro job
    rw [count_append, noneAccepted, accounted.fresh, accepted, Nat.add_zero]

theorem Pilled.append (pilled : Pilled log pool)
    (noPills : ∀ id queueId, outputs.count (.tookPill id queueId) = 0) :
    Pilled (log ++ outputs) pool where
  pills := pilled.pills
  taken := by
    intro id queueId
    rw [count_append, noPills, Nat.add_zero, pilled.taken]
  joined := pilled.joined
  swept := pilled.swept

theorem Pilled.goTo (pilled : Pilled log pool) (found : pool.workers[id]? = some worker)
    (idle : worker.stage.pills = 0) (quiet : stage.pills = 0) :
    Pilled log (pool.goTo id worker stage) where
  pills := by
    intro other queue member
    rw [pillsTaken_goTo_of_quiet found (quiet.trans idle.symm)]
    exact pilled.pills other queue member
  taken := by
    intro other queueId
    rw [pillsTaken_goTo_of_quiet found (quiet.trans idle.symm)]
    exact pilled.taken other queueId
  joined := by
    intro other otherWorker joined member
    obtain ⟨rfl, _⟩ | ⟨_, old⟩ := getElem?_set_eq_some member
    · rw [pilled.joined other worker joined found] at idle
      cases idle
    · exact pilled.joined other otherWorker joined old
  swept := pilled.swept

theorem Pilled.setQueue (pilled : Pilled log pool)
    (found : pool.queues[queueId]? = some queue) {new : List JobPtr}
    (same : new.count none = queue.count none) (kept : pool.destructor.Swept queueId → new = []) :
    Pilled log { pool with queues := pool.queues.set queueId new } where
  pills := by
    intro id other member
    obtain ⟨rfl, rfl⟩ | ⟨_, old⟩ := getElem?_set_eq_some member
    · rw [same]
      exact pilled.pills id queue found
    · exact pilled.pills id other old
  taken := pilled.taken
  joined := pilled.joined
  swept := by
    intro id other swept member
    obtain ⟨rfl, rfl⟩ | ⟨_, old⟩ := getElem?_set_eq_some member
    · exact kept swept
    · exact pilled.swept id other swept old

theorem takePill_pillsTaken (rest : List JobPtr)
    (found : pool.workers[id]? = some worker) (other : Nat) :
    ({ pool with queues := pool.queues.set id rest }.goTo id worker .stopped).pillsTaken other =
      if other = id then 1 else pool.pillsTaken other := by
  have popped : { pool with
      queues := pool.queues.set id rest }.workers[id]? = some worker := found
  exact pillsTaken_goTo popped .stopped other

theorem Pilled.takePill (pilled : Pilled log pool)
    (found : pool.workers[id]? = some worker) (idle : worker.stage.pills = 0)
    {rest : List JobPtr} (queued : pool.queues[id]? = some (none :: rest)) :
    Pilled (log ++ [.tookPill id id])
      ({ pool with queues := pool.queues.set id rest }.goTo id worker .stopped) where
  pills := by
    intro other queue member
    have moved := takePill_pillsTaken rest found other
    have own := pilled.pills id _ queued
    rw [pillsTaken_of_found found, idle, count_cons_self] at own
    obtain ⟨rfl, rfl⟩ | ⟨ne, old⟩ := getElem?_set_eq_some member
    · rw [moved, if_pos rfl]
      exact own
    · rw [moved, if_neg ne]
      exact pilled.pills other queue old
  taken := by
    intro other queueId
    rw [count_append, pilled.taken other queueId, takePill_pillsTaken rest found, count_singleton]
    by_cases same : other = id
    · subst same
      rw [pillsTaken_of_found found, idle]
      by_cases own : other = queueId
      · simp [own]
      · simp [own]
    · simp [same, Ne.symm same]
  joined := by
    intro other otherWorker joined member
    obtain ⟨_, rfl⟩ | ⟨_, old⟩ := getElem?_set_eq_some member
    · rfl
    · exact pilled.joined other otherWorker joined old
  swept := by
    intro other queue swept member
    obtain ⟨rfl, rfl⟩ | ⟨_, old⟩ := getElem?_set_eq_some member
    · cases pilled.swept other _ swept queued
    · exact pilled.swept other queue swept old

end Frames

end ThreadPool

end SRPC.Threading
