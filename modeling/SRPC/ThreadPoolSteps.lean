import SRPC.ThreadPoolCustody

/-! # The steps of a thread pool -/

namespace SRPC.Threading

open List

namespace ThreadPool

variable {pool next : ThreadPool} {log : List Event} {id : Nat}

section Workers

variable {worker : Worker} {queueId : Nat}

theorem Invariant.goTo (invariant : Invariant log pool) (found : pool.workers[id]? = some worker)
    (idle : worker.stage.jobs = [] ∧ worker.stage.pills = 0) {stage : Stage}
    (quiet : stage.jobs = [] ∧ stage.pills = 0)
    (victims : ∀ rest, stage = .steal rest →
      ∀ victim ∈ rest, victim < pool.queues.length) :
    Invariant (log ++ []) (pool.goTo id worker stage) where
  formed := invariant.formed.goTo found victims
  accounted := by
    refine invariant.accounted.step ?_ rfl fun _ => rfl
    intro job
    have moved := count_held_goTo found stage job
    rw [idle.1, quiet.1] at moved
    exact moved
  pilled := by
    rw [append_nil]
    exact invariant.pilled.goTo found idle.2 quiet.2

variable {rest : List JobPtr}

theorem Invariant.takeJob (invariant : Invariant log pool) (found : pool.workers[id]? = some worker)
    (idle : worker.stage.jobs = [] ∧ worker.stage.pills = 0) {job : Nat}
    (queued : pool.queues[queueId]? = some (some job :: rest)) :
    Invariant (log ++ [])
      ({ pool with queues := pool.queues.set queueId rest }.goTo id worker (.running job)) := by
  have popped : { pool with
      queues := pool.queues.set queueId rest }.workers[id]? = some worker := found
  refine ⟨(invariant.formed.setQueue queueId rest).goTo popped nofun, ?_, ?_⟩
  · refine invariant.accounted.step ?_ rfl fun _ => rfl
    intro other
    have left := count_held_setQueue queued rest other
    have moved := count_held_goTo popped (.running job) other
    rw [idle.1] at moved
    rw [jobsOf_some_cons, count_cons] at left
    simp only [Stage.jobs, count_cons, count_nil] at moved ⊢
    omega
  · rw [append_nil]
    refine (invariant.pilled.setQueue queued ?_ ?_).goTo popped idle.2 rfl
    · rw [count_cons_of_ne (by simp)]
    · intro swept
      cases invariant.pilled.swept queueId _ swept queued

theorem Invariant.takePill (invariant : Invariant log pool)
    (found : pool.workers[id]? = some worker)
    (idle : worker.stage.jobs = [] ∧ worker.stage.pills = 0)
    (queued : pool.queues[id]? = some (none :: rest)) :
    Invariant (log ++ [.tookPill id id])
      ({ pool with queues := pool.queues.set id rest }.goTo id worker .stopped) := by
  have popped : { pool with
      queues := pool.queues.set id rest }.workers[id]? = some worker := found
  refine ⟨(invariant.formed.setQueue id rest).goTo popped nofun, ?_,
    invariant.pilled.takePill found idle.2 queued⟩
  refine invariant.accounted.step ?_ rfl fun job => by simp
  intro job
  have left := count_held_setQueue queued rest job
  have moved := count_held_goTo popped .stopped job
  rw [idle.1] at moved
  rw [jobsOf_none_cons] at left
  simp only [Stage.jobs] at moved
  rw [count_singleton, if_neg (by simp)]
  omega

theorem Invariant.popFrom (invariant : Invariant log pool) (found : pool.workers[id]? = some worker)
    (idle : worker.stage.jobs = [] ∧ worker.stage.pills = 0) (inside : queueId < pool.queues.length)
    {pop : List JobPtr → Option (JobPtr × List JobPtr)}
    (pops : ∀ queue front rest, pop queue = some (front, rest) →
      queue = front :: rest ∧ (front = none → queueId = id))
    {otherwise : Stage} (quiet : otherwise.jobs = [] ∧ otherwise.pills = 0)
    (victims : ∀ rest, otherwise = .steal rest →
      ∀ victim ∈ rest, victim < pool.queues.length) :
    ∃ outputs next, pool.popFrom id worker queueId pop otherwise =
      some (outputs, next) ∧ Invariant (log ++ outputs) next := by
  obtain ⟨queue, queued⟩ : ∃ queue, pool.queues[queueId]? = some queue :=
    ⟨_, getElem?_eq_getElem inside⟩
  simp only [ThreadPool.popFrom, queued]
  cases popEq : pop queue with
  | none => exact ⟨_, _, rfl, invariant.goTo found idle quiet victims⟩
  | some popped =>
    obtain ⟨front, rest⟩ := popped
    obtain ⟨rfl, own⟩ := pops queue front rest popEq
    cases front with
    | none =>
      obtain rfl := own rfl
      exact ⟨_, _, rfl, invariant.takePill found idle queued⟩
    | some job => exact ⟨_, _, rfl, invariant.takeJob found idle queued⟩

theorem tryPop_pops (queue : List JobPtr) (front : JobPtr) (rest : List JobPtr)
    (popped : Queue.tryPop queue = some (front, rest)) :
    queue = front :: rest ∧ (front = none → queueId = queueId) :=
  ⟨Queue.tryPop_eq_some popped, fun _ => rfl⟩

theorem Invariant.runThread (invariant : Invariant log pool) (inside : id < pool.workers.length) :
    ∃ outputs next, pool.runThread id = some (outputs, next) ∧
      Invariant (log ++ outputs) next := by
  obtain ⟨worker, found⟩ : ∃ worker, pool.workers[id]? = some worker :=
    ⟨_, getElem?_eq_getElem inside⟩
  have own : id < pool.queues.length := invariant.formed.workers ▸ inside
  have member : worker ∈ pool.workers := mem_of_getElem? found
  simp only [ThreadPool.runThread, found]
  cases stageEq : worker.stage with
  | tryPop | pop =>
    exact invariant.popFrom found (by rw [stageEq]; exact ⟨rfl, rfl⟩) own
      tryPop_pops ⟨rfl, rfl⟩ nofun
  | sleep =>
    exact ⟨_, _, rfl, invariant.goTo found (by rw [stageEq]; exact ⟨rfl, rfl⟩) ⟨rfl, rfl⟩ nofun⟩
  | tryPopAgain =>
    refine invariant.popFrom found (by rw [stageEq]; exact ⟨rfl, rfl⟩) own tryPop_pops ⟨rfl, rfl⟩ ?_
    intro rest stealing
    cases stealing
    exact invariant.formed.orders worker member
  | steal rest =>
    have idle : worker.stage.jobs = [] ∧ worker.stage.pills = 0 := by
      rw [stageEq]
      exact ⟨rfl, rfl⟩
    have victims := invariant.formed.victims worker member rest stageEq
    cases rest with
    | nil => exact ⟨_, _, rfl, invariant.goTo found idle ⟨rfl, rfl⟩ nofun⟩
    | cons victim rest =>
      have later : ∀ others, Stage.steal rest = .steal others →
          ∀ other ∈ others, other < pool.queues.length := by
        intro others same
        cases same
        exact fun other tail => victims other (mem_cons_of_mem _ tail)
      dsimp only
      split
      · refine invariant.popFrom found idle (victims victim mem_cons_self) ?_ ⟨rfl, rfl⟩ later
        intro queue front others popped
        have taken := Queue.tryPopButIgnore_eq_some popped
        exact ⟨taken.1, fun pill => absurd pill taken.2⟩
      · exact ⟨_, _, rfl, invariant.goTo found idle ⟨rfl, rfl⟩ later⟩
  | running job =>
    refine ⟨_, _, rfl, invariant.formed.goTo found nofun, ?_, ?_⟩
    · refine invariant.accounted.step ?_ rfl fun other => by simp
      intro other
      have moved := count_held_goTo found .tryPop other
      rw [stageEq] at moved
      simp only [Stage.jobs, count_singleton, count_nil] at moved
      rw [count_singleton]
      simp only [beq_iff_eq, Event.executed.injEq] at moved ⊢
      omega
    · refine (invariant.pilled.goTo found ?_ rfl).append fun other queueId => by simp
      rw [stageEq]
      rfl
  | stopped => exact ⟨_, _, rfl, by rw [append_nil]; exact invariant⟩

end Workers

section Callers

theorem Invariant.setCallers (invariant : Invariant log pool) (roundRobin : Nat)
    {callers : List (Option Nat)}
    (inside : ∀ queueId, some queueId ∈ callers → queueId < pool.queues.length) :
    Invariant log { pool with roundRobin, callers } where
  formed := ⟨invariant.formed.nonempty, invariant.formed.workers, inside,
    invariant.formed.orders, invariant.formed.victims⟩
  accounted := ⟨invariant.accounted.held, invariant.accounted.fresh⟩
  pilled := ⟨invariant.pilled.pills, invariant.pilled.taken,
    invariant.pilled.joined, invariant.pilled.swept⟩

theorem Invariant.runAsync (invariant : Invariant log pool) :
    Invariant (log ++ pool.runAsync.1) pool.runAsync.2 := by
  rw [ThreadPool.runAsync]
  split
  · refine ⟨invariant.formed, ?_, ?_⟩
    · exact invariant.accounted.step (fun job => by simp) rfl fun job => by simp
    · exact invariant.pilled.append fun id queueId => by simp
  · rw [append_nil]
    refine invariant.setCallers pool.roundRobin ?_
    intro queueId member
    rw [mem_append, mem_singleton] at member
    exact invariant.formed.callers queueId (member.resolve_right nofun)

theorem Invariant.nextQueue (invariant : Invariant log pool) (caller : Nat) :
    Invariant log (pool.nextQueue caller) := by
  rw [ThreadPool.nextQueue]
  split
  · refine invariant.setCallers (pool.roundRobin + 1) ?_
    intro queueId member
    obtain old | same := mem_or_eq_of_mem_set member
    · exact invariant.formed.callers queueId old
    · rw [Option.some.inj same]
      exact Nat.mod_lt _ invariant.formed.nonempty
  · exact invariant

theorem not_swept_of_not_sweeps {destructor : Destructor}
    (before : ¬destructor.Sweeps) (queueId : Nat) : ¬destructor.Swept queueId := by
  cases destructor with
  | sweeping i | returned => exact absurd trivial before
  | alive | pushing i | joining i => exact id

theorem Accounted.push (accounted : Accounted log pool) {queueId : Nat}
    {queue : List JobPtr} (queued : pool.queues[queueId]? = some queue) :
    Accounted (log ++ [.accepted pool.accepted])
      { pool with
        queues := pool.queues.set queueId (queue ++ [some pool.accepted])
        accepted := pool.accepted + 1 } where
  held := by
    intro job
    have total := accounted.held job
    have grown := count_held_setQueue queued (queue ++ [some pool.accepted]) job
    rw [jobsOf_append, count_append, jobsOf_some_cons, count_cons] at grown
    rw [count_append, count_append, count_singleton, count_singleton]
    simp only [beq_iff_eq, Event.accepted.injEq, reduceCtorEq, if_false] at grown ⊢
    have none : (jobsOf []).count job = 0 := rfl
    change List.count job (ThreadPool.held { pool with
      queues := pool.queues.set queueId (queue ++ [some pool.accepted]) }) + _ = _
    omega
  fresh := by
    intro job
    rw [count_append, accounted.fresh, count_singleton]
    simp only [beq_iff_eq, Event.accepted.injEq]
    split <;> split <;> split <;> omega

theorem Invariant.push (invariant : Invariant log pool) (caller : Nat)
    (before : ¬pool.destructor.Sweeps) :
    ∃ outputs next, pool.push caller = some (outputs, next) ∧
      Invariant (log ++ outputs) next := by
  rw [ThreadPool.push]
  split
  · rename_i queueId calling
    obtain ⟨queue, queued⟩ : ∃ queue, pool.queues[queueId]? = some queue :=
      ⟨_, getElem?_eq_getElem (invariant.formed.callers queueId (mem_of_getElem? calling))⟩
    rw [queued]
    have formed := invariant.formed.setQueue queueId (queue ++ [some pool.accepted])
    have accounted := invariant.accounted.push queued
    have pills : (queue ++ [some pool.accepted]).count none = queue.count none := by
      simp
    have pilled := (invariant.pilled.setQueue queued pills fun swept =>
      absurd swept (not_swept_of_not_sweeps before queueId)).append
        fun id other => show List.count _ [Event.accepted pool.accepted] = 0 by simp
    refine ⟨_, _, rfl, ?_, ⟨accounted.held, accounted.fresh⟩,
      ⟨pilled.pills, pilled.taken, pilled.joined, pilled.swept⟩⟩
    refine ⟨formed.nonempty, formed.workers, ?_, formed.orders, formed.victims⟩
    intro other member
    exact formed.callers other (mem_of_mem_eraseIdx member)
  · exact ⟨_, _, rfl, by rw [append_nil]; exact invariant⟩

end Callers

section Destruction

theorem Invariant.setDestructor (invariant : Invariant log pool)
    (shouldStop : Bool) {destructor : Destructor}
    (pills : ∀ id, id < pool.queues.length →
      destructor.pills id = pool.destructor.pills id)
    (joined : ∀ id worker, destructor.Joined id →
      pool.workers[id]? = some worker → worker.stage = .stopped)
    (swept : ∀ id queue, destructor.Swept id →
      pool.queues[id]? = some queue → queue = []) :
    Invariant (log ++ []) { pool with shouldStop, destructor } where
  formed := ⟨invariant.formed.nonempty, invariant.formed.workers,
    invariant.formed.callers, invariant.formed.orders, invariant.formed.victims⟩
  accounted := by
    rw [append_nil]
    exact ⟨invariant.accounted.held, invariant.accounted.fresh⟩
  pilled := by
    rw [append_nil]
    refine ⟨?_, invariant.pilled.taken, joined, swept⟩
    intro id queue queued
    rw [pills id (lt_of_getElem? queued)]
    exact invariant.pilled.pills id queue queued

variable {i : Nat} {queue : List JobPtr}

section

variable (invariant : Invariant log pool)

include invariant

theorem Invariant.pushPill (phase : pool.destructor = .pushing i)
    (queued : pool.queues[i]? = some queue) :
    Invariant (log ++ [])
      { pool with
        queues := pool.queues.set i (queue ++ [none])
        destructor := .pushing (i + 1) } := by
  have formed := invariant.formed.setQueue i (queue ++ [none])
  refine ⟨⟨formed.nonempty, formed.workers, formed.callers, formed.orders, formed.victims⟩, ?_, ?_⟩
  · refine invariant.accounted.step ?_ rfl fun _ => rfl
    intro job
    have same := count_held_setQueue queued (queue ++ [none]) job
    rw [jobsOf_append, jobsOf_none_cons, count_append] at same
    have none : (jobsOf []).count job = 0 := rfl
    change List.count job (ThreadPool.held { pool with
      queues := pool.queues.set i (queue ++ [Option.none]) }) + _ = _
    rw [count_nil]
    omega
  · rw [append_nil]
    refine ⟨?_, invariant.pilled.taken, fun _ _ joined => joined.elim, fun _ _ swept => swept.elim⟩
    intro id other member
    change _ + pool.pillsTaken id = _
    obtain ⟨rfl, rfl⟩ | ⟨ne, old⟩ := getElem?_set_eq_some member
    · have before := invariant.pilled.pills id queue queued
      rw [phase] at before
      simp only [Destructor.pills, Nat.lt_irrefl, if_false] at before
      simp only [Destructor.pills, count_append, count_singleton_self, Nat.lt_succ_self, if_true]
      omega
    · have before := invariant.pilled.pills id other old
      rw [phase] at before
      simp only [Destructor.pills] at before ⊢
      rw [before]
      split <;> split <;> omega

theorem Invariant.no_pills (phase : pool.destructor.Sweeps)
    (queued : pool.queues[i]? = some queue) : queue.count none = 0 := by
  have inside := lt_of_getElem? queued
  rw [← invariant.formed.workers] at inside
  obtain ⟨worker, found⟩ : ∃ worker, pool.workers[i]? = some worker :=
    ⟨_, getElem?_eq_getElem inside⟩
  have total := invariant.pilled.pills i queue queued
  have once : pool.destructor.pills i = 1 ∧ pool.destructor.Joined i := by
    cases phaseEq : pool.destructor with
    | sweeping _ | returned => exact ⟨rfl, trivial⟩
    | alive | pushing _ | joining _ => rw [phaseEq] at phase; exact phase.elim
  rw [pillsTaken_of_found found, once.1, invariant.pilled.joined i worker once.2 found] at total
  simp only [Stage.pills] at total
  omega

theorem Invariant.sweepJob {job : Nat} {rest : List JobPtr}
    (queued : pool.queues[i]? = some (some job :: rest)) :
    Invariant (log ++ [.executed job]) { pool with queues := pool.queues.set i rest } := by
  refine ⟨invariant.formed.setQueue i rest, ?_, ?_⟩
  · refine invariant.accounted.step ?_ rfl fun other => by simp
    intro other
    have left := count_held_setQueue queued rest other
    rw [jobsOf_some_cons, count_cons] at left
    rw [count_singleton]
    simp only [beq_iff_eq, Event.executed.injEq] at left ⊢
    omega
  · refine (invariant.pilled.setQueue queued ?_ ?_).append fun _ _ => by simp
    · rw [count_cons_of_ne (by simp)]
    · intro swept
      cases invariant.pilled.swept i _ swept queued

theorem Invariant.sweep (phase : pool.destructor = .sweeping i)
    (queued : pool.queues[i]? = some queue) :
    Invariant (log ++ (pool.sweep i queue).1) (pool.sweep i queue).2 := by
  have sweeps : pool.destructor.Sweeps := by
    rw [phase]
    trivial
  cases queue with
  | nil =>
    refine invariant.setDestructor pool.shouldStop ?_ ?_ ?_
    · intro id _
      rw [phase]
      rfl
    · intro id worker _
      refine invariant.pilled.joined id worker ?_
      rw [phase]
      trivial
    · intro id other swept member
      obtain before | rfl := Nat.lt_succ_iff_lt_or_eq.mp swept
      · refine invariant.pilled.swept id other ?_ member
        rw [phase]
        exact before
      · exact Option.some.inj (member.symm.trans queued)
  | cons front rest =>
    cases front with
    | none =>
      have left := invariant.no_pills sweeps queued
      rw [count_cons_self] at left
      cases left
    | some job => exact invariant.sweepJob queued

/-- The destructor keeps jobs and pills accounted for. -/
theorem Invariant.destroy : Invariant (log ++ pool.destroy.1) pool.destroy.2 := by
  cases phase : pool.destructor with
  | alive =>
    simp only [ThreadPool.destroy, phase]
    refine invariant.setDestructor true ?_ (fun _ _ joined => joined.elim)
      fun _ _ swept => swept.elim
    intro id _
    rw [phase]
    rfl
  | pushing i =>
    cases queued : pool.queues[i]? with
    | none =>
      simp only [ThreadPool.destroy, phase, queued]
      refine invariant.setDestructor pool.shouldStop ?_
        (fun id _ joined => absurd joined (Nat.not_lt_zero id)) fun _ _ swept => swept.elim
      intro id inside
      have last := List.getElem?_eq_none_iff.mp queued
      simp only [phase, Destructor.pills]
      rw [if_pos (by omega)]
    | some queue =>
      simp only [ThreadPool.destroy, phase, queued]
      exact invariant.pushPill phase queued
  | joining i =>
    cases found : pool.workers[i]? with
    | none =>
      simp only [ThreadPool.destroy, phase, found]
      refine invariant.setDestructor pool.shouldStop ?_ ?_
        fun id _ swept => absurd swept (Nat.not_lt_zero id)
      · intro id _
        rw [phase]
        rfl
      · intro id worker _ member
        refine invariant.pilled.joined id worker ?_ member
        have last := List.getElem?_eq_none_iff.mp found
        have inside := lt_of_getElem? member
        rw [phase]
        exact Nat.lt_of_lt_of_le inside last
    | some worker =>
      simp only [ThreadPool.destroy, phase, found]
      split
      · rename_i stopped
        refine invariant.setDestructor pool.shouldStop ?_ ?_ fun _ _ swept => swept.elim
        · intro id _
          rw [phase]
          rfl
        · intro id other joined member
          obtain before | rfl := Nat.lt_succ_iff_lt_or_eq.mp joined
          · refine invariant.pilled.joined id other ?_ member
            rw [phase]
            exact before
          · rw [found] at member
            rw [← Option.some.inj member, stopped]
      · rw [append_nil]
        exact invariant
  | sweeping i =>
    cases queued : pool.queues[i]? with
    | none =>
      simp only [ThreadPool.destroy, phase, queued]
      refine invariant.setDestructor pool.shouldStop ?_ ?_ ?_
      · intro id _
        rw [phase]
        rfl
      · intro id worker _
        refine invariant.pilled.joined id worker ?_
        rw [phase]
        trivial
      · intro id queue _ member
        refine invariant.pilled.swept id queue ?_ member
        have last := List.getElem?_eq_none_iff.mp queued
        have inside := lt_of_getElem? member
        rw [phase]
        exact Nat.lt_of_lt_of_le inside last
    | some queue =>
      simp only [ThreadPool.destroy, phase, queued]
      exact invariant.sweep phase queued
  | returned =>
    simp only [ThreadPool.destroy, phase, append_nil]
    exact invariant

end

end Destruction

/-- Every step keeps jobs and pills accounted for. -/
theorem Invariant.step (log : List Event) (pool : ThreadPool) (input : Input)
    (invariant : Invariant log pool) (allowed : pool.Allows input) :
    ∃ outputs next, pool.step input = some (outputs, next) ∧
      Invariant (log ++ outputs) next := by
  cases input with
  | runAsync => exact ⟨_, _, rfl, invariant.runAsync⟩
  | nextQueue caller =>
    refine ⟨_, _, rfl, ?_⟩
    rw [append_nil]
    exact invariant.nextQueue caller
  | push caller => exact invariant.push caller allowed
  | work id => exact invariant.runThread allowed
  | destroy => exact ⟨_, _, rfl, invariant.destroy⟩

end ThreadPool

end SRPC.Threading
