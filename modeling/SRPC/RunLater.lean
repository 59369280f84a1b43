import Mathlib.Order.Lattice
import SRPC.PriorityQueues
import SRPC.ThreadPool

/-!
# Jobs that run later

`RunLater` keeps jobs and the times at which they are due in a priority queue.
Its thread runs the job on top once that is due, and ends when the destructor has
pushed a death pill and the queue is empty.
-/

namespace SRPC.Threading

open TransitionRuns List

/-- `job_t`; a time of the source is a `double`. -/
structure DelayedJob (Time : Type) where
  due : Time
  job : JobPtr

def DelayedJob.item {Time : Type} (j : DelayedJob Time) : Option (Time × Nat) :=
  j.job.map fun job => (j.due, job)

/-- `std::greater`, as far as the times decide. -/
def DelayedJob.greater {Time : Type} [LinearOrder Time] (a b : DelayedJob Time) : Bool :=
  b.due < a.due

/-- What `try_one_job` takes from a time for a wait: its `tv_usec`, and the
`wait_nsec` from there to the time at which a job is due. -/
class WallClock (Time : Type) where
  usec : Time → Nat
  waitNsec (now due : Time) : Nat

/-- `abstime.tv_nsec`.  The second is carried only if the sum exceeds it. -/
def tvNsec {Time : Type} [WallClock Time] (now due : Time) : Nat :=
  let nsec := WallClock.usec now * 1000 + WallClock.waitNsec now due
  if 1000 * 1000 * 1000 < nsec then nsec - 1000 * 1000 * 1000 else nsec

/-- Where the thread is in `run_later_loop`. -/
inductive LaterPhase
  | test
  | attempt
  | testEmpty
  | attemptLast
  | ended
  /-- The `verify` behind a wait has failed. -/
  | aborted
  deriving DecidableEq

/-- The object and its threads.  The times in `callers` are those of calls that
have still to push their jobs; job `n` is the one that was pushed as the `n`th,
with the time `accepted[n]`. -/
structure RunLater (Time Queue : Type) where
  shouldStop : Bool
  jobs : Queue
  callers : List Time
  accepted : List Time
  refused : Nat
  phase : LaterPhase
  now : Time

/-- A job is run at this time, when so many were accepted. -/
structure Execution (Time : Type) where
  due : Time
  job : Nat
  time : Time
  accepted : Nat
  deriving DecidableEq

/-- The clock goes on, or a thread takes a step. -/
inductive LaterInput (Time : Type)
  | clock (now : Time)
  | runLater (sec : Time)
  | push (caller : Nat)
  | work
  | destroy

namespace RunLater

abbrev Result (Time Queue : Type) := List (Execution Time) × RunLater Time Queue

variable {Time Queue : Type} [LinearOrder Time]
  (heap : PriorityQueue (DelayedJob Time) Queue DelayedJob.greater)

section Thread

variable [WallClock Time] (rl : RunLater Time Queue)

/-- The queue after one call.  A wait for the condition changes nothing, and is
refused with `EINVAL` if the nanoseconds make up a second. -/
def tryOneJob : Option (List (Execution Time) × Queue) :=
  match heap.top rl.jobs with
  | none => some ([], rl.jobs)
  | some j =>
    if j.due < rl.now then
      match j.job with
      | none => some ([], heap.pop rl.jobs)
      | some job => some ([⟨j.due, job, rl.now, rl.accepted.length⟩], heap.pop rl.jobs)
    else if tvNsec rl.now j.due < 1000 * 1000 * 1000 then some ([], rl.jobs)
    else none

/-- The body of a loop whose test is the next step. -/
def attempt (next : LaterPhase) : Result Time Queue :=
  match tryOneJob heap rl with
  | none => ([], { rl with phase := .aborted })
  | some (events, jobs) => (events, { rl with jobs := jobs, phase := next })

/-- The thread's next step: the test of one of its two loops, or the body. -/
def runLaterLoop : Result Time Queue :=
  match rl.phase with
  | .test => ([], { rl with phase := if rl.shouldStop then .testEmpty else .attempt })
  | .attempt => attempt heap rl .test
  | .testEmpty =>
    ([], { rl with phase := if (heap.top rl.jobs).isNone then .ended else .attemptLast })
  | .attemptLast => attempt heap rl .testEmpty
  | .ended | .aborted => ([], rl)

end Thread

section Steps

def new (now : Time) : RunLater Time Queue := ⟨false, heap.empty, [], [], 0, .test, now⟩

variable [WallClock Time] [Zero Time] [Add Time] (rl : RunLater Time Queue)

/-- The two steps of the destructor before it joins the thread. -/
def destroy : RunLater Time Queue :=
  if rl.shouldStop then { rl with jobs := heap.push rl.jobs ⟨0, none⟩ }
  else { rl with shouldStop := true }

/-- One step of a thread; `run_later` has two, its test and its push. -/
def advance : LaterInput Time → Result Time Queue
  | .clock now => ([], { rl with now := now })
  | .runLater sec =>
    if rl.shouldStop then ([], { rl with refused := rl.refused + 1 })
    else ([], { rl with callers := rl.callers ++ [if 0 < sec then rl.now + sec else rl.now] })
  | .push caller =>
    match rl.callers[caller]? with
    | none => ([], rl)
    | some later => ([], { rl with
        jobs := heap.push rl.jobs ⟨later, some rl.accepted.length⟩
        callers := rl.callers.eraseIdx caller
        accepted := rl.accepted ++ [later] })
  | .work => runLaterLoop heap rl
  | .destroy => ([], destroy heap rl)

/-- When a `verify` has failed no thread goes on. -/
def step (input : LaterInput Time) : Option (Result Time Queue) :=
  some (if rl.phase = .aborted then ([], rl) else advance heap rl input)

/-- A call that was not refused pushes its job before the thread has ended. -/
def Allows : LaterInput Time → Prop
  | .push _ => rl.phase ≠ .ended
  | _ => True

instance decidableAllows : ∀ input, Decidable (Allows rl input)
  | .push _ => inferInstanceAs (Decidable (_ ≠ _))
  | .clock _ | .runLater _ | .work | .destroy => inferInstanceAs (Decidable True)

end Steps

/-- The jobs in the queue, with their times. -/
def queued (jobs : Queue) : List (Time × Nat) := (heap.items jobs).filterMap DelayedJob.item

/-- What a step may do to the jobs in the queue. -/
inductive Effect (rl next : RunLater Time Queue) : List (Execution Time) → Prop
  | idle (same : (queued heap next.jobs).Perm (queued heap rl.jobs))
      (none : next.accepted = rl.accepted) : Effect rl next []
  | accept (due : Time) (new : next.accepted = rl.accepted ++ [due])
      (grown : (queued heap next.jobs).Perm ((due, rl.accepted.length) :: queued heap rl.jobs)) :
      Effect rl next []
  | execute (run : Execution Time) (none : next.accepted = rl.accepted)
      (count : run.accepted = rl.accepted.length) (late : run.due < run.time)
      (taken : (queued heap rl.jobs).Perm ((run.due, run.job) :: queued heap next.jobs))
      (first : ∀ item ∈ queued heap next.jobs, run.due ≤ item.1) : Effect rl next [run]

/-- Each accepted job was executed once or waits; none was executed before its
time, nor before another one that waited with it and was due earlier. -/
structure Kept (rl : RunLater Time Queue) (log : List (Execution Time)) : Prop where
  jobs : (log.map (fun run => (run.due, run.job)) ++ queued heap rl.jobs).Perm rl.accepted.zipIdx
  punctual : ∀ run ∈ log, run.due < run.time
  counted : ∀ run ∈ log, run.accepted ≤ rl.accepted.length
  ordered : log.Pairwise fun run later => later.job < run.accepted → run.due ≤ later.due
  waiting : ∀ run ∈ log, ∀ item ∈ queued heap rl.jobs, item.2 < run.accepted → run.due ≤ item.1

variable {heap} {rl next : RunLater Time Queue} {log events : List (Execution Time)}
  {jobs : Queue} {j : DelayedJob Time}

/-- What a step does to the queue loses no job. -/
theorem Kept.effect (kept : Kept heap rl log) (effect : Effect heap rl next events) :
    Kept heap next (log ++ events) := by
  cases effect with
  | idle same none =>
    rw [append_nil]
    refine ⟨?_, kept.punctual, none ▸ kept.counted, kept.ordered, ?_⟩
    · exact none ▸ (same.append_left _).trans kept.jobs
    · exact fun run member item inside => kept.waiting run member item (same.mem_iff.mp inside)
  | accept due new grown =>
    rw [append_nil]
    refine ⟨?_, kept.punctual, ?_, kept.ordered, ?_⟩
    · rw [new, zipIdx_append]
      refine ((grown.append_left _).trans perm_middle).trans ?_
      exact (kept.jobs.cons _).trans (by simpa using (perm_append_singleton _ _).symm)
    · intro run member
      rw [new, length_append]
      exact (kept.counted run member).trans (Nat.le_add_right _ _)
    · intro run member item inside early
      rcases mem_cons.mp (grown.mem_iff.mp inside) with rfl | old
      · exact absurd early (kept.counted run member).not_gt
      · exact kept.waiting run member item old early
  | execute run none count late taken first =>
    have pending : ∀ item ∈ (run.due, run.job) :: queued heap next.jobs,
        item ∈ queued heap rl.jobs := fun item => taken.mem_iff.mpr
    refine ⟨?_, ?_, ?_, ?_, ?_⟩
    · rw [none, map_append, append_assoc]
      exact (taken.symm.append_left _).trans kept.jobs
    · simpa [or_imp, forall_and, late] using kept.punctual
    · simpa [or_imp, forall_and, none, count] using kept.counted
    · refine pairwise_append.mpr ⟨kept.ordered, pairwise_singleton _ _, ?_⟩
      intro old member later new
      cases mem_singleton.mp new
      exact kept.waiting old member _ (pending _ mem_cons_self)
    · intro old member item inside early
      rcases mem_append.mp member with member | new
      · exact kept.waiting old member item (pending _ (mem_cons_of_mem _ inside)) early
      · cases mem_singleton.mp new
        exact first item inside

omit [LinearOrder Time] in
theorem items_of_perm {items others : List (DelayedJob Time)} (same : items.Perm (j :: others)) :
    (items.filterMap DelayedJob.item).Perm (j.item.toList ++ others.filterMap DelayedJob.item) := by
  refine (same.filterMap _).trans ?_
  rw [filterMap_cons]
  cases j.item <;> exact .refl _

theorem le_of_top (shown : heap.top jobs = some j) {item : Time × Nat}
    (member : item ∈ queued heap (heap.pop jobs)) : j.due ≤ item.1 := by
  obtain ⟨other, inside, same⟩ := mem_filterMap.mp member
  obtain ⟨number, -, rfl⟩ := Option.map_eq_some_iff.mp same
  have greatest := heap.top_max _ _ shown other
    ((heap.items_pop _ _ shown).mem_iff.mpr (mem_cons_of_mem _ inside))
  exact not_lt.mp (of_decide_eq_false greatest)

variable [WallClock Time]

theorem tryOneJob_effect (tried : tryOneJob heap rl = some (events, jobs)) (next : LaterPhase) :
    Effect heap rl { rl with jobs := jobs, phase := next } events := by
  revert tried
  fun_cases tryOneJob heap rl with
  | case1 | case4 =>
    rintro ⟨⟩
    exact .idle (.refl _) rfl
  | case2 j shown late pill =>
    rintro ⟨⟩
    have taken := items_of_perm (heap.items_pop _ _ shown)
    rw [DelayedJob.item, pill] at taken
    exact .idle taken.symm rfl
  | case3 j shown late job jobEq =>
    rintro ⟨⟩
    have taken := items_of_perm (heap.items_pop _ _ shown)
    rw [DelayedJob.item, jobEq] at taken
    exact .execute _ rfl rfl late taken fun item => le_of_top shown
  | case5 => exact nofun

theorem attempt_effect (rl : RunLater Time Queue) (next : LaterPhase) :
    Effect heap rl (attempt heap rl next).2 (attempt heap rl next).1 := by
  fun_cases attempt heap rl next with
  | case1 => exact .idle (.refl _) rfl
  | case2 events jobs tried => exact tryOneJob_effect tried next

/-- If all jobs are due none is waited for. -/
theorem tryOneJob_due (due : ∀ j ∈ heap.items rl.jobs, j.due < rl.now) :
    ∃ events jobs, tryOneJob heap rl = some (events, jobs) ∧
      (heap.items rl.jobs).Perm ((heap.top rl.jobs).toList ++ heap.items jobs) := by
  cases shown : heap.top rl.jobs with
  | none => exact ⟨[], rl.jobs, by rw [tryOneJob, shown], .refl _⟩
  | some j =>
    have popped := heap.items_pop _ _ shown
    cases job : j.job with
    | none =>
      exact ⟨_, _, by simp only [tryOneJob, shown, due j (heap.mem_of_top shown), job]; rfl, popped⟩
    | some _ =>
      exact ⟨_, _, by simp only [tryOneJob, shown, due j (heap.mem_of_top shown), job]; rfl, popped⟩

theorem attempt_due (due : ∀ j ∈ heap.items rl.jobs, j.due < rl.now) (next : LaterPhase) :
    ∃ jobs, (attempt heap rl next).2 = { rl with jobs := jobs, phase := next } ∧
      (heap.items rl.jobs).Perm ((heap.top rl.jobs).toList ++ heap.items jobs) ∧
      ∀ j ∈ heap.items jobs, j.due < rl.now := by
  obtain ⟨events, jobs, tried, taken⟩ := tryOneJob_due due
  refine ⟨jobs, by rw [attempt, tried], taken, fun j member => ?_⟩
  exact due j (taken.mem_iff.mpr (mem_append_right _ member))

variable [Zero Time] [Add Time]

theorem advance_effect (rl : RunLater Time Queue) (input : LaterInput Time) :
    Effect heap rl (advance heap rl input).2 (advance heap rl input).1 := by
  fun_cases advance heap rl input with
  | case1 | case2 | case3 | case4 => exact .idle (.refl _) rfl
  | case5 caller later shown => exact .accept later rfl (items_of_perm (heap.items_push _ _))
  | case6 =>
    fun_cases runLaterLoop heap rl
    case case2 | case4 => exact attempt_effect rl _
    all_goals exact .idle (.refl _) rfl
  | case7 =>
    fun_cases destroy heap rl
    · exact .idle (items_of_perm (heap.items_push _ _)) rfl
    · exact .idle (.refl _) rfl

theorem advance_ended (ended : rl.phase = .ended → queued heap rl.jobs = [])
    {input : LaterInput Time} (allowed : Allows rl input) :
    (advance heap rl input).2.phase = .ended → queued heap (advance heap rl input).2.jobs = [] := by
  fun_cases advance heap rl input with
  | case1 | case2 | case3 | case4 => exact ended
  | case5 => exact fun done => absurd done allowed
  | case6 =>
    have empty : (heap.top rl.jobs).isNone → queued heap rl.jobs = [] := fun none => by
      rw [queued, heap.top_eq_none _ (Option.isNone_iff_eq_none.mp none), filterMap_nil]
    fun_cases runLaterLoop heap rl <;> grind [attempt]
  | case7 =>
    fun_cases destroy heap rl
    · exact fun done => List.Perm.eq_nil (ended done ▸ items_of_perm (heap.items_push _ ⟨0, none⟩))
    · exact ended

/-- In every run, whatever the clock shows, each job is executed at most once,
after its time and in the order of the times of those that wait together; and
when the thread that the destructor joins has ended, each accepted job was
executed. -/
theorem delayed_jobs_run_once (now : Time) (inputs : List (LaterInput Time))
    (admissible : Admissible (step heap) Allows (new heap now) inputs) :
    ∃ log last, run (step heap) (new heap now) inputs = some (log, last) ∧ Kept heap last log ∧
      (last.phase = .ended →
        (log.map fun run => (run.due, run.job)).Perm last.accepted.zipIdx) := by
  let Invariant (log : List (Execution Time)) (rl : RunLater Time Queue) :=
    Kept heap rl log ∧ (rl.phase = .ended → queued heap rl.jobs = [])
  have start : Invariant [] (new heap now) := by
    have nothing : queued heap (new heap now).jobs = [] := by simp [queued, new, heap.items_empty]
    exact ⟨⟨by rw [nothing]; exact .refl _, nofun, nofun, .nil, nofun⟩, nofun⟩
  have preserved : ∀ log rl input, Invariant log rl → Allows rl input →
      ∃ events next, step heap rl input = some (events, next) ∧ Invariant (log ++ events) next :=
    fun log rl input ⟨kept, ended⟩ allowed => by
      by_cases aborted : rl.phase = .aborted
      · exact ⟨[], rl, by rw [step, if_pos aborted], by rwa [append_nil], ended⟩
      · exact ⟨_, _, by rw [step, if_neg aborted], kept.effect (advance_effect rl input),
          advance_ended ended allowed⟩
  obtain ⟨log, last, runEq, kept, ended⟩ := run_of_admissible preserved [] start inputs admissible
  refine ⟨log, last, runEq, kept, fun done => ?_⟩
  have jobs := kept.jobs
  rwa [ended done, append_nil] at jobs

variable (heap) in
/-- The worker ends after some steps of its own. -/
def Ends (rl : RunLater Time Queue) : Prop :=
  ∃ count log last, run (step heap) rl (List.replicate count .work) = some (log, last) ∧
    last.phase = .ended

theorem Ends.of_work (alive : rl.phase ≠ .aborted) (ends : Ends heap (runLaterLoop heap rl).2) :
    Ends heap rl := by
  obtain ⟨count, log, last, runEq, ended⟩ := ends
  have worked : step heap rl .work = some (runLaterLoop heap rl) := by rw [step, if_neg alive]; rfl
  exact ⟨count + 1, _, last, run_cons worked runEq, ended⟩

theorem ends_of_testEmpty (phase : rl.phase = .testEmpty)
    (due : ∀ j ∈ heap.items rl.jobs, j.due < rl.now) : Ends heap rl := by
  obtain ⟨count, counted⟩ : ∃ count, (heap.items rl.jobs).length = count := ⟨_, rfl⟩
  induction count using Nat.strong_induction_on generalizing rl with
  | h count ih =>
    refine Ends.of_work (by simp [phase]) ?_
    cases shown : heap.top rl.jobs with
    | none => exact ⟨0, [], _, rfl, by simp [runLaterLoop, phase, shown]⟩
    | some j =>
      rw [show (runLaterLoop heap rl).2 = { rl with phase := .attemptLast } by
        simp [runLaterLoop, phase, shown]]
      obtain ⟨jobs, attempted, taken, later⟩ :=
        @attempt_due _ _ _ heap { rl with phase := .attemptLast } _ due .testEmpty
      have fewer : (heap.items jobs).length < count := by
        have length := taken.length_eq
        rw [shown, counted, length_append, Option.toList_some, length_singleton] at length
        omega
      refine Ends.of_work nofun ?_
      rw [show (runLaterLoop heap { rl with phase := .attemptLast }).2 = _ from attempted]
      exact ih _ fewer rfl later rfl

/-- Once the destructor has set the flag and each job in the queue is due, the
thread comes to its end. -/
theorem stopped_thread_ends (alive : rl.phase ≠ .aborted) (stopped : rl.shouldStop)
    (due : ∀ j ∈ heap.items rl.jobs, j.due < rl.now) : Ends heap rl := by
  have test : ∀ jobs, (∀ j ∈ heap.items jobs, j.due < rl.now) →
      Ends heap { rl with jobs := jobs, phase := .test } := fun jobs due =>
    Ends.of_work nofun (ends_of_testEmpty (by simp [runLaterLoop, stopped]) due)
  obtain ⟨shouldStop, jobs, callers, accepted, refused, phase, now⟩ := rl
  cases phase with
  | test => exact test jobs due
  | attempt =>
    obtain ⟨jobs, attempted, -, later⟩ := attempt_due due .test
    exact Ends.of_work alive (attempted ▸ test jobs later)
  | testEmpty => exact ends_of_testEmpty rfl due
  | attemptLast =>
    obtain ⟨jobs, attempted, -, later⟩ := attempt_due due .testEmpty
    exact Ends.of_work alive (attempted ▸ ends_of_testEmpty rfl later)
  | ended => exact ⟨0, [], _, rfl, rfl⟩
  | aborted => exact absurd rfl alive

def laterQueue :=
  PriorityQueue.sortedList (fun a b : DelayedJob Nat => a.greater b)
    (fun _ _ => by simpa [DelayedJob.greater] using Nat.le_total _ _)
    fun _ _ _ => by simpa [DelayedJob.greater] using Nat.le_trans

/-- The times are microseconds. -/
instance : WallClock Nat := ⟨(· % 1000000), fun now due => (due - now) % 1000000 * 1000⟩

/-- Two jobs wait together, and the one that was accepted last is due first. -/
def laterInputs : List (LaterInput Nat) :=
  [.runLater 4, .push 0, .runLater 2, .push 0, .work, .work, .clock 7, .work, .work, .destroy,
    .destroy, .work, .work, .work, .work, .work, .work]

theorem delayed_jobs_run_once_sample : ∃ log last,
    run (step laterQueue) (new laterQueue 1) laterInputs = some (log, last) ∧
      log = [⟨3, 1, 7, 2⟩, ⟨5, 0, 7, 2⟩] ∧ Kept laterQueue last log ∧ last.phase = .ended ∧
      (log.map fun run => (run.due, run.job)).Perm last.accepted.zipIdx := by
  have admissible : Admissible (step laterQueue) Allows (new laterQueue 1) laterInputs := by
    decide +kernel
  obtain ⟨log, last, runEq, kept, complete⟩ := delayed_jobs_run_once 1 laterInputs admissible
  have final : (run (step laterQueue) (new laterQueue 1) laterInputs).map
      (fun result => (result.1, result.2.phase)) = some ([⟨3, 1, 7, 2⟩, ⟨5, 0, 7, 2⟩], .ended) := by
    decide +kernel
  rw [runEq, Option.map_some, Option.some_inj, Prod.mk.injEq] at final
  exact ⟨log, last, runEq, final.1, kept, final.2, complete final.2⟩

/-- The pill and two jobs are in the queue. -/
theorem stopped_thread_ends_pill :
    Ends laterQueue ⟨true, [⟨3, some 1⟩, ⟨5, some 0⟩, ⟨0, none⟩].foldl laterQueue.push
      laterQueue.empty, [], [5, 3], 0, .attempt, 7⟩ := stopped_thread_ends nofun rfl (by decide)

/-- A job is waited for that is due at a full second. -/
theorem wait_to_full_second_aborts :
    ((run (step laterQueue) (new laterQueue 600000) [.runLater 400000, .push 0, .work, .work]).map
      fun result => result.2.phase) = some .aborted := by
  decide +kernel

end RunLater

end SRPC.Threading
