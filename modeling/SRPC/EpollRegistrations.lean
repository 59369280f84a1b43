import SRPC.PollRegistrations

/-!
# Registrations with `epoll` follow the modes

A pollable in the set of a poll thread has one registration with `epoll`, as long
as the array of the thread has room.  The array is never emptied.
-/

namespace SRPC.Polling

open TransitionRuns

def Input.isAdd : Input → Bool
  | .add _ _ => true
  | _ => false

/-- How often `add` is called. -/
def adds (inputs : List Input) : Nat := inputs.countP Input.isAdd

namespace World

variable {world next : World} {inputs : List Input}

/-- Every registered pollable has one registration, which the end of an iteration
spares. -/
structure Followed (world : World) : Prop where
  once : ∀ poll ∈ world.thread.pollSet, ∃ mode, world.thread.mode (world.fd poll) = some mode ∧
      ∀ fd registration, (world.epoll fd = some registration ∧
          registration.ptr = poll) ↔ (fd = world.fd poll ∧ registration = ⟨poll, modEvents mode⟩)
  spared : ∀ poll ∈ world.thread.pollSet, ∀ removePoll,
    (world.flush removePoll).epoll (world.fd poll) = world.epoll (world.fd poll)

theorem Registered.followed (registered : world.Registered) : world.Followed := by
  constructor
  · intro poll member
    obtain ⟨mode, modeEq, found⟩ := registered.registered poll member
    refine ⟨mode, modeEq, fun fd registration => ⟨?_, ?_⟩⟩
    · rintro ⟨other, rfl⟩
      have same := (registered.owner fd registration other).2
      rw [same, other] at found
      exact ⟨same.symm, Option.some.inj found⟩
    · rintro ⟨rfl, rfl⟩
      exact ⟨found, rfl⟩
  · intro poll member removePoll
    obtain ⟨mode, modeEq, _⟩ := registered.registered poll member
    refine (flush_flushed world removePoll).kept _ ?_
    change world.thread.mode (world.fd poll) ≠ none
    rw [modeEq]
    nofun

theorem Effect.pollSetArr {thread after : PollThread} {input : Input}
    (effect : Effect thread input after) :
    after.pollSetArr.length = thread.pollSetArr.length + adds [input] := by
  cases effect with
  | add poll pollMode mode absent room =>
    rw [List.length_append]
    rfl
  | remove poll mode member | removeNone poll absent | updateMode poll newMode mode
  | flush removePoll | openFd poll fd | closeFd poll => rfl

theorem adds_cons (input : Input) (inputs : List Input) :
    adds (input :: inputs) = adds [input] + adds inputs := by
  rw [adds, adds, adds, ← List.countP_append]
  rfl

theorem hasRoom_iff (bounded : world.thread.pollSetArr.length ≤ pollSetArrLength)
    (input : Input) : world.HasRoom input ↔
      world.thread.pollSetArr.length + adds [input] ≤ pollSetArrLength := by
  cases input with
  | add poll pollMode => exact Iff.rfl
  | openFd poll fd | closeFd poll | updateMode poll newMode | remove poll | flush removePoll =>
    exact ⟨fun _ => bounded, fun _ => trivial⟩

theorem admissible_hasRoom_iff (registered : world.Registered)
    (bounded : world.thread.pollSetArr.length ≤ pollSetArrLength)
    (lawful : Admissible step Lawful world inputs) :
    Admissible step HasRoom world inputs ↔
      world.thread.pollSetArr.length + adds inputs ≤ pollSetArrLength := by
  induction inputs generalizing world with
  | nil => exact ⟨fun _ => bounded, fun _ => trivial⟩
  | cons input inputs ih =>
    obtain ⟨law, laws⟩ := lawful
    rw [adds_cons]
    by_cases room : world.HasRoom input
    · obtain ⟨next, stepEq, nextRegistered, effect⟩ := registered.step_of_hasRoom law room
      have size := effect.pollSetArr
      have nextBounded : next.thread.pollSetArr.length ≤ pollSetArrLength := by
        rw [size]
        exact (hasRoom_iff bounded input).mp room
      rw [stepEq] at laws
      have rest := ih nextRegistered nextBounded laws
      rw [Admissible, stepEq]
      dsimp only
      rw [rest, size, Nat.add_assoc]
      exact and_iff_right room
    · refine ⟨fun admissible => absurd admissible.1 room, fun enough => ?_⟩
      exact absurd ((hasRoom_iff bounded input).mpr (by omega)) room

/-- Whatever lawful calls are made and in whatever order descriptors are closed
and used again, the registrations follow the modes in all states exactly if `add`
is called at most 1024 times. -/
theorem registrations_follow_iff (fd : Pollable → Fd) (inputs : List Input)
    (lawful : Admissible step Lawful (new fd) inputs) :
    (∀ first second, inputs = first ++ second → ∃ log last,
        run step (new fd) first = some (log, last) ∧ last.Followed) ↔
      adds inputs ≤ pollSetArrLength := by
  have start := new_registered fd
  have room := admissible_hasRoom_iff start (Nat.zero_le _) lawful
  rw [show (new fd).thread.pollSetArr.length = 0 from rfl, Nat.zero_add] at room
  rw [← room]
  refine lawful_intact_iff Registered.step ?_ ?_ start start.followed inputs lawful
  · intro world input registered law _ room
    obtain ⟨next, stepEq, nextRegistered, -⟩ := registered.step_of_hasRoom law room
    exact ⟨[], next, stepEq, nextRegistered.followed⟩
  · intro world input outputs next registered law _ stepEq _
    exact (registered.effect law stepEq).1

/-- A descriptor is closed and used again for another pollable. -/
def reuseInputs : List Input :=
  [.openFd 0 5, .add 0 read, .updateMode 0 (read ||| write), .remove 0, .closeFd 0,
    .openFd 1 5, .add 1 (read ||| write), .openFd 0 6, .flush [0], .add 0 read, .updateMode 1 read]

theorem reuseInputs_lawful : Admissible step Lawful (new fun _ => 0) reuseInputs := by
  decide +kernel

theorem registrations_follow_reuse :
    ∃ log last, run step (new fun _ => 0) reuseInputs = some (log, last) ∧
      last.Followed :=
  (registrations_follow_iff (fun _ => 0) reuseInputs reuseInputs_lawful).mpr
    (by decide) reuseInputs [] (List.append_nil _).symm

def roundInputs : List Input := [.openFd 0 5, .add 0 read, .remove 0, .closeFd 0, .flush [0]]

def afterRounds (rounds : Nat) : World :=
  { new fun _ => 5 with
    thread := { PollThread.new with
      pollSetArr := List.replicate rounds 0
      copied := List.replicate rounds 0
      released := List.replicate rounds 0 } }

variable {rounds : Nat}

theorem run_round (room : rounds < pollSetArrLength) :
    run step (afterRounds rounds) roundInputs = some ([], afterRounds (rounds + 1)) := by
  simp [run, step, roundInputs, afterRounds, new, PollThread.new, openFd, add,
    PollThread.add, room, Epoll.ctlAdd, remove, PollThread.remove, closeFd,
    flush, flushOne, Epoll.ctlDel, List.replicate_succ']

theorem lawful_round (rounds : Nat) : Admissible step Lawful (afterRounds rounds) roundInputs := by
  have reads : ¬read = 0#32 := by decide
  by_cases room : rounds < pollSetArrLength
  · simp [Admissible, Lawful, step, roundInputs, afterRounds, new, PollThread.new,
      openFd, add, PollThread.add, room, Epoll.ctlAdd, remove, PollThread.remove, closeFd, reads]
  · simp [Admissible, Lawful, step, roundInputs, afterRounds, new, PollThread.new,
      openFd, add, PollThread.add, room, reads]

def roundsInputs (rounds : Nat) : List Input := (List.replicate rounds roundInputs).flatten

theorem roundsInputs_succ (rounds : Nat) :
    roundsInputs (rounds + 1) = roundsInputs rounds ++ roundInputs := by
  simp [roundsInputs, List.replicate_succ']

theorem run_rounds (room : rounds ≤ pollSetArrLength) :
    run step (afterRounds 0) (roundsInputs rounds) = some ([], afterRounds rounds) := by
  induction rounds with
  | zero => rfl
  | succ rounds ih =>
    rw [roundsInputs_succ]
    exact run_append (ih (by omega)) (run_round (by omega))

theorem lawful_rounds (room : rounds ≤ pollSetArrLength + 1) :
    Admissible step Lawful (afterRounds 0) (roundsInputs rounds) := by
  induction rounds with
  | zero => trivial
  | succ rounds ih =>
    rw [roundsInputs_succ]
    exact (ih (by omega)).append (run_rounds (by omega)) (lawful_round rounds)

theorem run_full (full : ¬rounds < pollSetArrLength) :
    run step (afterRounds rounds) [.openFd 0 5, .add 0 read] = none := by
  simp [run, step, afterRounds, new, PollThread.new, openFd, add, PollThread.add, full]

/-- The 1025th pollable that is added overruns the array, although all others
have been removed. -/
theorem rounds_overrun_array :
    Admissible step Lawful (new fun _ => 5) (roundsInputs 1025) ∧
      (∃ last, run step (new fun _ => 5) (roundsInputs 1024 ++ [.openFd 0 5]) =
        some ([], last) ∧ last.thread.pollSet = []) ∧
      run step (new fun _ => 5) (roundsInputs 1024 ++ [.openFd 0 5, .add 0 read]) = none := by
  have full : run step (new fun _ => 5) (roundsInputs 1024) =
      some ([], afterRounds 1024) := run_rounds (Nat.le_refl _)
  refine ⟨lawful_rounds (Nat.le_refl _), ⟨(afterRounds 1024).openFd 0 5, ?_, rfl⟩, ?_⟩
  · exact run_append full rfl
  · have overrun := run_full (show ¬1024 < pollSetArrLength by decide)
    cases runEq : run step (new fun _ => 5) (roundsInputs 1024 ++ [.openFd 0 5, .add 0 read]) with
    | none => rfl
    | some result =>
      obtain ⟨_, middle, _, firstEq, lastEq, _⟩ := run_append_eq_some runEq
      rw [full] at firstEq
      cases firstEq
      rw [overrun] at lastEq
      cases lastEq

end World

end SRPC.Polling
