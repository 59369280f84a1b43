import SRPC.EpollRegistrations

/-!
# The references of a poll thread

A pollable that is removed, added and removed again before the end of an iteration
has been referenced twice, but is released once.
-/

namespace SRPC.Polling

open TransitionRuns

namespace PollThread

/-- The references that are held are those of the registered pollables and of the
removed ones that have not been flushed. -/
def Balanced (thread : PollThread) : Prop :=
  ∀ poll, thread.copied.count poll = thread.released.count poll +
    (if poll ∈ thread.pollSet then 1 else 0) + (if poll ∈ thread.pendingRemove then 1 else 0)

end PollThread

namespace World

variable {world next : World} {thread after : PollThread} {input : Input}

/-- A pollable is not removed while it waits to be flushed, and there is a place
in the array for one that is added. -/
def Spaced (world : World) : Input → Prop
  | .add poll pollMode => world.HasRoom (.add poll pollMode)
  | .remove poll => poll ∈ world.thread.pollSet →
      poll ∉ world.thread.pendingRemove
  | _ => True

instance decidableSpaced (world : World) : ∀ input, Decidable (world.Spaced input)
  | .add _ _ => inferInstanceAs (Decidable (world.thread.pollSetArr.length < pollSetArrLength))
  | .remove poll => inferInstanceAs (Decidable
      (poll ∈ world.thread.pollSet → poll ∉ world.thread.pendingRemove))
  | .openFd _ _ | .closeFd _ | .updateMode _ _ | .flush _ => .isTrue trivial

section Effects

theorem Effect.balanced (effect : Effect thread input after)
    (pollSet : thread.pollSet.Nodup) (pending : thread.pendingRemove.Nodup)
    (balanced : thread.Balanced)
    (spaced : ∀ poll, input = .remove poll → poll ∈ thread.pollSet →
      poll ∉ thread.pendingRemove)
    (flushed : ∀ removePoll, input = .flush removePoll →
      removePoll.Perm thread.pendingRemove) : after.Balanced := by
  intro other
  have before := balanced other
  cases effect with
  | add poll pollMode mode absent room =>
    rw [List.count_append, List.count_singleton, before]
    by_cases same : poll = other
    · subst same
      simp [absent]
      omega
    · simp [same, Ne.symm same]
  | remove poll mode member =>
    have notPending := spaced poll rfl member
    rw [before]
    by_cases same : other = poll
    · subst same
      simp [member, notPending, pollSet.mem_erase_iff]
    · simp [same, pollSet.mem_erase_iff]
  | removeNone poll absent | updateMode poll newMode mode | openFd poll fd | closeFd poll =>
    exact before
  | flush removePoll =>
    have same := (flushed removePoll rfl).count_eq other
    rw [List.Nodup.count pending] at same
    rw [before, List.count_append, same, if_neg List.not_mem_nil]
    dsimp only
    omega

theorem Effect.not_balanced {poll : Pollable}
    (effect : Effect thread (.remove poll) after) (pollSet : thread.pollSet.Nodup)
    (balanced : thread.Balanced) (member : poll ∈ thread.pollSet)
    (pending : poll ∈ thread.pendingRemove) : ¬after.Balanced := by
  intro kept
  have before := balanced poll
  have later := kept poll
  cases effect with
  | remove poll mode member =>
    simp [member, pending, pollSet.mem_erase_iff] at before later
    omega
  | removeNone poll absent => exact absent member

end Effects

/-- In all states of a run of lawful calls the thread holds one reference for each
pollable that is registered and one for each that waits to be flushed, and none
for a pollable that is neither, exactly if no pollable is removed while it waits
and the array is not overrun. -/
theorem references_balanced_iff (fd : Pollable → Fd) (inputs : List Input)
    (lawful : Admissible step Lawful (new fd) inputs) :
    (∀ first second, inputs = first ++ second → ∃ log last,
        run step (new fd) first = some (log, last) ∧ last.thread.Balanced) ↔
      Admissible step Spaced (new fd) inputs := by
  refine lawful_intact_iff Registered.step ?_ ?_ (new_registered fd) (fun _ => rfl) inputs lawful
  · intro world input registered law balanced spaced
    have room : world.HasRoom input := by
      cases input with
      | add poll pollMode => exact spaced
      | _ => trivial
    obtain ⟨next, stepEq, -, effect⟩ := registered.step_of_hasRoom law room
    refine ⟨[], next, stepEq, effect.balanced registered.pollSet registered.pending balanced ?_ ?_⟩
    · rintro poll rfl
      exact spaced
    · rintro removePoll rfl
      exact law
  · intro world input outputs next registered law balanced stepEq kept
    obtain ⟨room, -, effect⟩ := registered.effect law stepEq
    cases input with
    | add poll pollMode => exact room
    | remove poll =>
      exact fun member pending =>
        effect.not_balanced registered.pollSet balanced member pending kept
    | openFd poll fd | closeFd poll | updateMode poll newMode | flush removePoll => trivial

theorem references_balanced_reuse :
    ∃ log last, run step (new fun _ => 0) reuseInputs = some (log, last) ∧
      last.thread.Balanced :=
  (references_balanced_iff (fun _ => 0) reuseInputs reuseInputs_lawful).mpr
    (by decide +kernel) reuseInputs [] (List.append_nil _).symm

def reconnectInputs : List Input :=
  [.openFd 0 5, .add 0 read, .remove 0, .closeFd 0, .openFd 0 5, .add 0 read,
    .remove 0, .closeFd 0, .flush [0]]

/-- Of the two references one is never released. -/
theorem reconnect_loses_reference :
    Admissible step Lawful (new fun _ => 0) reconnectInputs ∧
      (run step (new fun _ => 0) reconnectInputs).map (fun result =>
        (result.2.thread.pollSet, result.2.thread.pendingRemove,
          result.2.thread.copied, result.2.thread.released)) =
      some ([], [], [0, 0], [0]) :=
  ⟨(by decide +kernel), by decide +kernel⟩

end World

end SRPC.Polling
