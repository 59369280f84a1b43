import Mathlib.Data.List.Nodup
import Mathlib.Data.List.Perm.Basic
import SRPC.IndexedLists
import SRPC.PollThread

/-!
# The array that the DPDK poll loop reads

With DPDK a poll thread goes through the array of its pollables again and again.
`add` appends to the array, but `remove` does not take anything out.
-/

namespace SRPC.Polling

open TransitionRuns Function List

/-- A poll thread in its loop, and the identifiers of the pollables. -/
structure DpdkLoop where
  thread : PollThread
  fd : Pollable → Fd
  /-- The place of the array that is read next. -/
  i : Nat
  /-- The calls of `handle_read`, each with whether its pollable was
  registered. -/
  reads : List (Pollable × Bool)

inductive DpdkInput where
  | setFd (poll : Pollable) (fd : Fd)
  | add (poll : Pollable) (pollMode : Flags)
  | remove (poll : Pollable)
  | poll
  deriving DecidableEq, Repr

namespace DpdkLoop

def new (fd : Pollable → Fd) : DpdkLoop where
  thread := .new
  fd := fd
  i := 0
  reads := []

/-- The loop calls `handle_read` for the next place of the array. -/
def pollNext (loop : DpdkLoop) : DpdkLoop :=
  match loop.thread.pollSetArr[loop.i]? with
  | none => { loop with i := 0 }
  | some poll => { loop with
      i := loop.i + 1
      reads := loop.reads ++ [(poll, decide (poll ∈ loop.thread.pollSet))] }

def step (loop : DpdkLoop) : DpdkInput → Option (List Unit × DpdkLoop)
  | .setFd poll fd => some ([], { loop with fd := update loop.fd poll fd })
  | .add poll pollMode =>
    (loop.thread.add poll pollMode (loop.fd poll)).map fun thread =>
      ([], { loop with thread := thread })
  | .remove poll => (loop.thread.remove poll (loop.fd poll)).map fun thread =>
    ([], { loop with thread := thread })
  | .poll => some ([], loop.pollNext)

/-- The identifiers of registered pollables are distinct from one another and from
that of a pollable that is added or removed, and do not change. -/
def Lawful (loop : DpdkLoop) : DpdkInput → Prop
  | .setFd poll _ => poll ∉ loop.thread.pollSet
  | .add poll _ => poll ∉ loop.thread.pollSet ∧
      ∀ other ∈ loop.thread.pollSet, loop.fd other ≠ loop.fd poll
  | .remove poll => poll ∉ loop.thread.pollSet →
      ∀ other ∈ loop.thread.pollSet, loop.fd other ≠ loop.fd poll
  | .poll => True

/-- A pollable is added while there is a place in the array, and none that is
registered is removed. -/
def Kept (loop : DpdkLoop) : DpdkInput → Prop
  | .add _ _ => loop.thread.pollSetArr.length < pollSetArrLength
  | .remove poll => poll ∉ loop.thread.pollSet
  | _ => True

instance decidableLawful (loop : DpdkLoop) : ∀ input, Decidable (loop.Lawful input)
  | .setFd poll _ => inferInstanceAs (Decidable (poll ∉ loop.thread.pollSet))
  | .add poll _ => inferInstanceAs (Decidable (poll ∉ loop.thread.pollSet ∧
      ∀ other ∈ loop.thread.pollSet, loop.fd other ≠ loop.fd poll))
  | .remove poll => inferInstanceAs (Decidable (poll ∉ loop.thread.pollSet →
      ∀ other ∈ loop.thread.pollSet, loop.fd other ≠ loop.fd poll))
  | .poll => .isTrue trivial

instance decidableKept (loop : DpdkLoop) : ∀ input, Decidable (loop.Kept input)
  | .setFd _ _ => .isTrue trivial
  | .add _ _ => inferInstanceAs (Decidable (loop.thread.pollSetArr.length < pollSetArrLength))
  | .remove poll => inferInstanceAs (Decidable (poll ∉ loop.thread.pollSet))
  | .poll => .isTrue trivial

/-- The pollables whose `handle_read` is called in one pass over the array. -/
def pass (loop : DpdkLoop) : List Pollable :=
  (List.range loop.thread.pollSetArr.length).filterMap fun i => loop.thread.pollSetArr[i]?

/-- The array holds every registered pollable once and no others, the modes are
kept under their identifiers, and `handle_read` is called for registered pollables
and, in every pass, for all of them. -/
structure Listed (loop : DpdkLoop) : Prop where
  array : loop.thread.pollSetArr.Perm loop.thread.pollSet
  once : loop.thread.pollSetArr.Nodup
  bounded : loop.thread.pollSetArr.length ≤ pollSetArrLength
  keys : ∀ fd, loop.thread.mode fd ≠ none ↔ ∃ poll ∈ loop.thread.pollSet, loop.fd poll = fd
  reads : ∀ entry ∈ loop.reads, entry.2 = true
  pass : loop.pass.Perm loop.thread.pollSet

variable {loop next : DpdkLoop} {poll : Pollable}

/-- The modes are those of the pollables in the set. -/
structure Keyed (loop : DpdkLoop) : Prop where
  nodup : loop.thread.pollSet.Nodup
  distinct : ∀ first ∈ loop.thread.pollSet, ∀ second ∈ loop.thread.pollSet,
    loop.fd first = loop.fd second → first = second
  keys : ∀ fd, loop.thread.mode fd ≠ none ↔ ∃ poll ∈ loop.thread.pollSet, loop.fd poll = fd

theorem new_keyed (fd : Pollable → Fd) : (new fd).Keyed where
  nodup := .nil
  distinct := fun _ member => nomatch member
  keys := by
    intro key
    refine ⟨fun some => absurd rfl some, ?_⟩
    rintro ⟨poll, member, _⟩
    cases member

theorem filterMap_range_getElem? {α : Type*} (items : List α) :
    ((List.range items.length).filterMap fun i => items[i]?) = items := by
  induction items with
  | nil => rfl
  | cons item items ih =>
    rw [length_cons, range_succ_eq_map, filterMap_cons, filterMap_map]
    simpa [comp_def] using ih

theorem pass_eq (loop : DpdkLoop) : loop.pass = loop.thread.pollSetArr := filterMap_range_getElem? _

theorem Keyed.mode_eq_none (keyed : loop.Keyed)
    (distinct : ∀ other ∈ loop.thread.pollSet, loop.fd other ≠ loop.fd poll) :
    loop.thread.mode (loop.fd poll) = none := by
  by_contra some
  obtain ⟨other, member, same⟩ := (keyed.keys _).mp some
  exact distinct other member same

theorem Keyed.mode_ne_none (keyed : loop.Keyed) (member : poll ∈ loop.thread.pollSet) :
    loop.thread.mode (loop.fd poll) ≠ none := (keyed.keys _).mpr ⟨poll, member, rfl⟩

theorem Keyed.add_eq (keyed : loop.Keyed) {pollMode : Flags}
    (lawful : loop.Lawful (.add poll pollMode)) :
    loop.step (.add poll pollMode) =
      if loop.thread.pollSetArr.length < pollSetArrLength then
        some ([], { loop with
          thread := { loop.thread with
            copied := loop.thread.copied ++ [poll]
            pollSet := poll :: loop.thread.pollSet
            pollSetArr := loop.thread.pollSetArr ++ [poll]
            mode := update loop.thread.mode (loop.fd poll) (some pollMode) } })
      else none := by
  have noMode := keyed.mode_eq_none lawful.2
  rw [step, PollThread.add]
  by_cases room : loop.thread.pollSetArr.length < pollSetArrLength
  · rw [if_pos ⟨lawful.1, noMode, room⟩, if_pos room, insert_of_not_mem lawful.1]
    rfl
  · rw [if_neg fun fits => room fits.2.2, if_neg room]
    rfl

theorem Keyed.remove_eq (keyed : loop.Keyed) (member : poll ∈ loop.thread.pollSet) :
    loop.step (.remove poll) = some ([], { loop with
      thread := { loop.thread with
        pollSet := loop.thread.pollSet.erase poll
        mode := update loop.thread.mode (loop.fd poll) none
        pendingRemove := loop.thread.pendingRemove.insert poll } }) := by
  rw [step, PollThread.remove, if_pos member, if_pos (keyed.mode_ne_none member)]
  rfl

theorem Keyed.remove_of_not_mem (keyed : loop.Keyed) (absent : poll ∉ loop.thread.pollSet)
    (distinct : ∀ other ∈ loop.thread.pollSet, loop.fd other ≠ loop.fd poll) :
    loop.step (.remove poll) = some ([], loop) := by
  rw [step, PollThread.remove, if_neg absent, if_pos (keyed.mode_eq_none distinct)]
  rfl

/-- Every call keeps the modes by descriptor. -/
theorem Keyed.step (loop : DpdkLoop) (input : DpdkInput) (outputs : List Unit)
    (next : DpdkLoop) (keyed : loop.Keyed) (lawful : loop.Lawful input)
    (stepEq : loop.step input = some (outputs, next)) : next.Keyed := by
  cases input with
  | setFd poll fd =>
    cases stepEq
    have kept : ∀ other ∈ loop.thread.pollSet, update loop.fd poll fd other = loop.fd other := by
      intro other member
      refine update_of_ne ?_ _ _
      rintro rfl
      exact lawful member
    refine ⟨keyed.nodup, ?_, ?_⟩
    · intro first firstMem second secondMem same
      dsimp only at same
      rw [kept first firstMem, kept second secondMem] at same
      exact keyed.distinct first firstMem second secondMem same
    · intro key
      refine (keyed.keys key).trans (exists_congr fun other =>
        and_congr_right fun member => ?_)
      dsimp only
      rw [kept other member]
  | add poll pollMode =>
    rw [keyed.add_eq lawful] at stepEq
    split at stepEq
    · cases stepEq
      refine ⟨nodup_cons.mpr ⟨lawful.1, keyed.nodup⟩, ?_, ?_⟩
      · intro first firstMem second secondMem same
        obtain rfl | firstOld := mem_cons.mp firstMem
        · obtain rfl | secondOld := mem_cons.mp secondMem
          · rfl
          · exact absurd same.symm (lawful.2 second secondOld)
        · obtain rfl | secondOld := mem_cons.mp secondMem
          · exact absurd same (lawful.2 first firstOld)
          · exact keyed.distinct first firstOld second secondOld same
      · intro key
        dsimp only
        rw [update_apply]
        split
        · rename_i same
          exact ⟨fun _ => ⟨poll, mem_cons_self, same.symm⟩, fun _ => nofun⟩
        · rename_i ne
          rw [keyed.keys key, exists_mem_cons_iff]
          exact (or_iff_right fun same => ne same.symm).symm
    · cases stepEq
  | remove poll =>
    by_cases member : poll ∈ loop.thread.pollSet
    · rw [keyed.remove_eq member] at stepEq
      cases stepEq
      refine ⟨keyed.nodup.erase _, ?_, ?_⟩
      · intro first firstMem second secondMem
        exact keyed.distinct first (mem_of_mem_erase firstMem) second (mem_of_mem_erase secondMem)
      · intro key
        dsimp only
        rw [update_apply]
        split
        · rename_i same
          refine ⟨fun some => absurd rfl some, ?_⟩
          rintro ⟨other, erased, otherFd⟩
          obtain ⟨ne, old⟩ := keyed.nodup.mem_erase_iff.mp erased
          exact absurd (keyed.distinct other old poll member (otherFd.trans same)) ne
        · rename_i ne
          rw [keyed.keys key]
          constructor
          · rintro ⟨other, old, otherFd⟩
            refine ⟨other, keyed.nodup.mem_erase_iff.mpr ⟨?_, old⟩, otherFd⟩
            rintro rfl
            exact ne otherFd.symm
          · rintro ⟨other, erased, otherFd⟩
            exact ⟨other, mem_of_mem_erase erased, otherFd⟩
    · rw [keyed.remove_of_not_mem member (lawful member)] at stepEq
      cases stepEq
      exact keyed
  | poll =>
    cases stepEq
    rw [pollNext]
    split
    · exact ⟨keyed.nodup, keyed.distinct, keyed.keys⟩
    · exact ⟨keyed.nodup, keyed.distinct, keyed.keys⟩

theorem Keyed.listed (keyed : loop.Keyed) (array : loop.thread.pollSetArr.Perm loop.thread.pollSet)
    (bounded : loop.thread.pollSetArr.length ≤ pollSetArrLength)
    (reads : ∀ entry ∈ loop.reads, entry.2 = true) : loop.Listed where
  array := array
  once := array.nodup_iff.mpr keyed.nodup
  bounded := bounded
  keys := keyed.keys
  reads := reads
  pass := by
    rw [pass_eq]
    exact array

theorem Listed.step (loop : DpdkLoop) (input : DpdkInput) (keyed : loop.Keyed)
    (lawful : loop.Lawful input) (listed : loop.Listed) (kept : loop.Kept input) :
    ∃ outputs next, loop.step input = some (outputs, next) ∧ next.Listed := by
  obtain ⟨outputs, next, stepEq, array, bounded, reads⟩ :
      ∃ outputs next, loop.step input = some (outputs, next) ∧
        next.thread.pollSetArr.Perm next.thread.pollSet ∧
        next.thread.pollSetArr.length ≤ pollSetArrLength ∧
        ∀ entry ∈ next.reads, entry.2 = true := by
    cases input with
    | setFd poll fd => exact ⟨_, _, rfl, listed.array, listed.bounded, listed.reads⟩
    | add poll pollMode =>
      have room : loop.thread.pollSetArr.length < pollSetArrLength := kept
      rw [keyed.add_eq lawful, if_pos room]
      refine ⟨_, _, rfl, ?_, ?_, listed.reads⟩
      · exact (perm_append_singleton _ _).trans (listed.array.cons poll)
      · rw [length_append]
        exact room
    | remove poll =>
      rw [keyed.remove_of_not_mem kept (lawful kept)]
      exact ⟨_, _, rfl, listed.array, listed.bounded, listed.reads⟩
    | poll =>
      refine ⟨_, _, rfl, ?_⟩
      rw [pollNext]
      split
      · exact ⟨listed.array, listed.bounded, listed.reads⟩
      · rename_i poll found
        refine ⟨listed.array, listed.bounded, ?_⟩
        exact forall_mem_concat listed.reads
          (decide_eq_true (listed.array.subset (mem_of_getElem? found)))
  exact ⟨outputs, next, stepEq,
    (keyed.step loop input outputs next lawful stepEq).listed array bounded reads⟩

theorem Listed.kept (loop : DpdkLoop) (input : DpdkInput) (outputs : List Unit)
    (next : DpdkLoop) (keyed : loop.Keyed) (lawful : loop.Lawful input)
    (listed : loop.Listed) (stepEq : loop.step input = some (outputs, next))
    (nextListed : next.Listed) : loop.Kept input := by
  cases input with
  | setFd poll fd | poll => trivial
  | add poll pollMode =>
    rw [keyed.add_eq lawful] at stepEq
    split at stepEq
    · rename_i room
      exact room
    · cases stepEq
  | remove poll =>
    -- The array still has the pollable that has left the set.
    intro member
    rw [keyed.remove_eq member] at stepEq
    cases stepEq
    have still := nextListed.array.subset (listed.array.symm.subset member)
    exact (keyed.nodup.mem_erase_iff.mp still).1 rfl

/-- In all states of a run of lawful calls the array is the set of the registered
pollables, and `handle_read` is called for these, exactly if no registered
pollable is ever removed and no more are added than the array has places. -/
theorem array_listed_iff (fd : Pollable → Fd) (inputs : List DpdkInput)
    (lawful : Admissible step Lawful (new fd) inputs) :
    (∀ first second, inputs = first ++ second → ∃ log last,
        run step (new fd) first = some (log, last) ∧ last.Listed) ↔
      Admissible step Kept (new fd) inputs :=
  lawful_intact_iff Keyed.step Listed.step Listed.kept (new_keyed fd)
    ((new_keyed fd).listed (.refl _) (Nat.zero_le _) fun _ member => nomatch member) inputs lawful

def addInputs : List DpdkInput :=
  [.setFd 1 7, .add 1 read, .poll, .add 2 read, .setFd 3 8, .remove 3, .poll, .poll, .poll]

theorem array_listed_sample :
    ∃ log last, run step (new fun _ => 0) addInputs = some (log, last) ∧
      last.Listed :=
  (array_listed_iff (fun _ => 0) addInputs (by decide +kernel)).mpr (by decide +kernel)
    addInputs [] (append_nil _).symm

/-- A pollable that has been removed is still read. -/
theorem removed_pollable_read :
    Admissible step Lawful (new fun _ => 0) [.add 1 read, .remove 1, .poll] ∧
      (run step (new fun _ => 0) [.add 1 read, .remove 1, .poll]).map (fun result =>
        (result.2.thread.pollSet, result.2.thread.pollSetArr, result.2.reads)) =
      some ([], [1], [(1, false)]) := by
  decide +kernel

end DpdkLoop

end SRPC.Polling
