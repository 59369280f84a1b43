import Mathlib.Data.List.Nodup
import SRPC.PollThread

/-!
# The registrations of a poll thread

Every pollable in the set of a poll thread has an open descriptor, which is the
key of its mode and of its registration with `epoll`.
-/

namespace SRPC.Polling

open Function List

theorem addEvents_eq {pollMode : Flags} (reads : pollMode &&& read ≠ 0) :
    addEvents pollMode = modEvents pollMode := by
  simp only [addEvents, modEvents]
  rw [if_pos reads]
  have same : epollEt ||| epollIn ||| epollRdhup = epollEt ||| epollRdhup ||| epollIn := by
    decide
  rw [same]

namespace World

variable {world next : World} {poll : Pollable} {fd : Fd} {mode : Flags}
  {removePoll : List Pollable}

/-- The poll set, its modes and epoll agree. -/
structure Registered (world : World) : Prop where
  pollSet : world.thread.pollSet.Nodup
  pending : world.thread.pendingRemove.Nodup
  opened : world.opened.Nodup
  fresh : world.fresh.Nodup
  isOpen : ∀ poll ∈ world.thread.pollSet, poll ∈ world.opened
  distinct : ∀ poll ∈ world.opened, ∀ other ∈ world.opened,
    world.fd poll = world.fd other → poll = other
  keys : ∀ fd, world.thread.mode fd ≠ none → ∃ poll ∈ world.thread.pollSet, world.fd poll = fd
  unregistered : ∀ poll ∈ world.fresh, poll ∈ world.opened ∧
    poll ∉ world.thread.pollSet ∧ world.epoll (world.fd poll) = none
  owner : ∀ fd registration, world.epoll fd = some registration →
    registration.ptr ∈ world.opened ∧ world.fd registration.ptr = fd
  registered : ∀ poll ∈ world.thread.pollSet, ∃ mode,
    world.thread.mode (world.fd poll) = some mode ∧
      world.epoll (world.fd poll) = some ⟨poll, modEvents mode⟩

theorem new_registered (fd : Pollable → Fd) : (new fd).Registered where
  pollSet := .nil
  pending := .nil
  opened := .nil
  fresh := .nil
  isOpen := fun _ member => nomatch member
  distinct := fun _ member => nomatch member
  keys := fun _ some => absurd rfl some
  unregistered := fun _ member => nomatch member
  owner := fun _ _ found => nomatch found
  registered := fun _ member => nomatch member

theorem Registered.fd_ne (registered : world.Registered)
    (isOpen : poll ∈ world.opened) {other : Pollable}
    (member : other ∈ world.thread.pollSet) (ne : other ≠ poll) :
    world.fd other ≠ world.fd poll := fun same =>
  ne (registered.distinct other (registered.isOpen other member) poll isOpen same)

theorem Registered.mode_eq_none (registered : world.Registered)
    (isOpen : poll ∈ world.opened) (absent : poll ∉ world.thread.pollSet) :
    world.thread.mode (world.fd poll) = none := by
  by_contra some
  obtain ⟨other, member, same⟩ := registered.keys _ some
  refine registered.fd_ne isOpen member ?_ same
  rintro rfl
  exact absent member

/-- What a step does to the sets of the thread, whatever it does to the modes. -/
inductive Effect (thread : PollThread) : Input → PollThread → Prop
  | add (poll : Pollable) (pollMode : Flags) (mode : Fd → Option Flags) :
      poll ∉ thread.pollSet →
      thread.pollSetArr.length < pollSetArrLength →
      Effect thread (.add poll pollMode) { thread with
        copied := thread.copied ++ [poll]
        pollSet := poll :: thread.pollSet
        pollSetArr := thread.pollSetArr ++ [poll]
        mode := mode }
  | remove (poll : Pollable) (mode : Fd → Option Flags) :
      poll ∈ thread.pollSet →
      Effect thread (.remove poll) { thread with
        pollSet := thread.pollSet.erase poll
        mode := mode
        pendingRemove := thread.pendingRemove.insert poll }
  | removeNone (poll : Pollable) : poll ∉ thread.pollSet → Effect thread (.remove poll) thread
  | updateMode (poll : Pollable) (newMode : Flags) (mode : Fd → Option Flags) :
      Effect thread (.updateMode poll newMode) { thread with mode := mode }
  | flush (removePoll : List Pollable) :
      Effect thread (.flush removePoll) { thread with
        pendingRemove := []
        released := thread.released ++ removePoll }
  | openFd (poll : Pollable) (fd : Fd) : Effect thread (.openFd poll fd) thread
  | closeFd (poll : Pollable) : Effect thread (.closeFd poll) thread

theorem Registered.openFd (registered : world.Registered) (closed : poll ∉ world.opened)
    (unused : ∀ other ∈ world.opened, world.fd other ≠ fd) : (world.openFd poll fd).Registered := by
  have kept : ∀ other ∈ world.opened, (world.openFd poll fd).fd other = world.fd other := by
    intro other member
    refine update_of_ne ?_ _ _
    rintro rfl
    exact closed member
  have own : (world.openFd poll fd).fd poll = fd := update_self _ _ _
  refine ⟨registered.pollSet, registered.pending,
    nodup_cons.mpr ⟨closed, registered.opened⟩, nodup_cons.mpr
      ⟨fun old => closed (registered.unregistered poll old).1, registered.fresh⟩,
    fun other member => mem_cons_of_mem _ (registered.isOpen other member), ?_, ?_, ?_, ?_, ?_⟩
  · intro first firstMem second secondMem same
    obtain rfl | firstOpen := mem_cons.mp firstMem
    · obtain rfl | secondOpen := mem_cons.mp secondMem
      · rfl
      · rw [own, kept second secondOpen] at same
        exact absurd same.symm (unused second secondOpen)
    · obtain rfl | secondOpen := mem_cons.mp secondMem
      · rw [own, kept first firstOpen] at same
        exact absurd same (unused first firstOpen)
      · rw [kept first firstOpen, kept second secondOpen] at same
        exact registered.distinct first firstOpen second secondOpen same
  · intro key some
    obtain ⟨other, member, same⟩ := registered.keys key some
    exact ⟨other, member, (kept other (registered.isOpen other member)).trans same⟩
  · intro other member
    obtain rfl | old := mem_cons.mp member
    · refine ⟨mem_cons_self, fun inSet => closed (registered.isOpen other inSet), ?_⟩
      rw [own]
      change world.epoll fd = none
      by_contra some
      obtain ⟨registration, found⟩ := Option.ne_none_iff_exists'.mp some
      obtain ⟨isOpen, same⟩ := registered.owner fd registration found
      exact unused _ isOpen same
    · obtain ⟨isOpen, absent, none⟩ := registered.unregistered other old
      refine ⟨mem_cons_of_mem _ isOpen, absent, ?_⟩
      rw [kept other isOpen]
      exact none
  · intro key registration found
    obtain ⟨isOpen, same⟩ := registered.owner key registration found
    exact ⟨mem_cons_of_mem _ isOpen, (kept _ isOpen).trans same⟩
  · intro other member
    rw [kept other (registered.isOpen other member)]
    exact registered.registered other member

theorem Registered.closeFd (registered : world.Registered)
    (isOpen : poll ∈ world.opened) (absent : poll ∉ world.thread.pollSet) :
    (world.closeFd poll).Registered := by
  have erased : ∀ other, other ∈ world.opened.erase poll ↔
      other ≠ poll ∧ other ∈ world.opened := fun other => registered.opened.mem_erase_iff
  refine ⟨registered.pollSet, registered.pending, registered.opened.erase _,
    registered.fresh.erase _, ?_, ?_, registered.keys, ?_, ?_, ?_⟩
  · intro other member
    refine (erased other).mpr ⟨?_, registered.isOpen other member⟩
    rintro rfl
    exact absent member
  · intro first firstMem second secondMem
    exact registered.distinct first (mem_of_mem_erase firstMem) second (mem_of_mem_erase secondMem)
  · intro other member
    obtain ⟨ne, old⟩ := registered.fresh.mem_erase_iff.mp member
    obtain ⟨otherOpen, otherAbsent, none⟩ := registered.unregistered other old
    refine ⟨(erased other).mpr ⟨ne, otherOpen⟩, otherAbsent, ?_⟩
    change update world.epoll (world.fd poll) Option.none (world.fd other) = _
    rw [update_apply]
    split
    · rfl
    · exact none
  · intro key registration found
    change update world.epoll (world.fd poll) none key = _ at found
    rw [update_apply] at found
    split at found
    · cases found
    · rename_i ne
      obtain ⟨otherOpen, same⟩ := registered.owner key registration found
      refine ⟨(erased _).mpr ⟨?_, otherOpen⟩, same⟩
      rintro eq
      rw [eq] at same
      exact ne same.symm
  · intro other member
    obtain ⟨mode, modeEq, found⟩ := registered.registered other member
    refine ⟨mode, modeEq, ?_⟩
    refine (update_of_ne ?_ _ _).trans found
    refine registered.fd_ne isOpen member ?_
    rintro rfl
    exact absent member

theorem Registered.add_eq (registered : world.Registered)
    (fresh : poll ∈ world.fresh) (pollMode : Flags) :
    world.add poll pollMode =
      if world.thread.pollSetArr.length < pollSetArrLength then
        some { world with
          thread := { world.thread with
            copied := world.thread.copied ++ [poll]
            pollSet := poll :: world.thread.pollSet
            pollSetArr := world.thread.pollSetArr ++ [poll]
            mode := update world.thread.mode (world.fd poll) (some pollMode) }
          epoll := update world.epoll (world.fd poll) (some ⟨poll, addEvents pollMode⟩)
          fresh := world.fresh.erase poll }
      else none := by
  obtain ⟨isOpen, absent, none⟩ := registered.unregistered poll fresh
  have noMode := registered.mode_eq_none isOpen absent
  rw [add, PollThread.add]
  by_cases room : world.thread.pollSetArr.length < pollSetArrLength
  · rw [if_pos ⟨absent, noMode, room⟩, if_pos room, insert_of_not_mem absent]
    dsimp only
    rw [if_pos isOpen, Epoll.ctlAdd, if_pos none]
    rfl
  · rw [if_neg fun fits => room fits.2.2, if_neg room]

theorem Registered.put (registered : world.Registered) (isOpen : poll ∈ world.opened)
    (mode : Flags) {copied pollSet pollSetArr fresh : List Pollable} (once : pollSet.Nodup)
    (members : ∀ other, other ∈ pollSet ↔ other = poll ∨ other ∈ world.thread.pollSet)
    (freshOnce : fresh.Nodup) (others : ∀ other ∈ fresh, other ≠ poll ∧ other ∈ world.fresh) :
    Registered { world with
      thread := { world.thread with
        copied := copied
        pollSet := pollSet
        pollSetArr := pollSetArr
        mode := update world.thread.mode (world.fd poll) (some mode) }
      epoll := update world.epoll (world.fd poll) (some ⟨poll, modEvents mode⟩)
      fresh := fresh } := by
  refine ⟨once, registered.pending, registered.opened, freshOnce, ?_, registered.distinct,
    ?_, ?_, ?_, ?_⟩
  · intro other member
    obtain rfl | old := (members other).mp member
    · exact isOpen
    · exact registered.isOpen other old
  · intro key some
    dsimp only at some
    rw [update_apply] at some
    split at some
    · rename_i same
      exact ⟨poll, (members poll).mpr (.inl rfl), same.symm⟩
    · obtain ⟨other, member, same⟩ := registered.keys key some
      exact ⟨other, (members other).mpr (.inr member), same⟩
  · intro other member
    obtain ⟨ne, old⟩ := others other member
    obtain ⟨otherOpen, otherAbsent, otherNone⟩ := registered.unregistered other old
    refine ⟨otherOpen, ?_, (update_of_ne ?_ _ _).trans otherNone⟩
    · exact fun inSet => otherAbsent (((members other).mp inSet).resolve_left ne)
    · exact fun same => ne (registered.distinct other otherOpen poll isOpen same)
  · intro key registration found
    dsimp only at found
    rw [update_apply] at found
    split at found
    · rename_i same
      cases found
      exact ⟨isOpen, same.symm⟩
    · exact registered.owner key registration found
  · intro other member
    dsimp only
    by_cases same : other = poll
    · rw [same, update_self, update_self]
      exact ⟨mode, rfl, rfl⟩
    · have old := ((members other).mp member).resolve_left same
      have ne := registered.fd_ne isOpen old same
      rw [update_of_ne ne, update_of_ne ne]
      exact registered.registered other old

variable {pollMode : Flags}

theorem Registered.add (registered : world.Registered) (fresh : poll ∈ world.fresh)
    (reads : pollMode &&& read ≠ 0) (room : world.thread.pollSetArr.length < pollSetArrLength) :
    ∃ next, world.add poll pollMode = some next ∧ next.Registered ∧
      Effect world.thread (.add poll pollMode) next.thread := by
  obtain ⟨isOpen, absent, -⟩ := registered.unregistered poll fresh
  rw [registered.add_eq fresh, if_pos room, addEvents_eq reads]
  refine ⟨_, rfl, ?_, .add poll pollMode _ absent room⟩
  exact registered.put isOpen pollMode (nodup_cons.mpr ⟨absent, registered.pollSet⟩)
    (fun other => mem_cons) (registered.fresh.erase _)
    fun other member => registered.fresh.mem_erase_iff.mp member

theorem add_eq_some (addEq : world.add poll pollMode = some next) :
    poll ∈ next.thread.pollSet ∧ next.fd = world.fd ∧
      next.thread.mode (world.fd poll) = some pollMode ∧
      next.epoll (world.fd poll) = some ⟨poll, addEvents pollMode⟩ := by
  rw [add, PollThread.add] at addEq
  split at addEq
  · cases addEq
  · rename_i thread threadEq
    split at threadEq
    · cases threadEq
      split at addEq
      · obtain ⟨epoll, epollEq, same⟩ := Option.map_eq_some_iff.mp addEq
        cases same
        rw [Epoll.ctlAdd] at epollEq
        split at epollEq
        · cases epollEq
          exact ⟨mem_insert_self, rfl, update_self _ _ _, update_self _ _ _⟩
        · cases epollEq
      · cases addEq
    · cases threadEq

theorem updateMode_eq (member : poll ∈ world.thread.pollSet)
    (modeEq : world.thread.mode (world.fd poll) = some mode)
    (found : world.epoll (world.fd poll) = some ⟨poll, modEvents mode⟩) (newMode : Flags) :
    world.updateMode poll newMode = some { world with
      thread := { world.thread with
        mode := update world.thread.mode (world.fd poll) (some newMode) }
      epoll := update world.epoll (world.fd poll) (some ⟨poll, modEvents newMode⟩) } := by
  rw [updateMode, PollThread.updateMode, if_pos member, modeEq]
  dsimp only
  by_cases same : newMode = mode
  · -- No system call is made, and none is needed.
    rw [if_neg (fun ne => ne same), same, ← found, update_eq_self]
  · rw [if_pos same]
    simp [Epoll.ctlMod, found]

theorem Registered.updateMode (registered : world.Registered) (poll : Pollable) (newMode : Flags) :
    ∃ next, world.updateMode poll newMode = some next ∧ next.Registered ∧
      Effect world.thread (.updateMode poll newMode) next.thread := by
  by_cases member : poll ∈ world.thread.pollSet
  · obtain ⟨mode, modeEq, found⟩ := registered.registered poll member
    refine ⟨_, updateMode_eq member modeEq found newMode, ?_, .updateMode poll newMode _⟩
    refine registered.put (registered.isOpen poll member) newMode registered.pollSet
      (fun other => ⟨.inr, ?_⟩) registered.fresh fun other old => ⟨?_, old⟩
    · rintro (rfl | member)
      · exact member
      · exact member
    · rintro rfl
      exact (registered.unregistered other old).2.1 member
  · refine ⟨world, ?_, registered, .updateMode poll newMode world.thread.mode⟩
    rw [World.updateMode, PollThread.updateMode, if_neg member]

theorem Registered.remove (registered : world.Registered)
    (lawful : poll ∈ world.thread.pollSet ∨
      world.thread.mode (world.fd poll) = none) :
    ∃ next, world.remove poll = some next ∧ next.Registered ∧
      Effect world.thread (.remove poll) next.thread := by
  by_cases member : poll ∈ world.thread.pollSet
  · obtain ⟨mode, modeEq, _⟩ := registered.registered poll member
    rw [World.remove, PollThread.remove, if_pos member, if_pos (by rw [modeEq]; nofun)]
    refine ⟨_, rfl, ⟨registered.pollSet.erase _, List.Nodup.insert registered.pending,
      registered.opened, registered.fresh, ?_, registered.distinct, ?_, ?_, registered.owner, ?_⟩,
      .remove poll _ member⟩
    · exact fun other inSet => registered.isOpen other (mem_of_mem_erase inSet)
    · intro key some
      dsimp only at some
      rw [update_apply] at some
      split at some
      · exact absurd rfl some
      · rename_i ne
        obtain ⟨other, otherMember, same⟩ := registered.keys key some
        refine ⟨other, registered.pollSet.mem_erase_iff.mpr ⟨?_, otherMember⟩, same⟩
        rintro rfl
        exact ne same.symm
    · intro other fresh
      obtain ⟨otherOpen, absent, none⟩ := registered.unregistered other fresh
      exact ⟨otherOpen, fun inSet => absent (mem_of_mem_erase inSet), none⟩
    · intro other inSet
      obtain ⟨ne, otherMember⟩ := registered.pollSet.mem_erase_iff.mp inSet
      obtain ⟨mode, modeEq, found⟩ := registered.registered other otherMember
      refine ⟨mode, (update_of_ne ?_ _ _).trans modeEq, found⟩
      exact registered.fd_ne (registered.isOpen poll member) otherMember ne
  · refine ⟨world, ?_, registered, .removeNone poll member⟩
    rw [World.remove, PollThread.remove, if_neg member, if_pos (lawful.resolve_left member)]
    rfl

section Flush

/-- What `flush` leaves alone, and how it deletes registrations. -/
structure Flushed (world : World) (removePoll : List Pollable) (next : World) : Prop where
  thread : next.thread = { world.thread with
    released := world.thread.released ++ removePoll }
  fd : next.fd = world.fd
  opened : next.opened = world.opened
  fresh : next.fresh = world.fresh
  kept : ∀ key, world.thread.mode key ≠ none → next.epoll key = world.epoll key
  deleted : ∀ key, next.epoll key = world.epoll key ∨ next.epoll key = none

theorem flushOne_flushed (world : World) (poll : Pollable) :
    Flushed world [poll] (world.flushOne poll) := by
  refine ⟨rfl, rfl, rfl, rfl, ?_, ?_⟩
  · intro key some
    rw [flushOne]
    dsimp only
    split
    · rename_i none
      refine update_of_ne ?_ _ _
      rintro rfl
      exact some none
    · rfl
  · intro key
    rw [flushOne]
    dsimp only
    split
    · rw [Epoll.ctlDel, update_apply]
      split
      · exact .inr rfl
      · exact .inl rfl
    · exact .inl rfl

theorem foldl_flushOne_flushed (world : World) (removePoll : List Pollable) :
    Flushed world removePoll (removePoll.foldl flushOne world) := by
  induction removePoll generalizing world with
  | nil =>
    refine ⟨?_, rfl, rfl, rfl, fun _ _ => rfl, fun _ => .inl rfl⟩
    rw [append_nil]
    rfl
  | cons poll removePoll ih =>
    have first := flushOne_flushed world poll
    have later := ih (world.flushOne poll)
    rw [foldl_cons]
    refine ⟨?_, later.fd.trans first.fd, later.opened.trans first.opened,
      later.fresh.trans first.fresh, ?_, ?_⟩
    · rw [later.thread, first.thread]
      simp
    · intro key some
      rw [later.kept key (by rw [first.thread]; exact some), first.kept key some]
    · intro key
      obtain same | none := later.deleted key
      · rw [same]
        exact first.deleted key
      · exact .inr none

theorem flush_flushed (world : World) (removePoll : List Pollable) :
    Flushed { world with thread := { world.thread with pendingRemove := [] } }
      removePoll (world.flush removePoll) := foldl_flushOne_flushed _ removePoll

/-- The end of an iteration deletes what was removed. -/
theorem Registered.flush (registered : world.Registered) (removePoll : List Pollable) :
    (world.flush removePoll).Registered ∧
      Effect world.thread (.flush removePoll) (world.flush removePoll).thread := by
  obtain ⟨thread, fd, opened, fresh, kept, deleted⟩ := flush_flushed world removePoll
  have old : ∀ key registration, (world.flush removePoll).epoll key =
      some registration → world.epoll key = some registration := by
    intro key registration found
    obtain same | none := deleted key
    · rw [← found, same]
    · rw [none] at found
      cases found
  refine ⟨?_, by rw [thread]; exact .flush removePoll⟩
  constructor
  · rw [thread]
    exact registered.pollSet
  · rw [thread]
    exact .nil
  · rw [opened]
    exact registered.opened
  · rw [fresh]
    exact registered.fresh
  · rw [thread, opened]
    exact registered.isOpen
  · rw [fd, opened]
    exact registered.distinct
  · rw [thread, fd]
    exact registered.keys
  · rw [thread, fd, opened, fresh]
    intro poll member
    obtain ⟨isOpen, absent, none⟩ := registered.unregistered poll member
    refine ⟨isOpen, absent, ?_⟩
    obtain same | gone := deleted (world.fd poll)
    · exact same.trans none
    · exact gone
  · rw [fd, opened]
    exact fun key registration found =>
      registered.owner key registration (old key registration found)
  · rw [thread, fd]
    intro poll member
    obtain ⟨mode, modeEq, found⟩ := registered.registered poll member
    refine ⟨mode, modeEq, (kept _ ?_).trans found⟩
    change world.thread.mode (world.fd poll) ≠ none
    rw [modeEq]
    nofun

end Flush

/-- The array has a place for what is added. -/
def HasRoom (world : World) : Input → Prop
  | .add _ _ => world.thread.pollSetArr.length < pollSetArrLength
  | _ => True

variable {input : Input}

theorem Registered.step_of_hasRoom (registered : world.Registered) (lawful : world.Lawful input)
    (room : world.HasRoom input) :
    ∃ next, world.step input = some ([], next) ∧ next.Registered ∧
      Effect world.thread input next.thread := by
  cases input with
  | openFd poll fd => exact ⟨_, rfl, registered.openFd lawful.1 lawful.2, .openFd poll fd⟩
  | closeFd poll => exact ⟨_, rfl, registered.closeFd lawful.1 lawful.2, .closeFd poll⟩
  | add poll pollMode =>
    obtain ⟨next, nextEq, kept⟩ := registered.add lawful.1 lawful.2 room
    exact ⟨next, by rw [World.step, nextEq]; rfl, kept⟩
  | updateMode poll newMode =>
    obtain ⟨next, nextEq, kept⟩ := registered.updateMode poll newMode
    exact ⟨next, by rw [World.step, nextEq]; rfl, kept⟩
  | remove poll =>
    obtain ⟨next, nextEq, kept⟩ := registered.remove lawful
    exact ⟨next, by rw [World.step, nextEq]; rfl, kept⟩
  | flush removePoll => exact ⟨_, rfl, registered.flush removePoll⟩

theorem Registered.effect (registered : world.Registered) {outputs : List Unit}
    (lawful : world.Lawful input) (stepEq : world.step input = some (outputs, next)) :
    world.HasRoom input ∧ next.Registered ∧ Effect world.thread input next.thread := by
  have room : world.HasRoom input := by
    cases input with
    | add poll pollMode =>
      rw [World.step, registered.add_eq lawful.1] at stepEq
      split at stepEq
      · assumption
      · cases stepEq
    | _ => trivial
  obtain ⟨next, nextEq, kept⟩ := registered.step_of_hasRoom lawful room
  cases stepEq.symm.trans nextEq
  exact ⟨room, kept⟩

theorem Registered.step (world : World) (input : Input) (outputs : List Unit)
    (next : World) (registered : world.Registered) (lawful : world.Lawful input)
    (stepEq : world.step input = some (outputs, next)) : next.Registered :=
  (registered.effect lawful stepEq).2.1

end World

end SRPC.Polling
