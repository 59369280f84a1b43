import Mathlib.Logic.Function.Basic
import SRPC.TransitionRuns

/-!
# Poll threads

A `PollThread` keeps the pollables that are registered with it in a set and in an
array, and the mode of each under its file descriptor.  A pollable that is removed
is remembered until the end of the iteration of the poll loop.
-/

namespace SRPC.Polling

open Function

abbrev Pollable := Nat

abbrev Fd := BitVec 64

/-- The modes and the events are bit sets in an `int`. -/
abbrev Flags := BitVec 32

def read : Flags := 0x1

def write : Flags := 0x2

def epollIn : Flags := 0x001

def epollOut : Flags := 0x004

def epollRdhup : Flags := 0x2000

def epollEt : Flags := 0x80000000

/-- The length of `poll_set_arr_`. -/
def pollSetArrLength : Nat := 1024

/-- `PollThread`, with its calls of `ref_copy` and `release`. -/
structure PollThread where
  mode : Fd → Option Flags
  pollSet : List Pollable
  /-- The first `poll_arr_size` places of the array. -/
  pollSetArr : List Pollable
  pendingRemove : List Pollable
  /-- For each call of `ref_copy` its pollable. -/
  copied : List Pollable
  /-- For each call of `release` its pollable. -/
  released : List Pollable

namespace PollThread

def new : PollThread where
  mode := fun _ => none
  pollSet := []
  pollSetArr := []
  pendingRemove := []
  copied := []
  released := []

/-- `add` up to the call of `epoll_ctl`.  Behind the array lie its size and the
descriptor of `epoll`, so that nothing can be said once it has been overrun. -/
def add (thread : PollThread) (poll : Pollable) (pollMode : Flags) (fd : Fd) : Option PollThread :=
  if poll ∉ thread.pollSet ∧ thread.mode fd = none ∧
      thread.pollSetArr.length < pollSetArrLength then
    some { thread with
      copied := thread.copied ++ [poll]
      pollSet := thread.pollSet.insert poll
      pollSetArr := thread.pollSetArr ++ [poll]
      mode := update thread.mode fd (some pollMode) }
  else none

/-- `remove`, which leaves the rest to the end of the iteration. -/
def remove (thread : PollThread) (poll : Pollable) (fd : Fd) : Option PollThread :=
  if poll ∈ thread.pollSet then
    if thread.mode fd ≠ none then
      some { thread with
        pollSet := thread.pollSet.erase poll
        mode := update thread.mode fd none
        pendingRemove := thread.pendingRemove.insert poll }
    else none
  else if thread.mode fd = none then some thread
  else none

/-- `update_mode`, with the new mode if `epoll_ctl` is to be called. -/
def updateMode (thread : PollThread) (poll : Pollable) (newMode : Flags)
    (fd : Fd) : Option (PollThread × Option Flags) :=
  if poll ∈ thread.pollSet then
    match thread.mode fd with
    | none => none
    | some oldMode => some
        ({ thread with mode := update thread.mode fd (some newMode) },
          if newMode ≠ oldMode then some newMode else none)
  else some (thread, none)

end PollThread

/-- The events that `add` asks for. -/
def addEvents (pollMode : Flags) : Flags :=
  let events := epollEt ||| epollIn ||| epollRdhup
  if pollMode &&& write ≠ 0 then events ||| epollOut else events

/-- The events that `update_mode` asks for. -/
def modEvents (newMode : Flags) : Flags :=
  let events := epollEt ||| epollRdhup
  let events := if newMode &&& read ≠ 0 then events ||| epollIn else events
  if newMode &&& write ≠ 0 then events ||| epollOut else events

/-- `struct epoll_event`. -/
structure Registration where
  ptr : Pollable
  events : Flags
  deriving DecidableEq, Repr

/-- The registrations of an `epoll` instance. -/
abbrev Epoll := Fd → Option Registration

namespace Epoll

def ctlAdd (epoll : Epoll) (fd : Fd) (registration : Registration) : Option Epoll :=
  if epoll fd = none then some (update epoll fd (some registration))
  else none

def ctlMod (epoll : Epoll) (fd : Fd) (registration : Registration) : Option Epoll :=
  if epoll fd ≠ none then some (update epoll fd (some registration))
  else none

/-- The result of `EPOLL_CTL_DEL` is not looked at. -/
def ctlDel (epoll : Epoll) (fd : Fd) : Epoll := update epoll fd none

end Epoll

/-- A poll thread, its `epoll` instance and the descriptors of the pollables. -/
structure World where
  thread : PollThread
  epoll : Epoll
  fd : Pollable → Fd
  /-- The pollables whose descriptor is open. -/
  opened : List Pollable
  /-- Those that have not been added since they were opened. -/
  fresh : List Pollable

/-- A call, a change of descriptors, or the end of an iteration. -/
inductive Input where
  | openFd (poll : Pollable) (fd : Fd)
  | closeFd (poll : Pollable)
  | add (poll : Pollable) (pollMode : Flags)
  | updateMode (poll : Pollable) (newMode : Flags)
  | remove (poll : Pollable)
  | flush (removePoll : List Pollable)
  deriving DecidableEq, Repr

namespace World

def new (fd : Pollable → Fd) : World where
  thread := .new
  epoll := fun _ => none
  fd := fd
  opened := []
  fresh := []

def openFd (world : World) (poll : Pollable) (fd : Fd) : World :=
  { world with
    fd := update world.fd poll fd
    opened := poll :: world.opened
    fresh := poll :: world.fresh }

/-- The kernel forgets the registration of a descriptor that is closed. -/
def closeFd (world : World) (poll : Pollable) : World :=
  { world with
    epoll := update world.epoll (world.fd poll) none
    opened := world.opened.erase poll
    fresh := world.fresh.erase poll }

def add (world : World) (poll : Pollable) (pollMode : Flags) : Option World :=
  match world.thread.add poll pollMode (world.fd poll) with
  | none => none
  | some thread =>
    if poll ∈ world.opened then
      (world.epoll.ctlAdd (world.fd poll) ⟨poll, addEvents pollMode⟩).map
        fun epoll => { world with
          thread := thread
          epoll := epoll
          fresh := world.fresh.erase poll }
    else none

def updateMode (world : World) (poll : Pollable) (newMode : Flags) : Option World :=
  match world.thread.updateMode poll newMode (world.fd poll) with
  | none => none
  | some (thread, none) => some { world with thread := thread }
  | some (thread, some mode) =>
    (world.epoll.ctlMod (world.fd poll) ⟨poll, modEvents mode⟩).map fun epoll =>
      { world with thread := thread, epoll := epoll }

def remove (world : World) (poll : Pollable) : Option World :=
  (world.thread.remove poll (world.fd poll)).map fun thread =>
    { world with thread := thread }

/-- A removed pollable is flushed.  Its descriptor is read now. -/
def flushOne (world : World) (poll : Pollable) : World :=
  { world with
    epoll :=
      if world.thread.mode (world.fd poll) = none then
        world.epoll.ctlDel (world.fd poll)
      else world.epoll
    thread := { world.thread with released := world.thread.released ++ [poll] } }

/-- The end of an iteration of the poll loop, for the order in which the set of
the removed pollables is copied. -/
def flush (world : World) (removePoll : List Pollable) : World :=
  removePoll.foldl flushOne { world with thread := { world.thread with pendingRemove := [] } }

def step (world : World) : Input → Option (List Unit × World)
  | .openFd poll fd => some ([], world.openFd poll fd)
  | .closeFd poll => some ([], world.closeFd poll)
  | .add poll pollMode => (world.add poll pollMode).map fun next => ([], next)
  | .updateMode poll newMode =>
    (world.updateMode poll newMode).map fun next => ([], next)
  | .remove poll => (world.remove poll).map fun next => ([], next)
  | .flush removePoll => some ([], world.flush removePoll)

/-- An opened descriptor is not in use.  An owner adds a pollable once after
opening it, in a mode with `READ`, closes it after `remove`, and removes it by
its own descriptor. -/
def Lawful (world : World) : Input → Prop
  | .openFd poll fd => poll ∉ world.opened ∧
      ∀ other ∈ world.opened, world.fd other ≠ fd
  | .closeFd poll => poll ∈ world.opened ∧ poll ∉ world.thread.pollSet
  | .add poll pollMode => poll ∈ world.fresh ∧ pollMode &&& read ≠ 0
  | .updateMode _ _ => True
  | .remove poll => poll ∈ world.thread.pollSet ∨
      world.thread.mode (world.fd poll) = none
  | .flush removePoll => removePoll.Perm world.thread.pendingRemove

instance decidableLawful (world : World) : ∀ input, Decidable (world.Lawful input)
  | .openFd poll fd => inferInstanceAs (Decidable (poll ∉ world.opened ∧
      ∀ other ∈ world.opened, world.fd other ≠ fd))
  | .closeFd poll => inferInstanceAs (Decidable (poll ∈ world.opened ∧ poll ∉ world.thread.pollSet))
  | .add poll pollMode => inferInstanceAs (Decidable (poll ∈ world.fresh ∧ pollMode &&& read ≠ 0))
  | .updateMode _ _ => .isTrue trivial
  | .remove poll => inferInstanceAs (Decidable (poll ∈ world.thread.pollSet ∨
      world.thread.mode (world.fd poll) = none))
  | .flush removePoll => inferInstanceAs (Decidable (removePoll.Perm world.thread.pendingRemove))

end World

end SRPC.Polling
