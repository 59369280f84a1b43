import SRPC.TransitionRuns

/-!
# The race for a future

A reply and the time-outs of those who wait for it race for a `Future`.  What a
thread does while it has the mutex is one step.
-/

namespace SRPC.FutureRace

def etimedout : BitVec 32 := 110

/-- `callback` says whether `attr_.callback` is set. -/
structure Future where
  errorCode : BitVec 32
  callback : Bool
  ready : Bool
  timedOut : Bool
  deriving DecidableEq, Repr

/-- The loops of `wait` and `timed_wait` end. -/
def Future.resolved (future : Future) : Bool := future.ready || future.timedOut

/-- Where a thread is in `wait`. -/
inductive WaitPc
  | entering
  | waiting
  | returned
  deriving DecidableEq, Repr

/-- Where a thread is in `timed_wait`.  It has `left` the section, it has found
`timed_out_` set, it has stored the error code, it has been through the call of
the callback, or it has returned without. -/
inductive TimedWaitPc
  | entering
  | waiting
  | left
  | expired
  | stored
  | called
  | returned
  deriving DecidableEq, Repr

/-- Where the thread is that has taken the future off `pending_fu_`: it is going
to store the error code, to run the section of `notify_ready`, to test `ready_`
and to call the callback. -/
inductive ReplyPc
  | storing
  | notifying
  | testing
  | calling
  | called
  | returned
  deriving DecidableEq, Repr

/-- Who calls the callback. -/
inductive Caller
  | reply
  | timedWait (index : Nat)
  deriving DecidableEq, Repr

/-- `reply` has the error code that the reply carries. -/
structure Race where
  future : Future
  reply : Option (ReplyPc × BitVec 32)
  waits : List WaitPc
  timedWaits : List TimedWaitPc
  deriving DecidableEq, Repr

/-- A thread begins its call, or takes the next step of it. -/
inductive RaceInput
  | reply (errorCode : BitVec 32)
  | wait
  | timedWait
  | goOnReply
  | goOnWait (index : Nat)
  | goOnTimedWait (index : Nat) (expires : Bool)
  deriving DecidableEq, Repr

def new (callback : Bool) : Race where
  future := ⟨0, callback, false, false⟩
  reply := none
  waits := []
  timedWaits := []

namespace Future

/-- A step of `wait`; the condition variable may wake it at any time. -/
def wait (future : Future) : WaitPc → WaitPc
  | .entering => if future.resolved then .returned else .waiting
  | .waiting => if future.resolved then .returned else .waiting
  | .returned => .returned

/-- The condition of the loop in `timed_wait`. -/
def whileUnresolved (future : Future) : TimedWaitPc :=
  if future.resolved then .left else .waiting

/-- A step of `timed_wait`, with what `pthread_cond_timedwait` returns if the
thread waits there: `ETIMEDOUT` or 0, as the source asserts. -/
def timedWait (future : Future) (index : Nat) (expires : Bool) :
    TimedWaitPc → List Caller × Future × TimedWaitPc
  | .entering => ([], future, future.whileUnresolved)
  | .waiting =>
    let future :=
      if expires then { future with timedOut := true } else future
    ([], future, future.whileUnresolved)
  | .left => ([], future, if future.timedOut then .expired else .returned)
  | .expired => ([], { future with errorCode := etimedout }, .stored)
  | .stored =>
    (if future.callback then [.timedWait index] else [], future, .called)
  | .called => ([], future, .called)
  | .returned => ([], future, .returned)

/-- A step of `handle_read` or `invalidate_pending_futures` on this future. -/
def notify (future : Future) (errorCode : BitVec 32) :
    ReplyPc → List Caller × Future × ReplyPc
  | .storing => ([], { future with errorCode := errorCode }, .notifying)
  | .notifying =>
    ([], if future.timedOut then future else { future with ready := true }, .testing)
  | .testing =>
    ([], future,
      if future.ready && future.callback then .calling else .returned)
  | .calling => ([.reply], future, .called)
  | .called => ([], future, .called)
  | .returned => ([], future, .returned)

end Future

/-- A future is taken off `pending_fu_` once, so a second reply finds none. -/
def step (race : Race) : RaceInput → Option (List Caller × Race)
  | .reply errorCode =>
    match race.reply with
    | none => some ([], { race with reply := some (.storing, errorCode) })
    | some _ => some ([], race)
  | .wait => some ([], { race with waits := race.waits ++ [.entering] })
  | .timedWait =>
    some ([], { race with timedWaits := race.timedWaits ++ [.entering] })
  | .goOnReply =>
    match race.reply with
    | none => some ([], race)
    | some (pc, errorCode) =>
      let (callers, future, pc) := race.future.notify errorCode pc
      some (callers, { race with future := future, reply := some (pc, errorCode) })
  | .goOnWait index =>
    match race.waits[index]? with
    | none => some ([], race)
    | some pc =>
      some ([], { race with
        waits := race.waits.set index (race.future.wait pc) })
  | .goOnTimedWait index expires =>
    match race.timedWaits[index]? with
    | none => some ([], race)
    | some pc =>
      let (callers, future, pc) := race.future.timedWait index expires pc
      some (callers,
        { race with
          future := future
          timedWaits := race.timedWaits.set index pc })

/-- Ready or timed out, but not both, and called back at most once. -/
structure ResolvedOnce (log : List Caller) (race : Race) : Prop where
  exclusive : ¬ (race.future.ready = true ∧ race.future.timedOut = true)
  once : log.length ≤ 1
  kept : race.future.ready = true → ∃ pc, race.reply = some (pc, race.future.errorCode)

/-- It has found the future timed out. -/
def TimedWaitPc.claims : TimedWaitPc → Bool
  | .expired => true
  | .stored => true
  | .called => true
  | _ => false

/-- `pthread_cond_timedwait` does not report a time-out when the reply is there,
and of those who would call the callback for a time-out only one comes to it. -/
def Punctual (race : Race) : RaceInput → Prop
  | .goOnTimedWait index expires =>
    (race.timedWaits[index]? = some .waiting → expires = true → race.future.ready = false) ∧
    (race.timedWaits[index]? = some .left → race.future.timedOut = true →
      race.future.callback = true → ∀ pc ∈ race.timedWaits, pc.claims = false)
  | _ => True

instance decidablePunctual (race : Race) :
    ∀ input, Decidable (Punctual race input)
  | .goOnTimedWait _ _ => inferInstanceAs (Decidable (_ ∧ _))
  | .reply _ | .wait | .timedWait | .goOnReply | .goOnWait _ => inferInstanceAs (Decidable True)

end SRPC.FutureRace
