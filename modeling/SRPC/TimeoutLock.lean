import Mathlib.Algebra.Group.Nat.Defs
import SRPC.WaitDieLock

/-!
# The timeout lock

`TimeoutALock` lets requests wait for a limited time.  An alarm, which all such
locks share, calls `do_timeout` for a request whose time has run out.
-/

namespace SRPC.Timeout

open WaitDie

inductive ReqStatus
  | wait
  | lock
  | unlock
  | abort
  | timeout
  deriving DecidableEq, Repr

/-- A queued request.  `owner` stands for the pair of callbacks. -/
structure ALockReq (Owner : Type*) where
  id : Nat
  alarmId : Nat
  type : LockType
  owner : Owner
  status : ReqStatus
  deriving DecidableEq, Repr

/-- An entry of `waiting_`: its time, and the request of this lock that its
function times out.  The entries of other locks have none. -/
structure AlarmEntry where
  id : Nat
  time : Nat
  request : Option Nat
  deriving DecidableEq, Repr

/-- The entries are in the order of their ids, as in the map of the source, until
the `uint64_t` wraps; see `alarm_ofClock`. -/
structure Alarm where
  nextId : Nat
  waiting : List AlarmEntry
  deriving DecidableEq, Repr

namespace Alarm

def add (alarm : Alarm) (time : Nat) (request : Option Nat) : Alarm where
  nextId := alarm.nextId + 1
  waiting := alarm.waiting ++ [⟨alarm.nextId, time, request⟩]

def remove (alarm : Alarm) (id : Nat) : Alarm :=
  { alarm with
    waiting := alarm.waiting.filter fun entry => decide (entry.id ≠ id) }

end Alarm

/-- `TimeoutALock`, with the ids up to `2 ^ 64`, where the `uint64_t` wraps. -/
structure TimeoutALock (Owner : Type*) where
  nextId : Nat
  status : LockStatus
  nRlock : Int
  requests : List (ALockReq Owner)
  tmWait : Nat
  alarm : Alarm
  deriving DecidableEq, Repr

variable {Owner : Type*}

/-- The callbacks of a call and the lock after it. -/
abbrev Outcome (Owner : Type*) := List (Callback Owner) × TimeoutALock Owner

/-- The state set up by the constructor.  What other locks do with the alarm
before the first call is part of a run. -/
def fresh (tmWait : Nat) : TimeoutALock Owner where
  nextId := 1
  status := .free
  nRlock := 0
  requests := []
  tmWait := tmWait
  alarm := ⟨1, []⟩

namespace ALockReq

def yes (req : ALockReq Owner) : Callback Owner := ⟨req.id, req.owner, .yes⟩

def no (req : ALockReq Owner) : Callback Owner := ⟨req.id, req.owner, .no⟩

def withStatus (req : ALockReq Owner) (status : ReqStatus) : ALockReq Owner :=
  { req with status := status }

end ALockReq

/-- A request of this type need not wait. -/
def Lockable (lock : TimeoutALock Owner) (type : LockType) : Prop :=
  lock.status = .free ∨ (lock.status = .rlocked ∧ type = .rlock)

instance (lock : TimeoutALock Owner) (type : LockType) : Decidable (Lockable lock type) :=
  inferInstanceAs (Decidable (_ ∨ _))

/-- The request that `vlock` pushes into the queue. -/
def newReq (lock : TimeoutALock Owner) (type : LockType) (owner : Owner) : ALockReq Owner :=
  ⟨lock.nextId, 0, type, owner, .wait⟩

def lockedBy : LockType → LockStatus
  | .rlock => .rlocked
  | .wlock => .wlocked

def readersAfter (nRlock : Int) : LockType → Int
  | .rlock => nRlock + 1
  | .wlock => nRlock

/-- `vlock` at the time `tmNow`; the id it returns is `lock.nextId`. -/
def vlock (lock : TimeoutALock Owner) (type : LockType) (owner : Owner)
    (tmNow : Nat) : Outcome Owner :=
  let req := newReq lock type owner
  let lock := { lock with nextId := lock.nextId + 1 }
  if Lockable lock type then
    ([req.yes],
      { lock with
        status := lockedBy type
        nRlock := readersAfter lock.nRlock type
        requests := lock.requests ++ [req.withStatus .lock] })
  else if 0 < lock.tmWait then
    ([],
      { lock with
        requests := lock.requests ++ [{ req with alarmId := lock.alarm.nextId }]
        alarm := lock.alarm.add ((tmNow + lock.tmWait) % 2 ^ 64) req.id })
  else
    ([req.no], lock)

/-- The second loop of `lock_all`, which locks the readers that wait. -/
def lockReaders : Alarm → List (ALockReq Owner) →
    List (ALockReq Owner) × Alarm × List (ALockReq Owner)
  | alarm, [] => ([], alarm, [])
  | alarm, req :: rest =>
    if req.type = .rlock ∧ req.status = .wait then
      let (locked, alarm, rest) := lockReaders (alarm.remove req.alarmId) rest
      (req.withStatus .lock :: locked, alarm, req.withStatus .lock :: rest)
    else
      let (locked, alarm, rest) := lockReaders alarm rest
      (locked, alarm, req :: rest)

/-- `lock_all`, with the requests it has locked. -/
def lockAll (lock : TimeoutALock Owner) : Option (List (ALockReq Owner) × TimeoutALock Owner) :=
  if lock.status = .free ∧ lock.nRlock = 0 then
    match splitFirst (fun req => req.status = .wait) lock.requests with
    | none => some ([], lock)
    | some (before, req, after) =>
      let alarm := lock.alarm.remove req.alarmId
      match req.type with
      | .wlock =>
        some ([req.withStatus .lock],
          { lock with
            status := .wlocked
            requests := before ++ req.withStatus .lock :: after
            alarm := alarm })
      | .rlock =>
        let (locked, alarm, after) := lockReaders alarm after
        some (req.withStatus .lock :: locked,
          { lock with
            status := .rlocked
            nRlock := lock.nRlock + 1 + locked.length
            requests := before ++ req.withStatus .lock :: after
            alarm := alarm })
  else
    none

/-- The number of readers once a request of this type has given the lock back. -/
def readersWithout (nRlock : Int) : LockType → Int
  | .rlock => nRlock - 1
  | .wlock => nRlock

/-- `abort` of a request that holds the lock. -/
def unlock (lock : TimeoutALock Owner) (before : List (ALockReq Owner))
    (req : ALockReq Owner) (after : List (ALockReq Owner)) : Option (Outcome Owner) :=
  let nRlock := readersWithout lock.nRlock req.type
  let lock :=
    { lock with
      status := if nRlock = 0 then .free else lock.status
      nRlock := nRlock
      requests := before ++ after }
  if lock.status = .free then
    (lockAll lock).map fun (locked, lock) => (locked.map ALockReq.yes, lock)
  else
    some ([], lock)

def abort (lock : TimeoutALock Owner) (id : Nat) : Option (Outcome Owner) :=
  match splitFirst (fun req => req.id = id) lock.requests with
  | none => some ([], lock)
  | some (before, req, after) =>
    match req.status with
    | .lock => unlock lock before req after
    | .wait =>
      some ([],
        { lock with
          requests := before ++ after
          alarm := lock.alarm.remove req.alarmId })
    | .timeout => some ([], { lock with requests := before ++ after })
    | .unlock => none
    | .abort => none

/-- `do_timeout` through the reference that the alarm has kept. -/
def doTimeout (lock : TimeoutALock Owner) (id : Nat) : Option (Outcome Owner) :=
  match splitFirst (fun req => req.id = id) lock.requests with
  | none => none
  | some (before, req, after) =>
    if req.status = .wait then
      some ([req.no],
        { lock with
          requests := before ++ req.withStatus .timeout :: after })
    else
      some ([], lock)

/-- The function of an entry; for the entry of another lock nothing happens to
this one. -/
def callEntry (lock : TimeoutALock Owner) (entry : AlarmEntry) : Option (Outcome Owner) :=
  match entry.request with
  | none => some ([], lock)
  | some id => doTimeout lock id

/-- The alarm calls the function of an entry and erases it.  One that is not
registered is not called. -/
def fire (lock : TimeoutALock Owner) (alarmId : Nat) : Option (Outcome Owner) :=
  match lock.alarm.waiting.find? fun entry => decide (entry.id = alarmId) with
  | none => some ([], lock)
  | some entry => do
    let (callbacks, lock) ← callEntry lock entry
    return (callbacks, { lock with alarm := lock.alarm.remove entry.id })

/-- `exe_next` at the time `tmNow`. -/
def exeNext (lock : TimeoutALock Owner) (tmNow : Nat) : Option (Outcome Owner) :=
  match lock.alarm.waiting with
  | [] => some ([], lock)
  | entry :: _ =>
    if entry.time < tmNow then fire lock entry.id else some ([], lock)

/-- A call made on the lock, a time-out, or what another lock does with the
alarm. -/
inductive LockCall (Owner : Type*)
  | vlock (type : LockType) (owner : Owner) (tmNow : Nat)
  | abort (id : Nat)
  | fire (alarmId : Nat)
  | exeNext (tmNow : Nat)
  | addElsewhere (time : Nat)
  | removeElsewhere (alarmId : Nat)

/-- Another lock removes an alarm of its own. -/
def removeElsewhere (alarm : Alarm) (alarmId : Nat) : Alarm :=
  { alarm with
    waiting := alarm.waiting.filter fun entry =>
      decide (entry.id ≠ alarmId ∨ entry.request ≠ none) }

def step (lock : TimeoutALock Owner) :
    LockCall Owner → Option (Outcome Owner)
  | .vlock type owner tmNow => some (vlock lock type owner tmNow)
  | .abort id => abort lock id
  | .fire alarmId => fire lock alarmId
  | .exeNext tmNow => exeNext lock tmNow
  | .addElsewhere time =>
    some ([], { lock with alarm := lock.alarm.add time none })
  | .removeElsewhere alarmId =>
    some ([], { lock with alarm := removeElsewhere lock.alarm alarmId })

end SRPC.Timeout
