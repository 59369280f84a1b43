import SRPC.WaitDieLock

/-!
# The wound-die lock

`WoundDieALock` never turns a newcomer away.  A newcomer wounds the requests it
conflicts with that are not older: one that waits is refused, one that is granted
is asked to give the lock back and may decline.
-/

namespace SRPC.WoundDie

open WaitDie

variable {Owner : Type*}

/-- One invocation of a callback that is stored with a request.  The wound
callback returns zero if the holder gives way. -/
inductive Event (Owner : Type*)
  | answered (callback : Callback Owner)
  | wounded (id : Nat) (owner : Owner) (ret : Int)
  deriving DecidableEq, Repr

/-- `WoundDieALock`, with the ids up to `2 ^ 64`, where the `uint64_t` wraps. -/
structure WoundDieALock (Owner : Type*) where
  nextId : Nat
  status : LockStatus
  nRlock : Int
  done : Bool
  requests : List (LockReq Owner)
  deriving DecidableEq, Repr

/-- The events of a call and the lock after it. -/
abbrev Outcome (Owner : Type*) := List (Event Owner) × WoundDieALock Owner

def fresh : WoundDieALock Owner where
  nextId := 1
  status := .free
  nRlock := 0
  done := false
  requests := []

def yes (req : LockReq Owner) : Event Owner := .answered req.yes

def no (req : LockReq Owner) : Event Owner := .answered req.no

/-- What the wound callbacks return, by the id of the request, should they be
called in the course of one call. -/
abbrev WoundResults := Nat → Int

/-- `wound`: its return value, the callback it makes and the lock, with the
request still in the queue. -/
def wound (results : WoundResults) (lock : WoundDieALock Owner) (req : LockReq Owner) :
    Option (Int × Event Owner × WoundDieALock Owner) :=
  match req.status with
  | .wait => some (0, no req, lock)
  | .lock =>
    let ret := results req.id
    let event := .wounded req.id req.owner ret
    if ret = 0 then
      match req.type with
      | .wlock =>
        if lock.status = .wlocked then
          some (ret, event, { lock with status := .free })
        else
          none
      | .rlock =>
        if lock.status = .rlocked then
          some (ret, event, { lock with
            nRlock := lock.nRlock - 1
            status :=
              if lock.nRlock - 1 = 0 then .free else lock.status })
        else
          none
    else
      some (ret, event, lock)

/-- The loops of `wound_die`, which go through the queue from its back.  The
requests in front of the iterator come in reverse, those behind it in order. -/
def woundLoop (results : WoundResults) (stops tries : LockReq Owner → Bool) :
    WoundDieALock Owner → List (LockReq Owner) → List (LockReq Owner) →
      Option (Outcome Owner)
  | lock, [], behind => some ([], { lock with requests := behind })
  | lock, req :: earlier, behind =>
    if stops req then
      some ([], { lock with requests := earlier.reverse ++ req :: behind })
    else if tries req then do
      let (ret, event, lock) ← wound results lock req
      let (events, lock) ← woundLoop results stops tries lock earlier
        (if ret = 0 then behind else req :: behind)
      return (event :: events, lock)
    else
      woundLoop results stops tries lock earlier (req :: behind)

/-- A write request stops at the last write request that is older. -/
def stopsWrite (priority : Int) (req : LockReq Owner) : Bool :=
  decide (req.priority < priority ∧ req.type = .wlock)

def triesWrite (priority : Int) (req : LockReq Owner) : Bool :=
  decide (req.priority ≥ priority)

/-- A read request stops at the last request that is older. -/
def stopsRead (priority : Int) (req : LockReq Owner) : Bool :=
  decide (req.priority < priority)

def triesRead (req : LockReq Owner) : Bool :=
  decide (req.type = .wlock)

/-- The newcomer wounds on its way through the queue. -/
def woundDie (results : WoundResults) (lock : WoundDieALock Owner)
    (type : LockType) (priority : Int) : Option (Outcome Owner) :=
  match type with
  | .wlock => woundLoop results (stopsWrite priority) (triesWrite priority) lock
      lock.requests.reverse []
  | .rlock => woundLoop results (stopsRead priority) triesRead lock lock.requests.reverse []

/-- `write_acquire` of a reference into `before ++ req :: after`. -/
def writeAcquire (lock : WoundDieALock Owner) (before : List (LockReq Owner)) (req : LockReq Owner)
    (after : List (LockReq Owner)) : Option (Outcome Owner) :=
  if req.type = .wlock ∧ req.status = .wait then
    some ([yes req],
      { lock with
        status := .wlocked
        requests := before ++ req.granted :: after })
  else
    none

/-- `read_acquire` of a vector of references into
`before ++ reqs ++ after`. -/
def readAcquire (lock : WoundDieALock Owner) (before reqs after : List (LockReq Owner)) :
    Option (Outcome Owner) :=
  if reqs = [] then
    some ([], { lock with requests := before ++ reqs ++ after })
  else if ∀ req ∈ reqs, req.type = .rlock ∧ req.status = .wait then
    some (reqs.map yes,
      { lock with
        status := if lock.nRlock = 0 then .rlocked else lock.status
        nRlock := lock.nRlock + reqs.length
        requests := before ++ reqs.map LockReq.granted ++ after })
  else
    none

/-- The loop of `vlock` over a read locked queue: the granted requests, the
readers to be granted, and the rest. -/
def newReaders : Bool → List (LockReq Owner) →
    Option (List (LockReq Owner) × List (LockReq Owner) × List (LockReq Owner))
  | _, [] => some ([], [], [])
  | newAcquired, req :: rest =>
    match req.status, req.type with
    | .lock, type =>
      if type = .rlock ∧ newAcquired = false then do
        let (before, reqs, after) ← newReaders newAcquired rest
        return (req :: before, reqs, after)
      else
        none
    | .wait, .rlock => do
      let (before, reqs, after) ← newReaders true rest
      return (before, req :: reqs, after)
    | .wait, .wlock => some ([], [], req :: rest)

/-- What `vlock` grants after the newcomer has entered the queue. -/
def grantAfterArrival (lock : WoundDieALock Owner) : Option (Outcome Owner) :=
  match lock.requests with
  | [] => none
  | front :: rest =>
    match lock.status with
    | .free =>
      if front.type = .wlock then
        writeAcquire lock [] front rest
      else
        readAcquire lock [] (lock.requests.takeWhile isRlock) (lock.requests.dropWhile isRlock)
    | .rlocked =>
      if front.type = .rlock ∧ front.status = .lock then do
        let (before, reqs, after) ← newReaders false lock.requests
        readAcquire lock before reqs after
      else
        none
    | .wlocked =>
      if front.type = .wlock ∧ front.status = .lock then
        some ([], lock)
      else
        none

/-- The lock after `get_next_id` has handed out `lock.nextId`. -/
def getNextId (lock : WoundDieALock Owner) : WoundDieALock Owner :=
  { lock with nextId := lock.nextId + 1 }

/-- The request built by `vlock`. -/
def newReq (lock : WoundDieALock Owner) (type : LockType) (priority : Int)
    (owner : Owner) : LockReq Owner := ⟨lock.nextId, priority, type, owner, .wait⟩

/-- `vlock`; the id it returns is `lock.nextId`. -/
def vlock (lock : WoundDieALock Owner) (type : LockType) (priority : Int)
    (owner : Owner) (results : WoundResults) : Option (Outcome Owner) :=
  let req := newReq lock type priority owner
  let lock := getNextId lock
  if lock.done then
    some ([no req], lock)
  else do
    let (wounds, lock) ← woundDie results lock type priority
    let (grants, lock) ← grantAfterArrival { lock with requests := lock.requests ++ [req] }
    return (wounds ++ grants, lock)

def abortWaiting (lock : WoundDieALock Owner) (before : List (LockReq Owner)) (req : LockReq Owner)
    (after : List (LockReq Owner)) : Option (Outcome Owner) :=
  let lock := { lock with requests := before ++ after }
  if req.type = .wlock ∧ before.countP isWlock = 0 then
    if lock.status = .rlocked then do
      let (grants, lock) ← readAcquire lock before (after.takeWhile isRlock)
        (after.dropWhile isRlock)
      return (grants ++ [no req], lock)
    else
      none
  else
    some ([no req], lock)

def unlockRead (lock : WoundDieALock Owner) (before after : List (LockReq Owner)) :
    Option (Outcome Owner) :=
  let lock :=
    { lock with
      nRlock := lock.nRlock - 1
      requests := before ++ after }
  if lock.nRlock = 0 then
    match after with
    | [] =>
      if lock.requests.length = 0 then
        some ([], { lock with status := .free })
      else
        none
    | next :: later => writeAcquire lock before next later
  else
    some ([], lock)

def unlockWrite (lock : WoundDieALock Owner) (before after : List (LockReq Owner)) :
    Option (Outcome Owner) :=
  let lock := { lock with requests := before ++ after }
  match after with
  | [] =>
    if lock.requests.length = 0 then
      some ([], { lock with status := .free })
    else
      none
  | next :: later =>
    if next.type = .wlock then
      writeAcquire lock before next later
    else do
      let (grants, lock) ← readAcquire lock before (after.takeWhile isRlock)
        (after.dropWhile isRlock)
      if lock.status = .rlocked then some (grants, lock) else none

/-- `abort`. -/
def abort (lock : WoundDieALock Owner) (id : Nat) : Option (Outcome Owner) :=
  if lock.done then
    some ([], lock)
  else
    match splitFirst (fun req => req.id = id) lock.requests with
    | none => some ([], lock)
    | some (before, req, after) =>
      match req.status, req.type with
      | .wait, _ => abortWaiting lock before req after
      | .lock, .rlock => unlockRead lock before after
      | .lock, .wlock => unlockWrite lock before after

inductive LockCall (Owner : Type*)
  | vlock (type : LockType) (priority : Int) (owner : Owner) (results : WoundResults)
  | abort (id : Nat)

def step (lock : WoundDieALock Owner) :
    LockCall Owner → Option (Outcome Owner)
  | .vlock type priority owner results =>
    vlock lock type priority owner results
  | .abort id => abort lock id

end SRPC.WoundDie
