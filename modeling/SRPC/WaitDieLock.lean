import SRPC.IndexedLists

/-!
# The wait-die lock

`WaitDieALock` keeps every request it cannot grant at once in a single queue if it
is older (has a smaller priority value) than the requests it would wait for, and
refuses it otherwise.  A failed `verify` makes a call return `none`.
-/

namespace SRPC.WaitDie

inductive LockType
  | rlock
  | wlock
  deriving DecidableEq, Repr

inductive RequestStatus
  | wait
  | lock
  deriving DecidableEq, Repr

inductive LockStatus
  | free
  | wlocked
  | rlocked
  deriving DecidableEq, Repr

/-- What `wait_die` tells a request that cannot be granted. -/
inductive Verdict
  | wait
  | die
  deriving DecidableEq, Repr

/-- A queued request.  `owner` stands for the pair of callbacks stored with
the request, which the lock only ever invokes. -/
structure LockReq (Owner : Type*) where
  id : Nat
  priority : Int
  type : LockType
  owner : Owner
  status : RequestStatus
  deriving DecidableEq, Repr

inductive Answer
  | yes
  | no
  deriving DecidableEq, Repr

structure Callback (Owner : Type*) where
  id : Nat
  owner : Owner
  answer : Answer
  deriving DecidableEq, Repr

/-- `WaitDieALock`, with the ids up to `2 ^ 64`, where the `uint64_t` wraps. -/
structure WaitDieALock (Owner : Type*) where
  nextId : Nat
  status : LockStatus
  nRlock : Int
  done : Bool
  requests : List (LockReq Owner)
  nRInQueue : Int
  nWInQueue : Int
  deriving DecidableEq, Repr

variable {Owner : Type*}

/-- The callbacks of a call and the lock after it. -/
abbrev Outcome (Owner : Type*) := List (Callback Owner) × WaitDieALock Owner

def fresh : WaitDieALock Owner where
  nextId := 1
  status := .free
  nRlock := 0
  done := false
  requests := []
  nRInQueue := 0
  nWInQueue := 0

namespace LockReq

def yes (req : LockReq Owner) : Callback Owner := ⟨req.id, req.owner, .yes⟩

def no (req : LockReq Owner) : Callback Owner := ⟨req.id, req.owner, .no⟩

def granted (req : LockReq Owner) : LockReq Owner := { req with status := .lock }

end LockReq

/-- `write_acquire` of a reference into `before ++ req :: after`. -/
def writeAcquire (lock : WaitDieALock Owner) (before : List (LockReq Owner)) (req : LockReq Owner)
    (after : List (LockReq Owner)) : Option (Outcome Owner) :=
  if req.type = .wlock ∧ req.status = .wait then
    some ([req.yes],
      { lock with
        status := .wlocked
        requests := before ++ req.granted :: after })
  else
    none

/-- `read_acquire` of a reference into `before ++ req :: after`. -/
def readAcquire (lock : WaitDieALock Owner) (before : List (LockReq Owner)) (req : LockReq Owner)
    (after : List (LockReq Owner)) : Option (Outcome Owner) :=
  if req.type = .rlock ∧ req.status = .wait then
    some ([req.yes],
      { lock with
        status := if lock.nRlock = 0 then .rlocked else lock.status
        nRlock := lock.nRlock + 1
        requests := before ++ req.granted :: after })
  else
    none

/-- `read_acquire` of a vector of references into
`before ++ reqs ++ after`. -/
def readAcquireAll (lock : WaitDieALock Owner) (before reqs after : List (LockReq Owner)) :
    Option (Outcome Owner) :=
  if reqs = [] then
    some ([], { lock with requests := before ++ reqs ++ after })
  else if ∀ req ∈ reqs, req.type = .rlock ∧ req.status = .wait then
    some (reqs.map LockReq.yes,
      { lock with
        status := if lock.nRlock = 0 then .rlocked else lock.status
        nRlock := lock.nRlock + reqs.length
        requests := before ++ reqs.map LockReq.granted ++ after })
  else
    none

/-- The scan of `wait_die` for a write request, from the back of the queue up
to the last write request. -/
def waitDieWrite (priority : Int) : List (LockReq Owner) → Verdict
  | [] => .wait
  | req :: earlier =>
    if priority ≥ req.priority then
      .die
    else if req.type = .wlock then
      .wait
    else
      waitDieWrite priority earlier

/-- The scan of `wait_die` for a read request; running off the front of the
queue is the `verify(0)` of the source. -/
def waitDieRead (priority : Int) : List (LockReq Owner) → Option Verdict
  | [] => none
  | req :: earlier =>
    if req.type = .wlock then
      some (if priority < req.priority then .wait else .die)
    else
      waitDieRead priority earlier

/-- Whether a newcomer may wait. -/
def waitDie (lock : WaitDieALock Owner) (type : LockType) (priority : Int) : Option Verdict :=
  match type with
  | .wlock => some (waitDieWrite priority lock.requests.reverse)
  | .rlock => waitDieRead priority lock.requests.reverse

def enqueued (lock : WaitDieALock Owner) (type : LockType) : WaitDieALock Owner :=
  match type with
  | .rlock => { lock with nRInQueue := lock.nRInQueue + 1 }
  | .wlock => { lock with nWInQueue := lock.nWInQueue + 1 }

def dequeued (lock : WaitDieALock Owner) (type : LockType) : WaitDieALock Owner :=
  match type with
  | .rlock => { lock with nRInQueue := lock.nRInQueue - 1 }
  | .wlock => { lock with nWInQueue := lock.nWInQueue - 1 }

/-- A request of this type is granted at once. -/
def Available (lock : WaitDieALock Owner) (type : LockType) : Prop :=
  lock.status = .free ∨ (lock.status = .rlocked ∧ type = .rlock ∧ lock.nWInQueue = 0)

instance (lock : WaitDieALock Owner) (type : LockType) : Decidable (Available lock type) :=
  inferInstanceAs (Decidable (_ ∨ _))

/-- The lock after `get_next_id` has handed out `lock.nextId`. -/
def getNextId (lock : WaitDieALock Owner) : WaitDieALock Owner :=
  { lock with nextId := lock.nextId + 1 }

/-- The request built by `vlock`. -/
def newReq (lock : WaitDieALock Owner) (type : LockType) (priority : Int)
    (owner : Owner) : LockReq Owner := ⟨lock.nextId, priority, type, owner, .wait⟩

/-- `vlock`; the id it returns is `lock.nextId`. -/
def vlock (lock : WaitDieALock Owner) (type : LockType) (priority : Int)
    (owner : Owner) : Option (Outcome Owner) :=
  let req := newReq lock type priority owner
  let lock := getNextId lock
  if lock.done then
    some ([req.no], lock)
  else if Available lock type then
    match type with
    | .rlock => readAcquire (enqueued lock type) lock.requests req []
    | .wlock => writeAcquire (enqueued lock type) lock.requests req []
  else
    match waitDie lock type priority with
    | none => none
    | some .wait =>
      some ([], { enqueued lock type with requests := lock.requests ++ [req] })
    | some .die => some ([req.no], lock)

def isRlock (req : LockReq Owner) : Bool :=
  decide (req.type = .rlock)

def isWlock (req : LockReq Owner) : Bool :=
  decide (req.type = .wlock)

def abortWaiting (lock : WaitDieALock Owner) (before : List (LockReq Owner)) (req : LockReq Owner)
    (after : List (LockReq Owner)) : Option (Outcome Owner) :=
  let lock := { dequeued lock req.type with requests := before ++ after }
  if req.type = .wlock ∧ before.countP isWlock = 0 then
    if lock.status = .rlocked then
      (readAcquireAll lock before (after.takeWhile isRlock) (after.dropWhile isRlock)).map
          fun result => (result.1 ++ [req.no], result.2)
    else
      none
  else
    some ([req.no], lock)

def unlockRead (lock : WaitDieALock Owner) (before : List (LockReq Owner)) (req : LockReq Owner)
    (after : List (LockReq Owner)) : Option (Outcome Owner) :=
  let lock :=
    { dequeued lock req.type with
      nRlock := lock.nRlock - 1
      requests := before ++ after }
  if lock.nRlock = 0 then
    match after with
    | [] =>
      if lock.requests.length = 0 then
        some ([], { lock with status := .free })
      else
        none
    | next :: later => writeAcquire lock before next later
  else
    some ([], lock)

def unlockWrite (lock : WaitDieALock Owner) (before : List (LockReq Owner)) (req : LockReq Owner)
    (after : List (LockReq Owner)) : Option (Outcome Owner) :=
  let lock := { dequeued lock req.type with requests := before ++ after }
  match after with
  | [] =>
    if lock.requests.length = 0 then
      some ([], { lock with status := .free })
    else
      none
  | next :: later =>
    if next.type = .wlock then
      writeAcquire lock before next later
    else
      match readAcquireAll lock before (after.takeWhile isRlock) (after.dropWhile isRlock) with
      | none => none
      | some result =>
        if result.2.status = .rlocked then some result else none

/-- `abort`. -/
def abort (lock : WaitDieALock Owner) (id : Nat) : Option (Outcome Owner) :=
  if lock.done then
    some ([], lock)
  else
    match splitFirst (fun req => req.id = id) lock.requests with
    | none => some ([], lock)
    | some (before, req, after) =>
      match req.status, req.type with
      | .wait, _ => abortWaiting lock before req after
      | .lock, .rlock => unlockRead lock before req after
      | .lock, .wlock => unlockWrite lock before req after

inductive LockCall (Owner : Type*)
  | vlock (type : LockType) (priority : Int) (owner : Owner)
  | abort (id : Nat)
  deriving DecidableEq, Repr

def step (lock : WaitDieALock Owner) :
    LockCall Owner → Option (Outcome Owner)
  | .vlock type priority owner => vlock lock type priority owner
  | .abort id => abort lock id

end SRPC.WaitDie
