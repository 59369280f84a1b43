import SRPC.WaitDieLock

/-!
# Groups of locks

`ALockGroup` asks for several locks at once.  A `DragonBall` counts the answers;
with the last one the group calls `yes_cb`, or, if a lock was refused, `no_cb`,
and gives back the locks it has.
-/

namespace SRPC.LockGroup

open WaitDie

inductive GroupStatus
  | init
  | wait
  | lock
  | timeout
  | unlock
  deriving DecidableEq, Repr

/-- `DragonBall`, which calls back when all are ready. -/
structure DragonBall where
  nWait : Nat
  nReady : Nat
  called : Bool
  deriving DecidableEq, Repr

/-- `locked` and `tolock` are maps; the entries of a key come only once. -/
structure ALockGroup (Lock : Type*) where
  status : GroupStatus
  locked : List (Lock × Nat)
  tolock : List (Lock × LockType)
  db : Option DragonBall
  deriving DecidableEq, Repr

/-- What the group does to others: it calls the callbacks of its user, or aborts
a request. -/
inductive GroupEvent (Lock : Type*)
  | yesCb
  | noCb
  | abort (alock : Lock) (id : Nat)
  deriving DecidableEq, Repr

variable {Lock : Type*}

def fresh : ALockGroup Lock := ⟨.init, [], [], none⟩

def abortAllLocked (group : ALockGroup Lock) : List (GroupEvent Lock) :=
  (group.locked.filter fun entry => decide (entry.2 ≠ 0)).map fun entry => .abort entry.1 entry.2

/-- The wish of the `DragonBall`. -/
def wish (group : ALockGroup Lock) : Option (List (GroupEvent Lock) × ALockGroup Lock) :=
  if group.status = .wait then
    some ([.yesCb], { group with status := .lock })
  else if group.status = .timeout then
    some (.noCb :: abortAllLocked group, group)
  else
    none

/-- `trigger`, after whose wish the `DragonBall` is deleted. -/
def trigger (group : ALockGroup Lock) : Option (List (GroupEvent Lock) × ALockGroup Lock) :=
  match group.db with
  | none => none
  | some db =>
    let db := { db with nReady := db.nReady + 1 }
    if db.nReady ≤ db.nWait then
      if db.nReady = db.nWait then
        if db.called = false then do
          let (events, group) ← wish { group with db := some { db with called := true } }
          return (events, { group with db := none })
        else
          none
      else
        some ([], { group with db := some db })
    else
      none

/-- `lock_all` up to the requests it makes, which are the locks in `tolock`. -/
def lockAll (group : ALockGroup Lock) : Option (List (Lock × LockType) × ALockGroup Lock) :=
  if group.status = .init ∨ group.status = .lock then
    some (group.tolock,
      { group with
        status := .wait
        tolock := []
        db := some ⟨group.tolock.length, 0, false⟩ })
  else
    none

/-- The `n_cb` of a request. -/
def nCb (group : ALockGroup Lock) : Option (List (GroupEvent Lock) × ALockGroup Lock) :=
  trigger { group with status := .timeout }

/-- `unlock_all`, of a group that has its locks. -/
def unlockAll (group : ALockGroup Lock) : Option (List (GroupEvent Lock) × ALockGroup Lock) :=
  if group.status = .lock then
    let group := { group with status := .unlock }
    some (abortAllLocked group, group)
  else
    none

variable [DecidableEq Lock]

def erase {Value : Type*} (map : List (Lock × Value)) (alock : Lock) : List (Lock × Value) :=
  map.filter fun entry => decide (entry.1 ≠ alock)

/-- `map[alock] = value`. -/
def assign {Value : Type*} (map : List (Lock × Value)) (alock : Lock)
    (value : Value) : List (Lock × Value) := erase map alock ++ [(alock, value)]

def add (group : ALockGroup Lock) (alock : Lock) (type : LockType) : Option (ALockGroup Lock) :=
  if group.status = .init ∨ group.status = .lock then
    some { group with tolock := assign group.tolock alock type }
  else
    none

/-- The `y_cb` of a request. -/
def yCb (group : ALockGroup Lock) (alock : Lock) (id : Nat) :
    Option (List (GroupEvent Lock) × ALockGroup Lock) :=
  trigger { group with locked := assign group.locked alock id }

/-- The wound callback of a request, when the one of the user returns `ret`. -/
def woundCb (group : ALockGroup Lock) (alock : Lock) (ret : Int) : ALockGroup Lock :=
  if ret = 0 then { group with locked := erase group.locked alock } else group

/-- An answer or a wound of a lock, or a call of `unlock_all`. -/
inductive GroupInput (Lock : Type*)
  | yes (alock : Lock) (id : Nat)
  | no (alock : Lock)
  | wound (alock : Lock) (ret : Int)
  | unlockAll
  deriving DecidableEq, Repr

def step (group : ALockGroup Lock) :
    GroupInput Lock → Option (List (GroupEvent Lock) × ALockGroup Lock)
  | .yes alock id => yCb group alock id
  | .no _ => nCb group
  | .wound alock ret => some ([], woundCb group alock ret)
  | .unlockAll => unlockAll group

/-- A group that has asked for these locks. -/
def start (asked : List (Lock × LockType)) : Option (ALockGroup Lock) := do
  let group ← asked.foldlM (fun group request => add group request.1 request.2) fresh
  let (_, group) ← lockAll group
  return group

end SRPC.LockGroup
