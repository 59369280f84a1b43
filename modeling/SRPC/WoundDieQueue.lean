import SRPC.LockStatusWord
import SRPC.WaitDieLockSafety
import SRPC.WoundDieLock

/-!
# The queue of the wound-die lock

The holders stand at the front of the queue.  A newcomer wounds requests on its way
from the back of the queue up to one that stops it.
-/

namespace SRPC.WoundDie

open WaitDie

variable {Owner : Type*}

abbrev Agrees : LockStatus → Int → List (LockReq Owner) → Prop := LockStatusWord.Agrees LockReq.type

def isHeld (req : LockReq Owner) : Bool :=
  decide (req.status = .lock)

def held (requests : List (LockReq Owner)) : List (LockReq Owner) := requests.filter isHeld

@[simp]
theorem held_append (first second : List (LockReq Owner)) :
    held (first ++ second) = held first ++ held second := List.filter_append ..

variable {req : LockReq Owner}

theorem held_cons_wait (waits : req.status = .wait) (rest : List (LockReq Owner)) :
    held (req :: rest) = held rest := by
  simp [held, isHeld, waits]

theorem held_cons_lock (locked : req.status = .lock) (rest : List (LockReq Owner)) :
    held (req :: rest) = req :: held rest := by
  simp [held, isHeld, locked]

variable {requests : List (LockReq Owner)}

theorem held_eq_self (holders : ∀ req ∈ requests, req.status = .lock) : held requests = requests :=
  List.filter_eq_self.mpr fun req member => by
    simp [isHeld, holders req member]

theorem held_eq_nil (waiting : ∀ req ∈ requests, req.status = .wait) : held requests = [] :=
  List.filter_eq_nil_iff.mpr fun req member => by
    simp [isHeld, waiting req member]

/-- The callback that `wound` makes. -/
def attempt (results : WoundResults) (req : LockReq Owner) : Event Owner :=
  match req.status with
  | .wait => no req
  | .lock => .wounded req.id req.owner (results req.id)

/-- A wound takes it out of the queue. -/
def yields (results : WoundResults) (req : LockReq Owner) : Bool :=
  decide (req.status = .wait ∨ results req.id = 0)

variable {lock : WoundDieALock Owner}

theorem wound_eq (results : WoundResults) {before after : List (LockReq Owner)}
    (agrees : Agrees lock.status lock.nRlock (held (before ++ req :: after))) :
    ∃ ret status n, wound results lock req =
        some (ret, attempt results req, { lock with status := status, nRlock := n }) ∧
      (ret = 0 ↔ yields results req = true) ∧
        Agrees status n (held (before ++ if ret = 0 then after else req :: after)) := by
  cases status : req.status with
  | wait =>
    refine ⟨0, lock.status, lock.nRlock, by simp [wound, attempt, status],
      by simp [yields, status], ?_⟩
    rw [if_pos rfl, held_append]
    rwa [held_append, held_cons_wait status] at agrees
  | lock =>
    have result : results req.id = 0 ↔ yields results req = true := by
      simp [yields, status]
    by_cases declines : results req.id ≠ 0
    · refine ⟨results req.id, lock.status, lock.nRlock,
        by simp [wound, attempt, status, declines], result, ?_⟩
      rwa [if_neg declines]
    · rw [not_not] at declines
      rw [held_append, held_cons_lock status] at agrees
      cases type : req.type with
      | wlock =>
        obtain ⟨wlocked, noneBefore, noneAfter, zero⟩ := agrees.writer type
        refine ⟨results req.id, .free, lock.nRlock,
          by simp [wound, attempt, status, declines, type, wlocked], result, ?_⟩
        rw [if_pos declines, held_append, noneBefore, noneAfter]
        exact ⟨rfl, zero⟩
      | rlock =>
        obtain ⟨rlocked, readers, count⟩ := agrees.reader type
        refine ⟨results req.id,
          if lock.nRlock - 1 = 0 then .free else .rlocked, lock.nRlock - 1,
          by simp [wound, attempt, status, declines, type, rlocked], result, ?_⟩
        rw [if_pos declines, held_append]
        exact LockStatusWord.agrees_readers readers (by omega)

/-- It is wounded and goes. -/
def goes (results : WoundResults) (tries : LockReq Owner → Bool) (req : LockReq Owner) : Bool :=
  tries req && yields results req

/-- What the loop over the requests `earlier` makes of the lock: it has gone
through `walked`, from the back, and left `untouched` alone. -/
structure Walk (results : WoundResults) (stops tries : LockReq Owner → Bool)
    (earlier behind untouched walked : List (LockReq Owner))
    (events : List (Event Owner)) (next : WoundDieALock Owner) : Prop where
  split : earlier.reverse = untouched ++ walked
  stopped : ∀ last ∈ untouched.getLast?, stops last = true
  passed : ∀ req ∈ walked, stops req = false
  events : events = (walked.reverse.filter tries).map (attempt results)
  requests : next.requests =
    untouched ++ walked.filter (fun req => !goes results tries req) ++ behind
  agrees : Agrees next.status next.nRlock (held next.requests)

variable {earlier behind : List (LockReq Owner)}

theorem Walk.cons {results : WoundResults} {stops tries : LockReq Owner → Bool}
    {untouched walked : List (LockReq Owner)} {events : List (Event Owner)}
    {next : WoundDieALock Owner}
    (walk : Walk results stops tries earlier
      (if goes results tries req then behind else req :: behind) untouched walked events next)
    (stop : stops req = false) :
    Walk results stops tries (req :: earlier) behind untouched (walked ++ [req])
      (if tries req then attempt results req :: events else events) next where
  split := by rw [List.reverse_cons, walk.split, List.append_assoc]
  stopped := walk.stopped
  passed := by
    refine forall_mem_concat walk.passed ?_
    rw [stop]
  events := by
    rw [walk.events]
    by_cases tried : tries req <;> simp [tried]
  requests := by
    rw [walk.requests, List.filter_append]
    by_cases gone : goes results tries req <;> simp [gone]
  agrees := walk.agrees

/-- What the wounds leave of the queue. -/
theorem woundLoop_eq (results : WoundResults) (stops tries : LockReq Owner → Bool)
    (agrees : Agrees lock.status lock.nRlock (held (earlier.reverse ++ behind))) :
    ∃ events next untouched walked,
      woundLoop results stops tries lock earlier behind = some (events, next) ∧
      next.nextId = lock.nextId ∧ next.done = lock.done ∧
        Walk results stops tries earlier behind untouched walked events
          next := by
  induction earlier generalizing lock behind with
  | nil => exact ⟨[], { lock with requests := behind }, [], [], rfl, rfl, rfl,
      rfl, by simp, by simp, rfl, rfl, agrees⟩
  | cons req earlier ih =>
    rw [List.reverse_cons, List.append_assoc, List.singleton_append] at agrees
    cases stop : stops req with
    | true =>
      refine ⟨[], { lock with requests := earlier.reverse ++ req :: behind },
        earlier.reverse ++ [req], [], ?_, rfl, rfl, ?_⟩
      · simp [woundLoop, stop]
      · exact ⟨by simp, by simp [stop], by simp, rfl, by simp, agrees⟩
    | false =>
      cases tried : tries req with
      | true =>
        obtain ⟨ret, status, n, woundEq, success, agrees'⟩ := wound_eq results agrees
        let lock' := { lock with status := status, nRlock := n }
        obtain ⟨events, next, untouched, walked, loopEq, nextId, done,
          walk⟩ := ih (show Agrees lock'.status lock'.nRlock _ from agrees')
        have gone : ret = 0 ↔ goes results tries req = true := by
          rw [success, goes, tried, Bool.true_and]
        simp only [gone] at loopEq walk
        refine ⟨attempt results req :: events, next, untouched,
          walked ++ [req], ?_, nextId, done, ?_⟩
        · simp [woundLoop, stop, tried, woundEq, gone, lock', loopEq]
        · simpa [tried] using walk.cons stop
      | false =>
        obtain ⟨events, next, untouched, walked, loopEq, nextId, done, walk⟩ := ih agrees
        have stays : goes results tries req = false := by simp [goes, tried]
        refine ⟨events, next, untouched, walked ++ [req], ?_, nextId, done, ?_⟩
        · simp [woundLoop, stop, tried, loopEq]
        · have walk' : Walk results stops tries earlier
              (if goes results tries req then behind else req :: behind)
              untouched walked events next := by simpa [stays] using walk
          simpa [tried] using walk'.cons stop

end SRPC.WoundDie
