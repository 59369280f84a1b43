import SRPC.LockStatusWord
import SRPC.TimeoutAlarms

/-!
# Granting requests of the timeout lock

When the last holder is gone, `lock_all` gives the lock to the first request that
waits or, if this is a reader, to all readers that wait.  Requests that have timed
out are passed over.
-/

namespace SRPC.Timeout

open WaitDie List

variable {Owner : Type*}

def isHolder (req : ALockReq Owner) : Bool :=
  decide (req.status = .lock)

/-- The requests that hold the lock. -/
def holders (requests : List (ALockReq Owner)) : List (ALockReq Owner) := requests.filter isHolder

/-- Nobody waits whom the status would let in. -/
def Settled (status : LockStatus) (requests : List (ALockReq Owner)) : Prop :=
  match status with
  | .free => ∀ req ∈ requests, req.status ≠ .wait
  | .wlocked => True
  | .rlocked => ∀ req ∈ requests, req.status = .wait → req.type = .wlock

def grantIf (picks : ALockReq Owner → Bool) (req : ALockReq Owner) : ALockReq Owner :=
  if picks req then req.withStatus .lock else req

section Loops

variable {requests before after : List (ALockReq Owner)} {req : ALockReq Owner}

def isWaitingReader (req : ALockReq Owner) : Bool :=
  decide (req.type = .rlock ∧ req.status = .wait)

theorem lockReaders_eq (alarm : Alarm) (requests : List (ALockReq Owner)) :
    lockReaders alarm requests =
      ((requests.filter isWaitingReader).map (·.withStatus .lock),
        removeAll alarm (requests.filter isWaitingReader),
        requests.map (grantIf isWaitingReader)) := by
  induction requests generalizing alarm with
  | nil => rfl
  | cons req rest ih =>
    by_cases reads : req.type = .rlock ∧ req.status = .wait
    · rw [lockReaders, if_pos reads, ih]
      simp [isWaitingReader, grantIf, reads, removeAll]
    · rw [lockReaders, if_neg reads, ih]
      simp [isWaitingReader, grantIf, reads]

variable {picks : ALockReq Owner → Bool}

theorem map_grantIf_eq_self (none : ∀ req ∈ requests, picks req = false) :
    requests.map (grantIf picks) = requests := by
  refine (map_congr_left fun req member => ?_).trans (map_id _)
  simp [grantIf, none req member]

theorem filter_eq_nil_of_forall (none : ∀ req ∈ requests, picks req = false) :
    requests.filter picks = [] := filter_eq_nil_iff.mpr fun req member => by simp [none req member]

theorem holders_map_grantIf (nobody : holders requests = []) :
    holders (requests.map (grantIf picks)) = (requests.filter picks).map (·.withStatus .lock) := by
  induction requests with
  | nil => rfl
  | cons req rest ih =>
    have unheld : isHolder req = false := by
      by_contra held
      simp [holders, held] at nobody
    have others : holders rest = [] := by
      simpa [holders, unheld] using nobody
    cases picked : picks req with
    | true =>
      simpa [holders, grantIf, picked, isHolder, ALockReq.withStatus] using ih others
    | false =>
      have rests := ih others
      simp only [holders] at rests
      simpa [holders, grantIf, picked, unheld] using rests

end Loops

/-- What `lock_all` makes of a lock that nobody holds. -/
structure LocksAll (lock : TimeoutALock Owner)
    (picks : ALockReq Owner → Bool) (status : LockStatus) (n : Int) : Prop where
  lockAll_eq : lockAll lock =
    some ((lock.requests.filter picks).map (·.withStatus .lock),
      { lock with
        status := status
        nRlock := n
        requests := lock.requests.map (grantIf picks)
        alarm := removeAll lock.alarm (lock.requests.filter picks) })
  waited : ∀ req ∈ lock.requests, picks req = true → req.status = .wait
  agrees : LockStatusWord.Agrees ALockReq.type status n
    ((lock.requests.filter picks).map (·.withStatus .lock))
  settled : Settled status (lock.requests.map (grantIf picks))

section LockAll

variable {lock : TimeoutALock Owner} {before after : List (ALockReq Owner)} {req : ALockReq Owner}

theorem lockAll_nobody (free : lock.status = .free) (none : lock.nRlock = 0)
    (nobody : splitFirst (fun req => req.status = .wait) lock.requests = .none) :
    LocksAll lock (fun _ => false) .free 0 := by
  have same : lock.requests.map (grantIf fun _ => false) = lock.requests :=
    map_grantIf_eq_self fun _ _ => rfl
  have noGrant : lock.requests.filter (fun _ => false) = [] :=
    filter_eq_nil_of_forall fun _ _ => rfl
  refine ⟨?_, by simp, ?_, ?_⟩
  · rw [same, noGrant, lockAll, if_pos ⟨free, none⟩, nobody, ← free, ← none]
    rfl
  · rw [noGrant]
    exact ⟨rfl, rfl⟩
  · rw [same]
    exact splitFirst_eq_none nobody

theorem lockAll_writer (free : lock.status = .free) (none : lock.nRlock = 0)
    (distinct : (lock.requests.map ALockReq.id).Nodup)
    (found : splitFirst (fun req => req.status = .wait) lock.requests = some (before, req, after))
    (writer : req.type = .wlock) :
    LocksAll lock (fun other => decide (other.id = req.id)) .wlocked 0 := by
  obtain ⟨split, waits, -⟩ := splitFirst_eq_some found
  rw [split, map_append, map_cons, nodup_append, nodup_cons] at distinct
  have notBefore : ∀ other ∈ before, decide (other.id = req.id) = false := by
    intro other member
    exact decide_eq_false (distinct.2.2 _ (mem_map_of_mem member) _ mem_cons_self)
  have notAfter : ∀ other ∈ after, decide (other.id = req.id) = false := by
    intro other member
    refine decide_eq_false fun same => distinct.2.1.1 ?_
    rw [← same]
    exact mem_map_of_mem member
  have picked : lock.requests.filter (fun other => decide (other.id = req.id)) = [req] := by
    rw [split, filter_append, filter_cons,
      filter_eq_nil_of_forall notBefore, filter_eq_nil_of_forall notAfter]
    simp
  have granted : lock.requests.map (grantIf fun other => decide (other.id = req.id)) =
        before ++ req.withStatus .lock :: after := by
    rw [split, map_append, map_cons, map_grantIf_eq_self notBefore, map_grantIf_eq_self notAfter]
    simp [grantIf]
  refine ⟨?_, ?_, ?_, trivial⟩
  · rw [picked, granted, lockAll, if_pos ⟨free, none⟩, found]
    simp only [writer]
    rw [← none]
    rfl
  · intro other member isPicked
    have isReq : other ∈ [req] := by
      rw [← picked]
      exact mem_filter.mpr ⟨member, isPicked⟩
    rw [mem_singleton.mp isReq, waits]
  · rw [picked]
    exact ⟨⟨req.withStatus .lock, rfl, writer⟩, rfl⟩

theorem lockAll_readers (free : lock.status = .free) (none : lock.nRlock = 0)
    (found : splitFirst (fun req => req.status = .wait) lock.requests = some (before, req, after))
    (reader : req.type = .rlock) :
    LocksAll lock isWaitingReader .rlocked (lock.requests.filter isWaitingReader).length := by
  obtain ⟨split, waits, passed⟩ := splitFirst_eq_some found
  have notBefore : ∀ other ∈ before, isWaitingReader other = false := by
    intro other member
    simp [isWaitingReader, passed other member]
  have first : isWaitingReader req = true := by
    simp [isWaitingReader, reader, waits]
  have picked : lock.requests.filter isWaitingReader = req :: after.filter isWaitingReader := by
    rw [split, filter_append, filter_eq_nil_of_forall notBefore,
      nil_append, filter_cons_of_pos first]
  have granted : lock.requests.map (grantIf isWaitingReader) = before ++ req.withStatus .lock ::
        after.map (grantIf isWaitingReader) := by
    rw [split, map_append, map_cons, map_grantIf_eq_self notBefore]
    simp [grantIf, first]
  refine ⟨?_, ?_, ?_, ?_⟩
  · rw [picked, granted, lockAll, if_pos ⟨free, none⟩, found]
    simp only [reader, lockReaders_eq, none, Int.zero_add, length_map, length_cons, map_cons]
    rw [Int.add_comm]
    rfl
  · intro other _ isPicked
    simp [isWaitingReader] at isPicked
    exact isPicked.2
  · refine ⟨by simp [picked], ?_, by simp⟩
    intro other member
    obtain ⟨old, oldMember, rfl⟩ := mem_map.mp member
    have reads := (mem_filter.mp oldMember).2
    simp [isWaitingReader] at reads
    exact reads.1
  · intro other member otherWaits
    obtain ⟨old, oldMember, rfl⟩ := mem_map.mp member
    cases reads : isWaitingReader old with
    | true => simp [grantIf, reads, ALockReq.withStatus] at otherWaits
    | false =>
      simp only [grantIf, reads] at otherWaits ⊢
      cases type : old.type with
      | wlock => simpa using type
      | rlock =>
        simp only [Bool.false_eq_true, if_false] at otherWaits
        simp [isWaitingReader, type, otherWaits] at reads

theorem lockAll_locks (free : lock.status = .free) (none : lock.nRlock = 0)
    (distinct : (lock.requests.map ALockReq.id).Nodup) :
    ∃ picks status n, LocksAll lock picks status n := by
  cases found : splitFirst (fun req => req.status = .wait) lock.requests with
  | none => exact ⟨_, _, _, lockAll_nobody free none found⟩
  | some result =>
    obtain ⟨before, req, after⟩ := result
    cases type : req.type with
    | wlock => exact ⟨_, _, _, lockAll_writer free none distinct found type⟩
    | rlock => exact ⟨_, _, _, lockAll_readers free none found type⟩

end LockAll

end SRPC.Timeout
