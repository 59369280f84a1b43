import SRPC.WoundDieQueue

/-!
# Granting requests of the wound-die lock

After requests have left the queue or a newcomer has entered it, the lock goes
to the writer at the front or to the readers up to the next writer.
-/

namespace SRPC.WoundDie

open WaitDie

variable {Owner : Type*}

/-- The queue consists of the holders and, behind them, those who wait. -/
structure Divided (lock : WoundDieALock Owner) (holders waiting : List (LockReq Owner)) : Prop where
  requests : lock.requests = holders ++ waiting
  locked : ∀ req ∈ holders, req.status = .lock
  waits : ∀ req ∈ waiting, req.status = .wait
  agrees : Agrees lock.status lock.nRlock holders

/-- The first waiting request is not let in by the status. -/
def Settled (status : LockStatus) (waiting : List (LockReq Owner)) : Prop :=
  match status with
  | .free => waiting = []
  | .wlocked => True
  | .rlocked => ∀ first, waiting.head? = some first → first.type = .wlock

/-- The lock was given to the requests `promoted`, in front of the rest of those
who wait. -/
structure Grants (lock : WoundDieALock Owner) (holders promoted rest : List (LockReq Owner))
    (events : List (Event Owner)) (next : WoundDieALock Owner) : Prop where
  divided : Divided next (holders ++ promoted.map LockReq.granted) rest
  settled : Settled next.status rest
  events : events = promoted.map yes
  nextId : next.nextId = lock.nextId
  done : next.done = lock.done

section Acquire

variable {lock : WoundDieALock Owner} {holders waiting promoted rest : List (LockReq Owner)}

theorem writeAcquire_grants {req : LockReq Owner} (none : lock.nRlock = 0)
    (writer : req.type = .wlock) (waits : req.status = .wait)
    (later : ∀ other ∈ rest, other.status = .wait) :
    ∃ events next, writeAcquire lock [] req rest = some (events, next) ∧
      Grants lock [] [req] rest events next := by
  refine ⟨[yes req], { lock with
    status := .wlocked
    requests := req.granted :: rest }, ?_, ?_⟩
  · rw [writeAcquire, if_pos ⟨writer, waits⟩]
    rfl
  · exact ⟨⟨rfl, by simp [LockReq.granted], later,
      ⟨req.granted, rfl, writer⟩, none⟩, trivial, rfl, rfl, rfl⟩

theorem readAcquire_grants (readers : ∀ req ∈ holders, req.type = .rlock ∧ req.status = .lock)
    (count : lock.nRlock = holders.length) (status : holders ≠ [] → lock.status = .rlocked)
    (some_ : holders ++ promoted ≠ [])
    (newcomers : ∀ req ∈ promoted, req.type = .rlock ∧ req.status = .wait)
    (later : ∀ req ∈ rest, req.status = .wait)
    (blocked : ∀ first, rest.head? = some first → first.type = .wlock) :
    ∃ events next, readAcquire lock holders promoted rest =
        some (events, next) ∧ next.status = .rlocked ∧
      Grants lock holders promoted rest events next := by
  have rlocked : (if lock.nRlock = 0 ∧ promoted ≠ [] then .rlocked
      else lock.status) = LockStatus.rlocked := by
    by_cases nobody : holders = []
    · subst nobody
      rw [if_pos ⟨count, some_⟩]
    · rw [status nobody, ite_self]
  refine ⟨promoted.map yes, { lock with
    status := .rlocked
    nRlock := lock.nRlock + promoted.length
    requests := holders ++ promoted.map LockReq.granted ++ rest }, ?_, rfl, ?_⟩
  · rw [readAcquire]
    by_cases nobody : promoted = []
    · subst nobody
      have same : lock.status = .rlocked := by simpa using rlocked
      simp [← same]
    · rw [if_neg nobody, if_pos newcomers]
      simp only [nobody, ne_eq, not_false_eq_true, and_true] at rlocked
      rw [rlocked]
  · refine ⟨⟨rfl, ?_, later, ?_, ?_, ?_⟩, blocked, rfl, rfl, rfl⟩
    · intro req member
      rcases List.mem_append.mp member with member | member
      · exact (readers req member).2
      · obtain ⟨old, -, rfl⟩ := List.mem_map.mp member
        rfl
    · simpa using some_
    · intro req member
      rcases List.mem_append.mp member with member | member
      · exact (readers req member).1
      · obtain ⟨old, oldMember, rfl⟩ := List.mem_map.mp member
        exact (newcomers old oldMember).1
    · simp [count]

theorem readAcquire_front (readers : ∀ req ∈ holders, req.type = .rlock ∧ req.status = .lock)
    (count : lock.nRlock = holders.length) (status : holders ≠ [] → lock.status = .rlocked)
    (some_ : holders ++ waiting.takeWhile isRlock ≠ [])
    (waits : ∀ req ∈ waiting, req.status = .wait) :
    ∃ promoted rest events next, waiting = promoted ++ rest ∧
      readAcquire lock holders (waiting.takeWhile isRlock)
        (waiting.dropWhile isRlock) = some (events, next) ∧
      next.status = .rlocked ∧ Grants lock holders promoted rest events next := by
  have promoted : ∀ req ∈ waiting.takeWhile isRlock,
      req.type = .rlock ∧ req.status = .wait := fun req member =>
    ⟨takeWhile_isRlock_type member, waits req ((List.takeWhile_sublist _).subset member)⟩
  have later : ∀ req ∈ waiting.dropWhile isRlock, req.status = .wait :=
    fun req member => waits req ((List.dropWhile_sublist _).subset member)
  obtain ⟨events, next, acquired, rlocked, grants⟩ := readAcquire_grants readers
    count status some_ promoted later fun _ => head?_dropWhile_isRlock
  exact ⟨_, _, events, next, List.takeWhile_append_dropWhile.symm, acquired, rlocked, grants⟩

theorem readAcquire_unheld {front : LockReq Owner} (none : lock.nRlock = 0)
    (reader : front.type ≠ .wlock) (waits : ∀ req ∈ front :: rest, req.status = .wait) :
    ∃ promoted later events next, front :: rest = promoted ++ later ∧
      readAcquire lock [] ((front :: rest).takeWhile isRlock)
        ((front :: rest).dropWhile isRlock) = some (events, next) ∧
      next.status = .rlocked ∧ Grants lock [] promoted later events next := by
  have nobody : ∀ req ∈ ([] : List (LockReq Owner)),
      req.type = .rlock ∧ req.status = .lock := by simp
  have isReader : isRlock front = true := by
    cases type : front.type with
    | wlock => exact absurd type reader
    | rlock => simp [isRlock, type]
  exact readAcquire_front nobody none (absurd rfl) (by simp [isReader]) waits

end Acquire

section Arrival

variable {lock : WoundDieALock Owner} {holders waiting : List (LockReq Owner)}

theorem newReaders_waiting (waits : ∀ req ∈ waiting, req.status = .wait) (newAcquired : Bool) :
    newReaders newAcquired waiting =
      some ([], waiting.takeWhile isRlock, waiting.dropWhile isRlock) := by
  induction waiting generalizing newAcquired with
  | nil => rfl
  | cons req rest ih =>
    obtain ⟨waits, others⟩ := List.forall_mem_cons.mp waits
    cases type : req.type with
    | rlock => simp [newReaders, waits, type, ih others, isRlock]
    | wlock => simp [newReaders, waits, type, isRlock]

theorem newReaders_eq (readers : ∀ req ∈ holders, req.type = .rlock ∧ req.status = .lock)
    (waits : ∀ req ∈ waiting, req.status = .wait) :
    newReaders false (holders ++ waiting) =
      some (holders, waiting.takeWhile isRlock, waiting.dropWhile isRlock) := by
  induction holders with
  | nil => exact newReaders_waiting waits false
  | cons req rest ih =>
    obtain ⟨⟨reader, locked⟩, others⟩ := List.forall_mem_cons.mp readers
    simp [newReaders, reader, locked, ih others]

/-- After an arrival the lock goes to those in front. -/
theorem grantAfterArrival_grants (divided : Divided lock holders waiting)
    (nonempty : lock.requests ≠ []) :
    ∃ promoted rest events next, waiting = promoted ++ rest ∧
      grantAfterArrival lock = some (events, next) ∧
      Grants lock holders promoted rest events next := by
  have agrees := divided.agrees
  cases status : lock.status with
  | free =>
    rw [status] at agrees
    obtain ⟨rfl, none⟩ := agrees
    have requests : lock.requests = waiting := divided.requests
    cases waiting with
    | nil => exact absurd requests nonempty
    | cons front rest =>
      obtain ⟨waits, others⟩ := List.forall_mem_cons.mp divided.waits
      by_cases writer : front.type = .wlock
      · obtain ⟨events, next, acquired, grants⟩ := writeAcquire_grants none writer waits others
        refine ⟨[front], rest, events, next, rfl, ?_, grants⟩
        simpa [grantAfterArrival, requests, status, writer] using acquired
      · obtain ⟨promoted, rest', events, next, split, acquired, -, grants⟩ :=
          readAcquire_unheld none writer divided.waits
        refine ⟨promoted, rest', events, next, split, ?_, grants⟩
        simpa [grantAfterArrival, requests, status, writer] using acquired
  | rlocked =>
    rw [status] at agrees
    obtain ⟨someone, types, count⟩ := agrees
    have readers : ∀ req ∈ holders, req.type = .rlock ∧ req.status = .lock :=
      fun req member => ⟨types req member, divided.locked req member⟩
    obtain ⟨promoted, rest, events, next, split, acquired, -, grants⟩ :=
      readAcquire_front readers count (fun _ => status) (by simp [someone]) divided.waits
    refine ⟨promoted, rest, events, next, split, ?_, grants⟩
    cases holders with
    | nil => exact absurd rfl someone
    | cons front others =>
      have found := newReaders_eq readers divided.waits
      have frontLocked := readers front List.mem_cons_self
      rw [grantAfterArrival, divided.requests, status]
      simp only [List.cons_append] at found ⊢
      rw [if_pos frontLocked, found]
      exact acquired
  | wlocked =>
    rw [status] at agrees
    obtain ⟨⟨writer, rfl, isWriter⟩, none⟩ := agrees
    refine ⟨[], waiting, [], lock, rfl, ?_, ?_⟩
    · have locked := divided.locked writer List.mem_cons_self
      simp [grantAfterArrival, divided.requests, status, isWriter, locked]
    · exact ⟨by simpa using divided, by rw [status]; trivial, rfl, rfl, rfl⟩

end Arrival

end SRPC.WoundDie
