import SRPC.WoundDieMoves

/-! # Aborting requests of the wound-die lock -/

namespace SRPC.WoundDie

open WaitDie List

variable {Owner : Type*}

/-- The call succeeds with a move. -/
def Moves (lock : WoundDieALock Owner) (newcomers : List (LockReq Owner))
    (result : Option (Outcome Owner)) : Prop :=
  ∃ events next kept promoted rest refused lost, result = some (events, next) ∧
      Move lock newcomers kept promoted rest refused lost events next

section Aborts

variable {lock : WoundDieALock Owner} {req : LockReq Owner}
  {holders waiting before after : List (LockReq Owner)}

theorem grants_nobody {next : WoundDieALock Owner} (divided : Divided next holders waiting)
    (settled : Settled next.status waiting) : Grants next holders [] waiting [] next :=
  ⟨by simpa using divided, settled, rfl, rfl, rfl⟩

theorem abort_unknown (coherent : Coherent lock holders waiting) :
    Moves lock [] (some ([], lock)) := by
  refine ⟨[], lock, holders, [], waiting, [], [], rfl, ?_, ?_, ?_, ?_, by simp,
    by simpa using coherent.toDivided, coherent.settled, .refl _, rfl, rfl⟩
  · simp [coherent.requests]
  · simp [coherent.requests]
  · simpa using coherent.locked
  · simpa using coherent.waits

theorem holders_reader_of_countP (coherent : Coherent lock holders waiting)
    (noWriter : holders.countP isWlock = 0) (someone : waiting ≠ []) : lock.status = .rlocked := by
  have agrees := coherent.agrees
  have settled := coherent.settled
  cases status : lock.status with
  | free =>
    rw [status] at settled
    exact absurd settled someone
  | wlocked =>
    rw [status] at agrees
    obtain ⟨⟨writer, rfl, isWriter⟩, -⟩ := agrees
    simp [isWlock, isWriter] at noWriter
  | rlocked => rfl

variable {ahead : List (LockReq Owner)}

section

variable (coherent : Coherent lock holders waiting)

include coherent

theorem abortWaiting_front (waitingEq : waiting = ahead ++ req :: after)
    (noWriter : (holders ++ ahead).countP isWlock = 0) (writer : req.type = .wlock) :
    Moves lock [] (abortWaiting lock (holders ++ ahead) req after) := by
  rw [countP_append, Nat.add_eq_zero_iff] at noWriter
  have rlocked := holders_reader_of_countP coherent noWriter.1 (by simp [waitingEq])
  have agrees := coherent.agrees
  have blocked := coherent.settled
  rw [rlocked] at agrees blocked
  obtain ⟨someone, types, count⟩ := agrees
  have noneAhead : ahead = [] := by
    cases ahead with
    | nil => rfl
    | cons first later =>
      have reader := countP_isWlock_eq_zero.mp noWriter.2 first (by simp)
      rw [blocked first (by simp [waitingEq])] at reader
      cases reader
  subst noneAhead
  rw [nil_append] at waitingEq
  obtain ⟨waits, others⟩ := forall_mem_cons.mp (waitingEq ▸ coherent.waits)
  let between := { lock with requests := holders ++ after }
  obtain ⟨promoted, rest, grants, next, split, acquired, -, granted⟩ :=
    readAcquire_front (show ∀ other ∈ holders, _ from fun other member =>
      ⟨types other member, coherent.locked other member⟩)
      (show between.nRlock = _ from count) (fun _ => rlocked)
      (by simp [someone]) others
  have requests : lock.requests = holders ++ req :: after := by
    rw [coherent.requests, waitingEq]
  have remains : holders ++ after = holders ++ (promoted ++ rest) := by
    rw [split]
  refine ⟨grants ++ [no req], next, holders, promoted, rest, _, _, ?_,
    move_of_removal requests remains coherent.locked (split ▸ others) granted
      rfl rfl (by rw [if_pos waits])⟩
  rw [abortWaiting, append_nil, if_pos ⟨writer, noWriter.1⟩, if_pos rlocked, acquired]
  rfl

theorem abortWaiting_behind (waitingEq : waiting = ahead ++ req :: after)
    (stays : ¬ (req.type = .wlock ∧ (holders ++ ahead).countP isWlock = 0)) :
    Moves lock [] (abortWaiting lock (holders ++ ahead) req after) := by
  have waits : req.status = .wait := coherent.waits req (by simp [waitingEq])
  have others : ∀ other ∈ ahead ++ after, other.status = .wait := by
    intro other member
    apply coherent.waits
    rw [waitingEq]
    rw [mem_append] at member ⊢
    exact member.imp_right (mem_cons_of_mem _)
  let next := { lock with requests := holders ++ ahead ++ after }
  have divided : Divided next holders (ahead ++ after) :=
    ⟨append_assoc .., coherent.locked, others, coherent.agrees⟩
  have settled : Settled next.status (ahead ++ after) := by
    have settled := coherent.settled
    have agrees := coherent.agrees
    cases status : lock.status with
    | free =>
      rw [status, waitingEq] at settled
      simp [Settled] at settled
    | wlocked => trivial
    | rlocked =>
      rw [status] at settled agrees
      cases ahead with
      | cons first later => simpa [waitingEq, Settled] using settled
      | nil =>
        have writer : req.type = .wlock := settled req (by simp [waitingEq])
        have readers := countP_isWlock_eq_zero.mpr agrees.2.1
        exact absurd ⟨writer, by simpa using readers⟩ stays
  have requests : lock.requests = holders ++ ahead ++ req :: after := by
    rw [coherent.requests, waitingEq, append_assoc]
  have remains : holders ++ ahead ++ after = holders ++ ([] ++ (ahead ++ after)) := by simp
  refine ⟨[no req], next, holders, [], ahead ++ after, _, _, ?_,
    move_of_removal requests remains coherent.locked others
      (grants_nobody divided settled) rfl rfl (by rw [if_pos waits]; rfl)⟩
  rw [abortWaiting, if_neg stays]

theorem unlockRead_moves (holdersEq : holders = before ++ req :: after)
    (reader : req.type = .rlock) : Moves lock [] (unlockRead lock before (after ++ waiting)) := by
  have agrees := coherent.agrees
  rw [holdersEq] at agrees
  obtain ⟨rlocked, types, count⟩ := agrees.reader reader
  have blocked := coherent.settled
  rw [rlocked] at blocked
  have locked : ∀ other ∈ before ++ after, other.status = .lock := by
    intro other member
    apply coherent.locked
    rw [holdersEq]
    rw [mem_append] at member ⊢
    exact member.imp_right (mem_cons_of_mem _)
  have held : req.status = .lock := coherent.locked req (by simp [holdersEq])
  have requests : lock.requests = before ++ req :: (after ++ waiting) := by
    rw [coherent.requests, holdersEq]
    simp
  let between := { lock with
    nRlock := lock.nRlock - 1
    requests := before ++ (after ++ waiting) }
  by_cases last : lock.nRlock - 1 = 0
  · obtain ⟨rfl, rfl⟩ : before = [] ∧ after = [] := by
      rw [← append_eq_nil_iff, ← length_eq_zero_iff]
      omega
    unfold unlockRead
    rw [if_pos last]
    cases waiting with
    | nil =>
      let next : WoundDieALock Owner := { between with status := .free }
      have divided : Divided next [] [] := ⟨rfl, by simp, by simp, rfl, last⟩
      exact ⟨[], next, [], [], [], _, _, rfl, move_of_removal requests rfl
        (by simp) (by simp) (grants_nobody divided rfl) rfl rfl (by simp [held])⟩
    | cons front later =>
      obtain ⟨waits, others⟩ := forall_mem_cons.mp coherent.waits
      obtain ⟨grants, next, acquired, granted⟩ := writeAcquire_grants
        (show between.nRlock = 0 from last) (blocked front rfl) waits others
      exact ⟨grants, next, [], [front], later, _, _, acquired,
        move_of_removal requests rfl (by simp) coherent.waits granted rfl rfl (by simp [held])⟩
  · unfold unlockRead
    rw [if_neg last]
    have divided : Divided between (before ++ after) waiting := by
      refine ⟨(append_assoc ..).symm, locked, coherent.waits, ?_⟩
      show Agrees lock.status (lock.nRlock - 1) _
      rw [rlocked]
      refine ⟨?_, types, by omega⟩
      intro nobody
      rw [nobody] at count
      exact last (by simp [count])
    have settled : Settled between.status waiting := coherent.settled
    exact ⟨[], between, before ++ after, [], waiting, _, _, rfl,
      move_of_removal requests (by simp) locked coherent.waits
        (grants_nobody divided settled) rfl rfl (by simp [held])⟩

theorem unlockWrite_moves (holdersEq : holders = before ++ req :: after)
    (writer : req.type = .wlock) : Moves lock [] (unlockWrite lock before (after ++ waiting)) := by
  have agrees := coherent.agrees
  rw [holdersEq] at agrees
  obtain ⟨wlocked, rfl, rfl, none⟩ := agrees.writer writer
  have held : req.status = .lock := coherent.locked req (by simp [holdersEq])
  have requests : lock.requests = [] ++ req :: waiting := by
    rw [coherent.requests, holdersEq]
    rfl
  let between := { lock with requests := waiting }
  cases waiting with
  | nil =>
    let next : WoundDieALock Owner := { between with status := .free }
    have divided : Divided next [] [] := ⟨rfl, by simp, by simp, rfl, none⟩
    exact ⟨[], next, [], [], [], _, _, rfl, move_of_removal requests rfl
      (by simp) (by simp) (grants_nobody divided rfl) rfl rfl (by simp [held])⟩
  | cons front later =>
    obtain ⟨waits, others⟩ := forall_mem_cons.mp coherent.waits
    by_cases isWriter : front.type = .wlock
    · obtain ⟨grants, next, acquired, granted⟩ := writeAcquire_grants
        (show between.nRlock = 0 from none) isWriter waits others
      refine ⟨grants, next, [], [front], later, _, _, ?_,
        move_of_removal requests rfl (by simp) coherent.waits granted rfl rfl (by simp [held])⟩
      simpa [unlockWrite, isWriter] using acquired
    · obtain ⟨promoted, rest, grants, next, split, acquired, rlocked,
        granted⟩ := readAcquire_unheld (show between.nRlock = 0 from none) isWriter coherent.waits
      refine ⟨grants, next, [], promoted, rest, _, _, ?_,
        move_of_removal requests split (by simp) (split ▸ coherent.waits)
          granted rfl rfl (by simp [held])⟩
      have acquired' : readAcquire { lock with requests := front :: later } []
          ((front :: later).takeWhile isRlock)
          ((front :: later).dropWhile isRlock) = some (grants, next) := acquired
      simp [unlockWrite, isWriter, acquired', rlocked]

/-- `abort` takes a request out and lets others in. -/
theorem abort_moves (id : Nat) : Moves lock [] (abort lock id) := by
  rw [abort, coherent.live]
  cases found : splitFirst (fun req => req.id = id) lock.requests with
  | none => exact abort_unknown coherent
  | some result =>
    obtain ⟨before, req, after⟩ := result
    obtain ⟨split, -⟩ := splitFirst_eq_some found
    rw [coherent.requests] at split
    cases status : req.status with
    | wait =>
      obtain ⟨ahead, rfl, waitingEq⟩ := exists_split_right split coherent.locked (by simp [status])
      simp only [Bool.false_eq_true, if_false, status]
      by_cases front : req.type = .wlock ∧ (holders ++ ahead).countP isWlock = 0
      · exact abortWaiting_front coherent waitingEq front.2 front.1
      · exact abortWaiting_behind coherent waitingEq front
    | lock =>
      obtain ⟨beside, holdersEq, rfl⟩ := exists_split_left split coherent.waits (by simp [status])
      cases type : req.type with
      | rlock =>
        simpa [status, type] using unlockRead_moves coherent holdersEq type
      | wlock =>
        simpa [status, type] using unlockWrite_moves coherent holdersEq type

end

end Aborts

def newcomers (lock : WoundDieALock Owner) :
    LockCall Owner → List (LockReq Owner)
  | .vlock type priority owner _ => [newReq lock type priority owner]
  | .abort _ => []

theorem step_moves {lock : WoundDieALock Owner} {holders waiting : List (LockReq Owner)}
    (coherent : Coherent lock holders waiting) (call : LockCall Owner) :
    Moves lock (newcomers lock call) (step lock call) := by
  cases call with
  | vlock type priority owner results =>
    obtain ⟨wounds, grants, next, untouched, walked, kept, promoted, rest,
      vlockEq, arrival⟩ := vlock_arrival coherent type priority owner results
    exact ⟨_, next, kept, promoted, rest, _, _, vlockEq, arrival.move⟩
  | abort id => exact abort_moves coherent id

end SRPC.WoundDie
