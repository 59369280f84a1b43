import SRPC.TransitionRuns
import SRPC.WoundDieAbort

/-! # Runs of the wound-die lock -/

namespace SRPC.WoundDie

open WaitDie AnswerLedger List

variable {Owner : Type*}

/-- The shape of the queue, the status word and the counter after a call. -/
structure Safe (lock : WoundDieALock Owner) : Prop where
  free_iff : lock.status = .free ↔ lock.requests = []
  wlocked : lock.status = .wlocked →
    ∃ front rest, lock.requests = front :: rest ∧
      front.type = .wlock ∧ front.status = .lock ∧ ∀ req ∈ rest, req.status = .wait
  rlocked : lock.status = .rlocked →
    ∃ holders waiting, lock.requests = holders ++ waiting ∧ holders ≠ [] ∧
      lock.nRlock = holders.length ∧
        (∀ req ∈ holders, req.type = .rlock ∧ req.status = .lock) ∧
          (∀ req ∈ waiting, req.status = .wait) ∧
            ∀ first, waiting.head? = some first → first.type = .wlock

def Queued (lock : WoundDieALock Owner) (id : Nat) (owner : Owner)
    (status : RequestStatus) : Prop :=
  ∃ req ∈ lock.requests, req.id = id ∧ req.owner = owner ∧ req.status = status

/-- Who does not wait has an answer, and who holds the lock a yes. -/
structure Logged (log : List (Event Owner)) (lock : WoundDieALock Owner) : Prop where
  fits : Fits ((answers log).map Callback.id) (kind.Waiting lock.requests) lock.nextId
  granted : ∀ req ∈ lock.requests, req.status = .lock → yes req ∈ log

section Moves

variable {lock next : WoundDieALock Owner} {call : LockCall Owner}
  {holders waiting kept promoted rest refused lost : List (LockReq Owner)}
  {events log : List (Event Owner)}

theorem Coherent.safe (coherent : Coherent lock holders waiting) : Safe lock := by
  have agrees := coherent.agrees
  have settled := coherent.settled
  have requests := coherent.requests
  cases status : lock.status with
  | free =>
    rw [status] at agrees settled
    obtain ⟨rfl, -⟩ := agrees
    rw [show waiting = [] from settled] at requests
    exact ⟨by simp [status, requests], by simp [status], by simp [status]⟩
  | wlocked =>
    rw [status] at agrees
    obtain ⟨⟨writer, rfl, isWriter⟩, -⟩ := agrees
    exact ⟨by simp [status, requests], fun _ => ⟨writer, waiting, requests,
      isWriter, coherent.locked writer (by simp), coherent.waits⟩,
      by simp [status]⟩
  | rlocked =>
    rw [status] at agrees settled
    obtain ⟨someone, types, count⟩ := agrees
    exact ⟨by simp [status, requests, someone], by simp [status], fun _ =>
      ⟨holders, waiting, requests, someone, count, fun req member =>
        ⟨types req member, coherent.locked req member⟩, coherent.waits,
        settled⟩⟩

theorem newcomers_eq (lock : WoundDieALock Owner) (call : LockCall Owner) :
    newcomers lock call = [] ∨ ∃ req, newcomers lock call = [req] ∧
      req.id = lock.nextId ∧ req.status = .wait := by
  cases call with
  | vlock type priority owner results =>
    exact .inr ⟨newReq lock type priority owner, rfl, rfl, rfl⟩
  | abort id => exact .inl rfl

variable {req : LockReq Owner}

theorem newcomer_spec (member : req ∈ newcomers lock call) :
    req.id = lock.nextId ∧ req.status = .wait := by
  rcases newcomers_eq lock call with none | ⟨new, one, newId, waits⟩
  · simp [none] at member
  · rw [one, mem_singleton] at member
    rw [member]
    exact ⟨newId, waits⟩

theorem Coherent.distinct_arrivals (coherent : Coherent lock holders waiting)
    (call : LockCall Owner) : ((lock.requests ++ newcomers lock call).map LockReq.id).Nodup := by
  rcases newcomers_eq lock call with none | ⟨new, one, newId, -⟩
  · rw [none, append_nil]
    exact coherent.distinct
  · rw [one]
    exact nodup_map_concat coherent.distinct fun old member =>
      newId ▸ Nat.ne_of_lt (coherent.older old member)

theorem Coherent.older_arrivals (coherent : Coherent lock holders waiting)
    (member : req ∈ lock.requests ++ newcomers lock call) :
    req.id < lock.nextId + (newcomers lock call).length := by
  rcases mem_append.mp member with member | member
  · have := coherent.older req member
    omega
  · have positive := length_pos_of_mem member
    have := (newcomer_spec member).1
    omega

theorem ids_granted (kept promoted rest : List (LockReq Owner)) :
    (kept ++ promoted.map LockReq.granted ++ rest).map LockReq.id =
      (kept ++ (promoted ++ rest)).map LockReq.id := by
  simp [LockReq.granted, Function.comp_def]

/-- A move keeps the invariant. -/
theorem coherent_of_move (coherent : Coherent lock holders waiting)
    (move : Move lock (newcomers lock call) kept promoted rest refused lost events next) :
    Coherent next (kept ++ promoted.map LockReq.granted) rest where
  toDivided := move.divided
  settled := move.settled
  live := by rw [move.done, coherent.live]
  older := by
    intro req member
    have idMember : req.id ∈ (kept ++ (promoted ++ rest)).map LockReq.id := by
      rw [← ids_granted, ← move.divided.requests]
      exact mem_map_of_mem member
    obtain ⟨old, oldMember, same⟩ := mem_map.mp idMember
    rw [← same, move.nextId]
    exact coherent.older_arrivals (move.order.subset oldMember)
  distinct := by
    rw [move.divided.requests, ids_granted]
    exact (move.order.map _).nodup (coherent.distinct_arrivals call)

section Callbacks

variable (coherent : Coherent lock holders waiting)
  (move : Move lock (newcomers lock call) kept promoted rest refused lost events next)

include coherent move

theorem distinct_parts : ((kept ++ (promoted ++ rest) ++ (refused ++ lost)).map LockReq.id).Nodup :=
  (move.arrangement.map _).nodup (coherent.distinct_arrivals call)

omit coherent in
theorem mem_arrivals {req : LockReq Owner} (member : req ∈ promoted ++ rest ++ refused) :
    req ∈ lock.requests ++ newcomers lock call := by
  apply move.arrangement.mem_iff.mpr
  simp only [mem_append] at member ⊢
  tauto

omit coherent in
theorem queued_of_kept {req : LockReq Owner} (member : req ∈ kept ++ lost) :
    req ∈ lock.requests := by
  have arrived : req ∈ lock.requests ++ newcomers lock call := by
    apply move.arrangement.mem_iff.mpr
    simp only [mem_append] at member ⊢
    tauto
  rcases mem_append.mp arrived with old | new
  · exact old
  · have waits := (newcomer_spec new).2
    rw [move.locked req member] at waits
    cases waits

omit coherent in
theorem mem_rest {req : LockReq Owner} (member : req ∈ next.requests)
    (waits : req.status = .wait) : req ∈ rest := by
  rw [move.divided.requests, mem_append] at member
  rcases member with member | member
  · rw [move.divided.locked req member] at waits
    cases waits
  · exact member

omit coherent in
theorem yes_mem {req : LockReq Owner} (member : req ∈ promoted) : yes req ∈ events :=
  mem_answers.mp (move.answered.mem_iff.mpr (mem_append_left _ (mem_map_of_mem member)))

/-- A move answers only who was not answered before. -/
theorem ledger_of_move :
    Turn kind lock.requests (newcomers lock call) promoted refused next.requests
      lock.nextId next.nextId where
  distinct := coherent.distinct_arrivals call
  bounded req member := by
    rw [move.nextId]
    exact coherent.older_arrivals member
  more := by
    rw [move.nextId]
    exact Nat.le_add_right _ _
  fresh req new := (newcomer_spec new).imp_left fun newId => Nat.le_of_eq newId.symm
  once := by
    have parts : (promoted ++ refused).Sublist (kept ++ (promoted ++ rest) ++ (refused ++ lost)) :=
      ((sublist_append_left promoted rest).trans (sublist_append_right kept _)).append
        (sublist_append_left refused lost)
    exact (parts.map _).nodup (distinct_parts coherent move)
  waited req member := by
    have asked : req ∈ promoted ++ rest ++ refused := by
      simp only [mem_append] at member ⊢
      tauto
    exact ⟨mem_arrivals move asked, move.waits req asked⟩
  locked req member := by
    rw [move.divided.requests]
    exact mem_append_left _ (mem_append_right _ (mem_map_of_mem member))
  origin req member := by
    have parts := (distinct_parts coherent move).of_map
    simp only [nodup_append, mem_append] at parts
    rw [move.divided.requests, mem_append, mem_append] at member
    rcases member with (held | promotes) | stays
    · refine .inl ⟨mem_append_left _ (queued_of_kept move (mem_append_left _ held)),
        fun answered => ?_⟩
      have locked := move.locked req (mem_append_left _ held)
      rw [move.waits req (by simp only [mem_append] at answered ⊢; tauto)] at locked
      cases locked
    · obtain ⟨old, oldMember, rfl⟩ := mem_map.mp promotes
      exact .inr (.inl ⟨old, oldMember, rfl⟩)
    · refine .inl ⟨mem_arrivals move (by simp [stays]), fun answered => ?_⟩
      rcases mem_append.mp answered with promotes | refuses
      · exact parts.1.2.1.2.2 req promotes req stays rfl
      · exact parts.2.2 req (.inr (.inr stays)) req (.inl refuses) rfl

theorem logged_of_move (logged : Logged log lock) : Logged (log ++ events) next := by
  refine ⟨?_, ?_⟩
  · have ids : ((answers events).map Callback.id).Perm ((promoted ++ refused).map LockReq.id) := by
      simpa [LockReq.yes, LockReq.no, Function.comp_def] using move.answered.map Callback.id
    rw [answers_append, map_append]
    exact ((ledger_of_move coherent move).fits logged.fits).perm (ids.symm.append_left _)
  · intro req member locked
    rw [move.divided.requests, mem_append, mem_append] at member
    rw [mem_append]
    rcases member with (member | member) | member
    · exact .inl (logged.granted req (queued_of_kept move (mem_append_left _ member)) locked)
    · obtain ⟨old, oldMember, rfl⟩ := mem_map.mp member
      have answered : yes old ∈ events := yes_mem move oldMember
      exact .inr answered
    · rw [move.divided.waits req member] at locked
      cases locked

theorem yes_iff_of_move (id : Nat) (owner : Owner) :
    .answered ⟨id, owner, .yes⟩ ∈ events ↔
      Queued next id owner .lock ∧ ¬ Queued lock id owner .lock := by
  have granted := (ledger_of_move coherent move).granted_iff (id, owner)
  rw [← mem_answers, move.answered.mem_iff]
  simpa [kind, Requests.Held, Queued, LockReq.yes, LockReq.no, and_assoc] using granted

theorem no_iff_of_move (id : Nat) (owner : Owner) :
    .answered ⟨id, owner, .no⟩ ∈ events ↔
      Queued lock id owner .wait ∧ ∀ status, ¬ Queued next id owner status := by
  rw [← mem_answers, move.answered.mem_iff]
  have distinct := distinct_parts coherent move
  rw [map_append, nodup_append] at distinct
  constructor
  · intro member
    obtain ⟨req, reqMember, rfl, rfl⟩ : ∃ req ∈ refused, req.id = id ∧ req.owner = owner := by
      simpa [LockReq.yes, LockReq.no] using member
    refine ⟨⟨req, move.queued req reqMember, rfl, rfl, move.waits req (by simp [reqMember])⟩, ?_⟩
    rintro status ⟨other, otherMember, sameId, -, -⟩
    have remains : other.id ∈ (kept ++ (promoted ++ rest)).map LockReq.id := by
      rw [← ids_granted, ← move.divided.requests]
      exact mem_map_of_mem otherMember
    exact distinct.2.2 _ remains _ (mem_map_of_mem (mem_append_left _ reqMember)) sameId
  · rintro ⟨⟨req, member, rfl, rfl, waits⟩, gone⟩
    have absent : ∀ other ∈ kept ++ promoted.map LockReq.granted ++ rest,
        other.id = req.id → other.owner ≠ req.owner := by
      intro other otherMember sameId sameOwner
      exact gone other.status ⟨other, move.divided.requests ▸ otherMember, sameId, sameOwner, rfl⟩
    have place := move.arrangement.mem_iff.mp (mem_append_left (newcomers lock call) member)
    simp only [mem_append] at place
    rcases place with (held | promotes | stays) | refuses | loses
    · exact absurd rfl (absent req (by simp [held]) rfl)
    · have promoted_ := mem_map_of_mem (f := LockReq.granted) promotes
      exact absurd rfl (absent req.granted (by simp [promoted_]) rfl)
    · exact absurd rfl (absent req (by simp [stays]) rfl)
    · exact mem_append_right _ (mem_map_of_mem refuses)
    · rw [move.locked req (mem_append_right _ loses)] at waits
      cases waits

end Callbacks

end Moves

/-- The log and the queue are in order. -/
def InStep (log : List (Event Owner)) (lock : WoundDieALock Owner) : Prop :=
  Logged log lock ∧ ∃ holders waiting, Coherent lock holders waiting

theorem inStep_fresh : InStep [] (fresh : WoundDieALock Owner) :=
  ⟨⟨fits_nothing, by simp [fresh]⟩, [], [], coherent_fresh⟩

/-- Every sequence of calls on a fresh lock runs without a failed `verify` and
ends in a safe state, nobody is answered twice, and the next call says `yes` to
exactly the requests it makes holders and `no` to exactly those that waited and
that it puts out of the queue. -/
theorem woundDieALock_safety (calls : List (LockCall Owner)) :
    ∃ log lock, TransitionRuns.run step fresh calls = some (log, lock) ∧
        Safe lock ∧ ((answers log).map Callback.id).Nodup ∧
          ∀ call, ∃ events next, step lock call = some (events, next) ∧
            ((answers (log ++ events)).map Callback.id).Nodup ∧
            ∀ id owner,
              (.answered ⟨id, owner, .yes⟩ ∈ events ↔
                Queued next id owner .lock ∧ ¬ Queued lock id owner .lock) ∧
              (.answered ⟨id, owner, .no⟩ ∈ events ↔
                Queued lock id owner .wait ∧
                  ∀ status, ¬ Queued next id owner status) := by
  have preserved : ∀ log (lock : WoundDieALock Owner) call, InStep log lock → True →
        ∃ events next, step lock call = some (events, next) ∧
          InStep (log ++ events) next := by
    rintro log lock call ⟨logged, holders, waiting, coherent⟩ _
    obtain ⟨events, next, kept, promoted, rest, refused, lost, stepEq, move⟩ :=
      step_moves coherent call
    exact ⟨events, next, stepEq, logged_of_move coherent move logged, _, _,
      coherent_of_move coherent move⟩
  obtain ⟨log, lock, runEq, logged, holders, waiting, coherent⟩ :=
    TransitionRuns.run_of_admissible preserved [] inStep_fresh calls
      (TransitionRuns.admissible_of_forall _ _ fun _ _ _ => trivial)
  refine ⟨log, lock, runEq, coherent.safe, logged.fits.once, ?_⟩
  intro call
  obtain ⟨events, next, kept, promoted, rest, refused, lost, stepEq, move⟩ :=
    step_moves coherent call
  exact ⟨events, next, stepEq, (logged_of_move coherent move logged).fits.once,
    fun id owner => ⟨yes_iff_of_move coherent move id owner, no_iff_of_move coherent move id owner⟩⟩

end SRPC.WoundDie
