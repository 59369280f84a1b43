import SRPC.WoundDieRuns

/-! # The priorities in the queue of the wound-die lock -/

namespace SRPC.WoundDie

open WaitDie List

variable {Owner : Type*}

/-- Since it was granted the request has been asked to give way and has
declined. -/
def Declined (log : List (Event Owner)) (req : LockReq Owner) : Prop :=
  ∃ before after ret, log = before ++ yes req :: after ∧
    .wounded req.id req.owner ret ∈ after ∧ ret ≠ 0

/-- Waiting rivals are in order of priority; a later holder has declined. -/
structure Ranked (log : List (Event Owner)) (lock : WoundDieALock Owner) : Prop where
  ordered : lock.requests.Pairwise fun first second =>
    first.status = .wait → second.status = .wait → Conflicts first second →
      first.priority < second.priority
  declined : ∀ holder ∈ lock.requests, holder.status = .lock →
    ∀ req ∈ lock.requests, req.status = .wait → Conflicts holder req →
      req.priority ≤ holder.priority → Declined log holder

theorem Declined.append {log : List (Event Owner)} {req : LockReq Owner}
    (declined : Declined log req) (events : List (Event Owner)) : Declined (log ++ events) req := by
  obtain ⟨before, after, ret, rfl, member, nonzero⟩ := declined
  exact ⟨before, after ++ events, ret, by simp, mem_append_left _ member, nonzero⟩

theorem declined_now {log events : List (Event Owner)} {req : LockReq Owner}
    {ret : Int} (granted : yes req ∈ log)
    (asked : .wounded req.id req.owner ret ∈ events) (nonzero : ret ≠ 0) :
    Declined (log ++ events) req := by
  obtain ⟨before, after, rfl⟩ := append_of_mem granted
  exact ⟨before, after ++ events, ret, by simp, mem_append_right _ asked, nonzero⟩

section Moves

variable {lock next : WoundDieALock Owner} {call : LockCall Owner}
  {holders waiting kept promoted rest refused lost : List (LockReq Owner)}
  {events log : List (Event Owner)}

theorem ordered_of_move (ranked : Ranked log lock)
    (move : Move lock (newcomers lock call) kept promoted rest refused lost events next)
    (first : ∀ new ∈ newcomers lock call, ∀ other ∈ lock.requests,
      other ∈ promoted ++ rest → Conflicts other new →
        other.priority < new.priority) :
    (promoted ++ rest).Pairwise fun first second =>
      Conflicts first second → first.priority < second.priority := by
  obtain ⟨old, new, split, oldSub, newSub⟩ := sublist_append_iff.mp
    ((sublist_append_right kept _).trans move.order)
  have waits : ∀ req ∈ promoted ++ rest, req.status = .wait :=
    fun req member => move.waits req (mem_append_left _ member)
  rw [split] at waits first ⊢
  refine pairwise_append.mpr ⟨?_, ?_, ?_⟩
  · refine (ranked.ordered.sublist oldSub).imp_of_mem ?_
    intro req other member otherMember less
    exact less (waits req (mem_append_left _ member)) (waits other (mem_append_left _ otherMember))
  · rcases newcomers_eq lock call with none | ⟨req, one, -, -⟩
    · rw [none, sublist_nil] at newSub
      simp [newSub]
    · rw [one] at newSub
      exact List.Pairwise.sublist newSub (pairwise_singleton _ _)
  · intro other otherMember req member
    exact first req (newSub.subset member) other (oldSub.subset otherMember)
      (mem_append_left _ otherMember)

theorem ranked_of_move (ranked : Ranked log lock)
    (move : Move lock (newcomers lock call) kept promoted rest refused lost events next)
    (first : ∀ new ∈ newcomers lock call, ∀ other ∈ lock.requests,
      other ∈ promoted ++ rest → Conflicts other new →
        other.priority < new.priority)
    (asked : ∀ new ∈ newcomers lock call, ∀ holder ∈ kept,
      Conflicts holder new → new.priority ≤ holder.priority →
        Declined (log ++ events) holder) : Ranked (log ++ events) next := by
  have ordered := ordered_of_move ranked move first
  obtain ⟨-, restOrdered, between⟩ := pairwise_append.mp ordered
  refine ⟨?_, ?_⟩
  · rw [move.divided.requests]
    refine pairwise_append.mpr ⟨?_, ?_, ?_⟩
    · refine pairwise_of_forall_mem_list ?_
      intro req member _ _ waits
      rw [move.divided.locked req member] at waits
      cases waits
    · exact restOrdered.imp fun less _ _ => less
    · intro req member _ _ waits
      rw [move.divided.locked req member] at waits
      cases waits
  · intro holder member locked req reqMember waits conflict notOlder
    have waitsOn := mem_rest move reqMember waits
    rw [move.divided.requests, mem_append, mem_append] at member
    rcases member with (member | member) | member
    · have queued := queued_of_kept move (mem_append_left _ member)
      have arrived := mem_arrivals move (show req ∈ promoted ++ rest ++ refused by simp [waitsOn])
      rcases mem_append.mp arrived with old | new
      · exact (ranked.declined holder queued locked req old waits conflict notOlder).append _
      · exact asked req new holder member conflict notOlder
    · obtain ⟨old, oldMember, rfl⟩ := mem_map.mp member
      have less : old.priority < req.priority := between old oldMember req waitsOn conflict
      have notLess : req.priority ≤ old.priority := notOlder
      omega
    · rw [move.divided.waits holder member] at locked
      cases locked

end Moves

section Arrivals

variable {lock next : WoundDieALock Owner} {req : LockReq Owner} {results : WoundResults}
  {holders waiting untouched walked kept promoted rest : List (LockReq Owner)}
  {wounds grants log : List (Event Owner)} {last : LockReq Owner}

theorem priority_of_stopsAt (stops : stopsAt req last = true) : last.priority < req.priority := by
  cases type : req.type with
  | wlock =>
    simp [stopsAt, type, stopsWrite] at stops
    exact stops.1
  | rlock => simpa [stopsAt, type, stopsRead] using stops

variable {other : LockReq Owner}

theorem conflicts_of_stopsAt (stops : stopsAt req last = true) (conflict : Conflicts other req) :
    Conflicts other last := by
  cases type : req.type with
  | wlock =>
    simp [stopsAt, type, stopsWrite] at stops
    exact .inr stops.2
  | rlock =>
    refine .inl (conflict.resolve_right ?_)
    simp [type]

theorem triesAt_of_conflicts (conflict : Conflicts other req)
    (notOlder : req.priority ≤ other.priority) : triesAt req other = true := by
  cases type : req.type with
  | wlock => simpa [triesAt, type, triesWrite] using notOlder
  | rlock =>
    have writer : other.type = .wlock := conflict.resolve_right (by simp [type])
    simp [triesAt, type, triesRead, writer]

theorem holder_eq_writer (coherent : Coherent lock holders waiting)
    {writer holder : LockReq Owner} (isWriter : writer.type = .wlock)
    (writerMember : writer ∈ holders) (member : holder ∈ holders) : holder = writer := by
  obtain ⟨before, after, rfl⟩ := append_of_mem writerMember
  obtain ⟨-, rfl, rfl, -⟩ := coherent.agrees.writer isWriter
  simpa using member

theorem untouched_cases (coherent : Coherent lock holders waiting) (ranked : Ranked log lock)
    (arrival : Arrival lock req results untouched walked kept promoted rest wounds grants next)
    (member : other ∈ untouched) (conflict : Conflicts other req)
    (notOlder : req.priority ≤ other.priority) : other.status = .lock ∧ Declined log other := by
  obtain ⟨ahead, last, rfl⟩ : ∃ ahead last, untouched = ahead ++ [last] := by
    rcases eq_nil_or_concat untouched with rfl | ⟨ahead, last, rfl⟩
    · simp at member
    · exact ⟨ahead, last, concat_eq_append⟩
  have stops := arrival.stopped last (by simp)
  have older := priority_of_stopsAt stops
  have isAhead : other ∈ ahead := by
    rcases mem_append.mp member with ahead | isLast
    · exact ahead
    · rw [mem_singleton.mp isLast] at notOlder
      omega
  have conflictLast := conflicts_of_stopsAt stops conflict
  have requests : lock.requests = ahead ++ last :: walked := by
    rw [arrival.split]
    simp
  have otherQueued : other ∈ lock.requests := by simp [requests, isAhead]
  have lastQueued : last ∈ lock.requests := by simp [requests]
  have ordered := ranked.ordered
  have sorted := coherent.sorted
  rw [requests] at ordered sorted
  have before := (pairwise_append.mp ordered).2.2 other isAhead last mem_cons_self
  have firstHeld := (pairwise_append.mp sorted).2.2 other isAhead last mem_cons_self
  cases status : last.status with
  | wait =>
    have locked : other.status = .lock := by
      cases otherStatus : other.status with
      | wait =>
        have := before otherStatus status conflictLast
        omega
      | lock => rfl
    exact ⟨locked, ranked.declined other otherQueued locked last lastQueued
      status conflictLast (by omega)⟩
  | lock =>
    have locked : other.status = .lock := by
      simpa [isHeld] using firstHeld (by simp [isHeld, status])
    have mem_holders : ∀ held ∈ lock.requests, held.status = .lock →
        held ∈ holders := by
      intro held queued isLocked
      rw [coherent.requests, mem_append] at queued
      refine queued.resolve_right fun waits => ?_
      rw [coherent.waits held waits] at isLocked
      cases isLocked
    have otherHolds := mem_holders other otherQueued locked
    have lastHolds := mem_holders last lastQueued status
    have same : other = last := by
      rcases conflictLast with writer | writer
      · exact (holder_eq_writer coherent writer otherHolds lastHolds).symm
      · exact holder_eq_writer coherent writer lastHolds otherHolds
    rw [same] at notOlder
    omega

theorem Arrival.declines (coherent : Coherent lock holders waiting) (logged : Logged log lock)
    (ranked : Ranked log lock)
    (arrival : Arrival lock req results untouched walked kept promoted rest wounds grants next)
    (unknown : req ∉ lock.requests) (queued : other ∈ lock.requests)
    (member : other ∈ kept ++ (promoted ++ rest)) (conflict : Conflicts other req)
    (notOlder : req.priority ≤ other.priority) :
    other.status = .lock ∧ Declined (log ++ (wounds ++ grants)) other := by
  rw [arrival.remains, mem_append, mem_append, mem_singleton] at member
  rcases member with (member | member) | rfl
  · obtain ⟨locked, declined⟩ := untouched_cases coherent ranked arrival member conflict notOlder
    exact ⟨locked, declined.append _⟩
  · obtain ⟨walkedMember, stays⟩ := mem_filter.mp member
    have tried := triesAt_of_conflicts conflict notOlder
    obtain ⟨locked, nonzero⟩ : other.status = .lock ∧ results other.id ≠ 0 := by
      cases status : other.status <;>
        simp [goes, tried, yields, status] at stays
      exact ⟨rfl, stays⟩
    refine ⟨locked, declined_now (logged.granted other queued locked)
      (mem_append_left _ ?_) nonzero⟩
    rw [arrival.wounds_eq, mem_map]
    exact ⟨other, by simp [walkedMember, tried], by simp [attempt, locked]⟩
  · exact absurd queued unknown

end Arrivals

theorem step_ranked {lock : WoundDieALock Owner} {log : List (Event Owner)}
    (inStep : InStep log lock) (ranked : Ranked log lock) (call : LockCall Owner) :
    ∃ events next, step lock call = some (events, next) ∧
      InStep (log ++ events) next ∧ Ranked (log ++ events) next := by
  obtain ⟨logged, holders, waiting, coherent⟩ := inStep
  cases call with
  | vlock type priority owner results =>
    obtain ⟨wounds, grants, next, untouched, walked, kept, promoted, rest,
      vlockEq, arrival⟩ := vlock_arrival coherent type priority owner results
    have move : Move lock (newcomers lock (.vlock type priority owner results))
        kept promoted rest _ _ (wounds ++ grants) next := arrival.move
    have unknown : newReq lock type priority owner ∉ lock.requests :=
      fun queued => Nat.lt_irrefl _ (coherent.older _ queued)
    refine ⟨wounds ++ grants, next, vlockEq,
      ⟨logged_of_move coherent move logged, _, _,
        coherent_of_move coherent move⟩, ranked_of_move ranked move ?_ ?_⟩
    · intro new newMember other queued member conflict
      rw [mem_singleton.mp newMember] at conflict ⊢
      by_contra notLess
      have locked := (arrival.declines coherent logged ranked unknown queued
        (mem_append_right _ member) conflict (by omega)).1
      rw [arrival.waits other member] at locked
      cases locked
    · intro new newMember holder member conflict notOlder
      rw [mem_singleton.mp newMember] at conflict notOlder
      exact (arrival.declines coherent logged ranked unknown
        (queued_of_kept move (mem_append_left _ member))
        (mem_append_left _ member) conflict notOlder).2
  | abort id =>
    obtain ⟨events, next, kept, promoted, rest, refused, lost, stepEq, move⟩ :=
      step_moves coherent (.abort id)
    exact ⟨events, next, stepEq, ⟨logged_of_move coherent move logged, _, _,
      coherent_of_move coherent move⟩,
      ranked_of_move ranked move (by simp [newcomers]) (by simp [newcomers])⟩

/-- In every run, of two requests that conflict and wait the one in front is
older, and a holder that is not older than a request that waits for it has
declined to give way since it was granted. -/
theorem woundDieALock_priority_order (calls : List (LockCall Owner)) :
    ∃ log lock, TransitionRuns.run step fresh calls = some (log, lock) ∧
      Ranked log lock := by
  have start : InStep [] (fresh : WoundDieALock Owner) ∧
      Ranked [] (fresh : WoundDieALock Owner) := ⟨inStep_fresh, by simp [fresh], by simp [fresh]⟩
  have preserved : ∀ log (lock : WoundDieALock Owner) call,
      InStep log lock ∧ Ranked log lock → True →
        ∃ events next, step lock call = some (events, next) ∧
          InStep (log ++ events) next ∧ Ranked (log ++ events) next :=
    fun _ _ call invariant _ => step_ranked invariant.1 invariant.2 call
  obtain ⟨log, lock, runEq, -, ranked⟩ :=
    TransitionRuns.run_of_admissible preserved [] start calls
      (TransitionRuns.admissible_of_forall _ _ fun _ _ _ => trivial)
  exact ⟨log, lock, runEq, ranked⟩

end SRPC.WoundDie
