import SRPC.TimeoutGrants

/-! # The turns of the timeout lock -/

namespace SRPC.Timeout

open WaitDie List

variable {Owner : Type*}

/-- The status word, the queue and the alarms agree. -/
structure Coherent (lock : TimeoutALock Owner) : Prop where
  agrees : LockStatusWord.Agrees ALockReq.type lock.status lock.nRlock (holders lock.requests)
  settled : Settled lock.status lock.requests
  kinds : ∀ req ∈ lock.requests, req.status = .wait ∨ req.status = .lock ∨ req.status = .timeout
  older : ∀ req ∈ lock.requests, req.id < lock.nextId
  distinct : (lock.requests.map ALockReq.id).Nodup
  alarmed : Alarmed lock.alarm lock.requests

theorem coherent_fresh (tmWait : Nat) : Coherent (fresh tmWait : TimeoutALock Owner) where
  agrees := ⟨rfl, rfl⟩
  settled := by simp [fresh, Settled]
  kinds := by simp [fresh]
  older := by simp [fresh]
  distinct := by simp [fresh]
  alarmed := alarmed_nothing

/-- Some of those who wait, or have just come, are granted the lock and some are
refused. -/
structure Turn (lock : TimeoutALock Owner) (newcomer : Option (ALockReq Owner))
    (granted refused : List (ALockReq Owner))
    (callbacks : List (Callback Owner)) (next : TimeoutALock Owner) : Prop where
  callbacks_eq : callbacks = granted.map ALockReq.yes ++ refused.map ALockReq.no
  distinct : ((granted ++ refused).map ALockReq.id).Nodup
  waited : ∀ req ∈ granted ++ refused, req ∈ lock.requests ++ newcomer.toList ∧ req.status = .wait
  locked : ∀ req ∈ granted, req.withStatus .lock ∈ next.requests
  origin : ∀ req ∈ next.requests,
    (req ∈ lock.requests ++ newcomer.toList ∧ req ∉ granted ++ refused) ∨
      (∃ old ∈ granted, req = old.withStatus .lock) ∨ ∃ old ∈ refused, req = old.withStatus .timeout
  more : lock.nextId ≤ next.nextId
  fresh : ∀ req ∈ newcomer, req.id = lock.nextId ∧ req.id < next.nextId ∧ req.status = .wait
  coherent : Coherent next

/-- The call succeeds with a turn. -/
def Turns (lock : TimeoutALock Owner) (result : Option (Outcome Owner)) : Prop :=
  ∃ callbacks next newcomer granted refused, result = some (callbacks, next) ∧
    Turn lock newcomer granted refused callbacks next

section Basics

variable {lock next : TimeoutALock Owner}
  {before after : List (ALockReq Owner)} {req : ALockReq Owner}

theorem turns_quiet (requests : ∀ req ∈ next.requests, req ∈ lock.requests)
    (nextId : next.nextId = lock.nextId) (coherent : Coherent next) :
    Turns lock (some ([], next)) := by
  refine ⟨[], next, none, [], [], rfl, rfl, by simp, by simp, by simp, ?_,
    Nat.le_of_eq nextId.symm, by simp, coherent⟩
  intro req member
  exact .inl ⟨mem_append_left _ (requests req member), by simp⟩

theorem holders_append (first second : List (ALockReq Owner)) :
    holders (first ++ second) = holders first ++ holders second := filter_append ..

theorem holders_cons (unheld : req.status ≠ .lock) (rest : List (ALockReq Owner)) :
    holders (req :: rest) = holders rest := by
  simp [holders, isHolder, unheld]

variable {other : ALockReq Owner}

theorem mem_drop (member : other ∈ before ++ after) : other ∈ before ++ req :: after := by
  rw [mem_append] at member ⊢
  exact member.imp_right (mem_cons_of_mem _)

variable {requests : List (ALockReq Owner)}

theorem Settled.mono {status : LockStatus} {requests' : List (ALockReq Owner)}
    (settled : Settled status requests)
    (waiting : ∀ req ∈ requests', req.status = .wait → req ∈ requests) :
    Settled status requests' := by
  cases status with
  | free | rlocked =>
    intro req member waits
    exact settled req (waiting req member waits) waits
  | wlocked => trivial

theorem distinct_drop (distinct : ((before ++ req :: after).map ALockReq.id).Nodup) :
    ((before ++ after).map ALockReq.id).Nodup :=
  (((sublist_cons_self req after).append_left before).map _).nodup distinct

theorem not_mem_drop (distinct : ((before ++ req :: after).map ALockReq.id).Nodup)
    (member : other ∈ before ++ after) : other.id ≠ req.id := by
  rw [map_append, map_cons, nodup_append, nodup_cons] at distinct
  rcases mem_append.mp member with member | member
  · exact distinct.2.2 _ (mem_map_of_mem member) _ mem_cons_self
  · intro same
    exact distinct.2.1.1 (same ▸ mem_map_of_mem member)

theorem Coherent.drop (coherent : Coherent lock) (split : lock.requests = before ++ req :: after)
    (unheld : req.status ≠ .lock) {alarm : Alarm} (alarmed : Alarmed alarm (before ++ after)) :
    Coherent { lock with requests := before ++ after, alarm := alarm } := by
  have agrees := coherent.agrees
  have distinct := coherent.distinct
  rw [split] at agrees distinct
  have queued : ∀ other ∈ before ++ after, other ∈ lock.requests := by
    intro other member
    rw [split]
    exact mem_drop member
  refine ⟨?_, coherent.settled.mono fun other member _ => queued other member,
    fun other member => coherent.kinds other (queued other member),
    fun other member => coherent.older other (queued other member), distinct_drop distinct, alarmed⟩
  rw [holders_append, holders_cons unheld, ← holders_append] at agrees
  exact agrees

theorem Coherent.alarmed_settle (coherent : Coherent lock)
    (split : lock.requests = before ++ req :: after) (waits : req.status = .wait)
    (stay : ∀ other ∈ before ++ after, other ∈ requests)
    (origin : ∀ other ∈ requests, other ∈ before ++ after ∨
      (other.status ≠ .wait ∧ other.alarmId = req.alarmId)) :
    Alarmed (lock.alarm.remove req.alarmId) requests := by
  have distinct := coherent.distinct
  have alarmed := coherent.alarmed
  rw [split] at distinct alarmed
  have were : ∀ other ∈ [req], other ∈ before ++ req :: after ∧ other.status = .wait := by
    intro other member
    rw [mem_singleton.mp member]
    exact ⟨by simp, waits⟩
  refine alarmed.settle distinct were ?_ ?_
  · intro other member _ notReq
    apply stay
    rw [mem_append, mem_cons] at member
    rw [mem_append]
    rw [mem_singleton] at notReq
    tauto
  · intro other member
    rcases origin other member with stays | settled
    · refine .inl ⟨mem_drop stays, fun isReq => ?_⟩
      exact not_mem_drop distinct stays (by rw [mem_singleton.mp isReq])
    · exact .inr ⟨settled.1, req, by simp, settled.2⟩

end Basics

section Arrival

variable {lock : TimeoutALock Owner}

theorem Coherent.ids_concat (coherent : Coherent lock) {req : ALockReq Owner}
    (newId : req.id = lock.nextId) :
    (∀ other ∈ lock.requests ++ [req], other.id < lock.nextId + 1) ∧
      ((lock.requests ++ [req]).map ALockReq.id).Nodup := by
  constructor
  · refine forall_mem_concat (fun other member => ?_) ?_
    · exact Nat.lt_succ_of_lt (coherent.older other member)
    · exact newId ▸ Nat.lt_succ_self _
  · exact nodup_map_concat coherent.distinct fun old member =>
      newId ▸ Nat.ne_of_lt (coherent.older old member)

theorem Coherent.kinds_concat (coherent : Coherent lock) {req : ALockReq Owner}
    (kind : req.status = .wait ∨ req.status = .lock ∨ req.status = .timeout) :
    ∀ other ∈ lock.requests ++ [req], other.status = .wait ∨ other.status = .lock ∨
        other.status = .timeout := forall_mem_concat coherent.kinds kind

variable {type : LockType}

section

variable (coherent : Coherent lock)

include coherent

theorem Coherent.agrees_grant {req : ALockReq Owner} (isType : req.type = type)
    (lockable : Lockable lock type) :
    LockStatusWord.Agrees ALockReq.type (lockedBy type)
      (readersAfter lock.nRlock type) (holders lock.requests ++ [req]) := by
  have agrees := coherent.agrees
  cases type with
  | rlock =>
    refine agrees.concat isType ?_
    rcases lockable with free | ⟨rlocked, -⟩
    · simp [free]
    · simp [rlocked]
  | wlock =>
    have free : lock.status = .free := by
      rcases lockable with free | ⟨-, reader⟩
      · exact free
      · cases reader
    rw [free] at agrees
    obtain ⟨nobody, none⟩ := agrees
    rw [nobody]
    exact ⟨⟨req, rfl, isType⟩, none⟩

theorem Coherent.settled_grant (lockable : Lockable lock type) :
    Settled (lockedBy type) lock.requests := by
  have settled := coherent.settled
  cases type with
  | wlock => trivial
  | rlock =>
    rcases lockable with free | ⟨rlocked, -⟩
    · rw [free] at settled
      exact fun req member waits => absurd waits (settled req member)
    · rwa [rlocked] at settled

theorem vlock_grant (lockable : Lockable lock type) (owner : Owner) (tmNow : Nat) :
    Turns lock (some (vlock lock type owner tmNow)) := by
  let req := newReq lock type owner
  obtain ⟨older, distinct⟩ := coherent.ids_concat
    (show (req.withStatus .lock).id = lock.nextId from rfl)
  let next : TimeoutALock Owner := { lock with
    nextId := lock.nextId + 1
    status := lockedBy type
    nRlock := readersAfter lock.nRlock type
    requests := lock.requests ++ [req.withStatus .lock] }
  refine ⟨[req.yes], next, some req, [req], [], ?_, rfl, by simp, ?_, ?_, ?_, Nat.le_succ _, ?_, ?_⟩
  · have lockable' : Lockable { lock with nextId := lock.nextId + 1 } type := lockable
    unfold vlock
    rw [if_pos lockable']
  · intro other member
    have isReq : other = req := by simpa using member
    rw [isReq]
    exact ⟨by simp, rfl⟩
  · intro other member
    rw [mem_singleton.mp member]
    exact mem_append_right _ mem_cons_self
  · intro other member
    rcases mem_append.mp member with member | member
    · refine .inl ⟨mem_append_left _ member, ?_⟩
      intro isReq
      have isReq : other = req := by simpa using isReq
      have old := coherent.older other member
      rw [isReq] at old
      exact Nat.lt_irrefl _ old
    · exact .inr (.inl ⟨req, by simp, mem_singleton.mp member⟩)
  · rintro other ⟨⟩
    exact ⟨rfl, Nat.lt_succ_self _, rfl⟩
  · refine ⟨?_, ?_, coherent.kinds_concat (.inr (.inl rfl)), older, distinct,
      coherent.alarmed.push (by simp [ALockReq.withStatus]) rfl⟩
    · have one : holders [req.withStatus .lock] = [req.withStatus .lock] := by
        simp [holders, isHolder, ALockReq.withStatus]
      rw [holders_append, one]
      exact coherent.agrees_grant rfl lockable
    · refine (coherent.settled_grant lockable).mono ?_
      exact forall_mem_concat (fun other member _ => member) (by rintro ⟨⟩)

/-- The newcomer waits and gets an alarm. -/
theorem vlock_wait (blocked : ¬ Lockable lock type) (patient : 0 < lock.tmWait) (owner : Owner)
    (tmNow : Nat) : Turns lock (some (vlock lock type owner tmNow)) := by
  let req : ALockReq Owner := { newReq lock type owner with alarmId := lock.alarm.nextId }
  obtain ⟨older, distinct⟩ := coherent.ids_concat (show req.id = lock.nextId from rfl)
  refine ⟨[], { lock with
      nextId := lock.nextId + 1
      requests := lock.requests ++ [req]
      alarm := lock.alarm.add ((tmNow + lock.tmWait) % 2 ^ 64) req.id },
    some req, [], [], ?_, rfl, by simp, by simp, by simp, ?_, Nat.le_succ _, ?_,
    ?_⟩
  · have blocked' : ¬ Lockable { lock with nextId := lock.nextId + 1 } type := blocked
    unfold vlock
    rw [if_neg blocked', if_pos patient]
  · exact fun other member => .inl ⟨by simpa using member, by simp⟩
  · rintro other ⟨⟩
    exact ⟨rfl, Nat.lt_succ_self _, rfl⟩
  · refine ⟨?_, ?_, coherent.kinds_concat (.inl rfl), older, distinct, coherent.alarmed.add _ ?_ ?_⟩
    · have none : holders [req] = [] := holders_cons (by simp [req, newReq]) []
      rw [holders_append, none, append_nil]
      exact coherent.agrees
    · have settled := coherent.settled
      cases status : lock.status with
      | free => exact absurd (.inl status) blocked
      | wlocked => trivial
      | rlocked =>
        rw [status] at settled
        intro other member waits
        rcases mem_append.mp member with member | member
        · exact settled other member waits
        · rw [mem_singleton.mp member]
          cases isType : type with
          | wlock => exact isType
          | rlock => exact absurd (.inr ⟨status, isType⟩) blocked
    · intro other member
      rw [mem_singleton.mp member]
      exact ⟨rfl, rfl, rfl⟩
    · rintro id ⟨⟩
      exact ⟨req, by simp, rfl⟩

theorem vlock_refuse (blocked : ¬ Lockable lock type) (impatient : ¬ 0 < lock.tmWait)
    (owner : Owner) (tmNow : Nat) : Turns lock (some (vlock lock type owner tmNow)) := by
  let req := newReq lock type owner
  refine ⟨[req.no], { lock with nextId := lock.nextId + 1 }, some req, [], [req],
    ?_, rfl, by simp, ?_, by simp, ?_, Nat.le_succ _, ?_, ?_⟩
  · have blocked' : ¬ Lockable { lock with nextId := lock.nextId + 1 } type := blocked
    unfold vlock
    rw [if_neg blocked', if_neg impatient]
  · intro other member
    have isReq : other = req := by simpa using member
    rw [isReq]
    exact ⟨by simp, rfl⟩
  · intro other member
    refine .inl ⟨mem_append_left _ member, ?_⟩
    intro isReq
    have isReq : other = req := by simpa using isReq
    have old := coherent.older other member
    rw [isReq] at old
    exact Nat.lt_irrefl _ old
  · rintro other ⟨⟩
    exact ⟨rfl, Nat.lt_succ_self _, rfl⟩
  · exact ⟨coherent.agrees, coherent.settled, coherent.kinds,
      fun other member => Nat.lt_succ_of_lt (coherent.older other member),
      coherent.distinct, coherent.alarmed⟩

theorem vlock_turns (type : LockType) (owner : Owner) (tmNow : Nat) :
    Turns lock (some (vlock lock type owner tmNow)) := by
  by_cases lockable : Lockable lock type
  · exact vlock_grant coherent lockable owner tmNow
  · by_cases patient : 0 < lock.tmWait
    · exact vlock_wait coherent lockable patient owner tmNow
    · exact vlock_refuse coherent lockable patient owner tmNow

end

end Arrival

end SRPC.Timeout
