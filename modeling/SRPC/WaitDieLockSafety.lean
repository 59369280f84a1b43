import SRPC.WaitDieLock
import Mathlib.Data.List.Pairwise
import Mathlib.Data.List.TakeWhile

/-!
# Safety of the wait-die lock

One invariant ties the queue shape, the status word and the counters together.
Every call is one of five moves of the request queue.
-/

namespace SRPC.WaitDie

open List

variable {Owner : Type*}

/-- Two requests conflict when at least one of them is a write request. -/
def Conflicts (first second : LockReq Owner) : Prop :=
  first.type = .wlock ∨ second.type = .wlock

/-- The queue shape, status word and counters that belong together. -/
structure Safe (lock : WaitDieALock Owner) : Prop where
  free_iff : lock.status = .free ↔ lock.requests = []
  wlocked : lock.status = .wlocked →
    ∃ front rest, lock.requests = front :: rest ∧
      front.type = .wlock ∧ front.status = .lock ∧ ∀ req ∈ rest, req.status = .wait
  rlocked : lock.status = .rlocked →
    ∃ held waiting, lock.requests = held ++ waiting ∧ held ≠ [] ∧
      lock.nRlock = held.length ∧
        (∀ req ∈ held, req.type = .rlock ∧ req.status = .lock) ∧
          (∀ req ∈ waiting, req.status = .wait) ∧
            ∀ first, waiting.head? = some first → first.type = .wlock
  readers : lock.nRInQueue = lock.requests.countP isRlock
  writers : lock.nWInQueue = lock.requests.countP isWlock

/-- `Safe` together with what the individual calls rely on. -/
structure Coherent (lock : WaitDieALock Owner) : Prop extends Safe lock where
  idle : lock.status ≠ .rlocked → lock.nRlock = 0
  live : lock.done = false
  older : ∀ req ∈ lock.requests, req.id < lock.nextId
  distinct : (lock.requests.map LockReq.id).Nodup
  ordered : lock.requests.Pairwise fun first second =>
    Conflicts first second → second.priority < first.priority

theorem coherent_fresh : Coherent (fresh : WaitDieALock Owner) where
  free_iff := by simp [fresh]
  wlocked := by simp [fresh]
  rlocked := by simp [fresh]
  readers := by simp [fresh]
  writers := by simp [fresh]
  idle := by simp [fresh]
  live := rfl
  older := by simp [fresh]
  distinct := by simp [fresh]
  ordered := by simp [fresh]

/-- The effect of a call on the queue and the callbacks it emits. -/
inductive Move (lock : WaitDieALock Owner) :
    LockCall Owner → List (Callback Owner) → WaitDieALock Owner → Prop
  | grant {next : WaitDieALock Owner} {type : LockType} {priority : Int}
      {owner : Owner} (nextId : next.nextId = lock.nextId + 1)
      (requests : next.requests = lock.requests ++ [(newReq lock type priority owner).granted])
      (first : ∀ other ∈ lock.requests, Conflicts other (newReq lock type priority owner) →
          priority < other.priority) :
      Move lock (.vlock type priority owner) [(newReq lock type priority owner).yes] next
  | wait {next : WaitDieALock Owner} {type : LockType} {priority : Int}
      {owner : Owner} (nextId : next.nextId = lock.nextId + 1)
      (requests : next.requests = lock.requests ++ [newReq lock type priority owner])
      (first : ∀ other ∈ lock.requests, Conflicts other (newReq lock type priority owner) →
          priority < other.priority) :
      Move lock (.vlock type priority owner) [] next
  | die {next : WaitDieALock Owner} {type : LockType} {priority : Int}
      {owner : Owner} (nextId : next.nextId = lock.nextId + 1)
      (requests : next.requests = lock.requests) :
      Move lock (.vlock type priority owner) [(newReq lock type priority owner).no] next
  | skip {next : WaitDieALock Owner} {id : Nat} (nextId : next.nextId = lock.nextId)
      (requests : next.requests = lock.requests) :
      Move lock (.abort id) [] next
  | remove {next : WaitDieALock Owner} {id : Nat} (nextId : next.nextId = lock.nextId)
      (before : List (LockReq Owner)) (req : LockReq Owner) (promoted after : List (LockReq Owner))
      (was : lock.requests = before ++ req :: (promoted ++ after))
      (waiting : ∀ other ∈ promoted, other.status = .wait)
      (requests :
        next.requests = before ++ (promoted.map LockReq.granted ++ after)) :
      Move lock (.abort id)
        (promoted.map LockReq.yes ++ if req.status = .wait then [req.no] else [])
        next

section Search

variable {priority : Int}

theorem waitDieWrite_wait {requests : List (LockReq Owner)}
    (ordered : requests.Pairwise fun second first =>
      Conflicts first second → second.priority < first.priority)
    (verdict : waitDieWrite priority requests = .wait) :
    ∀ req ∈ requests, priority < req.priority := by
  induction requests with
  | nil => simp
  | cons last earlier ih =>
    rw [waitDieWrite] at verdict
    rw [pairwise_cons] at ordered
    split_ifs at verdict with tooYoung isWriter
    · intro req member
      rcases mem_cons.mp member with rfl | member
      · omega
      · have above := ordered.1 req member (Or.inr isWriter)
        omega
    · intro req member
      rcases mem_cons.mp member with rfl | member
      · omega
      · exact ih ordered.2 verdict req member

theorem waitDieRead_wait {requests : List (LockReq Owner)}
    (ordered : requests.Pairwise fun second first =>
      Conflicts first second → second.priority < first.priority)
    (verdict : waitDieRead priority requests = some .wait) :
    ∀ req ∈ requests, req.type = .wlock → priority < req.priority := by
  induction requests with
  | nil => simp
  | cons last earlier ih =>
    rw [waitDieRead] at verdict
    rw [pairwise_cons] at ordered
    split_ifs at verdict with isWriter older
    · intro req member writer
      rcases mem_cons.mp member with rfl | member
      · exact older
      · have above := ordered.1 req member (Or.inr isWriter)
        omega
    · simp at verdict
    · intro req member writer
      rcases mem_cons.mp member with rfl | member
      · exact absurd writer isWriter
      · exact ih ordered.2 verdict req member writer

theorem waitDieRead_isSome {requests : List (LockReq Owner)}
    (writer : ∃ req ∈ requests, req.type = .wlock) :
    ∃ verdict, waitDieRead priority requests = some verdict := by
  induction requests with
  | nil => simp at writer
  | cons last earlier ih =>
    rw [waitDieRead]
    split_ifs with isWriter older
    · exact ⟨_, rfl⟩
    · exact ⟨_, rfl⟩
    · obtain ⟨req, member, isW⟩ := writer
      rcases mem_cons.mp member with rfl | member
      · exact absurd isW isWriter
      · exact ih ⟨req, member, isW⟩

end Search

section Counters

variable (lock : WaitDieALock Owner) (type : LockType)

@[simp]
theorem enqueued_rest : (enqueued lock type).status = lock.status ∧
    (enqueued lock type).nRlock = lock.nRlock ∧ (enqueued lock type).nextId = lock.nextId ∧
    (enqueued lock type).done = lock.done := by
  cases type <;> exact ⟨rfl, rfl, rfl, rfl⟩

@[simp]
theorem dequeued_rest : (dequeued lock type).status = lock.status ∧
    (dequeued lock type).nRlock = lock.nRlock ∧ (dequeued lock type).nextId = lock.nextId ∧
    (dequeued lock type).done = lock.done := by
  cases type <;> exact ⟨rfl, rfl, rfl, rfl⟩

end Counters

section Counts

variable {lock : WaitDieALock Owner} {before promoted after requests : List (LockReq Owner)}

/-- The counters are the numbers of these requests of either type. -/
def Counts (lock : WaitDieALock Owner) (requests : List (LockReq Owner)) : Prop :=
  lock.nRInQueue = requests.countP isRlock ∧ lock.nWInQueue = requests.countP isWlock

theorem Safe.counts (safe : Safe lock) : Counts lock lock.requests := ⟨safe.readers, safe.writers⟩

theorem enqueued_counts (counts : Counts lock requests) (req : LockReq Owner) :
    Counts (enqueued lock req.type) (requests ++ [req]) := by
  obtain ⟨readers, writers⟩ := counts
  cases type : req.type <;>
    simp [Counts, enqueued, isRlock, isWlock, type] at readers writers ⊢ <;>
    omega

theorem dequeued_counts {req : LockReq Owner} (counts : Counts lock (before ++ req :: after)) :
    Counts (dequeued lock req.type) (before ++ after) := by
  obtain ⟨readers, writers⟩ := counts
  cases type : req.type <;>
    simp [dequeued, Counts, isRlock, isWlock, type] at readers writers ⊢ <;>
    omega

theorem counts_granted (counts : Counts lock (before ++ (promoted ++ after))) :
    Counts lock (before ++ (promoted.map LockReq.granted ++ after)) := by
  have readers : (isRlock ∘ LockReq.granted : LockReq Owner → Bool) = isRlock := rfl
  have writers : (isWlock ∘ LockReq.granted : LockReq Owner → Bool) = isWlock := rfl
  simpa [Counts, countP_map, readers, writers] using counts

theorem countP_isWlock_eq_zero : requests.countP isWlock = 0 ↔
    ∀ req ∈ requests, req.type = .rlock := by
  rw [countP_eq_zero]
  refine forall₂_congr fun req _ => ?_
  cases type : req.type <;> simp [isWlock, type]

end Counts

section Shapes

/-- The queue that belongs to a status word and a number of readers. -/
def Shape : LockStatus → Int → List (LockReq Owner) → Prop
  | .free, n, requests => requests = [] ∧ n = 0
  | .wlocked, n, requests =>
    (∃ front rest, requests = front :: rest ∧
      front.type = .wlock ∧ front.status = .lock ∧ ∀ req ∈ rest, req.status = .wait) ∧ n = 0
  | .rlocked, n, requests =>
    ∃ held waiting, requests = held ++ waiting ∧ held ≠ [] ∧ n = held.length ∧
      (∀ req ∈ held, req.type = .rlock ∧ req.status = .lock) ∧
        (∀ req ∈ waiting, req.status = .wait) ∧
          ∀ first, waiting.head? = some first → first.type = .wlock

theorem Coherent.shape {lock : WaitDieALock Owner} (coherent : Coherent lock) :
    Shape lock.status lock.nRlock lock.requests := by
  cases status : lock.status with
  | free => exact ⟨coherent.free_iff.mp status, coherent.idle (by simp [status])⟩
  | wlocked => exact ⟨coherent.wlocked status, coherent.idle (by simp [status])⟩
  | rlocked => exact coherent.rlocked status

theorem Shape.safe {lock : WaitDieALock Owner} (shape : Shape lock.status lock.nRlock lock.requests)
    (counts : Counts lock lock.requests) :
    Safe lock ∧ (lock.status ≠ .rlocked → lock.nRlock = 0) := by
  cases status : lock.status with
  | free =>
    rw [status] at shape
    exact ⟨⟨by simp [status, shape.1], by simp [status], by simp [status], counts.1, counts.2⟩,
      fun _ => shape.2⟩
  | wlocked =>
    rw [status] at shape
    obtain ⟨⟨front, rest, requests, held⟩, unread⟩ := shape
    exact ⟨⟨by simp [status, requests], fun _ => ⟨front, rest, requests, held⟩,
      by simp [status], counts.1, counts.2⟩, fun _ => unread⟩
  | rlocked =>
    rw [status] at shape
    obtain ⟨held, waiting, requests, nonempty, parts⟩ := shape
    exact ⟨⟨by simp [status, requests, nonempty], by simp [status],
      fun _ => ⟨held, waiting, requests, nonempty, parts⟩, counts.1, counts.2⟩, nofun⟩

variable {reqs : List (LockReq Owner)}

theorem readAcquireAll_eq {lock : WaitDieALock Owner} {before after : List (LockReq Owner)}
    (readers : ∀ req ∈ reqs, req.type = .rlock ∧ req.status = .wait) :
    readAcquireAll lock before reqs after = some (reqs.map LockReq.yes,
      { lock with
        status :=
          if lock.nRlock = 0 ∧ reqs ≠ [] then .rlocked else lock.status
        nRlock := lock.nRlock + reqs.length
        requests := before ++ (reqs.map LockReq.granted ++ after) }) := by
  rw [readAcquireAll]
  by_cases nobody : reqs = []
  · simp [nobody]
  · rw [if_neg nobody, if_pos readers]
    simp [nobody]

variable {α : Type*}

theorem exists_split_right {p : α → Prop} {left right before after : List α} {member : α}
    (split : left ++ right = before ++ member :: after) (all : ∀ x ∈ left, p x)
    (fails : ¬ p member) :
    ∃ middle, before = left ++ middle ∧ right = middle ++ member :: after := by
  rcases append_eq_append_iff.mp split with
    ⟨middle, beforeEq, rightEq⟩ | ⟨block, leftEq, restEq⟩
  · exact ⟨middle, beforeEq, rightEq⟩
  · cases block with
    | nil => exact ⟨[], by simpa using leftEq.symm, by simpa using restEq.symm⟩
    | cons first block =>
      simp only [cons_append, List.cons.injEq] at restEq
      exact absurd (all member (by simp [leftEq, restEq.1])) fails

theorem exists_split_left {p : α → Prop} {left right before after : List α} {member : α}
    (split : left ++ right = before ++ member :: after) (all : ∀ x ∈ right, p x)
    (fails : ¬ p member) :
    ∃ middle, left = before ++ member :: middle ∧ after = middle ++ right := by
  rcases append_eq_append_iff.mp split with
    ⟨middle, beforeEq, rightEq⟩ | ⟨block, leftEq, restEq⟩
  · exact absurd (all member (by simp [rightEq])) fails
  · cases block with
    | nil =>
      simp only [nil_append] at restEq
      exact absurd (all member (by simp [← restEq])) fails
    | cons first block =>
      simp only [cons_append, List.cons.injEq] at restEq
      obtain ⟨rfl, rfl⟩ := restEq
      exact ⟨block, leftEq, rfl⟩

theorem head?_dropWhile_isRlock {first : LockReq Owner}
    (head : (reqs.dropWhile isRlock).head? = some first) : first.type = .wlock := by
  have notReader := head?_dropWhile_not isRlock reqs
  rw [head] at notReader
  cases typeEq : first.type with
  | rlock => simp [isRlock, typeEq] at notReader
  | wlock => rfl

theorem takeWhile_isRlock_type {req : LockReq Owner} (member : req ∈ reqs.takeWhile isRlock) :
    req.type = .rlock := by
  have reader := mem_takeWhile_imp member
  simpa [isRlock] using reader

end Shapes

section Moves

variable {lock next : WaitDieALock Owner} {call : LockCall Owner}
  {callbacks : List (Callback Owner)}

private theorem coherent_append (coherent : Coherent lock) {req : LockReq Owner}
    (newId : req.id = lock.nextId)
    (first : ∀ other ∈ lock.requests, Conflicts other req →
      req.priority < other.priority) (safe : Safe next)
    (idle : next.status ≠ .rlocked → next.nRlock = 0)
    (live : next.done = false) (nextId : next.nextId = lock.nextId + 1)
    (requests : next.requests = lock.requests ++ [req]) : Coherent next := by
  have older := coherent.older
  refine ⟨safe, idle, live, ?_, ?_, ?_⟩
  · rw [requests, forall_mem_append, forall_mem_singleton]
    exact ⟨fun other member => by have := older other member; omega, by omega⟩
  · rw [requests]
    exact nodup_map_concat coherent.distinct fun other member =>
      newId ▸ Nat.ne_of_lt (older other member)
  · rw [requests, pairwise_append]
    refine ⟨coherent.ordered, by simp, fun other member => ?_⟩
    rw [forall_mem_singleton]
    exact first other member

private theorem coherent_same (coherent : Coherent lock) (safe : Safe next)
    (idle : next.status ≠ .rlocked → next.nRlock = 0) (live : next.done = false)
    (nextId : lock.nextId ≤ next.nextId) (requests : next.requests = lock.requests) :
    Coherent next := by
  refine ⟨safe, idle, live, ?_, requests ▸ coherent.distinct, requests ▸ coherent.ordered⟩
  intro other member
  exact Nat.lt_of_lt_of_le (coherent.older other (requests ▸ member)) nextId

/-- A move keeps the invariant. -/
theorem coherent_of_move (coherent : Coherent lock)
    (move : Move lock call callbacks next) (safe : Safe next)
    (idle : next.status ≠ .rlocked → next.nRlock = 0)
    (live : next.done = false) : Coherent next := by
  cases move with
  | @grant _ type priority owner nextId requests first =>
    have newId : (newReq lock type priority owner).granted.id = lock.nextId :=
      rfl
    exact coherent_append coherent newId first safe idle live nextId requests
  | wait nextId requests first =>
    exact coherent_append coherent rfl first safe idle live nextId requests
  | die nextId requests => exact coherent_same coherent safe idle live (by omega) requests
  | skip nextId requests => exact coherent_same coherent safe idle live nextId.ge requests
  | remove nextId before req promoted after was waiting requests =>
    have kept : (before ++ (promoted ++ after)).Sublist lock.requests := by
      rw [was]
      exact List.Sublist.append_left (sublist_cons_self _ _) _
    have ids : next.requests.map LockReq.id = (before ++ (promoted ++ after)).map LockReq.id := by
      simp [requests, LockReq.granted, Function.comp_def]
    refine ⟨safe, idle, live, ?_, ?_, ?_⟩
    · intro other member
      have otherId := mem_map_of_mem (f := LockReq.id) member
      rw [ids] at otherId
      obtain ⟨old, oldMember, idEq⟩ := mem_map.mp otherId
      have := coherent.older old (kept.subset oldMember)
      omega
    · rw [ids]
      exact (kept.map LockReq.id).nodup coherent.distinct
    · -- Granting a request changes neither its type nor its priority.
      have ordered := coherent.ordered.sublist kept
      rw [requests]
      simpa [pairwise_append, pairwise_map, Conflicts, LockReq.granted, or_imp,
        forall_and] using ordered

end Moves

end SRPC.WaitDie
