import SRPC.WaitDieLockSafety

/-! # A request arriving at the wait-die lock -/

namespace SRPC.WaitDie

variable {Owner : Type*}

/-- The call succeeds with a move. -/
def Moves (lock : WaitDieALock Owner) (call : LockCall Owner)
    (result : Option (Outcome Owner)) : Prop :=
  ∃ callbacks next, result = some (callbacks, next) ∧ Move lock call callbacks next ∧ Coherent next

theorem moves_intro {lock next : WaitDieALock Owner} {call : LockCall Owner}
    {callbacks : List (Callback Owner)} (coherent : Coherent lock)
    (move : Move lock call callbacks next)
    (shape : Shape next.status next.nRlock next.requests) (counts : Counts next next.requests)
    (live : next.done = false) : Moves lock call (some (callbacks, next)) := by
  obtain ⟨safe, idle⟩ := shape.safe counts
  exact ⟨callbacks, next, rfl, move, coherent_of_move coherent move safe idle live⟩

section Arrival

variable {lock : WaitDieALock Owner}

theorem exists_writer_of_not_available (coherent : Coherent lock)
    (unavailable : ¬ Available lock .rlock) : ∃ req ∈ lock.requests, req.type = .wlock := by
  cases statusEq : lock.status with
  | free => exact absurd (Or.inl statusEq) unavailable
  | wlocked =>
    obtain ⟨front, rest, requests, writer, _, _⟩ := coherent.wlocked statusEq
    exact ⟨front, by simp [requests], writer⟩
  | rlocked =>
    by_contra noWriter
    push Not at noWriter
    have zero : lock.requests.countP isWlock = 0 := by
      rw [countP_isWlock_eq_zero]
      intro req member
      cases typeEq : req.type with
      | rlock => rfl
      | wlock => exact absurd typeEq (noWriter req member)
    refine unavailable (Or.inr ⟨statusEq, rfl, ?_⟩)
    simp [coherent.writers, zero]

theorem readers_of_available (coherent : Coherent lock) (available : Available lock .rlock) :
    lock.nRlock = lock.requests.length ∧
      (∀ req ∈ lock.requests, req.type = .rlock ∧ req.status = .lock) ∧
        (if lock.nRlock = 0 then .rlocked else lock.status) = .rlocked := by
  rcases available with free | ⟨rlocked, -, noWriter⟩
  · have unread := coherent.idle (by simp [free])
    simp [coherent.free_iff.mp free, unread]
  · obtain ⟨held, waiting, requests, -, count, holders, -, blocked⟩ := coherent.rlocked rlocked
    have zero : lock.requests.countP isWlock = 0 := by
      have := coherent.writers
      omega
    have noWaiting : waiting = [] := by
      cases waiting with
      | nil => rfl
      | cons first later =>
        have reader := countP_isWlock_eq_zero.mp zero first (by simp [requests])
        rw [blocked first rfl] at reader
        cases reader
    rw [noWaiting, List.append_nil] at requests
    rw [requests]
    exact ⟨count, holders, by simp [rlocked]⟩

theorem vlock_rlock_available (coherent : Coherent lock) (priority : Int)
    (owner : Owner) (available : Available lock .rlock) :
    Moves lock (.vlock .rlock priority owner)
      (readAcquire (enqueued (getNextId lock) .rlock) lock.requests
      (newReq lock .rlock priority owner) []) := by
  obtain ⟨count, holders, status⟩ := readers_of_available coherent available
  have shape : Shape .rlocked (lock.nRlock + 1)
      (lock.requests ++ [(newReq lock .rlock priority owner).granted]) := by
    refine ⟨_, [], (List.append_nil _).symm, by simp, by simp [count], ?_, by simp, by simp⟩
    exact List.forall_mem_append.mpr ⟨holders, by simp [newReq, LockReq.granted]⟩
  rw [readAcquire, if_pos ⟨rfl, rfl⟩]
  refine moves_intro coherent (.grant rfl rfl ?_) (status.symm ▸ shape)
    (enqueued_counts coherent.counts (newReq lock .rlock priority owner).granted) coherent.live
  rintro other member (writer | writer)
  · simp [(holders other member).1] at writer
  · cases writer

theorem vlock_wlock_available (coherent : Coherent lock) (priority : Int)
    (owner : Owner) (free : lock.status = .free) :
    Moves lock (.vlock .wlock priority owner)
      (writeAcquire (enqueued (getNextId lock) .wlock) lock.requests
      (newReq lock .wlock priority owner) []) := by
  have empty := coherent.free_iff.mp free
  rw [writeAcquire, if_pos ⟨rfl, rfl⟩]
  refine moves_intro coherent (.grant rfl rfl (by simp [empty])) ⟨?_, ?_⟩
    (enqueued_counts coherent.counts (newReq lock .wlock priority owner).granted) coherent.live
  · exact ⟨(newReq lock .wlock priority owner).granted, [], by simp [empty], rfl, rfl, by simp⟩
  · exact coherent.idle (by simp [free])

theorem first_of_waitDie (coherent : Coherent lock) {type : LockType}
    {priority : Int} (owner : Owner) (verdict : waitDie lock type priority = some .wait) :
    ∀ other ∈ lock.requests, Conflicts other (newReq lock type priority owner) →
        priority < other.priority := by
  have ordered := List.pairwise_reverse.mpr coherent.ordered
  intro other member conflict
  have reversed := List.mem_reverse.mpr member
  cases type with
  | wlock =>
    simp only [waitDie, Option.some.injEq] at verdict
    exact waitDieWrite_wait ordered verdict other reversed
  | rlock =>
    rcases conflict with writer | writer
    · exact waitDieRead_wait ordered verdict other reversed writer
    · cases writer

theorem Shape.concat {status : LockStatus} {n : Int} {requests : List (LockReq Owner)}
    {req : LockReq Owner} (shape : Shape status n requests) (taken : status ≠ .free)
    (waits : req.status = .wait)
    (blocker : req.type = .wlock ∨ ∃ other ∈ requests, other.type = .wlock) :
    Shape status n (requests ++ [req]) := by
  have single : ∀ other ∈ [req], other.status = .wait := by simpa using waits
  cases status with
  | free => exact absurd rfl taken
  | wlocked =>
    obtain ⟨⟨front, rest, rfl, writer, held, others⟩, unread⟩ := shape
    exact ⟨⟨front, rest ++ [req], rfl, writer, held,
      List.forall_mem_append.mpr ⟨others, single⟩⟩, unread⟩
  | rlocked =>
    obtain ⟨held, waiting, rfl, nonempty, count, holders, others, blocked⟩ := shape
    refine ⟨held, waiting ++ [req], List.append_assoc .., nonempty, count, holders,
      List.forall_mem_append.mpr ⟨others, single⟩, ?_⟩
    intro first head
    cases waiting with
    | cons next later => exact blocked first head
    | nil =>
      obtain rfl : req = first := by simpa using head
      rcases blocker with writer | ⟨other, member, writer⟩
      · exact writer
      · rw [(holders other (by simpa using member)).1] at writer
        cases writer

theorem vlock_wait (coherent : Coherent lock) (type : LockType)
    (priority : Int) (owner : Owner) (unavailable : ¬ Available lock type)
    (verdict : waitDie lock type priority = some .wait) :
    Moves lock (.vlock type priority owner) (some ([],
      { enqueued (getNextId lock) type with
        requests := lock.requests ++ [newReq lock type priority owner] })) := by
  have counts : Counts (getNextId lock) lock.requests := coherent.counts
  have blocker : type = .wlock ∨ ∃ other ∈ lock.requests, other.type = .wlock := by
    cases type with
    | wlock => exact .inl rfl
    | rlock => exact .inr (exists_writer_of_not_available coherent unavailable)
  have shape : Shape lock.status lock.nRlock (lock.requests ++ [newReq lock type priority owner]) :=
    coherent.shape.concat (fun free => unavailable (.inl free)) rfl blocker
  refine moves_intro coherent
    (.wait (by simp [getNextId]) rfl (first_of_waitDie coherent owner verdict))
    (by simpa [getNextId] using shape) (enqueued_counts counts (newReq lock type priority owner))
    (by simpa [getNextId] using coherent.live)

theorem vlock_die (coherent : Coherent lock) (type : LockType) (priority : Int) (owner : Owner) :
    Moves lock (.vlock type priority owner)
      (some ([(newReq lock type priority owner).no], getNextId lock)) :=
  moves_intro coherent (.die rfl rfl) coherent.shape coherent.counts coherent.live

/-- `vlock` grants, queues or refuses the newcomer. -/
theorem vlock_moves (coherent : Coherent lock) (type : LockType) (priority : Int) (owner : Owner) :
    Moves lock (.vlock type priority owner) (vlock lock type priority owner) := by
  have live : ¬ (getNextId lock).done = true := by
    simp [getNextId, coherent.live]
  simp only [vlock]
  rw [if_neg live]
  by_cases available : Available lock type
  · rw [if_pos (show Available (getNextId lock) type from available)]
    cases type with
    | rlock => exact vlock_rlock_available coherent priority owner available
    | wlock =>
      rcases available with free | ⟨_, reader, _⟩
      · exact vlock_wlock_available coherent priority owner free
      · cases reader
  · rw [if_neg (show ¬ Available (getNextId lock) type from available)]
    have answered : ∃ verdict, waitDie lock type priority = some verdict := by
      cases type with
      | wlock => exact ⟨_, rfl⟩
      | rlock =>
        obtain ⟨req, member, writer⟩ := exists_writer_of_not_available coherent available
        exact waitDieRead_isSome ⟨req, List.mem_reverse.mpr member, writer⟩
    obtain ⟨verdict, verdictEq⟩ := answered
    rw [show waitDie (getNextId lock) type priority = some verdict from verdictEq]
    cases verdict with
    | wait => exact vlock_wait coherent type priority owner available verdictEq
    | die => exact vlock_die coherent type priority owner

end Arrival

end SRPC.WaitDie
