import SRPC.WaitDieLockArrival

/-! # Removing a request from the wait-die lock -/

namespace SRPC.WaitDie

open List

variable {Owner : Type*}

section Removal

variable {lock : WaitDieALock Owner} {before after : List (LockReq Owner)} {req : LockReq Owner}
  {id : Nat} {next : WaitDieALock Owner}

theorem move_of_remove {callbacks : List (Callback Owner)} (nextId : next.nextId = lock.nextId)
    (before promoted after : List (LockReq Owner))
    (split : lock.requests = before ++ req :: (promoted ++ after))
    (waiting : ∀ other ∈ promoted, other.status = .wait)
    (requests : next.requests = before ++ (promoted.map LockReq.granted ++ after))
    (emitted : callbacks = promoted.map LockReq.yes ++
      if req.status = .wait then [req.no] else []) : Move lock (.abort id) callbacks next := by
  subst emitted
  exact .remove nextId before req promoted after split waiting requests

section Places

variable {status : LockStatus} {n : Int}

section

variable (shape : Shape status n (before ++ req :: after))

include shape

theorem Shape.drop_waiting (waits : req.status = .wait)
    (stays : ¬ (req.type = .wlock ∧ before.countP isWlock = 0)) :
    Shape status n (before ++ after) := by
  cases status with
  | free => simp [Shape] at shape
  | wlocked =>
    obtain ⟨⟨front, rest, requests, writer, held, others⟩, unread⟩ := shape
    cases before with
    | nil =>
      obtain ⟨rfl, -⟩ := List.cons.inj requests
      rw [waits] at held
      cases held
    | cons first later =>
      obtain ⟨rfl, restEq⟩ := List.cons.inj requests
      rw [← restEq, List.append_eq, forall_mem_append, forall_mem_cons] at others
      exact ⟨⟨first, later ++ after, rfl, writer, held,
        forall_mem_append.mpr ⟨others.1, others.2.2⟩⟩, unread⟩
  | rlocked =>
    obtain ⟨held, waiting, requests, nonempty, count, holders, others, blocked⟩ := shape
    obtain ⟨ahead, rfl, rfl⟩ := exists_split_right requests.symm
      (fun other member => (holders other member).2) (by simp [waits])
    rw [forall_mem_append, forall_mem_cons] at others
    refine ⟨held, ahead ++ after, append_assoc .., nonempty, count, holders,
      forall_mem_append.mpr ⟨others.1, others.2.2⟩, ?_⟩
    intro first head
    cases ahead with
    | cons next later => exact blocked first head
    | nil =>
      refine absurd ⟨blocked req rfl, ?_⟩ stays
      rw [append_nil, countP_isWlock_eq_zero]
      exact fun other member => (holders other member).1

theorem Shape.first_waiting (waits : req.status = .wait) (noWriter : before.countP isWlock = 0) :
    status = .rlocked ∧ before ≠ [] ∧ n = before.length ∧
      (∀ other ∈ before, other.type = .rlock ∧ other.status = .lock) ∧
        ∀ other ∈ after, other.status = .wait := by
  have readers := countP_isWlock_eq_zero.mp noWriter
  cases status with
  | free => simp [Shape] at shape
  | wlocked =>
    obtain ⟨⟨front, rest, requests, writer, held, -⟩, -⟩ := shape
    cases before with
    | nil =>
      obtain ⟨rfl, -⟩ := List.cons.inj requests
      rw [waits] at held
      cases held
    | cons first later =>
      obtain ⟨rfl, -⟩ := List.cons.inj requests
      rw [readers first (by simp)] at writer
      cases writer
  | rlocked =>
    obtain ⟨held, waiting, requests, nonempty, count, holders, others, blocked⟩ := shape
    obtain ⟨ahead, rfl, rfl⟩ := exists_split_right requests.symm
      (fun other member => (holders other member).2) (by simp [waits])
    cases ahead with
    | nil =>
      rw [append_nil]
      exact ⟨rfl, nonempty, count, holders, fun other member => others other (by simp [member])⟩
    | cons first later =>
      have reader := readers first (by simp)
      rw [blocked first rfl] at reader
      cases reader

theorem Shape.writer (holds : req.status = .lock) (writer : req.type = .wlock) :
    before = [] ∧ n = 0 ∧ ∀ other ∈ after, other.status = .wait := by
  cases status with
  | free => simp [Shape] at shape
  | wlocked =>
    obtain ⟨⟨front, rest, requests, -, -, others⟩, unread⟩ := shape
    cases before with
    | nil =>
      obtain ⟨-, rfl⟩ := List.cons.inj requests
      exact ⟨rfl, unread, others⟩
    | cons first later =>
      obtain ⟨-, rfl⟩ := List.cons.inj requests
      have waits := others req (by simp)
      rw [holds] at waits
      cases waits
  | rlocked =>
    obtain ⟨held, waiting, requests, -, -, holders, others, -⟩ := shape
    obtain ⟨beside, rfl, -⟩ := exists_split_left requests.symm others (by simp [holds])
    have reader := (holders req (by simp)).1
    rw [writer] at reader
    cases reader

theorem Shape.reader (holds : req.status = .lock) (reader : req.type = .rlock) :
    status = .rlocked ∧ ∃ beside waiting, after = beside ++ waiting ∧
      n = before.length + beside.length + 1 ∧
        (∀ other ∈ before ++ beside, other.type = .rlock ∧ other.status = .lock) ∧
          (∀ other ∈ waiting, other.status = .wait) ∧
            ∀ first, waiting.head? = some first → first.type = .wlock := by
  cases status with
  | free => simp [Shape] at shape
  | wlocked =>
    obtain ⟨⟨front, rest, requests, writer, -, others⟩, -⟩ := shape
    have member : req ∈ front :: rest := by simp [← requests]
    rcases mem_cons.mp member with rfl | waiting
    · rw [reader] at writer
      cases writer
    · have waits := others req waiting
      rw [holds] at waits
      cases waits
  | rlocked =>
    obtain ⟨held, waiting, requests, -, count, holders, others, blocked⟩ := shape
    obtain ⟨beside, rfl, rfl⟩ := exists_split_left requests.symm others (by simp [holds])
    rw [forall_mem_append, forall_mem_cons] at holders
    refine ⟨rfl, beside, waiting, rfl, ?_,
      forall_mem_append.mpr ⟨holders.1, holders.2.2⟩, others, blocked⟩
    rw [count, length_append, length_cons]
    omega

end

end Places

variable {left : WaitDieALock Owner}

section

variable (coherent : Coherent lock)

include coherent

theorem moves_promote (split : lock.requests = before ++ req :: after)
    (counts : Counts left (before ++ after)) (nextId : left.nextId = lock.nextId)
    (live : left.done = false) (count : left.nRlock = before.length)
    (holders : ∀ other ∈ before, other.type = .rlock ∧ other.status = .lock)
    (others : ∀ other ∈ after, other.status = .wait)
    (somebody : if before = [] then after.takeWhile isRlock ≠ [] else left.status = .rlocked) :
    ∃ callbacks next,
      readAcquireAll left before (after.takeWhile isRlock) (after.dropWhile isRlock) =
          some (callbacks, next) ∧ next.status = .rlocked ∧
        Moves lock (.abort id)
          (some (callbacks ++ if req.status = .wait then [req.no] else [], next)) := by
  have parts : after.takeWhile isRlock ++ after.dropWhile isRlock = after :=
    takeWhile_append_dropWhile
  rw [← parts, forall_mem_append] at others
  have promoted : ∀ other ∈ after.takeWhile isRlock,
      other.type = .rlock ∧ other.status = .wait := fun other member =>
    ⟨takeWhile_isRlock_type member, others.1 other member⟩
  have status : (if left.nRlock = 0 ∧ after.takeWhile isRlock ≠ [] then .rlocked
      else left.status) = LockStatus.rlocked := by
    split_ifs at somebody with empty
    · exact if_pos ⟨by simp [count, empty], somebody⟩
    · simp [somebody]
  refine ⟨_, _, readAcquireAll_eq promoted, status, ?_⟩
  refine moves_intro coherent
    (move_of_remove nextId before _ _ (parts.symm ▸ split) others.1 rfl rfl) (status.symm ▸ ?_)
    (counts_granted (parts.symm ▸ counts)) live
  refine ⟨before ++ (after.takeWhile isRlock).map LockReq.granted, after.dropWhile isRlock,
    (append_assoc ..).symm, ?_, by simp [count], forall_mem_append.mpr ⟨holders, ?_⟩,
    others.2, fun _ head => head?_dropWhile_isRlock head⟩
  · split_ifs at somebody with empty
    · simpa [empty] using somebody
    · simp [empty]
  · rw [forall_mem_map]
    exact fun other member => ⟨(promoted other member).1, rfl⟩

theorem abortWaiting_moves (split : lock.requests = before ++ req :: after)
    (waits : req.status = .wait) : Moves lock (.abort id) (abortWaiting lock before req after) := by
  have shape := coherent.shape
  have counts := dequeued_counts (split ▸ coherent.counts)
  rw [split] at shape
  by_cases promotes : req.type = .wlock ∧ before.countP isWlock = 0
  · obtain ⟨status, nonempty, count, holders, others⟩ := shape.first_waiting waits promotes.2
    obtain ⟨callbacks, next, acquired, -, moves⟩ := moves_promote coherent split
      (show Counts { dequeued lock req.type with requests := before ++ after } _ from counts)
      (by simp) (by simpa using coherent.live) (by simpa using count) holders others
      (by simpa [nonempty] using status)
    rw [if_pos waits] at moves
    rw [abortWaiting, if_pos promotes, if_pos (by simpa using status), acquired, Option.map_some]
    exact moves
  · rw [abortWaiting, if_neg promotes]
    exact moves_intro coherent
      (move_of_remove (by simp) before [] after split (by simp) rfl (by simp [waits]))
      (by simpa using shape.drop_waiting waits promotes) counts (by simpa using coherent.live)

theorem moves_release (split : lock.requests = [req]) (holds : req.status = .lock)
    (counts : Counts next []) (nextId : next.nextId = lock.nextId) (free : next.status = .free)
    (unread : next.nRlock = 0) (live : next.done = false) (empty : next.requests = []) :
    Moves lock (.abort id) (some ([], next)) := by
  refine moves_intro coherent
    (move_of_remove nextId [] [] [] split (by simp) empty (by simp [holds])) ?_ ?_ live
  · rw [free]
    exact ⟨empty, unread⟩
  · rw [empty]
    exact counts

theorem moves_grant_writer {next : LockReq Owner} {later : List (LockReq Owner)}
    (split : lock.requests = req :: next :: later) (holds : req.status = .lock)
    (writer : next.type = .wlock) (waits : ∀ other ∈ next :: later, other.status = .wait)
    (counts : Counts left (next :: later)) (nextId : left.nextId = lock.nextId)
    (unread : left.nRlock = 0) (live : left.done = false) :
    Moves lock (.abort id) (writeAcquire left [] next later) := by
  obtain ⟨nextWaits, laterWait⟩ := forall_mem_cons.mp waits
  rw [writeAcquire, if_pos ⟨writer, nextWaits⟩]
  exact moves_intro coherent
    (move_of_remove nextId [] [next] later split (by simp [nextWaits]) rfl (by simp [holds]))
    ⟨⟨next.granted, later, rfl, writer, rfl, laterWait⟩, unread⟩ counts live

theorem unlockRead_moves (split : lock.requests = before ++ req :: after)
    (holds : req.status = .lock) (reader : req.type = .rlock) :
    Moves lock (.abort id) (unlockRead lock before req after) := by
  have counts := dequeued_counts (split ▸ coherent.counts)
  obtain ⟨status, beside, waiting, rfl, count, holders, others, blocked⟩ :=
    Shape.reader (split ▸ coherent.shape) holds reader
  have live : (dequeued lock req.type).done = false := by simpa using coherent.live
  simp only [unlockRead]
  by_cases lastReader : lock.nRlock - 1 = 0
  · have noBefore : before = [] := length_eq_zero_iff.mp (by omega)
    have noBeside : beside = [] := length_eq_zero_iff.mp (by omega)
    subst noBefore noBeside
    simp only [nil_append] at split counts ⊢
    rw [if_pos lastReader]
    cases waiting with
    | nil => exact moves_release coherent split holds counts (by simp) rfl lastReader live rfl
    | cons next later =>
      exact moves_grant_writer coherent split holds (blocked next rfl) others
        counts (by simp) lastReader live
  · rw [if_neg lastReader]
    refine moves_intro coherent (move_of_remove (by simp) before [] (beside ++ waiting) split
      (by simp) rfl (by simp [holds])) ?_ counts live
    have shape : Shape .rlocked (lock.nRlock - 1) (before ++ (beside ++ waiting)) := by
      refine ⟨before ++ beside, waiting, (append_assoc ..).symm, fun nobody => ?_,
        by rw [length_append]; omega, holders, others, blocked⟩
      have := congrArg List.length nobody
      rw [length_append, length_nil] at this
      omega
    simpa [status] using shape

theorem unlockWrite_moves (split : lock.requests = before ++ req :: after)
    (holds : req.status = .lock) (writer : req.type = .wlock) :
    Moves lock (.abort id) (unlockWrite lock before req after) := by
  have counts := dequeued_counts (split ▸ coherent.counts)
  obtain ⟨rfl, unread, others⟩ := Shape.writer (split ▸ coherent.shape) holds writer
  have live : (dequeued lock req.type).done = false := by simpa using coherent.live
  have idle : (dequeued lock req.type).nRlock = 0 := by simpa using unread
  cases after with
  | nil => exact moves_release coherent split holds counts (by simp) rfl idle live rfl
  | cons next later =>
    simp only [unlockWrite, nil_append]
    by_cases nextWriter : next.type = .wlock
    · rw [if_pos nextWriter]
      exact moves_grant_writer coherent split holds nextWriter others counts (by simp) idle live
    · rw [if_neg nextWriter]
      have nextReader : isRlock next = true := by
        cases typeEq : next.type with
        | rlock => simp [isRlock, typeEq]
        | wlock => exact absurd typeEq nextWriter
      obtain ⟨callbacks, following, acquired, status, moves⟩ := moves_promote coherent split
        (show Counts { dequeued lock req.type with requests := next :: later } _ from counts)
        (by simp) live idle (by simp) others (by simp [nextReader])
      rw [acquired]
      simp only
      rw [if_pos status]
      simpa [holds] using moves

/-- `abort` drops a request and promotes others. -/
theorem abort_moves : Moves lock (.abort id) (abort lock id) := by
  rw [abort, if_neg (by simp [coherent.live])]
  cases found : splitFirst (fun req => req.id = id) lock.requests with
  | none => exact moves_intro coherent (.skip rfl rfl) coherent.shape coherent.counts coherent.live
  | some parts =>
    obtain ⟨before, req, after⟩ := parts
    obtain ⟨split, -⟩ := splitFirst_eq_some found
    simp only
    cases status : req.status with
    | wait => exact abortWaiting_moves coherent split status
    | lock =>
      cases type : req.type with
      | rlock => exact unlockRead_moves coherent split status type
      | wlock => exact unlockWrite_moves coherent split status type

end

end Removal

end SRPC.WaitDie
