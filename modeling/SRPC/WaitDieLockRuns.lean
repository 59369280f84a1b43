import SRPC.LockStatusWord
import SRPC.TransitionRuns
import SRPC.WaitDieLockRemoval

/-! # Runs of the wait-die lock -/

namespace SRPC.WaitDie

open AnswerLedger List

variable {Owner : Type*}

theorem step_moves {lock : WaitDieALock Owner} (coherent : Coherent lock)
    (call : LockCall Owner) : Moves lock call (step lock call) := by
  cases call with
  | vlock type priority owner => exact vlock_moves coherent type priority owner
  | abort id => exact abort_moves coherent

/-- The request holds the lock. -/
def Locked (lock : WaitDieALock Owner) (id : Nat) (owner : Owner) : Prop :=
  ∃ req ∈ lock.requests, req.id = id ∧ req.owner = owner ∧ req.status = .lock

section Callbacks

variable {lock next : WaitDieALock Owner} {call : LockCall Owner}
  {callbacks log : List (Callback Owner)}

private theorem turn_newcomer (coherent : Coherent lock) (type : LockType) (priority : Int)
    (owner : Owner) (nextId : next.nextId = lock.nextId + 1)
    (granted refused : List (LockReq Owner))
    (answered : (granted ++ refused).Sublist [newReq lock type priority owner])
    (locked : ∀ req ∈ granted, req.granted ∈ next.requests)
    (origin : ∀ req ∈ next.requests, req ∈ lock.requests ∨
      req = newReq lock type priority owner ∧ granted ++ refused = [] ∨
        ∃ old ∈ granted, req = old.granted) :
    Turn kind lock.requests [newReq lock type priority owner] granted refused next.requests
      lock.nextId next.nextId where
  distinct :=
    nodup_map_concat coherent.distinct fun old member => Nat.ne_of_lt (coherent.older old member)
  bounded := by
    rw [nextId]
    exact forall_mem_concat (fun req queued => Nat.lt_succ_of_lt (coherent.older req queued))
      (Nat.lt_succ_self lock.nextId)
  more := nextId ▸ Nat.le_succ lock.nextId
  fresh req new := by
    rw [mem_singleton.mp new]
    exact ⟨Nat.le_refl lock.nextId, rfl⟩
  once := (answered.map _).nodup (by simp)
  waited req member := by
    have new := answered.subset member
    exact ⟨mem_append_right _ new, by rw [mem_singleton.mp new]; rfl⟩
  locked := locked
  origin req member := by
    rcases origin req member with queued | ⟨rfl, unanswered⟩ | promoted
    · refine .inl ⟨mem_append_left _ queued, fun member => ?_⟩
      have older := coherent.older req queued
      rw [mem_singleton.mp (answered.subset member)] at older
      exact absurd older (Nat.lt_irrefl lock.nextId)
    · exact .inl ⟨by simp, by simp [unanswered]⟩
    · exact .inr (.inl promoted)

private theorem turn_removal (coherent : Coherent lock) (nextId : next.nextId = lock.nextId)
    {before promoted after : List (LockReq Owner)} {req : LockReq Owner}
    (was : lock.requests = before ++ req :: (promoted ++ after))
    (waiting : ∀ other ∈ promoted, other.status = .wait)
    (requests : next.requests = before ++ (promoted.map LockReq.granted ++ after)) :
    Turn kind lock.requests [] promoted (if req.status = .wait then [req] else []) next.requests
      lock.nextId next.nextId := by
  have refusedMem : ∀ other ∈ if req.status = .wait then [req] else [],
      other = req ∧ req.status = .wait := by
    intro other member
    split_ifs at member with waits
    · exact ⟨mem_singleton.mp member, waits⟩
    · cases member
  have arrangement : lock.requests.Perm ((promoted ++ [req]) ++ (before ++ after)) := by
    rw [was]
    refine perm_middle.trans ?_
    refine ((List.Perm.cons req (perm_append_comm_assoc _ _ _))).trans ?_
    rw [append_assoc]
    exact perm_middle.symm
  have distinct := (arrangement.map LockReq.id).nodup coherent.distinct
  have answered : (promoted ++ if req.status = .wait then [req] else []).Sublist
      (promoted ++ [req]) := by
    refine List.Sublist.append_left ?_ _
    split_ifs
    · exact List.Sublist.refl _
    · exact nil_sublist _
  have apart := distinct.of_map
  rw [nodup_append] at apart
  refine ⟨?_, ?_, nextId.ge, by simp, ?_, ?_, ?_, ?_⟩
  · rw [append_nil]
    exact coherent.distinct
  · rw [nextId, append_nil]
    exact coherent.older
  · rw [map_append] at distinct
    exact (answered.map _).nodup (nodup_append.mp distinct).1
  · intro other member
    rw [append_nil]
    refine ⟨arrangement.mem_iff.mpr (mem_append_left _ (answered.subset member)), ?_⟩
    rcases mem_append.mp member with promotes | refuses
    · exact waiting other promotes
    · obtain ⟨rfl, waits⟩ := refusedMem other refuses
      exact waits
  · intro other member
    rw [requests]
    exact mem_append_right _ (mem_append_left _ (mem_map_of_mem member))
  · intro other member
    have stays : other ∈ before ++ after ∨ ∃ old ∈ promoted, other = old.granted := by
      rw [requests] at member
      simp only [mem_append, mem_map, eq_comm] at member ⊢
      tauto
    refine stays.imp (fun left => ⟨?_, fun member => ?_⟩) .inl
    · rw [append_nil]
      exact arrangement.mem_iff.mpr (mem_append_right _ left)
    · exact apart.2.2 other (answered.subset member) other left rfl

/-- A move answers only who was not answered before. -/
theorem ledger_of_move (coherent : Coherent lock) (move : Move lock call callbacks next) :
    ∃ newcomers granted refused, callbacks = granted.map LockReq.yes ++ refused.map LockReq.no ∧
      Turn kind lock.requests newcomers granted refused next.requests lock.nextId next.nextId := by
  cases move with
  | @grant _ type priority owner nextId requests first =>
    refine ⟨_, [newReq lock type priority owner], [], rfl,
      turn_newcomer coherent type priority owner nextId _ _ (List.Sublist.refl _) ?_ ?_⟩
    · simp [requests]
    · simp +contextual [requests]
  | @wait _ type priority owner nextId requests first =>
    refine ⟨_, [], [], rfl,
      turn_newcomer coherent type priority owner nextId _ _ (nil_sublist _) (by simp) ?_⟩
    simp [requests]
  | @die _ type priority owner nextId requests =>
    refine ⟨_, [], [newReq lock type priority owner], rfl,
      turn_newcomer coherent type priority owner nextId _ _ (List.Sublist.refl _) (by simp) ?_⟩
    simp +contextual [requests]
  | skip nextId requests =>
    refine ⟨[], [], [], rfl, ?_, ?_, nextId.ge, by simp, by simp, by simp, by simp, ?_⟩
    · rw [append_nil]
      exact coherent.distinct
    · rw [nextId, append_nil]
      exact coherent.older
    · simp +contextual [requests]
  | remove nextId before req promoted after was waiting requests =>
    refine ⟨_, promoted, _, ?_, turn_removal coherent nextId was waiting requests⟩
    split_ifs <;> rfl

theorem yes_iff_of_move (coherent : Coherent lock)
    (move : Move lock call callbacks next) (id : Nat) (owner : Owner) :
    (⟨id, owner, .yes⟩ : Callback Owner) ∈ callbacks ↔
      Locked next id owner ∧ ¬ Locked lock id owner := by
  obtain ⟨newcomers, granted, refused, rfl, turn⟩ := ledger_of_move coherent move
  have granted_iff := turn.granted_iff (id, owner)
  simpa [kind, Requests.Held, Locked, LockReq.yes, LockReq.no, and_assoc] using granted_iff

theorem fits_of_move (coherent : Coherent lock) (move : Move lock call callbacks next)
    (fits : Fits (log.map Callback.id) (kind.Waiting lock.requests) lock.nextId) :
    Fits ((log ++ callbacks).map Callback.id) (kind.Waiting next.requests) next.nextId := by
  obtain ⟨newcomers, granted, refused, rfl, turn⟩ := ledger_of_move coherent move
  simpa [kind, LockReq.yes, LockReq.no, Function.comp_def] using turn.fits fits

end Callbacks

/-- Every sequence of calls on a fresh lock runs without a failed `verify`,
ends in a safe state, answers no request twice, and the next call says `yes` to
exactly the requests it turns into holders. -/
theorem waitDieALock_safety (calls : List (LockCall Owner)) :
    ∃ log lock, TransitionRuns.run step fresh calls = some (log, lock) ∧
        Safe lock ∧ (log.map Callback.id).Nodup ∧
          ∀ call, ∃ callbacks next, step lock call = some (callbacks, next) ∧
            ∀ id owner, (⟨id, owner, .yes⟩ : Callback Owner) ∈ callbacks ↔
              Locked next id owner ∧ ¬ Locked lock id owner := by
  have preserved : ∀ log (lock : WaitDieALock Owner) call,
      Fits (log.map Callback.id) (kind.Waiting lock.requests) lock.nextId ∧ Coherent lock →
        True → ∃ callbacks next, step lock call = some (callbacks, next) ∧
          Fits ((log ++ callbacks).map Callback.id) (kind.Waiting next.requests) next.nextId ∧
            Coherent next := by
    rintro log lock call ⟨fits, coherent⟩ _
    obtain ⟨callbacks, next, stepEq, move, restored⟩ := step_moves coherent call
    exact ⟨callbacks, next, stepEq, fits_of_move coherent move fits, restored⟩
  obtain ⟨log, lock, runEq, fits, coherent⟩ :=
    TransitionRuns.run_of_admissible preserved [] ⟨fits_nothing, coherent_fresh⟩ calls
      (TransitionRuns.admissible_of_forall _ _ fun _ _ _ => trivial)
  refine ⟨log, lock, runEq, coherent.toSafe, fits.once, ?_⟩
  intro call
  obtain ⟨callbacks, next, stepEq, move, _⟩ := step_moves coherent call
  exact ⟨callbacks, next, stepEq, yes_iff_of_move coherent move⟩

end SRPC.WaitDie
