import SRPC.TimeoutAborts
import SRPC.TransitionRuns

/-! # Runs of the timeout lock -/

namespace SRPC.Timeout

open WaitDie AnswerLedger

variable {Owner : Type*}

/-- The alarm of the request has not gone off. -/
def HasAlarm (alarm : Alarm) (req : ALockReq Owner) : Prop :=
  ∃ entry ∈ alarm.waiting, entry.id = req.alarmId

/-- The status word tells who holds the lock, and who waits has an alarm. -/
structure Safe (lock : TimeoutALock Owner) : Prop where
  free_iff : lock.status = .free ↔ holders lock.requests = []
  wlocked_iff : lock.status = .wlocked ↔
    ∃ writer, holders lock.requests = [writer] ∧ writer.type = .wlock
  rlocked_iff : lock.status = .rlocked ↔ holders lock.requests ≠ [] ∧
    (∀ req ∈ holders lock.requests, req.type = .rlock) ∧
      lock.nRlock = (holders lock.requests).length
  free_idle : lock.status = .free → ∀ req ∈ lock.requests, req.status ≠ .wait
  rlocked_idle : lock.status = .rlocked →
    ∀ req ∈ lock.requests, req.status = .wait → req.type = .wlock
  alarm_of_wait : ∀ req ∈ lock.requests, req.status = .wait → HasAlarm lock.alarm req
  no_alarm_of_lock : ∀ req ∈ lock.requests, req.status = .lock → ¬ HasAlarm lock.alarm req

def Queued (lock : TimeoutALock Owner) (id : Nat) (owner : Owner) (status : ReqStatus) : Prop :=
  ∃ req ∈ lock.requests, req.id = id ∧ req.owner = owner ∧ req.status = status

def kind : Requests (ALockReq Owner) Owner where
  key req := (req.id, req.owner)
  waits req := req.status = .wait
  holds req := req.status = .lock
  grant req := req.withStatus .lock
  exclusive := by simp +contextual
  key_grant _ := rfl
  holds_grant _ := rfl

section Turns

variable {lock next : TimeoutALock Owner} {newcomer : Option (ALockReq Owner)}
  {granted refused : List (ALockReq Owner)} {callbacks log : List (Callback Owner)}

/-- Safety can be read off the invariant. -/
theorem Coherent.safe (coherent : Coherent lock) : Safe lock := by
  have agrees := coherent.agrees
  have settled := coherent.settled
  have waiting : ∀ req ∈ lock.requests, req.status = .wait →
      HasAlarm lock.alarm req := by
    intro req member waits
    obtain ⟨entry, entryMember, entryId, -⟩ := coherent.alarmed.registered req member waits
    exact ⟨entry, entryMember, entryId⟩
  have holding : ∀ req ∈ lock.requests, req.status = .lock →
      ¬ HasAlarm lock.alarm req := by
    rintro req member held ⟨entry, entryMember, entryId⟩
    exact coherent.alarmed.silent req member (by simp [held]) entry entryMember entryId
  cases status : lock.status with
  | free =>
    rw [status] at agrees settled
    exact ⟨by simp [status, agrees.1], by simp [status, agrees.1],
      by simp [status, agrees.1], fun _ => settled, by simp [status], waiting, holding⟩
  | wlocked =>
    rw [status] at agrees
    obtain ⟨⟨writer, alone, isWriter⟩, -⟩ := agrees
    refine ⟨by simp [status, alone], by simp [status, alone, isWriter], ?_,
      by simp [status], by simp [status], waiting, holding⟩
    simp [status, alone, isWriter]
  | rlocked =>
    rw [status] at agrees settled
    obtain ⟨someone, types, count⟩ := agrees
    refine ⟨by simp [status, someone], ?_, ?_, by simp [status], fun _ => settled, waiting, holding⟩
    · refine iff_of_false (by simp [status]) ?_
      rintro ⟨writer, alone, isWriter⟩
      have reader := types writer (by simp [alone])
      rw [isWriter] at reader
      cases reader
    · exact iff_of_true status ⟨someone, types, count⟩

theorem Turn.ledger (coherent : Coherent lock)
    (turn : Turn lock newcomer granted refused callbacks next) :
    AnswerLedger.Turn kind lock.requests newcomer.toList granted refused next.requests
      lock.nextId next.nextId where
  distinct := by
    cases newcomer with
    | none =>
      rw [Option.toList_none, List.append_nil]
      exact coherent.distinct
    | some req => exact (coherent.ids_concat (turn.fresh req rfl).1).2
  bounded := by
    intro req member
    rcases List.mem_append.mp member with queued | isNew
    · exact Nat.lt_of_lt_of_le (coherent.older req queued) turn.more
    · exact (turn.fresh req (by simpa using isNew)).2.1
  more := turn.more
  fresh req isNew :=
    (turn.fresh req (by simpa using isNew)).imp (fun newId => Nat.le_of_eq newId.symm) And.right
  once := turn.distinct
  waited := turn.waited
  locked := turn.locked
  origin req member := by
    refine (turn.origin req member).imp_right (Or.imp_right ?_)
    rintro ⟨old, -, rfl⟩
    exact ⟨nofun, nofun⟩

theorem Turn.fits (coherent : Coherent lock)
    (turn : Turn lock newcomer granted refused callbacks next)
    (fits : Fits (log.map Callback.id) (kind.Waiting lock.requests) lock.nextId) :
    Fits ((log ++ callbacks).map Callback.id) (kind.Waiting next.requests) next.nextId := by
  have kept := (turn.ledger coherent).fits fits
  rw [List.map_append, turn.callbacks_eq]
  simpa [kind, ALockReq.yes, ALockReq.no, Function.comp_def] using kept

theorem Turn.yes_iff (coherent : Coherent lock)
    (turn : Turn lock newcomer granted refused callbacks next) (id : Nat) (owner : Owner) :
    (⟨id, owner, .yes⟩ : Callback Owner) ∈ callbacks ↔
      Queued next id owner .lock ∧ ¬ Queued lock id owner .lock := by
  have granted := (turn.ledger coherent).granted_iff (id, owner)
  simpa [kind, Requests.Held, Queued, turn.callbacks_eq, ALockReq.yes, ALockReq.no,
    and_assoc] using granted

end Turns

/-- Every sequence of calls and time-outs on a fresh lock runs without a failed
`verify` and ends in a safe state, nobody is answered twice, and the next step
says `yes` to exactly the requests that it makes holders. -/
theorem timeoutALock_safety (tmWait : Nat) (calls : List (LockCall Owner)) :
    ∃ log lock, TransitionRuns.run step (fresh tmWait) calls = some (log, lock) ∧
        Safe lock ∧ (log.map Callback.id).Nodup ∧
          ∀ call, ∃ callbacks next, step lock call = some (callbacks, next) ∧
            ∀ id owner, (⟨id, owner, .yes⟩ : Callback Owner) ∈ callbacks ↔
              Queued next id owner .lock ∧ ¬ Queued lock id owner .lock := by
  have start : Fits (([] : List (Callback Owner)).map Callback.id)
      (kind.Waiting (fresh tmWait : TimeoutALock Owner).requests) 1 ∧
        Coherent (fresh tmWait : TimeoutALock Owner) := ⟨fits_nothing, coherent_fresh tmWait⟩
  have preserved : ∀ log (lock : TimeoutALock Owner) call,
      Fits (log.map Callback.id) (kind.Waiting lock.requests) lock.nextId ∧ Coherent lock →
        True → ∃ callbacks next, step lock call = some (callbacks, next) ∧
          Fits ((log ++ callbacks).map Callback.id) (kind.Waiting next.requests) next.nextId ∧
            Coherent next := by
    rintro log lock call ⟨fits, coherent⟩ _
    obtain ⟨callbacks, next, newcomer, granted, refused, stepEq, turn⟩ := step_turns coherent call
    exact ⟨callbacks, next, stepEq, turn.fits coherent fits, turn.coherent⟩
  obtain ⟨log, lock, runEq, fits, coherent⟩ :=
    TransitionRuns.run_of_admissible preserved [] start calls
      (TransitionRuns.admissible_of_forall _ _ fun _ _ _ => trivial)
  refine ⟨log, lock, runEq, coherent.safe, fits.once, ?_⟩
  intro call
  obtain ⟨callbacks, next, newcomer, granted, refused, stepEq, turn⟩ := step_turns coherent call
  exact ⟨callbacks, next, stepEq, turn.yes_iff coherent⟩

end SRPC.Timeout
