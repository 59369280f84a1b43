import SRPC.AnswerLedger
import SRPC.WaitDieLock

/-!
# The status word of a lock

The locks keep a status word and the number of readers next to the queue of
their requests.  Both follow from the requests that hold the lock.
-/

namespace SRPC

def WaitDie.kind {Owner : Type*} : AnswerLedger.Requests (WaitDie.LockReq Owner) Owner where
  key req := (req.id, req.owner)
  waits req := req.status = .wait
  holds req := req.status = .lock
  grant req := req.granted
  exclusive := by simp +contextual
  key_grant _ := rfl
  holds_grant _ := rfl

namespace LockStatusWord

open WaitDie

variable {Req : Type*} {type : Req → LockType}

/-- The status word and the number of readers that belong to these holders. -/
def Agrees (type : Req → LockType) : LockStatus → Int → List Req → Prop
  | .free, n, holders => holders = [] ∧ n = 0
  | .wlocked, n, holders =>
    (∃ writer, holders = [writer] ∧ type writer = .wlock) ∧ n = 0
  | .rlocked, n, holders => holders ≠ [] ∧ (∀ req ∈ holders, type req = .rlock) ∧ n = holders.length

variable {status : LockStatus} {n : Int} {before after : List Req} {req : Req}

theorem Agrees.writer (agrees : Agrees type status n (before ++ req :: after))
    (writer : type req = .wlock) : status = .wlocked ∧ before = [] ∧ after = [] ∧ n = 0 := by
  cases status with
  | free => simp [Agrees] at agrees
  | wlocked =>
    obtain ⟨⟨other, alone, -⟩, zero⟩ := agrees
    rw [List.append_eq_singleton_iff] at alone
    simp_all
  | rlocked =>
    have reader := agrees.2.1 req (by simp)
    rw [writer] at reader
    cases reader

theorem Agrees.reader (agrees : Agrees type status n (before ++ req :: after))
    (reader : type req = .rlock) :
    status = .rlocked ∧ (∀ other ∈ before ++ after, type other = .rlock) ∧
      n = (before ++ after).length + 1 := by
  cases status with
  | free => simp [Agrees] at agrees
  | wlocked =>
    obtain ⟨⟨other, alone, writer⟩, -⟩ := agrees
    rw [List.append_eq_singleton_iff] at alone
    simp_all
  | rlocked =>
    refine ⟨rfl, ?_, ?_⟩
    · intro other member
      apply agrees.2.1
      rw [List.mem_append] at member ⊢
      exact member.imp_right (List.mem_cons_of_mem _)
    · rw [agrees.2.2]
      simp only [List.length_append, List.length_cons]
      push_cast
      omega

theorem agrees_readers {readers : List Req}
    (all : ∀ req ∈ readers, type req = .rlock) (count : n = readers.length) :
    Agrees type (if n = 0 then .free else .rlocked) n readers := by
  by_cases none : n = 0
  · rw [if_pos none]
    exact ⟨List.length_eq_zero_iff.mp (by omega), none⟩
  · rw [if_neg none]
    refine ⟨?_, all, count⟩
    rintro rfl
    exact none count

theorem Agrees.concat (agrees : Agrees type status n before)
    (reader : type req = .rlock) (shared : status ≠ .wlocked) :
    Agrees type .rlocked (n + 1) (before ++ [req]) := by
  cases status with
  | free =>
    obtain ⟨rfl, rfl⟩ := agrees
    exact ⟨by simp, by simpa using reader, rfl⟩
  | wlocked => exact absurd rfl shared
  | rlocked =>
    obtain ⟨-, types, rfl⟩ := agrees
    refine ⟨by simp, ?_, by simp⟩
    refine forall_mem_concat types ?_
    rw [reader]

end LockStatusWord

end SRPC
