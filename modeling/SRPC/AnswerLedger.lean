import Mathlib.Data.List.Nodup

/-!
# Ledgers of answers to numbered requests

Requests are numbered as they come, and a ledger lists the numbers of those that
were answered.
-/

namespace SRPC.AnswerLedger

/-- The numbers in the ledger were handed out, each was answered once, and those
who wait were not. -/
structure Fits (answered : List Nat) (waits : Nat → Prop) (nextId : Nat) : Prop where
  older : ∀ id ∈ answered, id < nextId
  once : answered.Nodup
  unanswered : ∀ id, waits id → id ∉ answered

theorem fits_nothing {waits : Nat → Prop} {nextId : Nat} : Fits [] waits nextId :=
  ⟨by simp, by simp, by simp⟩

variable {answered now : List Nat} {waits waits' : Nat → Prop} {nextId nextId' : Nat}

theorem Fits.not_mem (fits : Fits answered waits nextId) {id : Nat}
    (open_ : waits id ∨ nextId ≤ id) : id ∉ answered := by
  rcases open_ with waiting | new
  · exact fits.unanswered id waiting
  · intro member
    have := fits.older id member
    omega

theorem Fits.turn (fits : Fits answered waits nextId)
    (more : nextId ≤ nextId') (distinct : now.Nodup)
    (asked : ∀ id ∈ now, (waits id ∨ nextId ≤ id) ∧ id < nextId')
    (left : ∀ id, waits' id → (waits id ∨ nextId ≤ id) ∧ id ∉ now) :
    Fits (answered ++ now) waits' nextId' := by
  refine ⟨?_, ?_, ?_⟩
  · intro id member
    rcases List.mem_append.mp member with old | new
    · exact Nat.lt_of_lt_of_le (fits.older id old) more
    · exact (asked id new).2
  · refine List.nodup_append.mpr ⟨fits.once, distinct, ?_⟩
    rintro id old _ new rfl
    exact fits.not_mem (asked id new).1 old
  · intro id waiting
    obtain ⟨open_, notNow⟩ := left id waiting
    rw [List.mem_append, not_or]
    exact ⟨fits.not_mem open_, notNow⟩

theorem Fits.perm {other : List Nat} (fits : Fits answered waits nextId)
    (same : answered.Perm other) : Fits other waits nextId :=
  ⟨fun id member => fits.older id (same.mem_iff.mpr member), same.nodup fits.once,
    fun id waiting member => fits.unanswered id waiting (same.mem_iff.mpr member)⟩

/-- Requests with a number and an owner that wait, hold what they ask for, or do
neither. -/
structure Requests (Req Owner : Type*) where
  key : Req → Nat × Owner
  waits : Req → Prop
  holds : Req → Prop
  grant : Req → Req
  exclusive : ∀ req, waits req → ¬ holds req
  key_grant : ∀ req, key (grant req) = key req
  holds_grant : ∀ req, holds (grant req)

section Turns

variable {Req Owner : Type*} (kind : Requests Req Owner)

/-- The request with this key holds. -/
def Requests.Held (queue : List Req) (key : Nat × Owner) : Prop :=
  ∃ req ∈ queue, kind.key req = key ∧ kind.holds req

/-- The request with this number waits. -/
def Requests.Waiting (queue : List Req) (id : Nat) : Prop :=
  ∃ req ∈ queue, (kind.key req).1 = id ∧ kind.waits req

/-- Some of those who wait, or have just come, are granted what they ask for and
some are refused. -/
structure Turn (queue newcomers granted refused next : List Req) (nextId nextId' : Nat) : Prop where
  distinct : ((queue ++ newcomers).map fun req => (kind.key req).1).Nodup
  bounded : ∀ req ∈ queue ++ newcomers, (kind.key req).1 < nextId'
  more : nextId ≤ nextId'
  fresh : ∀ req ∈ newcomers, nextId ≤ (kind.key req).1 ∧ kind.waits req
  once : ((granted ++ refused).map fun req => (kind.key req).1).Nodup
  waited : ∀ req ∈ granted ++ refused, req ∈ queue ++ newcomers ∧ kind.waits req
  locked : ∀ req ∈ granted, kind.grant req ∈ next
  origin : ∀ req ∈ next, (req ∈ queue ++ newcomers ∧ req ∉ granted ++ refused) ∨
    (∃ old ∈ granted, req = kind.grant old) ∨ ¬ kind.waits req ∧ ¬ kind.holds req

variable {kind} {queue newcomers granted refused next : List Req}

section

variable (turn : Turn kind queue newcomers granted refused next nextId nextId')

include turn

theorem Turn.eq_of_id_eq {first second : Req} (firstMember : first ∈ queue ++ newcomers)
    (secondMember : second ∈ queue ++ newcomers)
    (sameId : (kind.key first).1 = (kind.key second).1) : first = second :=
  List.inj_on_of_nodup_map turn.distinct firstMember secondMember sameId

theorem Turn.open_of_mem {req : Req} (member : req ∈ queue ++ newcomers)
    (waiting : kind.waits req) : kind.Waiting queue (kind.key req).1 ∨ nextId ≤ (kind.key req).1 :=
  (List.mem_append.mp member).imp (fun queued => ⟨req, queued, rfl, waiting⟩)
    fun new => (turn.fresh req new).1

/-- A turn keeps the ledger and the queue together. -/
theorem Turn.fits (fits : Fits answered (kind.Waiting queue) nextId) :
    Fits (answered ++ (granted ++ refused).map fun req => (kind.key req).1)
      (kind.Waiting next) nextId' := by
  refine fits.turn turn.more turn.once ?_ ?_
  · intro id member
    obtain ⟨req, reqMember, rfl⟩ := List.mem_map.mp member
    obtain ⟨arrived, waiting⟩ := turn.waited req reqMember
    exact ⟨turn.open_of_mem arrived waiting, turn.bounded req arrived⟩
  · rintro id ⟨req, member, rfl, waiting⟩
    rcases turn.origin req member with
      ⟨arrived, unanswered⟩ | ⟨old, -, rfl⟩ | ⟨idle, -⟩
    · refine ⟨turn.open_of_mem arrived waiting, fun answeredNow => ?_⟩
      obtain ⟨other, otherMember, sameId⟩ := List.mem_map.mp answeredNow
      have same := turn.eq_of_id_eq (turn.waited other otherMember).1 arrived sameId
      exact unanswered (same ▸ otherMember)
    · exact absurd (kind.holds_grant old) (kind.exclusive _ waiting)
    · exact absurd waiting idle

theorem Turn.granted_iff (key : Nat × Owner) :
    (∃ req ∈ granted, kind.key req = key) ↔ kind.Held next key ∧ ¬ kind.Held queue key := by
  constructor
  · rintro ⟨req, reqMember, rfl⟩
    refine ⟨⟨_, turn.locked req reqMember, kind.key_grant req, kind.holds_grant req⟩, ?_⟩
    rintro ⟨holder, holderMember, sameKey, held⟩
    obtain ⟨arrived, waiting⟩ := turn.waited req (List.mem_append_left _ reqMember)
    have same := turn.eq_of_id_eq (List.mem_append_left _ holderMember) arrived
      (congrArg Prod.fst sameKey)
    exact kind.exclusive req waiting (same ▸ held)
  · rintro ⟨⟨holder, member, rfl, held⟩, unheld⟩
    rcases turn.origin holder member with ⟨arrived, -⟩ | ⟨old, oldMember, rfl⟩ | ⟨-, idle⟩
    · rcases List.mem_append.mp arrived with queued | new
      · exact absurd ⟨holder, queued, rfl, held⟩ unheld
      · exact absurd held (kind.exclusive holder (turn.fresh holder new).2)
    · exact ⟨old, oldMember, (kind.key_grant old).symm⟩
    · exact absurd held idle

end

end Turns

end SRPC.AnswerLedger
