import Mathlib.Data.List.Basic

/-!
# Ledgers of requests and their settlements

Requests are opened under a key.  The first answer with this key settles a
request, unless all open requests are abandoned before.
-/

namespace SRPC.SettlementLedger

variable {Key Code : Type*}

inductive Event (Key Code : Type*)
  | opened (key : Key)
  | answered (key : Key) (code : Code)
  | abandoned (code : Code)
  deriving DecidableEq

def openedKey : Event Key Code → Option Key
  | .opened key => some key
  | _ => none

def openedKeys (log : List (Event Key Code)) : List Key := log.filterMap openedKey

/-- What follows the opening of this request. -/
def since : List (Event Key Code) → Nat → List (Event Key Code)
  | [], _ => []
  | .opened _ :: log, 0 => log
  | .opened _ :: log, index + 1 => since log index
  | .answered _ _ :: log, index => since log index
  | .abandoned _ :: log, index => since log index

variable [DecidableEq Key]

/-- The code with which the event settles a request of this key. -/
def settles (key : Key) : Event Key Code → Option Code
  | .opened _ => none
  | .answered other code => if other = key then some code else none
  | .abandoned code => some code

/-- The first code that settles the key after this event. -/
def settlement (log : List (Event Key Code)) (key : Key) (index : Nat) : Option Code :=
  (since log index).findSome? (settles key)

omit [DecidableEq Key]

theorem openedKeys_append (log events : List (Event Key Code)) :
    openedKeys (log ++ events) = openedKeys log ++ openedKeys events := List.filterMap_append ..

variable {log : List (Event Key Code)} {index : Nat}

theorem since_append (inside : index < (openedKeys log).length) (events : List (Event Key Code)) :
    since (log ++ events) index = since log index ++ events := by
  induction log generalizing index with
  | nil => simp [openedKeys] at inside
  | cons event log ih =>
    cases event with
    | opened key =>
      cases index with
      | zero => rfl
      | succ index => exact ih (Nat.lt_of_succ_lt_succ inside)
    | answered key code | abandoned code => exact ih inside

theorem since_opened (log : List (Event Key Code)) (key : Key) :
    since (log ++ [.opened key]) (openedKeys log).length = [] := by
  induction log with
  | nil => rfl
  | cons event log ih => cases event <;> exact ih

variable [DecidableEq Key]

theorem settlement_append (inside : index < (openedKeys log).length)
    (events : List (Event Key Code)) (key : Key) :
    settlement (log ++ events) key index =
      (settlement log key index).or (events.findSome? (settles key)) := by
  rw [settlement, since_append inside, List.findSome?_append, settlement]

theorem settlement_append_opened (inside : index < (openedKeys log).length) (key other : Key) :
    settlement (log ++ [.opened other]) key index = settlement log key index := by
  rw [settlement_append inside]
  simp [settles]

theorem settlement_opened (log : List (Event Key Code)) (key : Key) :
    settlement (log ++ [.opened key]) key (openedKeys log).length = none := by
  rw [settlement, since_opened]
  rfl

theorem settlement_append_answered (inside : index < (openedKeys log).length) (key other : Key)
    (code : Code) :
    settlement (log ++ [.answered other code]) key index = (settlement log key index).or
        (if other = key then some code else none) := by
  rw [settlement_append inside, List.findSome?_singleton]
  rfl

theorem settlement_append_abandoned (inside : index < (openedKeys log).length) (key : Key)
    (code : Code) :
    settlement (log ++ [.abandoned code]) key index =
      (settlement log key index).or (some code) := by
  rw [settlement_append inside, List.findSome?_singleton]
  rfl

theorem isSome_settlement {code : Code} (last : log.getLast? = some (.abandoned code))
    (inside : index < (openedKeys log).length) (key : Key) : (settlement log key index).isSome := by
  obtain ⟨before, rfl⟩ := List.getLast?_eq_some_iff.mp last
  rw [openedKeys_append, List.length_append] at inside
  rw [settlement_append_abandoned inside, Option.isSome_or]
  simp

end SRPC.SettlementLedger
