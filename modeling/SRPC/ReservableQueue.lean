import Mathlib.Data.List.Forall2

/-!
# Queues with reserved places

Items are appended at the end of a queue and taken from the front.  Places may be
reserved at the end and filled later, as long as none of them has been taken.
-/

namespace SRPC

/-- A queue with places for items that are reserved and come later. -/
structure ReservableQueue (Item : Type*) where
  items : List (Option Item)
  taken : Nat
  deriving DecidableEq, Repr

namespace ReservableQueue

variable {Item : Type*}

def empty : ReservableQueue Item := ⟨[], 0⟩

def append (queue : ReservableQueue Item) (values : List Item) : ReservableQueue Item :=
  { queue with items := queue.items ++ values.map some }

/-- Drop the first `count` items. -/
def drop (queue : ReservableQueue Item) (count : Nat) : ReservableQueue Item :=
  ⟨queue.items.drop count, queue.taken + min count queue.items.length⟩

def reserve (queue : ReservableQueue Item) (count : Nat) : ReservableQueue Item :=
  { queue with items := queue.items ++ List.replicate count none }

/-- Positions count from the first item ever appended. -/
def limit (queue : ReservableQueue Item) : Nat := queue.taken + queue.items.length

/-- Put values into the places from position `start` on. -/
def fill (queue : ReservableQueue Item) (start : Nat) (values : List Item) : ReservableQueue Item :=
  { queue with
    items := queue.items.take (start - queue.taken) ++ values.map some ++
      queue.items.drop (start - queue.taken + values.length) }

/-- A list of values that has the known items at their places. -/
def Agrees (values : List Item) (items : List (Option Item)) : Prop :=
  List.Forall₂ (fun value item => ∀ known, item = some known → value = known) values items

namespace Agrees

variable {values more : List Item} {items others : List (Option Item)}

theorem length_eq (agrees : Agrees values items) : values.length = items.length :=
  List.Forall₂.length_eq agrees

theorem nil : Agrees ([] : List Item) [] := List.Forall₂.nil

theorem append (first : Agrees values items) (second : Agrees more others) :
    Agrees (values ++ more) (items ++ others) := List.rel_append first second

theorem take (agrees : Agrees values items) (count : Nat) :
    Agrees (values.take count) (items.take count) := List.forall₂_take count agrees

theorem drop (agrees : Agrees values items) (count : Nat) :
    Agrees (values.drop count) (items.drop count) := List.forall₂_drop count agrees

theorem map_some (values : List Item) : Agrees values (values.map some) := by
  induction values with
  | nil => exact nil
  | cons value values ih =>
    refine List.Forall₂.cons ?_ ih
    intro known equal
    exact Option.some.inj equal

theorem replicate_none (values : List Item) :
    Agrees values (List.replicate values.length none) := by
  induction values with
  | nil => exact nil
  | cons value values ih =>
    refine List.Forall₂.cons ?_ ih
    intro known impossible
    cases impossible

end Agrees

end ReservableQueue

end SRPC
