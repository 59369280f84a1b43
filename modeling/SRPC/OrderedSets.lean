import Mathlib.Data.List.Basic
import Mathlib.Order.Lattice

/-!
# Sets that are ordered by a key

A `std::set` whose elements are compared by one of their fields, as the list of
its elements.  An element whose key is already there is not inserted.
-/

namespace SRPC.OrderedSets

variable {α β : Type*} [LinearOrder β] (key : α → β)

def Increasing (items : List α) : Prop := items.Pairwise fun first second => key first < key second

/-- An element whose key is there is not inserted. -/
def insert (item : α) : List α → List α
  | [] => [item]
  | first :: rest =>
    if key item < key first then item :: first :: rest
    else if key first < key item then first :: insert item rest
    else first :: rest

variable {key} {item : α} {items : List α}

theorem insert_perm (absent : ∀ other ∈ items, key other ≠ key item) :
    (insert key item items).Perm (item :: items) := by
  induction items with
  | nil => exact .refl _
  | cons first rest ih =>
    have other : key first ≠ key item := absent first List.mem_cons_self
    rw [insert]
    split
    · exact .refl _
    · rename_i notBefore
      rw [if_pos (lt_of_le_of_ne (not_lt.mp notBefore) other)]
      have inserted := ih fun other member =>
        absent other (List.mem_cons_of_mem _ member)
      exact (inserted.cons first).trans (.swap ..)

theorem mem_of_mem_insert {other : α}
    (member : other ∈ insert key item items) : other = item ∨ other ∈ items := by
  induction items with
  | nil => exact .inl (List.mem_singleton.mp member)
  | cons first rest ih =>
    rw [insert] at member
    split at member
    · exact List.mem_cons.mp member
    · split at member
      · rcases List.mem_cons.mp member with rfl | later
        · exact .inr List.mem_cons_self
        · exact (ih later).imp_right (List.mem_cons_of_mem _)
      · exact .inr member

theorem Increasing.insert (increasing : Increasing key items) (item : α) :
    Increasing key (insert key item items) := by
  induction items with
  | nil => exact List.pairwise_singleton ..
  | cons first rest ih =>
    obtain ⟨before, increasingRest⟩ := List.pairwise_cons.mp increasing
    rw [OrderedSets.insert]
    split
    · rename_i less
      refine List.pairwise_cons.mpr ⟨?_, increasing⟩
      intro other member
      rcases List.mem_cons.mp member with rfl | later
      · exact less
      · exact lt_trans less (before other later)
    · split
      · rename_i more
        refine List.pairwise_cons.mpr ⟨?_, ih increasingRest⟩
        intro other member
        rcases mem_of_mem_insert member with rfl | later
        · exact more
        · exact before other later
      · exact increasing

theorem insert_of_after (after : ∀ other ∈ items, key other < key item) :
    insert key item items = items ++ [item] := by
  induction items with
  | nil => rfl
  | cons first rest ih =>
    obtain ⟨less, later⟩ := List.forall_mem_cons.mp after
    rw [insert, if_neg less.not_gt, if_pos less, ih later]
    rfl

theorem insert_of_before (before : ∀ other ∈ items, key item < key other) :
    insert key item items = item :: items := by
  cases items with
  | nil => rfl
  | cons first rest => rw [insert, if_pos (before first List.mem_cons_self)]

end SRPC.OrderedSets
