import Mathlib.Data.List.Sort

/-!
# Priority queues

A priority queue is known by what it holds and by which of its items it shows:
one that is not less than any other.
-/

namespace SRPC

/-- A queue that shows a greatest item with respect to `less`; `items` lists
what it holds in some order. -/
structure PriorityQueue (α Queue : Type*) (less : α → α → Bool) where
  empty : Queue
  push : Queue → α → Queue
  top : Queue → Option α
  pop : Queue → Queue
  items : Queue → List α
  items_empty : items empty = []
  items_push : ∀ queue item, (items (push queue item)).Perm (item :: items queue)
  top_eq_none : ∀ queue, top queue = none → items queue = []
  top_max : ∀ queue item, top queue = some item → ∀ other ∈ items queue, less item other = false
  items_pop : ∀ queue item, top queue = some item → (items queue).Perm (item :: items (pop queue))

namespace PriorityQueue

variable {α Queue : Type*} {less : α → α → Bool}

theorem mem_of_top (heap : PriorityQueue α Queue less) {queue : Queue}
    {item : α} (shown : heap.top queue = some item) : item ∈ heap.items queue :=
  (heap.items_pop queue item shown).mem_iff.mpr List.mem_cons_self

abbrev SortedItems (less : α → α → Bool) :=
  { items : List α // items.Pairwise fun a b => less a b = false }

/-- A priority queue that sorts its items. -/
def sortedList (less : α → α → Bool) (total : ∀ a b, less a b = false ∨ less b a = false)
    (trans : ∀ a b c, less a b = false → less b c = false →
      less a c = false) : PriorityQueue α (SortedItems less) less :=
  have totality : Std.Total fun a b : α => less a b = false := ⟨total⟩
  have transitivity : IsTrans α fun a b => less a b = false := ⟨trans⟩
  { empty := ⟨[], List.Pairwise.nil⟩
    push := fun queue item =>
      ⟨queue.1.orderedInsert (fun a b => less a b = false) item, queue.2.orderedInsert item queue.1⟩
    top := fun queue => queue.1.head?
    pop := fun queue => ⟨queue.1.tail, queue.2.tail⟩
    items := fun queue => queue.1
    items_empty := rfl
    items_push := fun queue item => List.perm_orderedInsert _ item queue.1
    top_eq_none := fun queue none => List.head?_eq_none_iff.mp none
    top_max := by
      rintro ⟨items, sorted⟩ item shown other member
      obtain ⟨rest, rfl⟩ := List.head?_eq_some_iff.mp shown
      rcases List.mem_cons.mp member with rfl | later
      · exact (total other other).elim id id
      · exact List.rel_of_pairwise_cons sorted later
    items_pop := by
      rintro ⟨items, sorted⟩ item shown
      obtain ⟨rest, rfl⟩ := List.head?_eq_some_iff.mp shown
      exact List.Perm.refl _ }

end PriorityQueue

end SRPC
