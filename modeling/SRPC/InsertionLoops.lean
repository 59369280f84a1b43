import Mathlib.Data.List.Nodup
import Mathlib.Logic.Function.Basic

/-!
# Loops that insert until the element is new

`while (set.insert(x).second == false);` inserts again as long as the element
was there.
-/

namespace SRPC.InsertionLoops

variable {Table Item Key Value : Type*}

/-- The loop, with the number of insertions it may execute and the number it
has executed. -/
def insertUntilNew (insert : Table → Bool × Table) :
    Nat → Table → Option (Nat × Table)
  | 0, _ => none
  | fuel + 1, table =>
    match insert table with
    | (true, after) => some (1, after)
    | (false, after) =>
      (insertUntilNew insert fuel after).map fun result =>
        (result.1 + 1, result.2)

/-- The loop inserts once. -/
def ExecutesOnce (insert : Table → Bool × Table) (table : Table) : Prop :=
  ∀ fuel, ∃ after, insertUntilNew insert (fuel + 1) table = some (1, after)

/-- Every insertion finds the element there. -/
def NeverEnds (insert : Table → Bool × Table) (table : Table) : Prop :=
  ∀ fuel, insertUntilNew insert fuel table = none

variable {insert : Table → Bool × Table} {table : Table}

theorem executesOnce_of_new {after : Table} (new : insert table = (true, after)) :
    ExecutesOnce insert table := by
  intro fuel
  refine ⟨after, ?_⟩
  rw [insertUntilNew, new]

theorem neverEnds_of_present (present : insert table = (false, table)) :
    NeverEnds insert table := by
  intro fuel
  induction fuel with
  | zero => rfl
  | succ fuel ih => simp [insertUntilNew, present, ih]

theorem NeverEnds.not_executesOnce (never : NeverEnds insert table) :
    ¬ExecutesOnce insert table := by
  intro once
  obtain ⟨after, ends⟩ := once 0
  rw [never 1] at ends
  cases ends

/-- `insert` of a map. -/
def insertEntry [DecidableEq Key] (key : Key) (value : Value)
    (table : Key → Option Value) : Bool × (Key → Option Value) :=
  match table key with
  | some _ => (false, table)
  | none => (true, Function.update table key (some value))

theorem insertEntry_new [DecidableEq Key] {key : Key} (value : Value)
    {table : Key → Option Value} (absent : table key = none) :
    ExecutesOnce (insertEntry key value) table := executesOnce_of_new (by rw [insertEntry, absent])

variable [DecidableEq Item]

/-- `insert` of a set. -/
def insertItem (item : Item) (items : List Item) : Bool × List Item :=
  if item ∈ items then (false, items) else (true, items ++ [item])

variable {item : Item} {items : List Item}

theorem insertItem_new (absent : item ∉ items) : ExecutesOnce (insertItem item) items :=
  executesOnce_of_new (if_neg absent)

theorem insertItem_present (present : item ∈ items) : NeverEnds (insertItem item) items :=
  neverEnds_of_present (if_pos present)

/-- The loop for each item of a burst: what each of them finds, the set at the
end, and whether the end is reached. -/
def insertAll : List Item → List Item →
    List (List Item × Item) × List Item × Bool
  | items, [] => ([], items, true)
  | items, item :: burst =>
    match insertItem item items with
    | (false, after) => ([(items, item)], after, false)
    | (true, after) =>
      let (found, last, ends) := insertAll after burst
      ((items, item) :: found, last, ends)

variable {burst : List Item}

/-- New elements are inserted once each. -/
theorem insertAll_new {items : List Item} (distinct : (items ++ burst).Nodup) :
    ∃ found, insertAll items burst = (found, items ++ burst, true) ∧
      ∀ entry ∈ found, ExecutesOnce (insertItem entry.2) entry.1 := by
  induction burst generalizing items with
  | nil => exact ⟨[], by simp [insertAll], by simp⟩
  | cons item burst ih =>
    have absent : item ∉ items := fun member =>
      List.disjoint_of_nodup_append distinct member List.mem_cons_self
    have longer : (items ++ [item] ++ burst).Nodup := by
      simpa using distinct
    obtain ⟨found, insertEq, once⟩ := ih longer
    refine ⟨(items, item) :: found, ?_, ?_⟩
    · simp [insertAll, insertItem, absent, insertEq]
    · intro entry member
      obtain rfl | member := List.mem_cons.mp member
      · exact insertItem_new absent
      · exact once entry member

theorem insertAll_repeated {items : List Item} (start : items.Nodup)
    (repeated : ¬(items ++ burst).Nodup) :
    ∃ entry ∈ (insertAll items burst).1, NeverEnds (insertItem entry.2) entry.1 := by
  induction burst generalizing items with
  | nil => exact absurd (by simpa using start) repeated
  | cons item burst ih =>
    by_cases present : item ∈ items
    · refine ⟨(items, item), ?_, insertItem_present present⟩
      simp [insertAll, insertItem, present]
    · have longer : (items ++ [item]).Nodup := by simpa using start.concat present
      have rest : ¬(items ++ [item] ++ burst).Nodup := by simpa using repeated
      obtain ⟨entry, member, never⟩ := ih longer rest
      refine ⟨entry, ?_, never⟩
      simp [insertAll, insertItem, present, member]

end SRPC.InsertionLoops
