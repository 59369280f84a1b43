import Mathlib.Data.List.Basic

/-!
# Loops that stop at the first idle item

A loop that is left as soon as it meets an item with nothing to do serves the
items in front of it.
-/

namespace SRPC.BusyPrefixes

variable {α β : Type*} {busy : α → Bool} {items : List α}

/-- No idle item stands before a busy one. -/
def NoGap (busy : α → Bool) (items : List α) : Prop :=
  items.Pairwise fun item other => busy item = false → busy other = false

theorem noGap_iff : NoGap busy items ↔ ∀ item ∈ items.dropWhile busy, busy item = false := by
  induction items with
  | nil => simp [NoGap]
  | cons item items ih =>
    rw [NoGap, List.pairwise_cons]
    cases first : busy item with
    | true =>
      rw [List.dropWhile_cons_of_pos first]
      refine ⟨fun noGap => ih.mp noGap.2, fun idle => ⟨?_, ih.mpr idle⟩⟩
      intro other _ gone
      cases gone
    | false =>
      rw [List.dropWhile_cons_of_neg (by simp [first])]
      constructor
      · rintro ⟨later, -⟩ other member
        obtain rfl | member := List.mem_cons.mp member
        · exact first
        · exact later other member rfl
      · intro idle
        have rest : ∀ other ∈ items, busy other = false := fun other member =>
          idle other (List.mem_cons_of_mem _ member)
        refine ⟨fun other member _ => rest other member, ih.mpr ?_⟩
        intro other member
        exact rest other ((List.dropWhile_sublist busy).subset member)

theorem flatMap_takeWhile {f : α → List β} (nothing : ∀ item, busy item = false → f item = [])
    (noGap : NoGap busy items) : (items.takeWhile busy).flatMap f = items.flatMap f := by
  have idle := noGap_iff.mp noGap
  have rest : (items.dropWhile busy).flatMap f = [] :=
    List.flatMap_eq_nil_iff.mpr fun item member =>
      nothing item (idle item member)
  conv => rhs; rw [← List.takeWhile_append_dropWhile (p := busy) (l := items)]
  rw [List.flatMap_append, rest, List.append_nil]

end SRPC.BusyPrefixes
