import Mathlib.Data.List.Basic

/-!
# The order of events in a log

An event comes before another if it has happened whenever the other does.
-/

namespace SRPC.EventOrder

variable {α : Type*}

/-- Every occurrence of the later event comes after the first one. -/
def Precedes (log : List α) (first later : α) : Prop :=
  ∀ before after, log = before ++ later :: after → first ∈ before

variable {log more : List α} {first second later : α}

theorem precedes_of_not_mem (absent : later ∉ log) (first : α) : Precedes log first later := by
  rintro before after rfl
  exact absurd (List.mem_append_right _ List.mem_cons_self) absent

theorem Precedes.append (precedes : Precedes log first later)
    (absent : later ∉ more) : Precedes (log ++ more) first later := by
  intro before after split
  rcases List.append_eq_append_iff.mp split with
    ⟨middle, rfl, moreEq⟩ | ⟨middle, logEq, restEq⟩
  · exact absurd (by simp [moreEq]) absent
  · cases middle with
    | nil =>
      obtain rfl : later :: after = more := restEq
      exact absurd List.mem_cons_self absent
    | cons event middle =>
      obtain ⟨rfl, -⟩ := List.cons.inj restEq
      exact precedes before middle logEq

theorem Precedes.concat (precedes : Precedes log first later)
    (happened : first ∈ log) : Precedes (log ++ [later]) first later := by
  intro before after split
  rcases List.append_eq_append_iff.mp split with
    ⟨middle, rfl, -⟩ | ⟨middle, logEq, restEq⟩
  · exact List.mem_append_left _ happened
  · cases middle with
    | nil =>
      rw [List.append_nil] at logEq
      exact logEq ▸ happened
    | cons event middle =>
      obtain ⟨rfl, -⟩ := List.cons.inj restEq
      exact precedes before middle logEq

theorem Precedes.trans (early : Precedes log first second)
    (late : Precedes log second later) {before after : List α}
    (split : log = before ++ later :: after) :
    ∃ start middle, before = start ++ second :: middle ∧ first ∈ start := by
  obtain ⟨start, middle, rfl⟩ := List.append_of_mem (late before after split)
  refine ⟨start, middle, rfl, early start (middle ++ later :: after) ?_⟩
  rw [split, List.append_assoc, List.cons_append]

end SRPC.EventOrder
