import Mathlib.Data.List.Basic

/-!
# Streams of encoded items

The items of a stream are encoded one after another.  A loop takes those that have
arrived in full and leaves a part of the next one.
-/

namespace SRPC.MessageStreams

open List

variable {Symbol Item : Type*} {encode : Item → List Symbol}

/-- A part of the first item, or nothing if there is none. -/
def Fragment (encode : Item → List Symbol) (items : List Item) (received : List Symbol) : Prop :=
  (items = [] ∧ received = []) ∨
    ∃ item rest missing, items = item :: rest ∧ encode item = received ++ missing ∧ missing ≠ []

variable {items : List Item} {received : List Symbol}

/-- The first item has arrived in full or in part. -/
theorem first_item {later : List Symbol} (stream : received ++ later = items.flatMap encode) :
    (∃ item rest more, items = item :: rest ∧ received = encode item ++ more ∧
      more ++ later = rest.flatMap encode) ∨ Fragment encode items received := by
  cases items with
  | nil => exact .inr (.inl ⟨rfl, (append_eq_nil_iff.mp stream).1⟩)
  | cons item rest =>
    rw [flatMap_cons] at stream
    obtain ⟨more, rfl, laterEq⟩ | ⟨missing, itemEq, laterEq⟩ := append_eq_append_iff.mp stream.symm
    · exact .inl ⟨item, rest, more, rfl, rfl, laterEq.symm⟩
    · by_cases whole : missing = []
      · subst whole
        rw [append_nil] at itemEq
        rw [nil_append] at laterEq
        exact .inl ⟨item, rest, [], rfl, by rw [append_nil, itemEq], laterEq⟩
      · exact .inr (.inr ⟨item, rest, missing, rfl, itemEq, whole⟩)

theorem Fragment.append (fragment : Fragment encode items received) {item : Item}
    (nonempty : encode item ≠ []) : Fragment encode (items ++ [item]) received := by
  obtain ⟨rfl, rfl⟩ | ⟨first, rest, missing, rfl, itemEq, ne⟩ := fragment
  · exact .inr ⟨item, [], encode item, rfl, rfl, nonempty⟩
  · exact .inr ⟨first, rest ++ [item], missing, rfl, itemEq, ne⟩

theorem Fragment.eq_nil (fragment : Fragment encode items received)
    (stream : received = items.flatMap encode) : items = [] := by
  obtain ⟨none, _⟩ | ⟨item, rest, missing, rfl, itemEq, ne⟩ := fragment
  · exact none
  · rw [flatMap_cons, itemEq, append_assoc, self_eq_append_right, append_eq_nil_iff] at stream
    exact absurd stream.1 ne

section Loop

variable {State Event : Type*} {loop : Nat → State → Option (List Event × State)}
  {Holds : State → List Symbol → List Item → Prop} {events : Item → List Event} {all : List Item}

/-- A loop that takes the items of a stream one by one takes those that have
arrived in full.  `Holds` knows what is left and the items taken. -/
theorem loop_takes (nonempty : ∀ item ∈ all, encode item ≠ [])
    (take : ∀ state taken item rest more fuel, all = taken ++ item :: rest →
      Holds state (encode item ++ more) taken →
      ∃ next, Holds next more (taken ++ [item]) ∧
        loop (fuel + 1) state =
          (loop fuel next).map fun result => (events item ++ result.1, result.2))
    (wait : ∀ state taken rest received fuel, all = taken ++ rest →
      Holds state received taken → Fragment encode rest received →
      loop (fuel + 1) state = some ([], state))
    {state : State} {taken coming : List Item} {received later : List Symbol}
    {fuel : Nat} (split : all = taken ++ coming) (holds : Holds state received taken)
    (stream : received ++ later = coming.flatMap encode) (fueled : received.length < fuel) :
    ∃ complete rest left last, coming = complete ++ rest ∧
      loop fuel state = some (complete.flatMap events, last) ∧
      Holds last left (taken ++ complete) ∧
        left ++ later = rest.flatMap encode ∧ Fragment encode rest left := by
  induction fuel generalizing state taken coming received with
  | zero => omega
  | succ fuel ih =>
    obtain ⟨item, rest, more, rfl, rfl, streamRest⟩ | fragment := first_item stream
    · obtain ⟨next, nextHolds, loopEq⟩ := take state taken item rest more fuel split holds
      have positive : 0 < (encode item).length :=
        length_pos_iff.mpr (nonempty item (by simp [split]))
      rw [length_append] at fueled
      obtain ⟨complete, rest', left, last, rfl, laterEq, lastHolds, streamLeft, fragment⟩ :=
        ih (by rw [split, append_assoc]; rfl) nextHolds streamRest (by omega)
      refine ⟨item :: complete, rest', left, last, rfl, ?_, ?_, streamLeft, fragment⟩
      · rw [loopEq, laterEq, flatMap_cons]
        rfl
      · rw [append_assoc] at lastHolds
        exact lastHolds
    · refine ⟨[], coming, received, state, rfl,
        wait state taken coming received fuel split holds fragment, ?_, stream, fragment⟩
      rw [append_nil]
      exact holds

end Loop

end SRPC.MessageStreams
