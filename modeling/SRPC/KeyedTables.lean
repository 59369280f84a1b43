import Mathlib.Logic.Function.Basic
import SRPC.IndexedLists

/-!
# Tables that find items by their keys

A table has the place of every item of a list under the key of the item, and
nothing else.
-/

namespace SRPC

open Function

variable {α κ : Type*} {key : α → κ} {table : κ → Option Nat} {items : List α}
  {index : Nat} {item new : α}

/-- Every item is found under its key, and what is found there is the item. -/
structure Keyed (key : α → κ) (table : κ → Option Nat) (items : List α) : Prop where
  found : ∀ {index item}, items[index]? = some item → table (key item) = some index
  own : ∀ {id index}, table id = some index → ∃ item, items[index]? = some item ∧ key item = id

namespace Keyed

theorem nil : Keyed key (fun _ => none) ([] : List α) where
  found := nofun
  own := nofun

theorem extracted [DecidableEq κ] (keyed : Keyed key table items)
    (found : items[index]? = some item) {id : κ}
    (fresh : ∀ {other : Nat} {otherItem : α}, items[other]? = some otherItem →
      other ≠ index → key otherItem ≠ id) : update table (key item) none id = none := by
  by_cases old : id = key item
  · rw [old, update_self]
  · rw [update_of_ne old]
    cases otherFound : table id with
    | none => rfl
    | some other =>
      obtain ⟨otherItem, otherEq, keyEq⟩ := keyed.own otherFound
      refine absurd keyEq (fresh otherEq ?_)
      rintro rfl
      rw [found] at otherEq
      cases otherEq
      exact old keyEq.symm

theorem append [DecidableEq κ] (keyed : Keyed key table items)
    (fresh : ∀ other ∈ items, key other ≠ key new) :
    Keyed key (update table (key new) (some items.length)) (items ++ [new]) where
  found := by
    intro index item found
    rcases getElem?_concat_eq_some found with before | ⟨rfl, rfl⟩
    · rw [update_of_ne (fresh item (List.mem_of_getElem? before)), keyed.found before]
    · rw [update_self]
  own := by
    intro id index found
    by_cases same : id = key new
    · subst same
      rw [update_self] at found
      cases found
      exact ⟨new, List.getElem?_concat_length, rfl⟩
    · rw [update_of_ne same] at found
      obtain ⟨item, itemEq, keyEq⟩ := keyed.own found
      exact ⟨item, getElem?_append_of_some _ itemEq, keyEq⟩

theorem set (keyed : Keyed key table items) (found : items[index]? = some item)
    (same : key new = key item) : Keyed key table (items.set index new) where
  found := by
    intro other otherItem otherEq
    rcases getElem?_set_eq_some otherEq with ⟨rfl, rfl⟩ | ⟨_, unchanged⟩
    · rw [same, keyed.found found]
    · exact keyed.found unchanged
  own := by
    intro id other otherFound
    obtain ⟨otherItem, otherEq, keyEq⟩ := keyed.own otherFound
    by_cases here : other = index
    · subst here
      rw [found] at otherEq
      cases otherEq
      have inside := lt_of_getElem? found
      exact ⟨new, List.getElem?_set_self inside, same.trans keyEq⟩
    · exact ⟨otherItem, by
        rw [List.getElem?_set_ne (Ne.symm here), otherEq], keyEq⟩

/-- An item moves to another key. -/
theorem move [DecidableEq κ] (keyed : Keyed key table items)
    (found : items[index]? = some item) (new : α)
    (fresh : ∀ {other : Nat} {otherItem : α}, items[other]? = some otherItem →
      other ≠ index → key otherItem ≠ key new) :
    Keyed key (update (update table (key item) none)
      (key new) (some index)) (items.set index new) where
  found := by
    intro other otherItem otherEq
    rcases getElem?_set_eq_some otherEq with ⟨rfl, rfl⟩ | ⟨apart, unchanged⟩
    · rw [update_self]
    · have otherFound := keyed.found unchanged
      have notOld : key otherItem ≠ key item := by
        intro same
        rw [same, keyed.found found] at otherFound
        exact apart (Option.some.inj otherFound).symm
      rw [update_of_ne (fresh unchanged apart), update_of_ne notOld, otherFound]
  own := by
    intro id other otherFound
    have inside := lt_of_getElem? found
    by_cases here : id = key new
    · subst here
      rw [update_self] at otherFound
      cases otherFound
      exact ⟨new, List.getElem?_set_self inside, rfl⟩
    · rw [update_of_ne here] at otherFound
      by_cases old : id = key item
      · subst old
        rw [update_self] at otherFound
        cases otherFound
      · rw [update_of_ne old] at otherFound
        obtain ⟨otherItem, otherEq, keyEq⟩ := keyed.own otherFound
        have apart : index ≠ other := by
          rintro rfl
          rw [found] at otherEq
          cases otherEq
          exact old keyEq.symm
        exact ⟨otherItem, by rw [List.getElem?_set_ne apart, otherEq], keyEq⟩

end Keyed

end SRPC
