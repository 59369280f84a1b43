import Mathlib.Algebra.GroupWithZero.Nat
import Mathlib.Data.List.Nodup

/-!
# Lists that are indexed or searched

Tables that only grow at their end, or in which one place is overwritten, and
the search for the first item with a property.
-/

namespace SRPC

open List

variable {α β : Type*} {index : Nat} {items : List α} {item : α}

theorem forall_mem_concat {p : α → Prop} (each : ∀ item ∈ items, p item) (last : p item) :
    ∀ other ∈ items ++ [item], p other :=
  forall_mem_append.mpr ⟨each, forall_mem_singleton.mpr last⟩

theorem nodup_concat (distinct : items.Nodup) (new : item ∉ items) : (items ++ [item]).Nodup :=
  concat_eq_append ▸ List.Nodup.concat new distinct

theorem nodup_map_concat {key : α → β} (distinct : (items.map key).Nodup)
    (fresh : ∀ other ∈ items, key other ≠ key item) : ((items ++ [item]).map key).Nodup := by
  rw [map_append]
  refine nodup_concat distinct fun member => ?_
  obtain ⟨other, otherMember, same⟩ := mem_map.mp member
  exact fresh other otherMember same

theorem mapM_eq_some {f : α → Option β} {g : α → β}
    (defined : ∀ item ∈ items, f item = some (g item)) : items.mapM f = some (items.map g) := by
  induction items with
  | nil => rfl
  | cons item items ih =>
    have later := ih fun other member => defined other (mem_cons_of_mem _ member)
    simp [defined item mem_cons_self, later]

theorem lt_of_getElem? (found : items[index]? = some item) : index < items.length :=
  (List.getElem?_eq_some_iff.mp found).1

theorem getElem?_append_of_some (more : List α) (found : items[index]? = some item) :
    (items ++ more)[index]? = some item := by
  have inside := lt_of_getElem? found
  rw [getElem?_append_left inside, found]

theorem getElem?_concat_eq_some {last : α} (found : (items ++ [last])[index]? = some item) :
    items[index]? = some item ∨ (index = items.length ∧ item = last) := by
  rw [getElem?_append] at found
  split at found
  · exact .inl found
  · rw [getElem?_singleton] at found
    split at found
    · exact .inr ⟨by omega, (Option.some.inj found).symm⟩
    · cases found

variable {new : α}

theorem getElem?_set_eq_some {other : Nat} (found : (items.set index new)[other]? = some item) :
    (other = index ∧ item = new) ∨
      (other ≠ index ∧ items[other]? = some item) := by
  by_cases same : index = other
  · subst same
    have inside := lt_of_getElem? found
    rw [getElem?_set_self (by simpa using inside)] at found
    exact .inl ⟨rfl, (Option.some.inj found).symm⟩
  · rw [getElem?_set_ne same] at found
    exact .inr ⟨fun eq => same eq.symm, found⟩

theorem set_of_getElem? (found : items[index]? = some item) : items.set index item = items := by
  obtain ⟨inside, rfl⟩ := List.getElem?_eq_some_iff.mp found
  exact set_getElem_self inside

theorem map_set_of_getElem? {f : α → β} (found : items[index]? = some item)
    (same : f new = f item) : (items.set index new).map f = items.map f := by
  rw [map_set, same]
  apply set_of_getElem?
  rw [getElem?_map, found, Option.map_some]

theorem count_flatten_set [DecidableEq α] {lists : List (List α)} {old : List α} (new : List α)
    (found : lists[index]? = some old) (item : α) :
    (lists.set index new).flatten.count item + old.count item =
      lists.flatten.count item + new.count item := by
  induction lists generalizing index with
  | nil => cases found
  | cons first rest ih =>
    cases index with
    | zero =>
      cases found
      simp only [set_cons_zero, flatten_cons, count_append]
      omega
    | succ index =>
      simp only [set_cons_succ, flatten_cons, count_append]
      have later := ih found
      omega

theorem sum_map_set {old : α} (size : α → Nat) (new : α) (found : items[index]? = some old) :
    ((items.set index new).map size).sum + size old = (items.map size).sum + size new := by
  induction items generalizing index with
  | nil => cases found
  | cons first rest ih =>
    cases index with
    | zero =>
      cases found
      simp only [set_cons_zero, map_cons, sum_cons]
      omega
    | succ index =>
      simp only [set_cons_succ, map_cons, sum_cons]
      have later := ih found
      omega

/-- A search from the front: the items that are passed over, the first one with
the property, and those behind it. -/
def splitFirst (p : α → Prop) [DecidablePred p] : List α → Option (List α × α × List α)
  | [] => none
  | item :: rest =>
    if p item then some ([], item, rest)
    else (splitFirst p rest).map fun found => (item :: found.1, found.2)

variable {p : α → Prop} [DecidablePred p] {before after : List α}

theorem splitFirst_eq_some (found : splitFirst p items = some (before, item, after)) :
    items = before ++ item :: after ∧ p item ∧ ∀ other ∈ before, ¬ p other := by
  induction items generalizing before with
  | nil => cases found
  | cons first rest ih =>
    rw [splitFirst] at found
    split_ifs at found with here
    · cases found
      exact ⟨rfl, here, by simp⟩
    · rw [Option.map_eq_some_iff] at found
      obtain ⟨⟨init, middle⟩, inner, equal⟩ := found
      cases equal
      obtain ⟨split, has, passed⟩ := ih inner
      exact ⟨by rw [split]; rfl, has, forall_mem_cons.mpr ⟨here, passed⟩⟩

theorem splitFirst_eq_none (nowhere : splitFirst p items = none) : ∀ item ∈ items, ¬ p item := by
  induction items with
  | nil => simp
  | cons first rest ih =>
    rw [splitFirst] at nowhere
    split_ifs at nowhere with here
    rw [Option.map_eq_none_iff] at nowhere
    exact forall_mem_cons.mpr ⟨here, ih nowhere⟩

end SRPC
