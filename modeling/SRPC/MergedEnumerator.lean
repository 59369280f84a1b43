import SRPC.PriorityQueues

/-!
# Merging enumerators

A `MergedEnumerator` keeps the first element of every source that has not run
out in a priority queue, with one of the least on top.
-/

namespace SRPC.Enumeration

open Function List

/-- `merge_helper`: an element and the source it was taken from. -/
structure MergeHelper (α Source : Type*) where
  data : α
  src : Source
  deriving DecidableEq, Repr

namespace MergeHelper

variable {α Source : Type*}

/-- `merge_helper::operator<`. -/
def less (compare : α → α → Bool) (mh other : MergeHelper α Source) : Bool :=
  compare mh.data other.data

end MergeHelper

/-- `std::greater`, the default of `Compare`. -/
def greater {α : Type*} [LinearOrder α] (a b : α) : Bool := decide (b < a)

/-- The queue `q_`, and what every source has still to enumerate. -/
structure MergedEnumerator (Queue Source α : Type*) where
  q : Queue
  rest : Source → List α

/-- The queue of a `MergedEnumerator`. -/
abbrev HelperQueue (Queue Source : Type*) {α : Type*} (compare : α → α → Bool) :=
  PriorityQueue (MergeHelper α Source) Queue (MergeHelper.less compare)

namespace MergedEnumerator

section Operations

variable {Queue Source α : Type*} [DecidableEq Source]
  {compare : α → α → Bool} (heap : HelperQueue Queue Source compare)

def start (rest : Source → List α) : MergedEnumerator Queue Source α := ⟨heap.empty, rest⟩

/-- A source that has run out is not entered. -/
def addSource (m : MergedEnumerator Queue Source α) (src : Source) :
    MergedEnumerator Queue Source α :=
  match m.rest src with
  | [] => m
  | data :: later =>
    ⟨heap.push m.q ⟨data, src⟩, update m.rest src later⟩

def hasNext (m : MergedEnumerator Queue Source α) : Bool := (heap.top m.q).isSome

/-- `next`: the element with the source it is from.  The source is asked for its
next element as in `add_source`. -/
def next (m : MergedEnumerator Queue Source α) :
    Option (MergeHelper α Source × MergedEnumerator Queue Source α) :=
  match heap.top m.q with
  | none => none
  | some mh => some (mh, addSource heap ⟨heap.pop m.q, m.rest⟩ mh.src)

/-- `next` is called while there is a next element. -/
def drain : Nat → MergedEnumerator Queue Source α →
    Option (List (MergeHelper α Source))
  | 0, _ => none
  | fuel + 1, m =>
    if hasNext heap m then
      match next heap m with
      | none => none
      | some (mh, m) => (drain fuel m).map (mh :: ·)
    else
      some []

def addSources (m : MergedEnumerator Queue Source α) (sources : List Source) :
    MergedEnumerator Queue Source α := sources.foldl (addSource heap) m

end Operations

section Correctness

variable {Queue Source α : Type*} {compare : α → α → Bool} {heap : HelperQueue Queue Source compare}
  {m : MergedEnumerator Queue Source α} {sources : List Source} {pending : Source → List α}

/-- The entry of a source in the queue. -/
def front (pending : Source → List α) (src : Source) : Option (MergeHelper α Source) :=
  (pending src).head?.map fun data => ⟨data, src⟩

/-- The elements `pending` are still to come: the first of each source is in the
queue and the others are with the source. -/
structure Holds (heap : HelperQueue Queue Source compare)
    (m : MergedEnumerator Queue Source α) (sources : List Source)
    (pending : Source → List α) : Prop where
  distinct : sources.Nodup
  items : (heap.items m.q).Perm (sources.filterMap (front pending))
  rest : ∀ src ∈ sources, m.rest src = (pending src).tail

variable {mh : MergeHelper α Source} {src : Source}

theorem front_eq_some :
    front pending src = some mh ↔
      mh.src = src ∧ ∃ later, pending src = mh.data :: later := by
  rw [front, Option.map_eq_some_iff]
  constructor
  · rintro ⟨data, first, rfl⟩
    exact ⟨rfl, head?_eq_some_iff.mp first⟩
  · rintro ⟨rfl, later, pendingEq⟩
    exact ⟨mh.data, by rw [pendingEq, head?_cons], rfl⟩

theorem Holds.mem_items (holds : Holds heap m sources pending) :
    mh ∈ heap.items m.q ↔ mh.src ∈ sources ∧
      ∃ later, pending mh.src = mh.data :: later := by
  rw [holds.items.mem_iff, mem_filterMap]
  constructor
  · rintro ⟨src, member, found⟩
    obtain ⟨rfl, pendingEq⟩ := front_eq_some.mp found
    exact ⟨member, pendingEq⟩
  · rintro ⟨member, pendingEq⟩
    exact ⟨mh.src, member, front_eq_some.mpr ⟨rfl, pendingEq⟩⟩

theorem holds_start (rest : Source → List α) : Holds heap (start heap rest) [] rest where
  distinct := nodup_nil
  items := by rw [start, heap.items_empty]; exact List.Perm.nil
  rest := fun _ member => absurd member not_mem_nil

theorem Holds.exhausted (holds : Holds heap m sources pending) :
    heap.top m.q = none ↔ sources.flatMap pending = [] := by
  rw [flatMap_eq_nil_iff]
  constructor
  · intro none src member
    have empty := heap.top_eq_none m.q none
    by_contra left
    obtain ⟨first, later, pendingEq⟩ := exists_cons_of_ne_nil left
    have entry : (⟨first, src⟩ : MergeHelper α Source) ∈ heap.items m.q :=
      holds.mem_items.mpr ⟨member, later, pendingEq⟩
    rw [empty] at entry
    exact absurd entry not_mem_nil
  · intro nothing
    by_contra shown
    obtain ⟨mh, shown⟩ := Option.ne_none_iff_exists'.mp shown
    obtain ⟨member, later, pendingEq⟩ := holds.mem_items.mp (heap.mem_of_top shown)
    rw [nothing _ member] at pendingEq
    cases pendingEq

theorem Holds.top_first (holds : Holds heap m sources pending)
    (trans : ∀ a b c, compare a b = false → compare b c = false → compare a c = false)
    (sorted : ∀ src ∈ sources, (pending src).Pairwise fun a b => compare a b = false)
    (shown : heap.top m.q = some mh) :
    ∀ data ∈ sources.flatMap pending, compare mh.data data = false := by
  intro data inside
  obtain ⟨src, member, dataMember⟩ := mem_flatMap.mp inside
  obtain ⟨first, later, pendingEq⟩ : ∃ first later, pending src = first :: later :=
    exists_cons_of_ne_nil (ne_nil_of_mem dataMember)
  have entry : (⟨first, src⟩ : MergeHelper α Source) ∈ heap.items m.q :=
    holds.mem_items.mpr ⟨member, later, pendingEq⟩
  have least : compare mh.data first = false := heap.top_max _ _ shown _ entry
  rw [pendingEq] at dataMember
  rcases mem_cons.mp dataMember with rfl | behind
  · exact least
  · have own := sorted src member
    rw [pendingEq] at own
    exact trans _ _ _ least (rel_of_pairwise_cons own behind)

variable [DecidableEq Source]

theorem Holds.addSource (holds : Holds heap m sources pending) (new : src ∉ sources) :
    Holds heap (addSource heap m src) (src :: sources) (update pending src (m.rest src)) := by
  have others : ∀ other ∈ sources, other ≠ src := fun other member same =>
    new (same ▸ member)
  have kept : sources.filterMap (front (update pending src (m.rest src))) =
        sources.filterMap (front pending) := by
    refine filterMap_congr fun other member => ?_
    rw [front, front, update_of_ne (others other member)]
  refine ⟨nodup_cons.mpr ⟨new, holds.distinct⟩, ?_, ?_⟩
  · rw [filterMap_cons, kept, MergedEnumerator.addSource, front, update_self]
    cases m.rest src with
    | nil => exact holds.items
    | cons data later =>
      exact (heap.items_push _ _).trans (holds.items.cons _)
  · intro other member
    rw [MergedEnumerator.addSource]
    rcases mem_cons.mp member with rfl | early
    · rw [update_self]
      cases restEq : m.rest other with
      | nil => simp [restEq]
      | cons data later => simp
    · rw [update_of_ne (others other early)]
      cases m.rest src with
      | nil => exact holds.rest other early
      | cons data later =>
        simp only [update_of_ne (others other early)]
        exact holds.rest other early

/-- `next` takes a least element of all sources. -/
theorem Holds.next (holds : Holds heap m sources pending) (shown : heap.top m.q = some mh) :
    ∃ others later, sources.Perm (mh.src :: others) ∧
      pending mh.src = mh.data :: later ∧
      Holds heap (MergedEnumerator.addSource heap ⟨heap.pop m.q, m.rest⟩ mh.src)
        (mh.src :: others) (update pending mh.src later) := by
  obtain ⟨member, later, pendingEq⟩ := holds.mem_items.mp (heap.mem_of_top shown)
  have split := perm_cons_erase member
  have distinct := split.nodup_iff.mp holds.distinct
  have popped : Holds heap ⟨heap.pop m.q, m.rest⟩ (sources.erase mh.src) pending := by
    refine ⟨(nodup_cons.mp distinct).2, ?_, fun src early =>
      holds.rest src (mem_of_mem_erase early)⟩
    have items := ((heap.items_pop _ _ shown).symm.trans holds.items).trans
      (split.filterMap (front pending))
    rw [filterMap_cons, front_eq_some.mpr ⟨rfl, later, pendingEq⟩] at items
    exact items.cons_inv
  have entered := popped.addSource (nodup_cons.mp distinct).1
  rw [show m.rest mh.src = later by
    rw [holds.rest mh.src member, pendingEq, tail_cons]] at entered
  exact ⟨_, later, split, pendingEq, entered⟩

theorem rest_addSource_of_ne {other : Source} (different : other ≠ src) :
    (MergedEnumerator.addSource heap m src).rest other = m.rest other := by
  rw [MergedEnumerator.addSource]
  cases m.rest src with
  | nil => rfl
  | cons data later => exact update_of_ne different _ _

theorem Holds.addSources (holds : Holds heap m sources pending)
    {added : List Source} (distinct : added.Nodup) (new : ∀ src ∈ added, src ∉ sources)
    (complete : ∀ src ∈ added, m.rest src = pending src) :
    Holds heap (addSources heap m added) (added.reverse ++ sources) pending := by
  induction added generalizing m sources with
  | nil => exact holds
  | cons src added ih =>
    obtain ⟨apart, distinct⟩ := nodup_cons.mp distinct
    have entered := holds.addSource (new src mem_cons_self)
    rw [complete src mem_cons_self, update_eq_self] at entered
    have added' := ih entered distinct
      (fun other member => by
        rw [mem_cons]
        rintro (rfl | early)
        · exact apart member
        · exact new other (mem_cons_of_mem _ member) early)
      (fun other member => by
        have different : other ≠ src := fun same => apart (same ▸ member)
        rw [rest_addSource_of_ne different]
        exact complete other (mem_cons_of_mem _ member))
    rwa [reverse_cons, append_assoc, singleton_append]

/-- The elements of the sources in the order of `compare`, those of each source
in their own order. -/
structure Merges (compare : α → α → Bool) (sources : List Source)
    (pending : Source → List α) (taken : List (MergeHelper α Source)) : Prop where
  ordered : (taken.map MergeHelper.data).Pairwise fun a b => compare a b = false
  elements : (taken.map MergeHelper.data).Perm (sources.flatMap pending)
  own : ∀ src ∈ sources, (taken.filter fun mh => mh.src = src).map MergeHelper.data = pending src

variable {others : List Source} {later : List α}

theorem flatMap_update {data : α} (split : sources.Perm (src :: others)) (apart : src ∉ others)
    (pendingEq : pending src = data :: later) :
    (sources.flatMap pending).Perm (data ::
      (src :: others).flatMap (update pending src later)) := by
  have kept : others.flatMap (update pending src later) = others.flatMap pending := by
    refine flatMap_congr fun other member => ?_
    have different : other ≠ src := fun same => apart (same ▸ member)
    exact update_of_ne different _ _
  refine (split.flatMap_right pending).trans ?_
  rw [flatMap_cons, flatMap_cons, kept, pendingEq, update_self, cons_append]

theorem Merges.cons {taken : List (MergeHelper α Source)} (split : sources.Perm (mh.src :: others))
    (apart : mh.src ∉ others) (pendingEq : pending mh.src = mh.data :: later)
    (first : ∀ data ∈ sources.flatMap pending, compare mh.data data = false)
    (merges : Merges compare (mh.src :: others) (update pending mh.src later) taken) :
    Merges compare sources pending (mh :: taken) where
  ordered := by
    rw [map_cons, pairwise_cons]
    refine ⟨fun data member => first data ?_, merges.ordered⟩
    exact (flatMap_update split apart pendingEq).mem_iff.mpr
      (mem_cons_of_mem _ (merges.elements.mem_iff.mp member))
  elements := (merges.elements.cons mh.data).trans (flatMap_update split apart pendingEq).symm
  own := by
    intro src member
    have own := merges.own src (split.mem_iff.mp member)
    by_cases same : mh.src = src
    · subst same
      rw [filter_cons_of_pos (by simp), map_cons, own, update_self, pendingEq]
    · rw [filter_cons_of_neg (by simpa using same), own, update_of_ne fun equal => same equal.symm]

theorem Holds.drain (holds : Holds heap m sources pending)
    (trans : ∀ a b c, compare a b = false → compare b c = false →
      compare a c = false)
    (sorted : ∀ src ∈ sources, (pending src).Pairwise fun a b => compare a b = false) :
    ∃ taken, (∀ fuel, (sources.flatMap pending).length < fuel →
        drain heap fuel m = some taken) ∧
      Merges compare sources pending taken := by
  obtain ⟨count, counted⟩ : ∃ count, (sources.flatMap pending).length = count := ⟨_, rfl⟩
  rw [counted]
  induction count generalizing m sources pending with
  | zero =>
    have nothing := length_eq_zero_iff.mp counted
    have drained := holds.exhausted.mpr nothing
    refine ⟨[], ?_, List.Pairwise.nil, by simp [nothing], ?_⟩
    · intro fuel enough
      obtain ⟨fuel, rfl⟩ := Nat.exists_eq_succ_of_ne_zero enough.ne'
      simp [MergedEnumerator.drain, hasNext, drained]
    · intro src member
      exact (flatMap_eq_nil_iff.mp nothing src member).symm
  | succ count ih =>
    obtain ⟨mh, shown⟩ : ∃ mh, heap.top m.q = some mh := by
      refine Option.ne_none_iff_exists'.mp fun none => ?_
      rw [holds.exhausted.mp none] at counted
      exact absurd counted (Nat.succ_ne_zero count).symm
    obtain ⟨others, later, split, pendingEq, held⟩ := holds.next shown
    have apart := (nodup_cons.mp held.distinct).1
    have fewer := (flatMap_update split apart pendingEq).length_eq
    rw [counted, length_cons] at fewer
    have sorted' : ∀ src ∈ mh.src :: others, (update pending mh.src later src).Pairwise
          fun a b => compare a b = false := by
      intro src member
      have own := sorted src (split.mem_iff.mpr member)
      by_cases same : src = mh.src
      · subst same
        rw [pendingEq] at own
        rw [update_self]
        exact own.tail
      · rw [update_of_ne same]
        exact own
    obtain ⟨taken, runs, merges⟩ := ih held sorted' (by omega)
    refine ⟨mh :: taken, ?_, merges.cons split apart pendingEq (holds.top_first trans sorted shown)⟩
    intro fuel enough
    obtain ⟨fuel, rfl⟩ := Nat.exists_eq_succ_of_ne_zero (by omega : fuel ≠ 0)
    simp [MergedEnumerator.drain, hasNext, MergedEnumerator.next, shown, runs fuel (by omega)]

end Correctness

/-- The merged enumeration of sorted sources. -/
theorem merged_enumerator_merges {Queue Source α : Type*} [DecidableEq Source] [LinearOrder α]
    (heap : HelperQueue Queue Source (greater : α → α → Bool))
    (sources : List Source) (distinct : sources.Nodup) (rest : Source → List α)
    (sorted : ∀ src ∈ sources, (rest src).Pairwise (· ≤ ·)) :
    ∃ taken, (∀ fuel, (sources.flatMap rest).length < fuel →
        drain heap fuel (addSources heap (start heap rest) sources) = some taken) ∧
      (taken.map MergeHelper.data).Pairwise (· ≤ ·) ∧
      (taken.map MergeHelper.data).Perm (sources.flatMap rest) ∧
      ∀ src ∈ sources, (taken.filter fun mh => mh.src = src).map MergeHelper.data = rest src := by
  have order : ∀ a b : α, greater a b = false ↔ a ≤ b := by
    intro a b
    rw [greater, decide_eq_false_iff_not, not_lt]
  have begun : Holds heap (start heap rest) [] rest := holds_start rest
  have holds := begun.addSources distinct (fun _ _ => not_mem_nil) fun _ _ => rfl
  rw [append_nil] at holds
  have total := (reverse_perm sources).flatMap_right rest
  obtain ⟨taken, runs, merges⟩ := holds.drain
    (fun a b c => by
      simp only [order]
      exact le_trans)
    (fun src member => by
      simp only [order]
      exact sorted src (mem_reverse.mp member))
  refine ⟨taken, fun fuel enough => runs fuel (by rw [total.length_eq]; omega),
    ?_, merges.elements.trans total, fun src member =>
      merges.own src (mem_reverse.mpr member)⟩
  exact merges.ordered.imp fun {a b} => (order a b).mp

def sortedHelpers (Source : Type*) :
    HelperQueue (PriorityQueue.SortedItems (@MergeHelper.less Nat Source greater))
      Source (greater : Nat → Nat → Bool) :=
  PriorityQueue.sortedList _
    (fun mh other => by
      simp only [MergeHelper.less, greater, decide_eq_false_iff_not]
      omega)
    (fun mh other last => by
      simp only [MergeHelper.less, greater, decide_eq_false_iff_not]
      omega)

def threeSources : Nat → List Nat
  | 0 => [1, 4, 4]
  | 1 => []
  | _ => [2, 4]

theorem merged_enumerator_merges_three :
    [2, 0, 1].Nodup ∧ (∀ src ∈ [2, 0, 1], (threeSources src).Pairwise (· ≤ ·)) ∧
    ∃ taken, drain (sortedHelpers _) 6
        (addSources (sortedHelpers _) (start (sortedHelpers _) threeSources)
          [2, 0, 1]) = some taken ∧
      (taken.map MergeHelper.data).Pairwise (· ≤ ·) ∧
      (taken.map MergeHelper.data).Perm [2, 4, 1, 4, 4] := by
  refine ⟨by decide, by decide, ?_⟩
  obtain ⟨taken, runs, ordered, elements, -⟩ :=
    merged_enumerator_merges (sortedHelpers _) [2, 0, 1] (by decide) threeSources (by decide)
  exact ⟨taken, runs 6 (by decide), ordered, elements⟩

end MergedEnumerator

end SRPC.Enumeration
