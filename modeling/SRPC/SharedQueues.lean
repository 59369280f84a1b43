import Mathlib.Data.List.Basic
import Mathlib.Logic.Function.Basic

/-!
# Items in several queues

Every item of a list stands in one queue for each of its keys, behind the
earlier items with the same key.  An item is ready if it is the first of all its
queues.
-/

namespace SRPC.SharedQueues

open List

variable {α κ : Type*} [DecidableEq κ]

/-- The items with this key, in their order. -/
def queue (live : List α) (keys : α → List κ) (key : κ) : List α :=
  live.filter fun item => key ∈ keys item

/-- An item that no earlier one is in the way of. -/
def Ready (live : List α) (keys : α → List κ) (item : α) : Prop :=
  ∀ key ∈ keys item, (queue live keys key).head? = some item

variable {live : List α} {keys : α → List κ} {item other : α} {key : κ}

theorem mem_queue : item ∈ queue live keys key ↔ item ∈ live ∧ key ∈ keys item := by
  simp [queue]

theorem queue_congr {other : α → List κ} (same : ∀ item ∈ live, other item = keys item) (key : κ) :
    queue live other key = queue live keys key :=
  filter_congr fun item member => by rw [same item member]

theorem ready_congr {other : α → List κ}
    (same : ∀ item ∈ live, other item = keys item) (inLive : item ∈ live) :
    Ready live other item ↔ Ready live keys item := by
  rw [Ready, same item inLive]
  exact forall₂_congr fun key _ => by rw [queue_congr same]

theorem ready_head (item : α) (rest : List α) (keys : α → List κ) :
    Ready (item :: rest) keys item := by
  intro key member
  simp [queue, member]

theorem Ready.eq (ready : Ready live keys item)
    (otherReady : Ready live keys other) (member : key ∈ keys item)
    (shared : key ∈ keys other) : item = other :=
  Option.some.inj ((ready key member).symm.trans (otherReady key shared))

/-- Who is ready comes before all with a common key. -/
theorem Ready.first {before : α → α → Prop} (ready : Ready live keys item)
    (ordered : live.Pairwise before) (member : key ∈ keys item)
    (inLive : other ∈ live) (shared : key ∈ keys other) (ne : other ≠ item) :
    before item other := by
  have head := ready key member
  have queued : other ∈ queue live keys key := mem_queue.mpr ⟨inLive, shared⟩
  have inOrder : (queue live keys key).Pairwise before := ordered.filter _
  cases items : queue live keys key with
  | nil => simp [items] at head
  | cons first rest =>
    rw [items] at head queued inOrder
    obtain rfl : first = item := Option.some.inj head
    exact (pairwise_cons.mp inOrder).1 other ((mem_cons.mp queued).resolve_left ne)

section Arrival

theorem queue_concat (live : List α) (keys : α → List κ) (item : α) (key : κ) :
    queue (live ++ [item]) keys key =
      queue live keys key ++ if key ∈ keys item then [item] else [] := by
  rw [queue, filter_append, queue]
  congr 1
  by_cases member : key ∈ keys item <;> simp [member]

theorem ready_concat_of_mem (inLive : other ∈ live) (item : α) :
    Ready (live ++ [item]) keys other ↔ Ready live keys other := by
  have same : ∀ key ∈ keys other, (queue (live ++ [item]) keys key).head? =
      (queue live keys key).head? := by
    intro key member
    have some : queue live keys key ≠ [] := ne_nil_of_mem (mem_queue.mpr ⟨inLive, member⟩)
    rw [queue_concat, head?_append_of_ne_nil _ some]
  exact forall₂_congr fun key member => by rw [same key member]

theorem ready_concat_self (absent : item ∉ live) :
    Ready (live ++ [item]) keys item ↔
      ∀ key ∈ keys item, queue live keys key = [] := by
  refine forall₂_congr fun key member => ?_
  rw [queue_concat, if_pos member]
  cases items : queue live keys key with
  | nil => simp
  | cons first rest =>
    have inLive : first ∈ live := (mem_queue.mp (items ▸ mem_cons_self)).1
    have ne : first ≠ item := fun same => absent (same ▸ inLive)
    simp [ne]

end Arrival

section Departure

variable {rest : List α}

theorem not_ready_next (distinct : live.Nodup)
    (front : queue live keys key = item :: other :: rest) : ¬ Ready live keys other := by
  intro ready
  have queued : other ∈ queue live keys key := by simp [front]
  have head := ready key (mem_queue.mp queued).2
  rw [front] at head
  have nodupQueue : (item :: other :: rest).Nodup := front ▸ distinct.filter _
  exact (nodup_cons.mp nodupQueue).1 (Option.some.inj head ▸ mem_cons_self)

variable [DecidableEq α]

/-- The item gives up one key. -/
def leave (keys : α → List κ) (item : α) (key : κ) : α → List κ :=
  Function.update keys item ((keys item).erase key)

theorem leave_of_ne (keys : α → List κ) (key : κ) (ne : other ≠ item) :
    leave keys item key other = keys other := Function.update_of_ne ne ..

theorem queue_leave_of_ne {first : κ} (keys : α → List κ) (ne : key ≠ first)
    (live : List α) (item : α) : queue live (leave keys item first) key = queue live keys key := by
  apply filter_congr
  intro other _
  by_cases same : other = item
  · subst same
    simp [leave, mem_erase_of_ne ne]
  · rw [leave_of_ne keys first same]

theorem queue_leave_self (distinct : live.Nodup) (nodup : (keys item).Nodup)
    (front : queue live keys key = item :: rest) : queue live (leave keys item key) key = rest := by
  have gone : key ∉ leave keys item key item := by
    simp [leave, nodup.mem_erase_iff]
  have split : queue live (leave keys item key) key = (queue live keys key).filter (· ≠ item) := by
    rw [queue, queue, filter_filter]
    apply filter_congr
    intro other _
    by_cases same : other = item
    · subst same
      simp [gone]
    · simp [leave_of_ne keys key same, same]
  have nodupQueue : (item :: rest).Nodup := front ▸ distinct.filter _
  rw [split, front, filter_cons_of_neg (by simp)]
  refine filter_eq_self.mpr fun other member => ?_
  have ne : other ≠ item := fun same =>
    (nodup_cons.mp nodupQueue).1 (same ▸ member)
  simpa using ne

theorem Ready.leave (ready : Ready live keys item) (nodup : (keys item).Nodup)
    (key : κ) : Ready live (leave keys item key) item := by
  intro key' member
  have erased : key' ∈ (keys item).erase key := by
    simpa [SharedQueues.leave] using member
  obtain ⟨ne, old⟩ := nodup.mem_erase_iff.mp erased
  rw [queue_leave_of_ne keys ne]
  exact ready key' old

theorem ready_leave_of_not_next (distinct : live.Nodup) (nodup : (keys item).Nodup)
    (front : queue live keys key = item :: rest) (ne : other ≠ item)
    (notNext : rest.head? ≠ some other) :
    Ready live (SharedQueues.leave keys item key) other ↔
      Ready live keys other := by
  rw [Ready, leave_of_ne keys key ne]
  by_cases member : key ∈ keys other
  · refine ⟨fun ready => ?_, fun ready => ?_⟩
    · have head := ready key member
      rw [queue_leave_self distinct nodup front] at head
      exact absurd head notNext
    · have head := ready key member
      rw [front] at head
      exact absurd (Option.some.inj head).symm ne
  · refine forall₂_congr fun key' member' => ?_
    have other : key' ≠ key := fun same => member (same ▸ member')
    rw [queue_leave_of_ne keys other]

theorem queue_erase (gone : keys item = []) (live : List α) (key : κ) :
    queue (live.erase item) keys key = queue live keys key := by
  rw [queue, queue]
  induction live with
  | nil => rfl
  | cons first rest ih =>
    by_cases same : first = item
    · subst same
      simp [gone]
    · rw [erase_cons_tail (by simpa using same), filter_cons, filter_cons, ih]

theorem ready_erase (gone : keys item = []) (live : List α) (other : α) :
    Ready (live.erase item) keys other ↔ Ready live keys other :=
  forall₂_congr fun key _ => by rw [queue_erase gone]

end Departure

end SRPC.SharedQueues
