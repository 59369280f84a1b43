import Mathlib.Data.List.Forall2
import SRPC.MarshalSharing

/-!
# One writer and many readers of a heap

A connection writes to one marshal and hands parts of it to others that are
only read.  The writer never touches a byte the others hold.
-/

namespace SRPC.Marshalling

open List

section Pointwise

variable {α β : Type*} {R S : α → β → Prop} {items : List α} {others : List β}

theorem forall₂_imp_of_mem (related : List.Forall₂ R items others)
    (each : ∀ item ∈ items, ∀ other, R item other → S item other) :
    List.Forall₂ S items others := by
  induction related with
  | nil => exact .nil
  | cons head _ ih =>
    exact .cons (each _ mem_cons_self _ head) (ih fun item member =>
      each item (mem_cons_of_mem _ member))

variable {index : Nat} {item : α} {other : β}

theorem forall₂_set (related : List.Forall₂ R items others) (new : S item other)
    (each : ∀ old ∈ items.set index item, ∀ other, R old other → S old other) :
    List.Forall₂ S (items.set index item) (others.set index other) := by
  induction related generalizing index with
  | nil => exact .nil
  | cons head tail ih =>
    cases index with
    | zero =>
      exact .cons new (forall₂_imp_of_mem tail fun old member =>
        each old (mem_cons_of_mem _ member))
    | succ index =>
      exact .cons (each _ mem_cons_self _ head) (ih fun old member =>
        each old (mem_cons_of_mem _ member))

theorem forall₂_getElem (related : List.Forall₂ R items others)
    (found : others[index]? = some other) : ∃ item, items[index]? = some item ∧ R item other := by
  obtain ⟨inside, atIndex⟩ := List.getElem?_eq_some_iff.mp found
  have within : index < items.length := by
    rw [related.length_eq]
    exact inside
  have pair := related.get within inside
  simp only [get_eq_getElem, atIndex] at pair
  exact ⟨_, getElem?_eq_getElem within, pair⟩

variable {γ : Type*}

theorem map_split (f : α → γ) (found : items[index]? = some item) :
    items.map f = (items.take index).map f ++ f item :: (items.drop (index + 1)).map f := by
  obtain ⟨inside, atIndex⟩ := List.getElem?_eq_some_iff.mp found
  have split : items = items.take index ++ item :: items.drop (index + 1) := by
    rw [← atIndex, getElem_cons_drop, take_append_drop]
  refine (congrArg (List.map f) split).trans ?_
  rw [map_append, map_cons]

theorem map_set_split (f : α → γ) (found : items[index]? = some item) (new : α) :
    (items.set index new).map f = (items.take index).map f ++
      f new :: (items.drop (index + 1)).map f := by
  have inside := lt_of_getElem? found
  rw [set_eq_take_append_cons_drop, if_pos inside, map_append, map_cons]

end Pointwise

/-- How many chunks of the chains are windows into the block. -/
def totalRefs (chains : List Chain) (data : Nat) : Nat :=
  (chains.map fun chain => chain.refs data).sum

@[simp]
theorem totalRefs_nil (data : Nat) : totalRefs [] data = 0 := rfl

@[simp]
theorem totalRefs_cons (chain : Chain) (chains : List Chain) (data : Nat) :
    totalRefs (chain :: chains) data = chain.refs data + totalRefs chains data := by
  simp [totalRefs]

@[simp]
theorem totalRefs_append (first second : List Chain) (data : Nat) :
    totalRefs (first ++ second) data = totalRefs first data + totalRefs second data := by
  simp [totalRefs]

variable {chain : Chain} {chains : List Chain}

theorem refs_le_totalRefs (member : chain ∈ chains) (data : Nat) :
    chain.refs data ≤ totalRefs chains data := single_le_sum (by simp) _ (mem_map_of_mem member)

theorem refs_pos {chunk : Chunk} (member : chunk ∈ chain.chunks) : 0 < chain.refs chunk.data :=
  count_pos_iff.mpr (mem_map_of_mem member)

variable {data : Nat}

theorem data_lt_of_refs_pos {heap : Heap} (wellFormed : WellFormed heap chain)
    (positive : 0 < chain.refs data) : data < heap.next := by
  obtain ⟨chunk, member, rfl⟩ := mem_map.mp (count_pos_iff.mp positive)
  exact wellFormed.data_lt chunk member

theorem data_lt_of_totalRefs_pos {heap : Heap}
    (wellFormed : ∀ chain ∈ chains, WellFormed heap chain) (positive : 0 < totalRefs chains data) :
    data < heap.next := by
  by_contra new
  have none : totalRefs chains data = 0 := by
    refine sum_eq_zero fun count member => ?_
    obtain ⟨chain, chainMember, rfl⟩ := mem_map.mp member
    by_contra some
    exact new (data_lt_of_refs_pos (wellFormed chain chainMember) (Nat.pos_of_ne_zero some))
  omega

/-- The chains in a heap: one that is written to and others that are not. -/
structure Owned (heap : Heap) (owner : Chain) (others : List Chain) : Prop where
  ownerOk : WellFormed heap owner
  othersOk : ∀ other ∈ others, WellFormed heap other
  apart : ∀ other ∈ others, ∀ cell ∈ other.cells, ¬ owner.Writable cell
  counted : ∀ data, 0 < owner.refs data + totalRefs others data →
    ((owner.refs data + totalRefs others data : Nat) : Int) ≤ (heap.rawBytes data).refcnt

theorem WellFormed.transfer_of_counted {heap heap' : Heap} (wellFormed : WellFormed heap chain)
    (next : heap.next ≤ heap'.next)
    (sizes : ∀ data < heap.next, (heap'.rawBytes data).size = (heap.rawBytes data).size)
    {total : Nat → Nat} (held : ∀ data, chain.refs data ≤ total data)
    (counted : ∀ data, 0 < total data → (total data : Int) ≤ (heap'.rawBytes data).refcnt) :
    WellFormed heap' chain := by
  refine wellFormed.transfer next ?_ ?_
  · intro chunk member
    exact sizes chunk.data (wellFormed.data_lt chunk member)
  · intro chunk member
    have positive : 0 < total chunk.data := Nat.lt_of_lt_of_le (refs_pos member) (held chunk.data)
    have := counted chunk.data positive
    omega

theorem content_congr {heap heap' : Heap}
    (bytes : ∀ cell ∈ chain.cells, heap'.byte cell = heap.byte cell) :
    chain.content heap' = chain.content heap := map_congr_left bytes

namespace Owned

variable {heap heap' : Heap} {owner owner' : Chain} {others : List Chain}

theorem alone (wellFormed : WellFormed heap owner) : Owned heap owner [] where
  ownerOk := wellFormed
  othersOk := by simp
  apart := by simp
  counted := by
    intro data positive
    have once := refs_le_one wellFormed data
    simp only [totalRefs_nil, Nat.add_zero] at *
    obtain ⟨chunk, member, rfl⟩ := mem_map.mp (count_pos_iff.mp positive)
    have live := (wellFormed.valid chunk member).1
    omega

/-- What the writer does its readers do not notice. -/
theorem act (owned : Owned heap owner others) (frame : Frame heap owner heap' owner')
    (wellFormed : WellFormed heap' owner') :
    Owned heap' owner' others ∧
      ∀ other ∈ others, other.content heap' = other.content heap := by
  have counted : ∀ data, 0 < owner'.refs data + totalRefs others data →
      ((owner'.refs data + totalRefs others data : Nat) : Int) ≤ (heap'.rawBytes data).refcnt := by
    intro data positive
    have before := owned.counted data
    have once := refs_le_one wellFormed data
    -- A block nobody referred to before is new to the writer only.
    have fresh : 0 < owner'.refs data → 0 < (heap'.rawBytes data).refcnt := by
      intro held
      obtain ⟨chunk, member, rfl⟩ := mem_map.mp (count_pos_iff.mp held)
      exact (wellFormed.valid chunk member).1
    by_cases old : data < heap.next
    · have balance := frame.balance data old
      omega
    · have none : ¬ 0 < totalRefs others data := fun some =>
        old (data_lt_of_totalRefs_pos owned.othersOk some)
      omega
  refine ⟨⟨wellFormed, ?_, ?_, counted⟩, ?_⟩
  · intro other member
    refine (owned.othersOk other member).transfer_of_counted frame.next_le
      frame.size_eq (fun data => ?_) counted
    exact Nat.le_trans (refs_le_totalRefs member data) (Nat.le_add_left _ _)
  · intro other member cell held writable
    rcases frame.writable cell writable with before | new
    · exact owned.apart other member cell held before
    · have := (owned.othersOk other member).cell_lt held
      omega
  · intro other member
    exact content_congr fun cell held => frame.byte_eq cell
      ((owned.othersOk other member).cell_lt held) (owned.apart other member cell held)

variable {reader : Chain} {count : Nat}

/-- A part of the writer becomes a reader. -/
theorem share (owned : Owned heap owner others)
    (shares : Shares heap ⟨[], none⟩ owner count heap' reader owner') :
    Owned heap' owner' (others ++ [reader]) := by
  have counted : ∀ data, 0 < owner'.refs data + totalRefs (others ++ [reader]) data →
      ((owner'.refs data + totalRefs (others ++ [reader]) data : Nat) : Int) ≤
        (heap'.rawBytes data).refcnt := by
    intro data positive
    have before := owned.counted data
    have still := shares.refs_pos data
    have empty : Chain.refs ⟨[], none⟩ data = 0 := rfl
    simp only [totalRefs_append, totalRefs_cons, totalRefs_nil] at positive ⊢
    have old : data < heap.next := by
      by_cases held : 0 < owner.refs data
      · exact data_lt_of_refs_pos owned.ownerOk held
      · exact data_lt_of_totalRefs_pos owned.othersOk (by omega)
    have balance := shares.balance data old
    omega
  refine ⟨shares.sourceOk, ?_, ?_, counted⟩
  · intro other member
    rcases mem_append.mp member with early | new
    · refine (owned.othersOk other early).transfer_of_counted shares.next_le
        shares.size_eq (fun data => ?_) counted
      exact Nat.le_trans (refs_le_totalRefs member data) (Nat.le_add_left _ _)
    · rw [mem_singleton.mp new]
      exact shares.targetOk
  · intro other member cell held writable
    have before := shares.writable cell writable
    rcases mem_append.mp member with early | new
    · exact owned.apart other early cell held before
    · -- The reader holds cells of the writer, which does not overwrite them.
      rw [mem_singleton.mp new, shares.targetCells] at held
      exact owned.ownerOk.not_writable (mem_of_mem_take held) before

variable {before after : List Chain}

/-- A reader drops bytes that the others keep. -/
theorem consume {reader' : Chain} (owned : Owned heap owner (before ++ reader :: after))
    (shrinks : Shrinks heap reader count heap' reader') :
    Owned heap' owner (before ++ reader' :: after) := by
  have counted : ∀ data, 0 < owner.refs data + totalRefs (before ++ reader' :: after) data →
      ((owner.refs data + totalRefs (before ++ reader' :: after) data : Nat) :
        Int) ≤ (heap'.rawBytes data).refcnt := by
    intro data positive
    have was := owned.counted data
    have fewer := shrinks.refs_le data
    simp only [totalRefs_append, totalRefs_cons] at positive was ⊢
    have old : data < heap.next := by
      by_cases held : 0 < owner.refs data
      · exact data_lt_of_refs_pos owned.ownerOk held
      · refine data_lt_of_totalRefs_pos owned.othersOk ?_
        simp only [totalRefs_append, totalRefs_cons]
        omega
    have balance := shrinks.frame.balance data old
    omega
  have survives {chain : Chain} (wellFormed : WellFormed heap chain)
      (held : ∀ data, chain.refs data ≤
        owner.refs data + totalRefs (before ++ reader' :: after) data) : WellFormed heap' chain :=
    wellFormed.transfer_of_counted shrinks.next.ge shrinks.frame.size_eq held counted
  have members {other : Chain} (member : other ∈ before ++ reader' :: after) :
      other = reader' ∨ other ∈ before ++ reader :: after := by
    simp only [mem_append, mem_cons] at member ⊢
    tauto
  refine ⟨survives owned.ownerOk fun data => Nat.le_add_right _ _, ?_, ?_, counted⟩
  · intro other member
    rcases members member with rfl | old
    · exact shrinks.wellFormed
    · exact survives (owned.othersOk other old) fun data =>
        Nat.le_trans (refs_le_totalRefs member data) (Nat.le_add_left _ _)
  · intro other member cell held
    rcases members member with rfl | old
    · rw [shrinks.cells] at held
      exact owned.apart reader (by simp) cell (mem_of_mem_drop held)
    · exact owned.apart other old cell held

theorem forget {tail : Option Nat} (owned : Owned heap owner (before ++ ⟨[], tail⟩ :: after)) :
    Owned heap owner (before ++ after) := by
  have empty (data : Nat) : Chain.refs ⟨[], tail⟩ data = 0 := rfl
  have members {other : Chain} (member : other ∈ before ++ after) :
      other ∈ before ++ ⟨[], tail⟩ :: after := by
    simp only [mem_append, mem_cons] at member ⊢
    tauto
  refine ⟨owned.ownerOk, fun other member =>
    owned.othersOk other (members member), fun other member =>
    owned.apart other (members member), ?_⟩
  intro data
  have counted := owned.counted data
  simp only [totalRefs_append, totalRefs_cons, empty, Nat.zero_add]
    at counted ⊢
  exact counted

theorem remember (owned : Owned heap owner others) : Owned heap owner (others ++ [⟨[], none⟩]) := by
  have empty (data : Nat) : Chain.refs ⟨[], none⟩ data = 0 := rfl
  refine ⟨owned.ownerOk, ?_, ?_, ?_⟩
  · exact forall_mem_concat owned.othersOk (WellFormed.empty heap)
  · intro other member cell held
    rcases mem_append.mp member with early | new
    · exact owned.apart other early cell held
    · rw [mem_singleton.mp new] at held
      simp [Chain.cells] at held
  · intro data
    simp only [totalRefs_append, totalRefs_cons, totalRefs_nil, empty, Nat.add_zero]
    exact owned.counted data

theorem perm (owned : Owned heap owner others) {others' : List Chain}
    (same : others.Perm others') : Owned heap owner others' := by
  refine ⟨owned.ownerOk, fun other member =>
    owned.othersOk other (same.mem_iff.mpr member), fun other member =>
    owned.apart other (same.mem_iff.mpr member), ?_⟩
  intro data
  have total : totalRefs others' data = totalRefs others data := (same.map _).sum_eq.symm
  rw [total]
  exact owned.counted data

theorem shareWith (owned : Owned heap owner (before ++ ⟨[], none⟩ :: after))
    (shares : Shares heap ⟨[], none⟩ owner count heap' reader owner') :
    Owned heap' owner' (before ++ reader :: after) := by
  refine (owned.forget.share shares).perm ?_
  rw [append_assoc]
  exact (perm_append_singleton reader after).append_left before

end Owned

theorem delete_shrinks {heap : Heap} (wellFormed : WellFormed heap chain) :
    ∃ heap' tail, chain.chunks.foldlM (fun heap chunk => chunk.delete heap) heap = some heap' ∧
      Shrinks heap chain chain.cells.length heap' ⟨[], tail⟩ := by
  obtain ⟨chunks, tail⟩ := chain
  induction chunks generalizing heap tail with
  | nil => exact ⟨heap, tail, rfl, Shrinks.refl wellFormed⟩
  | cons head rest ih =>
    obtain ⟨deleted, shrinks⟩ := deleteHead_shrinks wellFormed rfl
    obtain ⟨heap', tail', loop, more⟩ := ih _ shrinks.wellFormed
    have length : (Chain.cells ⟨head :: rest, tail⟩).length =
        head.cells.length + (rest.flatMap Chunk.cells).length := by
      rw [cells_cons rfl, length_append]
    refine ⟨heap', tail', ?_, ?_⟩
    · rw [foldlM_cons, deleted]
      exact loop
    · rw [length]
      exact shrinks.trans more

end SRPC.Marshalling
