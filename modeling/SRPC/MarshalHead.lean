import SRPC.MarshalInvariant

/-!
# Consuming a chain at its head

`read`, `write_to_fd` and `read_from_marshal` move the read index of the head
chunk forward and delete the chunk once it is fully read.
-/

namespace SRPC.Marshalling

open List

/-- An operation that drops the first cells of a chain. -/
structure Shrinks (heap : Heap) (chain : Chain) (count : Nat)
    (heap' : Heap) (chain' : Chain) : Prop where
  wellFormed : WellFormed heap' chain'
  cells : chain'.cells = chain.cells.drop count
  frame : Frame heap chain heap' chain'
  next : heap'.next = heap.next
  bytes : ∀ cell, heap'.byte cell = heap.byte cell
  refs_le : ∀ data, chain'.refs data ≤ chain.refs data

namespace Shrinks

variable {heap heap₁ heap₂ : Heap} {chain chain₁ chain₂ : Chain} {first second : Nat}

theorem refl (wellFormed : WellFormed heap chain) : Shrinks heap chain 0 heap chain where
  wellFormed := wellFormed
  cells := rfl
  frame := Frame.refl heap chain
  next := rfl
  bytes := fun _ => rfl
  refs_le := fun _ => Nat.le_refl _

theorem trans (one : Shrinks heap chain first heap₁ chain₁)
    (two : Shrinks heap₁ chain₁ second heap₂ chain₂) :
    Shrinks heap chain (first + second) heap₂ chain₂ where
  wellFormed := two.wellFormed
  cells := by rw [two.cells, one.cells, drop_drop]
  frame := one.frame.trans two.frame
  next := two.next.trans one.next
  bytes := fun cell => (two.bytes cell).trans (one.bytes cell)
  refs_le := fun data => Nat.le_trans (two.refs_le data) (one.refs_le data)

theorem congr (shrinks : Shrinks heap chain first heap₁ chain₁)
    (same : chain.cells.drop first = chain.cells.drop second) :
    Shrinks heap chain second heap₁ chain₁ := { shrinks with cells := shrinks.cells.trans same }

theorem content (shrinks : Shrinks heap chain first heap₁ chain₁) :
    chain₁.content heap₁ = (chain.content heap).drop first := by
  simp only [Chain.content, shrinks.cells, map_drop]
  congr 1
  exact map_congr_left fun cell _ => shrinks.bytes cell

end Shrinks

section Head

variable {heap : Heap} {chain : Chain} {head : Chunk} {rest : List Chunk}

theorem refs_cons (chunks : chain.chunks = head :: rest) (data : Nat) :
    chain.refs data = (if head.data = data then 1 else 0) + (rest.map Chunk.data).count data := by
  rw [Chain.refs, chunks, map_cons, count_cons]
  simp [Nat.add_comm]

theorem wellFormed_rest (wellFormed : WellFormed heap chain)
    (chunks : chain.chunks = head :: rest) :
    WellFormed (heap.dropRef head.data)
      ⟨rest, if chain.tail = some head.addr then none else chain.tail⟩ := by
  have members : ∀ chunk ∈ rest, chunk ∈ chain.chunks := by
    intro chunk member
    rw [chunks]
    exact mem_cons_of_mem _ member
  have blocks := wellFormed.blocks
  have addrs := wellFormed.addrs
  rw [chunks, map_cons, nodup_cons] at blocks addrs
  refine ⟨?_, ?_, ?_, ?_, addrs.2, blocks.2, ?_, ?_⟩
  · intro chunk member
    obtain ⟨live, writeOk, readOk⟩ := wellFormed.valid chunk (members chunk member)
    have other : chunk.data ≠ head.data := by
      intro same
      exact blocks.1 (same ▸ mem_map_of_mem member)
    refine ⟨?_, by simpa using writeOk, readOk⟩
    rw [Heap.dropRef_refcnt, if_neg other]
    simpa using live
  · intro chunk member
    simpa [Chunk.size] using wellFormed.unread chunk (members chunk member)
  · intro chunk member
    have early : chunk ∈ chain.chunks.dropLast := by
      rw [chunks, dropLast_cons_of_ne_nil]
      · exact mem_cons_of_mem _ member
      · rintro rfl
        simp at member
    simpa [Chunk.size] using wellFormed.full chunk early
  · have tail := wellFormed.tail
    rw [chunks] at tail
    cases rest with
    | nil => simp [tail]
    | cons second later =>
      rw [getLast?_cons_cons] at tail
      have other : chain.tail ≠ some head.addr := by
        rw [tail]
        intro same
        obtain ⟨last, isLast, addr⟩ := Option.map_eq_some_iff.mp same
        exact addrs.1 (addr ▸ mem_map_of_mem (mem_of_getLast? isLast))
      rw [if_neg other]
      exact tail
  · intro chunk member
    exact wellFormed.addr_lt chunk (members chunk member)
  · intro chunk member
    exact wellFormed.data_lt chunk (members chunk member)

theorem wellFormed_advanceHead (wellFormed : WellFormed heap chain)
    (chunks : chain.chunks = head :: rest) {readIdx : Nat}
    (readOk : readIdx ≤ head.writeIdx) (unread : readIdx < head.size heap) :
    WellFormed heap ⟨{ head with readIdx := readIdx } :: rest, chain.tail⟩ := by
  have headMember : head ∈ chain.chunks := by simp [chunks]
  have members : ∀ chunk ∈ rest, chunk ∈ chain.chunks := by
    intro chunk member
    rw [chunks]
    exact mem_cons_of_mem _ member
  refine ⟨?_, ?_, ?_, ?_, ?_, ?_, ?_, ?_⟩
  · intro chunk member
    rcases mem_cons.mp member with rfl | later
    · obtain ⟨live, writeOk, _⟩ := wellFormed.valid head headMember
      exact ⟨live, writeOk, readOk⟩
    · exact wellFormed.valid chunk (members chunk later)
  · intro chunk member
    rcases mem_cons.mp member with rfl | later
    · exact unread
    · exact wellFormed.unread chunk (members chunk later)
  · intro chunk member
    have full := wellFormed.full
    rw [chunks] at full
    cases rest with
    | nil => simp at member
    | cons second later =>
      rw [dropLast_cons_of_ne_nil (by simp)] at member full
      rcases mem_cons.mp member with rfl | early
      · exact full head mem_cons_self
      · exact full chunk (mem_cons_of_mem _ early)
  · have tail := wellFormed.tail
    rw [chunks] at tail
    cases rest with
    | nil => exact tail
    | cons second later =>
      rw [getLast?_cons_cons] at tail ⊢
      exact tail
  · have addrs := wellFormed.addrs
    rw [chunks] at addrs
    exact addrs
  · have blocks := wellFormed.blocks
    rw [chunks] at blocks
    exact blocks
  · intro chunk member
    rcases mem_cons.mp member with rfl | later
    · exact wellFormed.addr_lt head headMember
    · exact wellFormed.addr_lt chunk (members chunk later)
  · intro chunk member
    rcases mem_cons.mp member with rfl | later
    · exact wellFormed.data_lt head headMember
    · exact wellFormed.data_lt chunk (members chunk later)

theorem cells_cons (chunks : chain.chunks = head :: rest) :
    chain.cells = head.cells ++ rest.flatMap Chunk.cells := by
  simp [Chain.cells, chunks]

theorem cells_drop_head (head : Chunk) (count : Nat) :
    Chunk.cells { head with readIdx := head.readIdx + count } = head.cells.drop count := by
  have length : head.writeIdx - (head.readIdx + count) =
      head.writeIdx - head.readIdx - count := by omega
  simp [Chunk.cells, ← map_drop, drop_range', length]

theorem deleteHead_shrinks (wellFormed : WellFormed heap chain)
    (chunks : chain.chunks = head :: rest) :
    head.delete heap = some (heap.dropRef head.data) ∧
      Shrinks heap chain head.cells.length (heap.dropRef head.data)
        ⟨rest, if chain.tail = some head.addr then none else chain.tail⟩ := by
  have live := (wellFormed.valid head (by simp [chunks])).1
  refine ⟨?_, wellFormed_rest wellFormed chunks, ?_, ?_, rfl, by simp, ?_⟩
  · rw [Chunk.delete, Heap.release, if_pos (by omega)]
  · rw [cells_cons chunks, drop_left]
    rfl
  · refine ⟨Nat.le_refl _, fun data _ => by simp, ?_, fun cell _ _ => by simp, ?_⟩
    · intro data _
      rw [refs_cons chunks, Heap.dropRef_refcnt]
      simp only [Chain.refs, eq_comm]
      split <;> omega
    · rintro cell ⟨last, isLast, behind⟩
      refine Or.inl ⟨last, ?_, behind⟩
      rw [chunks]
      cases rest with
      | nil => simp at isLast
      | cons second later => rwa [getLast?_cons_cons]
  · intro data
    rw [refs_cons chunks]
    exact Nat.le_add_left _ _

variable {count : Nat}

theorem advanceHead_shrinks (wellFormed : WellFormed heap chain)
    (chunks : chain.chunks = head :: rest) (available : count ≤ head.writeIdx - head.readIdx)
    (unread : head.readIdx + count < head.size heap) :
    Shrinks heap chain count heap
      ⟨{ head with readIdx := head.readIdx + count } :: rest, chain.tail⟩ := by
  have readOk := (wellFormed.valid head (by simp [chunks])).2.2
  refine ⟨wellFormed_advanceHead wellFormed chunks (by omega) unread, ?_, ?_,
    rfl, fun _ => rfl, ?_⟩
  · rw [cells_cons chunks, drop_append_of_le_length (by simpa using available), ← cells_drop_head]
    rfl
  · refine ⟨Nat.le_refl _, fun _ _ => rfl, ?_, fun _ _ _ => rfl, ?_⟩
    · intro data _
      simp [Chain.refs, chunks]
    · rintro cell ⟨last, isLast, behind⟩
      cases rest with
      | nil =>
        simp only [getLast?_singleton, Option.mem_def, Option.some.injEq] at isLast
        subst isLast
        exact Or.inl ⟨head, by simp [chunks], behind⟩
      | cons second later =>
        refine Or.inl ⟨last, ?_, behind⟩
        rw [chunks]
        rw [getLast?_cons_cons] at isLast ⊢
        exact isLast
  · intro data
    simp [Chain.refs, chunks]

/-- Passing over bytes of the head keeps the invariant. -/
theorem popFullyRead_shrinks (wellFormed : WellFormed heap chain)
    (chunks : chain.chunks = head :: rest) (available : count ≤ head.writeIdx - head.readIdx) :
    ∃ heap' chain', Chain.popFullyRead heap
        ⟨{ head with readIdx := head.readIdx + count } :: rest, chain.tail⟩ = some (heap', chain') ∧
      Shrinks heap chain count heap' chain' ∧
        (chain'.chunks = rest ∨
          (chain'.chunks = { head with readIdx := head.readIdx + count } :: rest ∧
              head.readIdx + count < head.size heap)) := by
  obtain ⟨live, writeOk, readOk⟩ := wellFormed.valid head (by simp [chunks])
  have moved : Chunk.Valid heap { head with readIdx := head.readIdx + count } :=
    ⟨live, writeOk, by show head.readIdx + count ≤ head.writeIdx; omega⟩
  by_cases done : head.readIdx + count = head.size heap
  · obtain ⟨deleted, shrinks⟩ := deleteHead_shrinks wellFormed chunks
    have exact : head.cells.length = count := by
      rw [Chunk.length_cells]
      rw [Chunk.size] at done
      omega
    refine ⟨heap.dropRef head.data, _, ?_, exact ▸ shrinks, Or.inl rfl⟩
    rw [Chunk.delete] at deleted
    simp only [Chain.popFullyRead, Chunk.fullyRead, if_pos moved, Chunk.delete, deleted, some_bind]
    simp [Chunk.size] at done ⊢
    simp [done]
  · have unread : head.readIdx + count < head.size heap := by
      rw [Chunk.size] at *
      omega
    refine ⟨heap, _, ?_, advanceHead_shrinks wellFormed chunks available unread,
      Or.inr ⟨rfl, unread⟩⟩
    simp only [Chain.popFullyRead, Chunk.fullyRead, if_pos moved, some_bind]
    simp [Chunk.size] at done ⊢
    simp [done]

end Head

end SRPC.Marshalling
