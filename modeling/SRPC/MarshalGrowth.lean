import SRPC.MarshalInvariant

/-!
# Growing a chain at its tail

`write`, `read_from_fd` and `set_bookmark` move the write index of the last chunk
forward, or hang a new chunk behind a fully written one.
-/

namespace SRPC.Marshalling

/-- An operation that keeps the cells of a chain and appends new ones. -/
structure Grows (heap : Heap) (chain : Chain) (added : List Cell)
    (heap' : Heap) (chain' : Chain) : Prop where
  wellFormed : WellFormed heap' chain'
  cells : chain'.cells = chain.cells ++ added
  frame : Frame heap chain heap' chain'

namespace Grows

variable {heap heap₁ heap₂ : Heap} {chain chain₁ chain₂ : Chain} {first second : List Cell}

theorem refl (wellFormed : WellFormed heap chain) : Grows heap chain [] heap chain where
  wellFormed := wellFormed
  cells := by simp
  frame := Frame.refl heap chain

theorem trans (one : Grows heap chain first heap₁ chain₁)
    (two : Grows heap₁ chain₁ second heap₂ chain₂) :
    Grows heap chain (first ++ second) heap₂ chain₂ where
  wellFormed := two.wellFormed
  cells := by rw [two.cells, one.cells, List.append_assoc]
  frame := one.frame.trans two.frame

theorem content (grows : Grows heap chain first heap₁ chain₁) (wellFormed : WellFormed heap chain) :
    chain₁.content heap₁ = chain.content heap ++ first.map heap₁.byte := by
  rw [← wellFormed.content_eq_of_frame grows.frame]
  simp [Chain.content, grows.cells]

theorem map_byte (one : Grows heap chain first heap₁ chain₁)
    (two : Grows heap₁ chain₁ second heap₂ chain₂) :
    first.map heap₂.byte = first.map heap₁.byte := by
  apply List.map_congr_left
  intro cell member
  have held : cell ∈ chain₁.cells := by
    rw [one.cells]
    exact List.mem_append_right _ member
  exact two.frame.byte_eq cell (one.wellFormed.cell_lt held) (one.wellFormed.not_writable held)

end Grows

theorem Chunk.Valid.congr {heap heap' : Heap} {chunk : Chunk} (valid : chunk.Valid heap)
    (size : (heap'.rawBytes chunk.data).size = (heap.rawBytes chunk.data).size)
    (live : 0 < (heap'.rawBytes chunk.data).refcnt) : chunk.Valid heap' := by
  obtain ⟨_, writeOk, readOk⟩ := valid
  exact ⟨live, by omega, readOk⟩

section NewChunk

variable (heap : Heap) (bytes : List Byte)

theorem new_eq : (Chunk.new heap bytes).1 = ⟨heap.next + 1, heap.next, 0, bytes.length⟩ := rfl

theorem new_next : (Chunk.new heap bytes).2.next = heap.next + 2 := rfl

theorem new_size (data : Nat) :
    ((Chunk.new heap bytes).2.rawBytes data).size =
      if data = heap.next then max bytes.length minSize
      else (heap.rawBytes data).size := by
  by_cases same : data = heap.next <;>
    simp [Chunk.new, Heap.newRawBytes, Heap.newAddress, Heap.update, same]

theorem new_refcnt (data : Nat) :
    ((Chunk.new heap bytes).2.rawBytes data).refcnt =
      if data = heap.next then 1 else (heap.rawBytes data).refcnt := by
  by_cases same : data = heap.next <;>
    simp [Chunk.new, Heap.newRawBytes, Heap.newAddress, Heap.update, same]

theorem new_byte {cell : Cell} (old : cell.1 < heap.next) :
    (Chunk.new heap bytes).2.byte cell = heap.byte cell := by
  have other : cell.1 ≠ heap.next := by omega
  refine (Heap.store_byte_of_outside _ _ _ _ (Or.inl other)).trans ?_
  simp [Heap.byte, Heap.update, other]

theorem map_byte_appendNew (front : List Chunk) :
    (Chunk.new heap bytes).1.cells.map (Chain.appendNew heap front bytes).1.byte = bytes :=
  Heap.map_byte_store _ _ _ _

end NewChunk

section Append

variable {heap : Heap} {chain : Chain}

/-- A new chunk behind a full one keeps the invariant. -/
theorem grows_appendNew (wellFormed : WellFormed heap chain)
    (noRoom : ∀ last ∈ chain.chunks.getLast?, last.writeIdx = last.size heap) (bytes : List Byte) :
    Grows heap chain (Chunk.new heap bytes).1.cells (Chain.appendNew heap chain.chunks bytes).1
      (Chain.appendNew heap chain.chunks bytes).2 := by
  have older : ∀ chunk ∈ chain.chunks, chunk.data ≠ heap.next := by
    intro chunk member
    have := wellFormed.data_lt chunk member
    omega
  have sizeEq : ∀ chunk ∈ chain.chunks, chunk.size (Chunk.new heap bytes).2 = chunk.size heap := by
    intro chunk member
    rw [Chunk.size, new_size, if_neg (older chunk member), Chunk.size]
  have kept : WellFormed (Chunk.new heap bytes).2 chain := by
    refine wellFormed.transfer (by simp [new_next]) sizeEq ?_
    intro chunk member
    rw [new_refcnt, if_neg (older chunk member)]
    exact (wellFormed.valid chunk member).1
  have positive : 0 < max bytes.length minSize :=
    Nat.lt_of_lt_of_le (by decide) (Nat.le_max_right _ minSize)
  change Grows heap chain (Chunk.new heap bytes).1.cells
    (Chunk.new heap bytes).2 (Chain.link chain.chunks (Chunk.new heap bytes).1)
  refine ⟨?_, ?_, ?_⟩
  · refine kept.append ?_ ?_ ?_ ?_ older (by simp [new_eq, new_next]) (by simp [new_eq, new_next])
    · intro last isLast
      rw [sizeEq last (List.mem_of_getLast? isLast)]
      exact noRoom last isLast
    · simp [Chunk.Valid, new_size, new_refcnt, new_eq]
    · simpa [Chunk.size, new_size, new_eq] using positive
    · intro chunk member
      have old := wellFormed.addr_lt chunk member
      rw [new_eq]
      simp only
      omega
  · simp [Chain.cells, Chain.link]
  · refine ⟨by simp [new_next], ?_, ?_, ?_, ?_⟩
    · intro data old
      rw [new_size, if_neg (by omega)]
    · intro data old
      have fresh : ¬ heap.next = data := by omega
      rw [new_refcnt, if_neg (by omega)]
      simp [Chain.refs, Chain.link, new_eq, fresh]
    · intro cell old _
      exact new_byte heap bytes old
    · rintro cell ⟨last, isLast, block, _⟩
      simp only [Chain.link, List.getLast?_append, List.getLast?_singleton,
        Option.some_or, Option.mem_def, Option.some.injEq] at isLast
      subst isLast
      exact Or.inr (by rw [← block]; exact Nat.le_refl _)

variable {front : List Chunk} {last : Chunk}

/-- Moving the write index keeps the invariant. -/
theorem grows_advance (wellFormed : WellFormed heap chain) {heap' : Heap} {count : Nat}
    (chunks : chain.chunks = front ++ [last]) (room : last.writeIdx + count ≤ last.size heap)
    (next : heap'.next = heap.next)
    (sizes : ∀ data, (heap'.rawBytes data).size = (heap.rawBytes data).size)
    (counts : ∀ data, (heap'.rawBytes data).refcnt = (heap.rawBytes data).refcnt)
    (bytes : ∀ cell, ¬ chain.Writable cell → heap'.byte cell = heap.byte cell) :
    Grows heap chain ((List.range' last.writeIdx count).map (Prod.mk last.data)) heap'
      (Chain.link front { last with writeIdx := last.writeIdx + count }) := by
  have members : ∀ chunk ∈ front, chunk ∈ chain.chunks := by
    intro chunk member
    rw [chunks]
    exact List.mem_append_left _ member
  have lastMember : last ∈ chain.chunks := by simp [chunks]
  have sizeEq : ∀ chunk : Chunk, chunk.size heap' = chunk.size heap := fun chunk => sizes chunk.data
  obtain ⟨live, writeOk, readOk⟩ := wellFormed.valid last lastMember
  refine ⟨?_, ?_, ?_⟩
  · refine ⟨?_, ?_, ?_, ?_, ?_, ?_, ?_, ?_⟩
    · refine forall_mem_concat (fun chunk early => ?_) ?_
      · have valid := wellFormed.valid chunk (members chunk early)
        exact valid.congr (sizes _) (by rw [counts]; exact valid.1)
      · refine ⟨by rw [counts]; exact live, ?_, ?_⟩
        · rw [sizes]
          exact room
        · exact Nat.le_trans readOk (Nat.le_add_right _ _)
    · simp only [sizeEq]
      exact forall_mem_concat (fun chunk early => wellFormed.unread chunk (members chunk early))
        (wellFormed.unread last lastMember)
    · intro chunk member
      simp only [Chain.link, List.dropLast_concat] at member
      rw [sizeEq]
      exact wellFormed.full chunk (by simpa [chunks] using member)
    · simp [Chain.link]
    · have addrs := wellFormed.addrs
      simpa [chunks, Chain.link] using addrs
    · have blocks := wellFormed.blocks
      simpa [chunks, Chain.link] using blocks
    · rw [next]
      exact forall_mem_concat (fun chunk early => wellFormed.addr_lt chunk (members chunk early))
        (wellFormed.addr_lt last lastMember)
    · rw [next]
      exact forall_mem_concat (fun chunk early => wellFormed.data_lt chunk (members chunk early))
        (wellFormed.data_lt last lastMember)
  · have length : last.writeIdx + count - last.readIdx =
        (last.writeIdx - last.readIdx) + count := by omega
    have start : last.readIdx + (last.writeIdx - last.readIdx) = last.writeIdx := by omega
    simp [Chain.cells, Chain.link, chunks, Chunk.cells, length, ← List.range'_append_1, start]
  · refine ⟨Nat.le_of_eq next.symm, fun data _ => sizes data, ?_,
      fun cell _ fixed => bytes cell fixed, ?_⟩
    · intro data _
      simp [counts, Chain.refs, Chain.link, chunks]
    · rintro cell ⟨chunk, isLast, block, behind⟩
      simp only [Chain.link, List.getLast?_append, List.getLast?_singleton,
        Option.some_or, Option.mem_def, Option.some.injEq] at isLast
      subst isLast
      exact Or.inl ⟨last, by simp [chunks], block, Nat.le_trans (Nat.le_add_right _ _) behind⟩

theorem grows_store (wellFormed : WellFormed heap chain) (chunks : chain.chunks = front ++ [last])
    (bytes : List Byte) (room : last.writeIdx + bytes.length ≤ last.size heap) :
    Grows heap chain ((List.range' last.writeIdx bytes.length).map (Prod.mk last.data))
      (heap.store last.data last.writeIdx bytes)
      (Chain.link front { last with writeIdx := last.writeIdx + bytes.length }) := by
  apply grows_advance wellFormed chunks room
  · simp
  · simp
  · simp
  · intro cell fixed
    apply Heap.store_byte_of_outside
    by_contra inside
    exact fixed ⟨last, by simp [chunks], by tauto, by omega⟩

end Append

end SRPC.Marshalling
