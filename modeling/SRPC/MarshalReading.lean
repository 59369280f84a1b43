import SRPC.MarshalHead

/-!
# Loops at the head of a marshal

The loops of `read`, `peek` and `content_size_slow` on a well-formed chain, and
one round of `write_to_fd`.
-/

namespace SRPC.Marshalling

open List

section Chunks

variable {heap : Heap} {chunk : Chunk}

theorem load_eq {count : Nat} (available : count ≤ chunk.writeIdx - chunk.readIdx) :
    heap.load chunk.data chunk.readIdx count = (chunk.cells.take count).map heap.byte := by
  have taken : (List.range' chunk.readIdx (chunk.writeIdx - chunk.readIdx)).take count =
        List.range' chunk.readIdx count := by
    simp [available]
  rw [Heap.load, Chunk.cells, ← map_take, taken, map_map]
  rfl

theorem Chunk.contentSize_eq (valid : chunk.Valid heap) :
    chunk.contentSize heap = some (chunk.writeIdx - chunk.readIdx) := by
  rw [Chunk.contentSize, if_pos valid]

theorem Chunk.read_eq (valid : chunk.Valid heap) (n : Nat) :
    chunk.read heap n = some ((chunk.cells.take n).map heap.byte,
      { chunk with
        readIdx := chunk.readIdx + min n (chunk.writeIdx - chunk.readIdx) }) := by
  have ⟨live, writeOk, readOk⟩ := valid
  have after : Chunk.Valid heap
      { chunk with
        readIdx := chunk.readIdx + min n (chunk.writeIdx - chunk.readIdx) } :=
    ⟨live, writeOk, by simp only; omega⟩
  have taken : chunk.cells.take (min n (chunk.writeIdx - chunk.readIdx)) = chunk.cells.take n := by
    rw [← Chunk.length_cells]
    simp
  simp only [Chunk.read, guard_bind valid, guard_bind after, load_eq (Nat.min_le_right _ _), taken]
  rfl

theorem Chunk.peek_eq (valid : chunk.Valid heap) (n : Nat) :
    chunk.peek heap n = some ((chunk.cells.take n).map heap.byte) := by
  have taken : chunk.cells.take (min n (chunk.writeIdx - chunk.readIdx)) = chunk.cells.take n := by
    rw [← Chunk.length_cells]
    simp
  simp only [Chunk.peek, guard_bind valid, load_eq (Nat.min_le_right _ _), taken]
  rfl

theorem Chunk.discard_eq (valid : chunk.Valid heap) {n : Nat}
    (available : n ≤ chunk.writeIdx - chunk.readIdx) :
    chunk.discard heap n = some (n, { chunk with readIdx := chunk.readIdx + n }) := by
  have ⟨live, writeOk, readOk⟩ := valid
  have after : Chunk.Valid heap { chunk with readIdx := chunk.readIdx + n } :=
    ⟨live, writeOk, by simp only; omega⟩
  simp only [Chunk.discard, guard_bind valid, Nat.min_eq_left available, guard_bind after]
  rfl

end Chunks

section Loops

variable {heap : Heap} {chain : Chain} {head : Chunk} {rest : List Chunk}

theorem cells_eq_nil (wellFormed : WellFormed heap chain) (chunks : chain.chunks = head :: rest)
    (drained : head.writeIdx - head.readIdx = 0) : chain.cells = [] := by
  have empty : head.cells = [] := by
    rw [← length_eq_zero_iff, Chunk.length_cells, drained]
  cases rest with
  | nil => simp [cells_cons chunks, empty]
  | cons second later =>
    have full := wellFormed.full head (by simp [chunks])
    have unread := wellFormed.unread head (by simp [chunks])
    omega

theorem readLoop_stop {fuel n : Nat} (wellFormed : WellFormed heap chain)
    (stop : n = 0 ∨ chain.cells = []) :
    ∃ heap' chain', Chain.readLoop (fuel + 1) heap chain n =
        some ((chain.content heap).take n, heap', chain') ∧
      Shrinks heap chain n heap' chain' := by
  have nothing : (chain.content heap).take n = [] := by
    rcases stop with none | none <;> simp [Chain.content, none]
  refine ⟨heap, chain, ?_, (Shrinks.refl wellFormed).congr ?_⟩
  · rw [nothing, Chain.readLoop]
    cases chunks : chain.chunks with
    | nil => rfl
    | cons head rest =>
      have valid := wellFormed.valid head (by simp [chunks])
      have ends : ¬ (0 < n ∧ 0 < head.writeIdx - head.readIdx) := by
        rintro ⟨wanted, available⟩
        rcases stop with none | none
        · omega
        · rw [cells_cons chunks, append_eq_nil_iff] at none
          rw [← Chunk.length_cells, none.1] at available
          simp at available
      simp only [Chunk.contentSize_eq valid, some_bind, if_neg ends]
      rfl
  · rcases stop with none | none <;> simp [none]

/-- The loop of `read` takes the first bytes and drops them. -/
theorem readLoop_shrinks {fuel : Nat} (wellFormed : WellFormed heap chain)
    (enough : chain.chunks.length < fuel) (n : Nat) :
    ∃ heap' chain', Chain.readLoop fuel heap chain n =
        some ((chain.content heap).take n, heap', chain') ∧
      Shrinks heap chain n heap' chain' := by
  induction fuel generalizing heap chain n with
  | zero => omega
  | succ fuel ih =>
    by_cases stop : n = 0 ∨ chain.cells = []
    · exact readLoop_stop wellFormed stop
    rw [not_or] at stop
    obtain ⟨head, rest, chunks⟩ : ∃ head rest, chain.chunks = head :: rest :=
      exists_cons_of_ne_nil fun none => stop.2 (by
        simp [Chain.cells, none])
    have valid := wellFormed.valid head (by simp [chunks])
    have available : 0 < head.writeIdx - head.readIdx := by
      by_contra drained
      exact stop.2 (cells_eq_nil wellFormed chunks (by omega))
    obtain ⟨heap₁, chain₁, popped, shrinks, shape⟩ :=
      popFullyRead_shrinks wellFormed chunks (Nat.min_le_right n (head.writeIdx - head.readIdx))
    have count : ((head.cells.take n).map heap.byte).length =
        min n (head.writeIdx - head.readIdx) := by simp
    generalize minEq : min n (head.writeIdx - head.readIdx) = k
      at popped shrinks shape count
    have total : k + (n - k) = n := by omega
    have round : (head.cells.take n).map heap.byte = (chain.content heap).take k := by
      have short : k ≤ head.cells.length := by
        rw [Chunk.length_cells]
        omega
      rw [Chain.content, ← map_take, cells_cons chunks,
        take_append_of_le_length short, ← minEq, ← Chunk.length_cells]
      simp
    obtain ⟨heap₂, chain₂, loop, more⟩ : ∃ heap₂ chain₂, Chain.readLoop fuel heap₁ chain₁ (n - k) =
          some ((chain₁.content heap₁).take (n - k), heap₂, chain₂) ∧
        Shrinks heap₁ chain₁ (n - k) heap₂ chain₂ := by
      -- A head chunk that stays ends the loop in the next round.
      rcases shape with deleted | ⟨kept, _⟩
      · apply ih shrinks.wellFormed
        rw [deleted]
        rw [chunks, length_cons] at enough
        omega
      · have ends : n - k = 0 ∨ chain₁.cells = [] := by
          by_cases wanted : n - k = 0
          · exact Or.inl wanted
          · exact Or.inr (cells_eq_nil shrinks.wellFormed kept (by
              simp only
              omega))
        obtain ⟨left, rfl⟩ : ∃ left, fuel = left + 1 := by
          rw [chunks, length_cons] at enough
          exact ⟨fuel - 1, by omega⟩
        exact readLoop_stop shrinks.wellFormed ends
    refine ⟨heap₂, chain₂, ?_, total ▸ shrinks.trans more⟩
    have goesOn : 0 < n ∧ 0 < head.writeIdx - head.readIdx := ⟨by omega, available⟩
    have nonempty : ¬ ((head.cells.take n).map heap.byte).length = 0 := by
      rw [count]
      omega
    have result : (chain.content heap).take n = (head.cells.take n).map heap.byte ++
          (chain₁.content heap₁).take (n - k) := by
      rw [round, shrinks.content, ← take_add, total]
    rw [Chain.readLoop, chunks]
    simp only [Chunk.contentSize_eq valid, some_bind, if_pos goesOn, Chunk.read_eq valid, minEq,
      popped, if_neg nonempty]
    rw [count, loop, result]
    rfl

private theorem peekLoop_of_filled {chunks : List Chunk}
    (valid : ∀ chunk ∈ chunks, chunk.Valid heap)
    (filled : ∀ chunk ∈ chunks.dropLast, 0 < chunk.writeIdx - chunk.readIdx) (n : Nat) :
    Chain.peekLoop heap chunks n = some (((chunks.flatMap Chunk.cells).take n).map heap.byte) := by
  induction chunks generalizing n with
  | nil => simp [Chain.peekLoop]
  | cons chunk rest ih =>
    rw [Chain.peekLoop]
    by_cases wanted : 0 < n
    · have later := ih (fun other member => valid other (mem_cons_of_mem _ member))
        (fun other member => filled other (by
          rw [dropLast_cons_of_ne_nil]
          · exact mem_cons_of_mem _ member
          · rintro rfl
            simp at member))
      rw [if_pos wanted, Chunk.peek_eq (valid chunk mem_cons_self)]
      simp only [some_bind]
      by_cases drained : ((chunk.cells.take n).map heap.byte).length = 0
      · have none : chunk.cells = [] := by
          rw [length_map, length_take] at drained
          rw [← length_eq_zero_iff]
          omega
        have last : rest = [] := by
          by_contra more
          have := filled chunk (by simp [dropLast_cons_of_ne_nil more])
          rw [← Chunk.length_cells, none] at this
          simp at this
        rw [if_pos drained, last]
        simp [none]
      · rw [if_neg drained, later]
        have split : List.take n (chunk.cells ++ rest.flatMap Chunk.cells) =
            chunk.cells.take n ++ (rest.flatMap Chunk.cells).take
              (n - (chunk.cells.take n).length) := by
          rw [take_append]
          congr 2
          rw [length_take]
          omega
        simp only [flatMap_cons, split, map_append, length_map]
        rfl
    · rw [if_neg wanted]
      have none : n = 0 := by omega
      simp [none]

theorem peekLoop_eq (wellFormed : WellFormed heap chain) (n : Nat) :
    Chain.peekLoop heap chain.chunks n = some ((chain.content heap).take n) := by
  rw [peekLoop_of_filled wellFormed.valid, Chain.content, Chain.cells, map_take]
  intro chunk member
  have full := wellFormed.full chunk member
  have unread := wellFormed.unread chunk (dropLast_subset _ member)
  omega

theorem contentSizeSlow_eq (wellFormed : WellFormed heap chain) :
    Chain.contentSizeSlow heap chain = some chain.cells.length := by
  have fold : ∀ (chunks : List Chunk) (size : Nat), (∀ chunk ∈ chunks, chunk.Valid heap) →
        (chunks.foldlM (fun sz chunk => do
          let size ← chunk.contentSize heap
          return sz + size) size : Option Nat) =
            some (size + (chunks.flatMap Chunk.cells).length) := by
    intro chunks
    induction chunks with
    | nil =>
      intro size _
      simp
    | cons chunk rest ih =>
      intro size valid
      rw [foldlM_cons, Chunk.contentSize_eq (valid chunk mem_cons_self)]
      simp only [some_bind]
      refine (ih _ fun other member =>
        valid other (mem_cons_of_mem _ member)).trans ?_
      simp [Nat.add_assoc]
  rw [Chain.contentSizeSlow, if_pos wellFormed.tailIsLast,
    fold chain.chunks 0 wellFormed.valid, Nat.zero_add]
  rfl

theorem head_unread (wellFormed : WellFormed heap chain)
    (chunks : chain.chunks = head :: rest) (filled : chain.cells ≠ []) :
    head.readIdx < head.writeIdx := by
  have unread := wellFormed.unread head (by simp [chunks])
  cases rest with
  | nil =>
    have size := length_pos_iff.mpr filled
    simp only [Chain.cells, chunks, flatMap_cons, flatMap_nil,
      append_nil, Chunk.length_cells] at size
    omega
  | cons second rest =>
    have full := wellFormed.full head (by simp [chunks])
    omega

/-- One round of `write_to_fd`. -/
theorem writeToFd_shrinks (wellFormed : WellFormed heap chain)
    (chunks : chain.chunks = head :: rest) (answer : Int) :
    ∃ (cnt : Int) (moved : Chunk) (heap' : Heap) (chain' : Chain), head.writeToFd heap answer =
        some (cnt, (chain.content heap).take cnt.toNat, moved) ∧
      Chain.popFullyRead heap ⟨moved :: rest, chain.tail⟩ = some (heap', chain') ∧
      (chain.cells ≠ [] → CallGives chain.cells.length answer cnt) ∧
        cnt.toNat ≤ chain.cells.length ∧ Shrinks heap chain cnt.toNat heap' chain' := by
  obtain ⟨live, writeOk, readOk⟩ := wellFormed.valid head (by simp [chunks])
  have bounds := kernelResult_bounds (head.writeIdx - head.readIdx) answer
  have sizeOk : head.writeIdx ≤ head.size heap := writeOk
  have unfolded := toI32_kernelResult (head.writeIdx - head.readIdx) answer
  generalize result : kernelResult (head.writeIdx - head.readIdx) answer = cnt
    at bounds unfolded
  have available : cnt.toNat ≤ head.writeIdx - head.readIdx := by omega
  have short : cnt.toNat ≤ head.cells.length := by
    rw [Chunk.length_cells]
    exact available
  obtain ⟨heap₁, chain₁, popped, shrinks, _⟩ := popFullyRead_shrinks wellFormed chunks available
  have inside : head.writeIdx - head.readIdx ≤ chain.cells.length := by
    rw [cells_cons chunks, length_append, Chunk.length_cells]
    exact Nat.le_add_right _ _
  refine ⟨cnt, _, heap₁, chain₁, ?_, popped, ?_, Nat.le_trans available inside, shrinks⟩
  · have moved : (if cnt > 0 then
          { head with readIdx := head.readIdx + cnt.toNat } else head) =
        { head with readIdx := head.readIdx + cnt.toNat } := by
      by_cases positive : cnt > 0
      · rw [if_pos positive]
      · have none : cnt.toNat = 0 := by omega
        rw [if_neg positive, none]
        rfl
    have sent : heap.load head.data head.readIdx cnt.toNat =
        (chain.content heap).take cnt.toNat := by
      rw [load_eq available, Chain.content, ← map_take, cells_cons chunks,
        take_append_of_le_length short]
    have sizeKept : { head with
        readIdx := head.readIdx + cnt.toNat }.writeIdx ≤
          Chunk.size heap { head with readIdx := head.readIdx + cnt.toNat } :=
      sizeOk
    simp only [Chunk.writeToFd, guard_bind live, guard_bind sizeOk, result,
      unfolded, moved, sent, guard_bind sizeKept]
    rfl
  · intro filled
    have unread := head_unread wellFormed chunks filled
    exact result ▸ callGives_of_requested (Nat.sub_pos_of_lt unread) inside answer

end Loops

end SRPC.Marshalling
