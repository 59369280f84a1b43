import SRPC.MarshalGrowth

/-! # Operations at the tail of a marshal -/

namespace SRPC.Marshalling

open List

section Chunks

variable {heap : Heap} {chunk : Chunk}

theorem Chunk.write_eq (valid : chunk.Valid heap) (bytes : List Byte) :
    chunk.write heap bytes =
      some (min bytes.length (chunk.size heap - chunk.writeIdx),
        heap.store chunk.data chunk.writeIdx
          (bytes.take (min bytes.length (chunk.size heap - chunk.writeIdx))),
        { chunk with
          writeIdx := chunk.writeIdx + min bytes.length (chunk.size heap - chunk.writeIdx) }) := by
  have ⟨live, writeOk, readOk⟩ := valid
  have fits : chunk.writeIdx + min bytes.length
      (chunk.size heap - chunk.writeIdx) ≤ chunk.size heap := by
    rw [Chunk.size] at *
    omega
  have after : Chunk.Valid (heap.store chunk.data chunk.writeIdx
      (bytes.take (min bytes.length (chunk.size heap - chunk.writeIdx))))
      { chunk with
        writeIdx := chunk.writeIdx + min bytes.length (chunk.size heap - chunk.writeIdx) } := by
    refine ⟨by simpa using live, ?_, ?_⟩
    · rw [Heap.store_size]
      exact fits
    · exact Nat.le_trans readOk (Nat.le_add_right _ _)
  simp only [Chunk.write, guard_bind valid, guard_bind after]
  rfl

theorem Chunk.fullyWritten_eq (valid : chunk.Valid heap) :
    chunk.fullyWritten heap = some (chunk.writeIdx == chunk.size heap) := by
  rw [Chunk.fullyWritten, if_pos valid]

theorem Chunk.setBookmark_eq (valid : chunk.Valid heap) (room : chunk.writeIdx < chunk.size heap) :
    chunk.setBookmark heap = some ((chunk.data, chunk.writeIdx),
      { chunk with writeIdx := chunk.writeIdx + 1 }) := by
  have ⟨live, _, readOk⟩ := valid
  have after : Chunk.Valid heap { chunk with writeIdx := chunk.writeIdx + 1 } :=
    ⟨live, room, Nat.le_trans readOk (Nat.le_add_right _ _)⟩
  simp only [Chunk.setBookmark, guard_bind valid, guard_bind after]
  rfl

theorem Chunk.readFromFd_eq (valid : chunk.Valid heap)
    (room : chunk.writeIdx < chunk.size heap) (incoming : List Byte) (answer : Int) :
    ∃ r : Int, CallGives incoming.length answer r ∧
      chunk.writeIdx + r.toNat ≤ chunk.size heap ∧
      chunk.readFromFd heap incoming answer =
        some (r, incoming.drop r.toNat,
          heap.store chunk.data chunk.writeIdx (incoming.take r.toNat),
          { chunk with writeIdx := chunk.writeIdx + r.toNat }) := by
  have ⟨live, _, readOk⟩ := valid
  have bounds := kernelResult_bounds (min (chunk.size heap - chunk.writeIdx) incoming.length) answer
  refine ⟨kernelResult (min (chunk.size heap - chunk.writeIdx) incoming.length) answer, ?_, ?_, ?_⟩
  · simp only [CallGives, kernelResult]
    omega
  · omega
  · rw [Chunk.readFromFd, guard_bind valid, if_pos room]
    simp only [toI32_kernelResult]
    generalize kernelResult (min (chunk.size heap - chunk.writeIdx) incoming.length) answer = r
        at bounds
    have moved : (if r > 0 then
          { chunk with writeIdx := chunk.writeIdx + r.toNat } else chunk) =
        { chunk with writeIdx := chunk.writeIdx + r.toNat } := by
      by_cases positive : r > 0
      · rw [if_pos positive]
      · have none : r.toNat = 0 := by omega
        rw [if_neg positive, none]
        rfl
    have after : Chunk.Valid (heap.store chunk.data chunk.writeIdx (incoming.take r.toNat))
        { chunk with writeIdx := chunk.writeIdx + r.toNat } := by
      refine ⟨by simpa using live, ?_, ?_⟩
      · rw [Heap.store_size]
        show chunk.writeIdx + r.toNat ≤ chunk.size heap
        omega
      · exact Nat.le_trans readOk (Nat.le_add_right _ _)
    simp only [moved, guard_bind after]
    rfl

end Chunks

section Chains

variable {heap : Heap} {chain : Chain}

section

variable (wellFormed : WellFormed heap chain)

include wellFormed

theorem ensureRoom_grows :
    ∃ heap' chain' front last, chain.ensureRoom heap = some (heap', chain') ∧
        Grows heap chain [] heap' chain' ∧
          chain'.chunks = front ++ [last] ∧ last.writeIdx < last.size heap' := by
  have fresh : (Chunk.new heap []).1.cells = [] := rfl
  have spacious : (Chunk.new heap []).1.writeIdx <
      (Chunk.new heap []).1.size (Chunk.new heap []).2 := by
    simp [Chunk.size, new_size, new_eq, minSize]
  rcases eq_nil_or_concat' chain.chunks with none | ⟨front, last, chunks⟩
  · have grows := grows_appendNew wellFormed (by simp [none]) []
    rw [none, fresh] at grows
    exact ⟨_, _, [], _, by rw [Chain.ensureRoom, none], grows, rfl, spacious⟩
  · have valid := wellFormed.valid last (by simp [chunks])
    obtain ⟨first, rest, cons⟩ : ∃ first rest, chain.chunks = first :: rest :=
      exists_cons_of_ne_nil (by simp [chunks])
    have unfolded : chain.ensureRoom heap =
        if last.writeIdx == last.size heap then
          some (Chain.appendNew heap chain.chunks [])
        else some (heap, chain) := by
      rw [Chain.ensureRoom, cons]
      simp only [wellFormed.splitTail chunks, some_bind, Chunk.fullyWritten_eq valid]
      rfl
    by_cases isFull : last.writeIdx = last.size heap
    · have grows := grows_appendNew wellFormed (by simp [chunks, isFull]) []
      rw [fresh] at grows
      refine ⟨_, _, chain.chunks, _, ?_, grows, rfl, spacious⟩
      rw [unfolded, if_pos (by simpa using isFull)]
    · refine ⟨heap, chain, front, last, ?_, Grows.refl wellFormed, chunks, ?_⟩
      · rw [unfolded, if_neg (by simpa using isFull)]
      · exact Nat.lt_of_le_of_ne valid.2.1 isFull

/-- `write` appends its bytes. -/
theorem write_grows {bytes : List Byte} (nonempty : bytes ≠ []) :
    ∃ heap' chain' added, chain.write heap bytes = some (heap', chain') ∧
      Grows heap chain added heap' chain' ∧ added.map heap'.byte = bytes := by
  rcases eq_nil_or_concat' chain.chunks with none | ⟨front, last, chunks⟩
  · have grows := grows_appendNew wellFormed (by simp [none]) bytes
    have noTail : chain.tail = .none := by simp [wellFormed.tail, none]
    refine ⟨_, _, _, ?_, grows, map_byte_appendNew heap bytes _⟩
    rw [Chain.write, none]
    simp [noTail]
  · have valid := wellFormed.valid last (by simp [chunks])
    obtain ⟨first, rest, cons⟩ : ∃ first rest, chain.chunks = first :: rest :=
      exists_cons_of_ne_nil (by simp [chunks])
    by_cases isFull : last.writeIdx = last.size heap
    · have grows := grows_appendNew wellFormed (by simp [chunks, isFull]) bytes
      refine ⟨_, _, _, ?_, grows, map_byte_appendNew heap bytes _⟩
      rw [Chain.write, cons]
      simp only [wellFormed.splitTail chunks, some_bind, Chunk.fullyWritten_eq valid, isFull,
        beq_self_eq_true, if_true, ← cons]
      rfl
    · have notFull : last.writeIdx < last.size heap := Nat.lt_of_le_of_ne valid.2.1 isFull
      have positive : 0 < bytes.length := length_pos_iff.mpr nonempty
      have wrote := Chunk.write_eq valid bytes
      generalize count : min bytes.length (last.size heap - last.writeIdx) = n
        at wrote
      have taken : (bytes.take n).length = n := by
        rw [length_take]
        omega
      have stored := grows_store wellFormed chunks (bytes.take n) (by omega)
      have held := heap.map_byte_store last.data last.writeIdx (bytes.take n)
      rw [taken] at stored held
      have some : 0 < n := by
        rw [← count]
        exact Nat.lt_min.mpr ⟨positive, Nat.sub_pos_of_lt notFull⟩
      by_cases short : n < bytes.length
      · have exhausted : last.writeIdx + n = last.size heap := by omega
        have grows := grows_appendNew stored.wellFormed
          (by simp [Chain.link, Chunk.size, exhausted]) (bytes.drop n)
        refine ⟨_, _, _, ?_, stored.trans grows, ?_⟩
        · rw [Chain.write, cons]
          simp only [wellFormed.splitTail chunks, some_bind, Chunk.fullyWritten_eq valid, wrote,
            short, if_true]
          simp [isFull, some, guard]
          rfl
        · rw [map_append, stored.map_byte grows, held, map_byte_appendNew, take_append_drop]
      · refine ⟨_, _, _, ?_, stored, ?_⟩
        · rw [Chain.write, cons]
          simp only [wellFormed.splitTail chunks, some_bind, Chunk.fullyWritten_eq valid, wrote,
            short, if_false]
          simp [isFull, some, guard]
        · rw [held, take_of_length_le (by omega)]

theorem readTailFromFd_grows (incoming : List Byte) (answer : Int) :
    ∃ r heap' chain' added, chain.readTailFromFd heap incoming answer =
        some (r, incoming.drop r.toNat, heap', chain') ∧
      CallGives incoming.length answer r ∧ Grows heap chain added heap' chain' ∧
        added.map heap'.byte = incoming.take r.toNat := by
  obtain ⟨heap₁, chain₁, front, last, ensured, grows, chunks, room⟩ := ensureRoom_grows wellFormed
  have valid := grows.wellFormed.valid last (by simp [chunks])
  obtain ⟨r, given, fits, received⟩ := Chunk.readFromFd_eq valid room incoming answer
  have taken : (incoming.take r.toNat).length = r.toNat := length_take_of_le given.toNat_le
  have stored := grows_store grows.wellFormed chunks (incoming.take r.toNat)
    (by rw [taken]; exact fits)
  have held := heap₁.map_byte_store last.data last.writeIdx (incoming.take r.toNat)
  rw [taken] at stored held
  refine ⟨r, _, _, _, ?_, given, grows.trans stored, held⟩
  simp only [Chain.readTailFromFd, ensured, some_bind, grows.wellFormed.splitTail chunks, received]
  rfl

/-- `read_from_fd` appends what the kernel gives. -/
theorem readFromFdLoop_grows (incoming : List Byte) (answers : List Int) :
    ∃ n results heap' chain' added, chain.readFromFdLoop heap incoming answers =
        some (n, results, incoming.drop n, heap', chain') ∧
      n = (results.map Int.toNat).sum ∧
        KernelCalls (fun _ => True) results answers incoming.length ∧
          Grows heap chain added heap' chain' ∧ added.map heap'.byte = incoming.take n := by
  induction answers generalizing heap chain incoming with
  | nil =>
    obtain ⟨r, heap₁, chain₁, added, round, given, grows, held⟩ :=
      readTailFromFd_grows wellFormed incoming (-1)
    have refused := given.eq_of_refused
    subst refused
    refine ⟨0, [-1], heap₁, chain₁, added, ?_, rfl, ⟨trivial, given, .inl ⟨by decide, rfl⟩⟩,
      grows, held⟩
    simp only [Chain.readFromFdLoop, round, some_bind]
    rfl
  | cons answer answers ih =>
    obtain ⟨r, heap₁, chain₁, added, round, given, grows, held⟩ :=
      readTailFromFd_grows wellFormed incoming answer
    by_cases stop : r ≤ 0
    · have none : r.toNat = 0 := by omega
      rw [none] at round held
      refine ⟨0, [r], heap₁, chain₁, added, ?_, by simp [none],
        ⟨trivial, given, .inl ⟨stop, rfl⟩⟩, grows, held⟩
      simp only [Chain.readFromFdLoop, round, some_bind, stop, if_true]
      rfl
    · obtain ⟨n, results, heap₂, chain₂, later, loop, total, calls, more, heldMore⟩ :=
        ih grows.wellFormed (incoming.drop r.toNat)
      rw [length_drop] at calls
      refine ⟨r.toNat + n, r :: results, heap₂, chain₂, added ++ later, ?_,
        by simp [total], ⟨trivial, given, .inr ⟨by omega, calls⟩⟩, grows.trans more, ?_⟩
      · simp only [Chain.readFromFdLoop, round, some_bind, stop, if_false, loop, drop_drop]
        rfl
      · rw [map_append, grows.map_byte more, held, heldMore, take_add]

theorem setTailBookmark_grows :
    ∃ cell heap' chain', chain.setTailBookmark heap = some (cell, heap', chain') ∧
        Grows heap chain [cell] heap' chain' := by
  obtain ⟨heap₁, chain₁, front, last, ensured, grows, chunks, room⟩ := ensureRoom_grows wellFormed
  have valid := grows.wellFormed.valid last (by simp [chunks])
  have space : last.writeIdx + 1 ≤ last.size heap₁ := room
  have moved := grows_advance grows.wellFormed chunks space rfl
    (fun _ => rfl) (fun _ => rfl) (fun _ _ => rfl)
  refine ⟨(last.data, last.writeIdx), heap₁, _, ?_, grows.trans moved⟩
  simp only [Chain.setTailBookmark, ensured, some_bind, grows.wellFormed.splitTail chunks,
    Chunk.setBookmark_eq valid room]
  rfl

theorem setBookmarkLoop_grows (n : Nat) :
    ∃ cells heap' chain', Chain.setBookmarkLoop n heap chain = some (cells, heap', chain') ∧
        cells.length = n ∧ Grows heap chain cells heap' chain' := by
  induction n generalizing heap chain with
  | zero => exact ⟨[], heap, chain, rfl, rfl, Grows.refl wellFormed⟩
  | succ n ih =>
    obtain ⟨cell, heap₁, chain₁, round, grows⟩ := setTailBookmark_grows wellFormed
    obtain ⟨cells, heap₂, chain₂, loop, length, more⟩ := ih grows.wellFormed
    refine ⟨cell :: cells, heap₂, chain₂, ?_, by simp [length], grows.trans more⟩
    simp only [Chain.setBookmarkLoop, round, some_bind, loop]
    rfl

end

end Chains

end SRPC.Marshalling
