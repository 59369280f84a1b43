import SRPC.MarshalReading
import SRPC.MarshalTail

/-!
# Operations of a marshal

Every operation of a sound marshal succeeds, whatever the kernel answers: no
`assert` and no `verify` fails.
-/

namespace SRPC.Marshalling

open List

/-- A marshal with a well-formed chain whose size it knows. -/
structure Sound (heap : Heap) (m : Marshal) : Prop where
  wellFormed : WellFormed heap m.toChain
  counted : m.contentSize = m.cells.length

theorem sound_empty (heap : Heap) : Sound heap Marshal.empty := ⟨WellFormed.empty heap, rfl⟩

namespace Sound

variable {heap : Heap} {m : Marshal}

theorem length_content (sound : Sound heap m) : (m.content heap).length = m.contentSize := by
  simp [Chain.content, sound.counted]

theorem assertContentSize_eq (sound : Sound heap m) : m.assertContentSize heap = some () := by
  simp only [Marshal.assertContentSize, contentSizeSlow_eq sound.wellFormed, some_bind]
  simp [sound.counted]

theorem isEmpty_eq (sound : Sound heap m) : m.isEmpty heap = some (m.contentSize == 0) := by
  simp [Marshal.isEmpty, sound.assertContentSize_eq]

theorem getContentSize_eq (sound : Sound heap m) : m.getContentSize heap = some m.contentSize := by
  simp [Marshal.getContentSize, sound.assertContentSize_eq]

theorem assertReadable_eq (sound : Sound heap m) : m.assertReadable heap = some () := by
  simp only [Marshal.assertReadable, sound.isEmpty_eq, some_bind]
  by_cases none : m.contentSize = 0
  · simp [none]
  · have some : m.chunks ≠ [] := by
      intro chunks
      exact none (by simp [sound.counted, Chain.cells, chunks])
    obtain ⟨head, rest, chunks⟩ := exists_cons_of_ne_nil some
    have valid := sound.wellFormed.valid head (by simp [chunks])
    have unread := sound.wellFormed.unread head (by simp [chunks])
    have notDone : ¬ head.readIdx = head.size heap := by omega
    rw [chunks]
    simp [none, Chunk.fullyRead, valid, notDone]

variable {bytes : List Byte}

section

variable (sound : Sound heap m)

include sound

theorem write_of_grows {heap' : Heap} {chain' : Chain} {added : List Cell}
    (wrote : Chain.write heap m.toChain bytes = some (heap', chain'))
    (grows : Grows heap m.toChain added heap' chain') (held : added.map heap'.byte = bytes) :
    ∃ m', m.write heap bytes = some (bytes.length, heap', m') ∧
      Sound heap' m' ∧ m'.toChain = chain' ∧
        m'.writeCnt = m.writeCnt + BitVec.ofNat 32 bytes.length := by
  let m' : Marshal :=
    { toChain := chain'
      writeCnt := m.writeCnt + BitVec.ofNat 32 bytes.length
      contentSize := m.contentSize + bytes.length }
  have sound' : Sound heap' m' := by
    refine ⟨grows.wellFormed, ?_⟩
    simp only [m', grows.cells, length_append, sound.counted, ← held, length_map]
  refine ⟨m', ?_, sound', rfl, rfl⟩
  simp only [Marshal.write, guard_bind sound.wellFormed.tailIsLast, wrote, some_bind]
  rw [show Marshal.assertContentSize heap' m' = some () from
    sound'.assertContentSize_eq]
  rfl

theorem write_eq (nonempty : bytes ≠ []) :
    ∃ heap' m' added, m.write heap bytes = some (bytes.length, heap', m') ∧
      Sound heap' m' ∧ Grows heap m.toChain added heap' m'.toChain ∧
        added.map heap'.byte = bytes ∧
          m'.writeCnt = m.writeCnt + BitVec.ofNat 32 bytes.length := by
  obtain ⟨heap', chain', added, wrote, grows, held⟩ := write_grows sound.wellFormed nonempty
  obtain ⟨m', writeEq, sound', rfl, counted⟩ := sound.write_of_grows wrote grows held
  exact ⟨heap', m', added, writeEq, sound', grows, held, counted⟩

/-- `read` takes the first bytes. -/
theorem read_eq (n : Nat) :
    ∃ heap' m', m.read heap n = some ((m.content heap).take n, heap', m') ∧
      Sound heap' m' ∧ Shrinks heap m.toChain n heap' m'.toChain ∧
        m'.writeCnt = m.writeCnt := by
  obtain ⟨heap', chain', loop, shrinks⟩ := readLoop_shrinks sound.wellFormed (Nat.lt_succ_self _) n
  let m' : Marshal :=
    { m with
      toChain := chain'
      contentSize := m.contentSize - ((m.content heap).take n).length }
  have sound' : Sound heap' m' := by
    refine ⟨shrinks.wellFormed, ?_⟩
    simp only [m', shrinks.cells, length_drop, length_take, sound.length_content, sound.counted]
    omega
  have delivered : ((m.content heap).take n).length ≤ m.contentSize := by
    rw [length_take, sound.length_content]
    omega
  have wanted : ((m.content heap).take n).length ≤ n := by
    rw [length_take]
    omega
  refine ⟨heap', m', ?_, sound', shrinks, rfl⟩
  simp only [Marshal.read, guard_eq_some sound.wellFormed.tailIsLast,
    sound.assertReadable_eq, loop, guard_eq_some delivered, guard_eq_some wanted, some_bind]
  rw [show Marshal.assertContentSize heap' m' = some () from
      sound'.assertContentSize_eq,
    show Marshal.assertReadable heap' m' = some () from
      sound'.assertReadable_eq,
    guard_eq_some (show Chain.TailIsLast m'.toChain from
      sound'.wellFormed.tailIsLast)]
  rfl

theorem peek_eq (n : Nat) : m.peek heap n = some ((m.content heap).take n) := by
  have wanted : ((m.content heap).take n).length ≤ n := by
    rw [length_take]
    omega
  simp only [Marshal.peek, guard_eq_some sound.wellFormed.tailIsLast,
    sound.assertReadable_eq, peekLoop_eq sound.wellFormed, guard_eq_some wanted, some_bind]
  rfl

/-- `read_from_fd` appends what the kernel gives. -/
theorem readFromFd_eq (incoming : List Byte) (answers : List Int) :
    ∃ n results heap' m' added, m.readFromFd heap incoming answers =
        some (n, results, incoming.drop n, heap', m') ∧
      n = (results.map Int.toNat).sum ∧
        KernelCalls (fun _ => True) results answers incoming.length ∧ Sound heap' m' ∧
          Grows heap m.toChain added heap' m'.toChain ∧
            added.map heap'.byte = incoming.take n ∧
              m'.writeCnt = m.writeCnt + BitVec.ofNat 32 n := by
  obtain ⟨n, results, heap', chain', added, loop, total, calls, grows, held⟩ :=
    readFromFdLoop_grows sound.wellFormed incoming answers
  let m' : Marshal :=
    { toChain := chain'
      writeCnt := m.writeCnt + BitVec.ofNat 32 n
      contentSize := m.contentSize + n }
  have length : added.length = n := by
    rw [← length_map, held, length_take_of_le (total ▸ calls.sum_le)]
  have sound' : Sound heap' m' := by
    refine ⟨grows.wellFormed, ?_⟩
    simp only [m', grows.cells, length_append, sound.counted, length]
  refine ⟨n, results, heap', m', added, ?_, total, calls, sound', grows, held, rfl⟩
  simp only [Marshal.readFromFd, sound.assertReadable_eq, loop, some_bind]
  rw [show Marshal.assertContentSize heap' m' = some () from
      sound'.assertContentSize_eq,
    show Marshal.assertReadable heap' m' = some () from
      sound'.assertReadable_eq]
  rfl

/-- `set_bookmark` reserves cells at the end. -/
theorem setBookmark_eq (unwritten : m.writeCnt = 0) (n : Nat) :
    ∃ cells heap' m', m.setBookmark heap n = some (cells, heap', m') ∧
      cells.length = n ∧ Sound heap' m' ∧
        Grows heap m.toChain cells heap' m'.toChain ∧
          m'.writeCnt = m.writeCnt := by
  obtain ⟨cells, heap', chain', loop, length, grows⟩ := setBookmarkLoop_grows sound.wellFormed n
  let m' : Marshal := { m with toChain := chain', contentSize := m.contentSize + n }
  have sound' : Sound heap' m' := by
    refine ⟨grows.wellFormed, ?_⟩
    simp only [m', grows.cells, length_append, sound.counted, length]
  refine ⟨cells, heap', m', ?_, length, sound', grows, rfl⟩
  simp only [Marshal.setBookmark, guard_eq_some unwritten, loop, some_bind]
  rw [show Marshal.assertContentSize heap' m' = some () from
    sound'.assertContentSize_eq]
  rfl

theorem writeHeadToFd_eq (filled : m.contentSize ≠ 0) (answer : Int) :
    ∃ (cnt : Int) (heap' : Heap) (m' : Marshal), m.writeHeadToFd heap answer =
        some (cnt, (m.content heap).take cnt.toNat, heap', m') ∧
      CallGives (m.content heap).length answer cnt ∧
        Sound heap' m' ∧ Shrinks heap m.toChain cnt.toNat heap' m'.toChain ∧
          m'.writeCnt = m.writeCnt := by
  have some : m.cells ≠ [] := by
    rw [← length_pos_iff, ← sound.counted]
    omega
  have chunks : m.chunks ≠ [] := by
    intro none
    exact some (by simp [Chain.cells, none])
  obtain ⟨head, rest, chunks⟩ := exists_cons_of_ne_nil chunks
  obtain ⟨cnt, moved, heap', chain', sent, popped, given, enough, shrinks⟩ :=
    writeToFd_shrinks sound.wellFormed chunks answer
  have room : cnt.toNat ≤ m.contentSize := by
    rw [sound.counted]
    exact enough
  let m' : Marshal :=
    { m with
      toChain := chain'
      contentSize := m.contentSize - cnt.toNat }
  have sound' : Sound heap' m' := by
    refine ⟨shrinks.wellFormed, ?_⟩
    simp only [m', shrinks.cells, length_drop, sound.counted]
  refine ⟨cnt, heap', m', ?_, ?_, sound', shrinks, rfl⟩
  · rw [Marshal.writeHeadToFd, chunks]
    simp only [sent, popped, some_bind]
    by_cases stop : cnt ≤ 0
    · have none : cnt.toNat = 0 := by omega
      rw [if_pos stop]
      simp only [m', none]
      rfl
    · rw [if_neg stop, guard_eq_some room]
      rfl
  · rw [Chain.content, length_map]
    exact given some

theorem writeToFdLoop_eq (answers : List Int) :
    ∃ n results heap' m', m.writeToFdLoop heap answers =
        some (n, results, (m.content heap).take n, heap', m') ∧
      n = (results.map Int.toNat).sum ∧
        KernelCalls (fun left => left ≠ 0) results answers (m.content heap).length ∧
          Sound heap' m' ∧ Shrinks heap m.toChain n heap' m'.toChain ∧
            m'.writeCnt = m.writeCnt := by
  induction answers generalizing heap m with
  | nil =>
    by_cases none : m.contentSize = 0
    · refine ⟨0, [], heap, m, ?_, rfl, by simp [KernelCalls, sound.length_content, none], sound,
        Shrinks.refl sound.wellFormed, rfl⟩
      simp [Marshal.writeToFdLoop, sound.isEmpty_eq, none]
    · obtain ⟨cnt, heap', m', round, given, sound', shrinks, written⟩ :=
        sound.writeHeadToFd_eq none (-1)
      have refused := given.eq_of_refused
      subst refused
      refine ⟨0, [-1], heap', m', ?_, rfl,
        ⟨by rwa [sound.length_content], given, .inl ⟨by decide, rfl⟩⟩, sound', shrinks, written⟩
      simp [Marshal.writeToFdLoop, sound.isEmpty_eq, none, round]
  | cons answer answers ih =>
    by_cases none : m.contentSize = 0
    · refine ⟨0, [], heap, m, ?_, rfl, by simp [KernelCalls, sound.length_content, none], sound,
        Shrinks.refl sound.wellFormed, rfl⟩
      simp [Marshal.writeToFdLoop, sound.isEmpty_eq, none]
    · obtain ⟨cnt, heap₁, m₁, round, given, sound₁, shrinks, written⟩ :=
        sound.writeHeadToFd_eq none answer
      have asked : (m.content heap).length ≠ 0 := by rwa [sound.length_content]
      by_cases stop : cnt ≤ 0
      · have zero : cnt.toNat = 0 := by omega
        rw [zero] at round shrinks
        refine ⟨0, [cnt], heap₁, m₁, ?_, by simp [zero], ⟨asked, given, .inl ⟨stop, rfl⟩⟩, sound₁,
          shrinks, written⟩
        simp [Marshal.writeToFdLoop, sound.isEmpty_eq, none, round, stop]
      · obtain ⟨n, results, heap₂, m₂, loop, total, calls, sound₂, more, written'⟩ := ih sound₁
        rw [shrinks.content, length_drop] at calls
        refine ⟨cnt.toNat + n, cnt :: results, heap₂, m₂, ?_, by simp [total],
          ⟨asked, given, .inr ⟨by omega, calls⟩⟩, sound₂, shrinks.trans more,
          written'.trans written⟩
        simp only [Marshal.writeToFdLoop, sound.isEmpty_eq, round, loop,
          some_bind, take_add, shrinks.content]
        simp [none, stop]

/-- `write_to_fd` sends what the kernel takes. -/
theorem writeToFd_eq (answers : List Int) :
    ∃ n results heap' m', m.writeToFd heap answers =
        some (n, results, (m.content heap).take n, heap', m') ∧
      n = (results.map Int.toNat).sum ∧
        KernelCalls (fun left => left ≠ 0) results answers (m.content heap).length ∧
          Sound heap' m' ∧ Shrinks heap m.toChain n heap' m'.toChain ∧
            m'.writeCnt = m.writeCnt := by
  obtain ⟨n, results, heap', m', loop, total, calls, sound', shrinks, written⟩ :=
    sound.writeToFdLoop_eq answers
  refine ⟨n, results, heap', m', ?_, total, calls, sound', shrinks, written⟩
  simp only [Marshal.writeToFd, loop, sound'.assertContentSize_eq, some_bind]
  rfl

end

end Sound

section Bookmarks

variable {heap : Heap} {chain : Chain}

/-- Two heaps that differ in the bytes of some cells only. -/
structure Overwrites (heap : Heap) (cells : List Cell) (heap' : Heap) : Prop where
  next : heap'.next = heap.next
  size : ∀ data, (heap'.rawBytes data).size = (heap.rawBytes data).size
  refcnt : ∀ data, (heap'.rawBytes data).refcnt = (heap.rawBytes data).refcnt
  byte : ∀ cell, cell ∉ cells → heap'.byte cell = heap.byte cell

variable {cells : List Cell}

theorem WellFormed.overwrite (wellFormed : WellFormed heap chain) {heap' : Heap}
    (overwrites : Overwrites heap cells heap') : WellFormed heap' chain :=
  wellFormed.transfer overwrites.next.ge (fun _ _ => overwrites.size _) fun chunk member => by
      rw [overwrites.refcnt]
      exact (wellFormed.valid chunk member).1

theorem poke_eq (wellFormed : WellFormed heap chain) {cell : Cell}
    (member : cell ∈ chain.cells) (value : Byte) :
    heap.poke cell value = some (heap.store cell.1 cell.2 [value]) := by
  obtain ⟨chunk, chunkMember, cellMember⟩ := mem_flatMap.mp member
  obtain ⟨live, writeOk, _⟩ := wellFormed.valid chunk chunkMember
  obtain ⟨block, _, below⟩ := Chunk.mem_cells.mp cellMember
  rw [Heap.poke, block, if_pos ⟨live, by omega⟩]

theorem overwrites_store (heap : Heap) (cell : Cell) (value : Byte) :
    Overwrites heap [cell] (heap.store cell.1 cell.2 [value]) := by
  refine ⟨rfl, by simp, by simp, ?_⟩
  intro other different
  apply Heap.store_byte_of_outside
  rw [mem_singleton, Prod.ext_iff, not_and_or] at different
  rw [length_singleton]
  omega

theorem byte_store_self (heap : Heap) (cell : Cell) (value : Byte) :
    (heap.store cell.1 cell.2 [value]).byte cell = value := by
  simpa using heap.map_byte_store cell.1 cell.2 [value]

/-- `write_bookmark` fills the reserved cells. -/
theorem writeBookmark_eq (wellFormed : WellFormed heap chain) {bytes : List Byte}
    (length : cells.length = bytes.length) (held : ∀ cell ∈ cells, cell ∈ chain.cells)
    (distinct : cells.Nodup) :
    ∃ heap', Marshal.writeBookmark heap cells bytes = some heap' ∧
      Overwrites heap cells heap' ∧ cells.map heap'.byte = bytes := by
  induction cells generalizing heap bytes with
  | nil =>
    cases bytes with
    | nil => exact ⟨heap, rfl, ⟨rfl, fun _ => rfl, fun _ => rfl, fun _ _ => rfl⟩, rfl⟩
    | cons => simp at length
  | cons cell cells ih =>
    cases bytes with
    | nil => simp at length
    | cons value bytes =>
      have overwrites := overwrites_store heap cell value
      rw [nodup_cons] at distinct
      obtain ⟨heap', wrote, rest, filled⟩ :=
        ih (wellFormed.overwrite overwrites) (by simpa using length)
          (fun other member => held other (mem_cons_of_mem _ member)) distinct.2
      refine ⟨heap', ?_, ⟨?_, ?_, ?_, ?_⟩, ?_⟩
      · simp only [Marshal.writeBookmark, poke_eq wellFormed (held cell mem_cons_self),
          some_bind, wrote]
      · exact rest.next.trans overwrites.next
      · exact fun data => (rest.size data).trans (overwrites.size data)
      · exact fun data => (rest.refcnt data).trans (overwrites.refcnt data)
      · intro other outside
        rw [mem_cons, not_or] at outside
        rw [rest.byte other outside.2, overwrites.byte other (by simp [outside.1])]
      · rw [map_cons, filled, rest.byte cell distinct.1, byte_store_self]

end Bookmarks

end SRPC.Marshalling
