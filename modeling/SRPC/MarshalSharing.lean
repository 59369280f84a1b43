import SRPC.MarshalOperations

/-!
# Sharing chunks between marshals

`read_from_marshal` hands the first bytes of one marshal to another without
copying them: the chunks it hangs into the target are windows into the blocks
of the source, cut off where the wanted bytes end.
-/

namespace SRPC.Marshalling

open List

/-- The target can take over blocks of the source. -/
structure Receives (heap : Heap) (target source : Chain) : Prop where
  targetOk : WellFormed heap target
  sourceOk : WellFormed heap source
  full : ∀ chunk ∈ target.chunks, chunk.writeIdx = chunk.size heap
  blocks : ∀ chunk ∈ target.chunks, ∀ other ∈ source.chunks, chunk.data ≠ other.data

/-- The first cells of the source have become the last ones of the target. -/
structure Shares (heap : Heap) (target source : Chain) (count : Nat)
    (heap' : Heap) (target' source' : Chain) : Prop where
  targetOk : WellFormed heap' target'
  sourceOk : WellFormed heap' source'
  targetCells : target'.cells = target.cells ++ source.cells.take count
  sourceCells : source'.cells = source.cells.drop count
  next_le : heap.next ≤ heap'.next
  size_eq : ∀ data < heap.next, (heap'.rawBytes data).size = (heap.rawBytes data).size
  balance : ∀ data < heap.next,
    (heap'.rawBytes data).refcnt - (target'.refs data + source'.refs data) =
      (heap.rawBytes data).refcnt - (target.refs data + source.refs data)
  refs_pos : ∀ data, 0 < target'.refs data + source'.refs data →
    0 < target.refs data + source.refs data
  bytes : ∀ cell, heap'.byte cell = heap.byte cell
  writable : ∀ cell, source'.Writable cell → source.Writable cell

namespace Shares

variable {heap heap₁ heap₂ : Heap} {target target₁ target₂ : Chain}
  {source source₁ source₂ : Chain} {first second : Nat}

theorem refl (targetOk : WellFormed heap target) (sourceOk : WellFormed heap source) :
    Shares heap target source 0 heap target source where
  targetOk := targetOk
  sourceOk := sourceOk
  targetCells := by simp
  sourceCells := rfl
  next_le := Nat.le_refl _
  size_eq := fun _ _ => rfl
  balance := fun _ _ => rfl
  refs_pos := fun _ positive => positive
  bytes := fun _ => rfl
  writable := fun _ writable => writable

theorem trans (one : Shares heap target source first heap₁ target₁ source₁)
    (two : Shares heap₁ target₁ source₁ second heap₂ target₂ source₂) :
    Shares heap target source (first + second) heap₂ target₂ source₂ where
  targetOk := two.targetOk
  sourceOk := two.sourceOk
  targetCells := by
    rw [two.targetCells, one.targetCells, one.sourceCells, take_add, append_assoc]
  sourceCells := by rw [two.sourceCells, one.sourceCells, drop_drop]
  next_le := Nat.le_trans one.next_le two.next_le
  size_eq := fun data old =>
    (two.size_eq data (Nat.lt_of_lt_of_le old one.next_le)).trans (one.size_eq data old)
  balance := fun data old =>
    (two.balance data (Nat.lt_of_lt_of_le old one.next_le)).trans (one.balance data old)
  refs_pos := fun data positive =>
    one.refs_pos data (two.refs_pos data positive)
  bytes := fun cell => (two.bytes cell).trans (one.bytes cell)
  writable := fun cell writable =>
    one.writable cell (two.writable cell writable)

theorem targetContent (shares : Shares heap target source first heap₁ target₁ source₁) :
    target₁.content heap₁ = target.content heap ++ (source.content heap).take first := by
  have same : heap₁.byte = heap.byte := funext shares.bytes
  rw [Chain.content, same, shares.targetCells, map_append, map_take]
  rfl

theorem sourceContent (shares : Shares heap target source first heap₁ target₁ source₁) :
    source₁.content heap₁ = (source.content heap).drop first := by
  have same : heap₁.byte = heap.byte := funext shares.bytes
  rw [Chain.content, same, shares.sourceCells, map_drop]
  rfl

end Shares

section Loop

variable {heap : Heap} {target source : Chain} {head : Chunk} {rest : List Chunk}

/-- The heap after `shared_copy`. -/
def Heap.copied (heap : Heap) (data : Nat) : Heap := heap.newAddress.2.refCopy data

variable {chain : Chain}

theorem refs_le_one (wellFormed : WellFormed heap chain) (data : Nat) :
    chain.refs data ≤ 1 := nodup_iff_count_le_one.mp wellFormed.blocks data

variable {data : Nat}

theorem refs_eq_zero (absent : ∀ chunk ∈ chain.chunks, chunk.data ≠ data) :
    chain.refs data = 0 := by
  rw [Chain.refs, count_eq_zero]
  intro member
  obtain ⟨chunk, chunkMember, same⟩ := mem_map.mp member
  exact absent chunk chunkMember same

theorem wellFormed_copied (wellFormed : WellFormed heap chain) (data : Nat) :
    WellFormed (heap.copied data) chain := by
  refine wellFormed.transfer (Nat.le_succ _) ?_ ?_
  · intro chunk _
    simp [Chunk.size, Heap.copied, Heap.newAddress]
  · intro chunk member
    have live := (wellFormed.valid chunk member).1
    rw [Heap.copied, Heap.refCopy_refcnt]
    simp only [Heap.newAddress]
    split <;> omega

/-- A new chunk for the first `count` bytes of the head. -/
def window (heap : Heap) (head : Chunk) (count : Nat) : Chunk :=
  ⟨heap.next, head.data, head.readIdx, head.readIdx + count⟩

variable {count : Nat}

theorem cells_window (available : count ≤ head.writeIdx - head.readIdx) :
    (window heap head count).cells = head.cells.take count := by
  simp [window, Chunk.cells, ← map_take, available]

theorem refs_link (chunk : Chunk) (data : Nat) :
    (Chain.link target.chunks chunk).refs data =
      target.refs data + if chunk.data = data then 1 else 0 := by
  simp [Chain.refs, Chain.link, count_singleton]

variable {heap' : Heap} {source' : Chain}

theorem refcnt_pos_of_shrinks (receives : Receives heap target source)
    (headMember : head ∈ source.chunks)
    (shrinks : Shrinks (heap.copied head.data) source count heap' source')
    (held : data = head.data ∨ ∃ chunk ∈ target.chunks, chunk.data = data) :
    0 < (heap'.rawBytes data).refcnt := by
  have once := refs_le_one receives.sourceOk data
  rcases held with rfl | ⟨chunk, member, rfl⟩
  · have live := (receives.sourceOk.valid head headMember).1
    have old : head.data < (heap.copied head.data).next :=
      Nat.lt_succ_of_lt (receives.sourceOk.data_lt head headMember)
    have balance := shrinks.frame.balance _ old
    rw [Heap.copied, Heap.refCopy_refcnt, if_pos rfl] at balance
    simp only [Heap.newAddress] at balance
    omega
  · have live := (receives.targetOk.valid chunk member).1
    have old : chunk.data < (heap.copied head.data).next :=
      Nat.lt_succ_of_lt (receives.targetOk.data_lt chunk member)
    have balance := shrinks.frame.balance _ old
    have none : source.refs chunk.data = 0 :=
      refs_eq_zero fun other otherMember =>
        (receives.blocks chunk member other otherMember).symm
    rw [Heap.copied, Heap.refCopy_refcnt,
      if_neg (receives.blocks chunk member head headMember)] at balance
    simp only [Heap.newAddress] at balance
    omega

/-- One round of the loop: the first `count` cells of the head chunk of the
source move to the end of the target. -/
theorem shares_head (receives : Receives heap target source) (chunks : source.chunks = head :: rest)
    (positive : 0 < count) (available : count ≤ head.writeIdx - head.readIdx)
    (shrinks : Shrinks (heap.copied head.data) source count heap' source') :
    Shares heap target source count heap'
      (Chain.link target.chunks (window heap head count)) source' := by
  have headMember : head ∈ source.chunks := by simp [chunks]
  have ⟨_, writeOk, _⟩ := receives.sourceOk.valid head headMember
  have headOld := receives.sourceOk.data_lt head headMember
  have next : heap'.next = heap.next + 1 := shrinks.next
  have sizeEq : ∀ data < heap.next, (heap'.rawBytes data).size = (heap.rawBytes data).size := by
    intro data old
    rw [shrinks.frame.size_eq data (Nat.lt_succ_of_lt old)]
    simp [Heap.copied, Heap.newAddress]
  have kept : WellFormed heap' target :=
    receives.targetOk.transfer (by omega)
      (fun chunk member => sizeEq _ (receives.targetOk.data_lt chunk member))
      fun chunk member => refcnt_pos_of_shrinks receives headMember shrinks
        (Or.inr ⟨chunk, member, rfl⟩)
  refine ⟨?_, shrinks.wellFormed, ?_, shrinks.cells, by omega, sizeEq, ?_, ?_, ?_, ?_⟩
  · refine kept.append ?_ ?_ ?_ ?_ ?_ ?_ ?_
    · intro last isLast
      have member := mem_of_getLast? isLast
      rw [Chunk.size, sizeEq _ (receives.targetOk.data_lt last member)]
      exact receives.full last member
    · refine ⟨refcnt_pos_of_shrinks receives headMember shrinks (Or.inl rfl),
        ?_, Nat.le_add_right _ _⟩
      show head.readIdx + count ≤ (heap'.rawBytes head.data).size
      rw [sizeEq _ headOld]
      omega
    · show head.readIdx < (heap'.rawBytes head.data).size
      rw [sizeEq _ headOld]
      omega
    · intro chunk member
      exact Nat.ne_of_lt (receives.targetOk.addr_lt chunk member)
    · intro chunk member
      exact receives.blocks chunk member head headMember
    · rw [next]
      exact Nat.lt_succ_self _
    · rw [next]
      exact Nat.lt_succ_of_lt headOld
  · have short : count ≤ head.cells.length := by
      rw [Chunk.length_cells]
      exact available
    have linked : (Chain.link target.chunks (window heap head count)).cells =
        target.cells ++ (window heap head count).cells := by
      simp [Chain.cells, Chain.link]
    rw [linked, cells_window available, cells_cons chunks, take_append_of_le_length short]
  · intro data old
    have balance := shrinks.frame.balance data (Nat.lt_succ_of_lt old)
    rw [Heap.copied, Heap.refCopy_refcnt] at balance
    simp only [Heap.newAddress] at balance
    rw [refs_link]
    simp only [window, eq_comm]
    split at balance <;> split <;> omega
  · intro data positive
    have fewer := shrinks.refs_le data
    have own : (if (window heap head count).data = data then 1 else 0) ≤ source.refs data := by
      rw [refs_cons chunks]
      exact Nat.le_add_right _ _
    rw [refs_link] at positive
    omega
  · intro cell
    rw [shrinks.bytes, Heap.copied, Heap.refCopy_byte]
    rfl
  · rintro cell ⟨last, isLast, block, behind⟩
    have inside := shrinks.wellFormed.data_lt last (mem_of_getLast? isLast)
    rcases shrinks.frame.writable cell ⟨last, isLast, block, behind⟩ with
      before | new
    · exact before
    · have := shrinks.next
      omega

theorem receives_of_shares (receives : Receives heap target source)
    (chunks : source.chunks = head :: rest) (whole : count = head.writeIdx - head.readIdx)
    (shares : Shares heap target source count heap'
      (Chain.link target.chunks (window heap head count)) source')
    (left : source'.chunks = rest ∨
      (source'.chunks = { head with readIdx := head.readIdx + count } :: rest ∧
        head.readIdx + count < head.size heap)) (more : source'.cells ≠ []) :
    source'.chunks = rest ∧
      Receives heap' (Chain.link target.chunks (window heap head count)) source' := by
  have headMember : head ∈ source.chunks := by simp [chunks]
  have ⟨_, _, readOk⟩ := receives.sourceOk.valid head headMember
  have nonempty : rest ≠ [] := by
    intro none
    rcases left with popped | ⟨kept, _⟩
    · exact more (by simp [Chain.cells, popped, none])
    · have drained : Chunk.cells { head with readIdx := head.readIdx + count } = [] := by
        rw [cells_drop_head, drop_eq_nil_iff, Chunk.length_cells]
        omega
      exact more (by simp [Chain.cells, kept, none, drained])
  have full : head.writeIdx = head.size heap := by
    refine receives.sourceOk.full head ?_
    rw [chunks, dropLast_cons_of_ne_nil nonempty]
    exact mem_cons_self
  have popped : source'.chunks = rest := by
    rcases left with popped | ⟨_, unread⟩
    · exact popped
    · omega
  have blocks := receives.sourceOk.blocks
  rw [chunks, map_cons, nodup_cons] at blocks
  refine ⟨popped, shares.targetOk, shares.sourceOk, ?_, ?_⟩
  · refine forall_mem_concat (fun chunk early => ?_) ?_
    · rw [Chunk.size, shares.size_eq _ (receives.targetOk.data_lt chunk early)]
      exact receives.full chunk early
    · show head.readIdx + count = (heap'.rawBytes head.data).size
      rw [shares.size_eq _ (receives.sourceOk.data_lt head headMember)]
      rw [Chunk.size] at full
      omega
  · intro chunk member other otherMember
    rw [popped] at otherMember
    rcases mem_append.mp member with early | isNew
    · exact receives.blocks chunk early other (by rw [chunks]; exact mem_cons_of_mem _ otherMember)
    · rw [mem_singleton.mp isNew]
      intro same
      have inside := mem_map_of_mem (f := Chunk.data) otherMember
      rw [← same] at inside
      exact blocks.1 inside

theorem append_eq (wellFormed : WellFormed heap target) (chunk : Chunk) :
    target.append chunk = some (Chain.link target.chunks chunk) := by
  rcases eq_nil_or_concat' target.chunks with none | ⟨front, last, chunks⟩
  · simp [Chain.append, none]
  · have split := wellFormed.splitTail chunks
    obtain ⟨first, later, cons⟩ : ∃ first later, target.chunks =
        first :: later := exists_cons_of_ne_nil (by simp [chunks])
    rw [Chain.append]
    simp only [cons, split, some_bind]
    rfl

variable {n : Nat}

theorem shareLoop_cons (receives : Receives heap target source)
    (chunks : source.chunks = head :: rest) (fuel : Nat) (wanted : n ≠ 0)
    (filled : 0 < head.writeIdx - head.readIdx)
    (taken : count = min n (head.writeIdx - head.readIdx))
    (popped : Chain.popFullyRead (heap.copied head.data)
      ⟨{ head with readIdx := head.readIdx + count } :: rest, source.tail⟩ =
        some (heap', source')) :
    Chain.shareLoop (fuel + 1) heap target source n = Chain.shareLoop fuel heap'
        (Chain.link target.chunks (window heap head count)) source' (n - count) := by
  have headMember : head ∈ source.chunks := by simp [chunks]
  have copiedOk := wellFormed_copied receives.sourceOk head.data
  have valid := copiedOk.valid head headMember
  have ⟨live, writeOk, readOk⟩ := valid
  have copyValid : Chunk.Valid (heap.copied head.data) { head with addr := heap.next } := valid
  have windowValid : Chunk.Valid (heap.copied head.data) (window heap head count) :=
    ⟨live, by simp only [window]; omega, by simp [window]⟩
  have copy : head.sharedCopy heap =
      some ({ head with addr := heap.next }, heap.copied head.data) := if_pos valid
  have cut : (if n < head.writeIdx - head.readIdx then
      Chunk.mk heap.next head.data head.readIdx (head.writeIdx - (head.writeIdx - head.readIdx - n))
      else { head with addr := heap.next }) = window heap head count := by
    split
    · simp only [window, Chunk.mk.injEq, true_and]
      omega
    · simp only [window, Chunk.mk.injEq, true_and]
      omega
  have size : (window heap head count).writeIdx - (window heap head count).readIdx = count := by
    simp [window]
  have discarded : head.discard (heap.copied head.data) count =
      some (count, { head with readIdx := head.readIdx + count }) :=
    Chunk.discard_eq valid (by omega)
  rw [Chain.shareLoop, if_neg wanted]
  simp only [chunks, copy, some_bind,
    Chunk.contentSize_eq copyValid, cut, Chunk.contentSize_eq windowValid,
    size, guard_eq_some (show 0 < count by omega), discarded, append_eq receives.targetOk, popped]
  rfl

theorem shareLoop_shares {fuel : Nat} (receives : Receives heap target source)
    (fueled : source.chunks.length < fuel) (enough : n ≤ source.cells.length) :
    ∃ heap' target' source', Chain.shareLoop fuel heap target source n =
        some (heap', target', source') ∧
      Shares heap target source n heap' target' source' := by
  induction fuel generalizing heap target source n with
  | zero => omega
  | succ fuel ih =>
    by_cases none : n = 0
    · subst none
      exact ⟨heap, target, source, by rw [Chain.shareLoop, if_pos rfl],
        Shares.refl receives.targetOk receives.sourceOk⟩
    obtain ⟨head, rest, chunks⟩ : ∃ head rest, source.chunks = head :: rest :=
      exists_cons_of_ne_nil fun empty => by
        simp [Chain.cells, empty] at enough
        exact none enough
    have filled : 0 < head.writeIdx - head.readIdx := by
      by_contra drained
      rw [cells_eq_nil receives.sourceOk chunks (by omega)] at enough
      simp at enough
      exact none enough
    obtain ⟨count, taken⟩ : ∃ count, count = min n (head.writeIdx - head.readIdx) := ⟨_, rfl⟩
    have available : count ≤ head.writeIdx - head.readIdx := by omega
    obtain ⟨heap₁, source₁, popped, shrinks, left⟩ :=
      popFullyRead_shrinks (wellFormed_copied receives.sourceOk head.data) chunks available
    have shares := shares_head receives chunks (by omega) available shrinks
    have round := shareLoop_cons receives chunks fuel none filled taken popped
    have length : source.chunks.length = rest.length + 1 := by simp [chunks]
    by_cases last : n = count
    · subst last
      refine ⟨heap₁, _, source₁, ?_, shares⟩
      obtain ⟨less, rfl⟩ : ∃ less, fuel = less + 1 := ⟨fuel - 1, by omega⟩
      rw [round, Nat.sub_self, Chain.shareLoop, if_pos rfl]
    · have whole : count = head.writeIdx - head.readIdx := by omega
      have remaining : source₁.cells.length = source.cells.length - count := by
        rw [shares.sourceCells, length_drop]
      have more : source₁.cells ≠ [] := by
        intro empty
        rw [empty, length_nil] at remaining
        omega
      obtain ⟨restEq, ready⟩ :=
        receives_of_shares receives chunks whole shares
          (by simpa [Chunk.size, Heap.copied, Heap.newAddress] using left) more
      obtain ⟨heap₂, target₂, source₂, loop, shares'⟩ :=
        ih (n := n - count) ready (by rw [restEq]; omega) (by omega)
      refine ⟨heap₂, target₂, source₂, round.trans loop, ?_⟩
      have total := shares.trans shares'
      rwa [show count + (n - count) = n by omega] at total

end Loop

theorem Sound.shareFrom_eq {heap : Heap} {m source : Marshal}
    (target : Sound heap m) (sound : Sound heap source)
    (receives : Receives heap m.toChain source.toChain) {n : Nat}
    (enough : n ≤ source.contentSize) :
    ∃ heap' m' source', m.shareFrom heap source n = some (heap', m', source') ∧
      Sound heap' m' ∧ Sound heap' source' ∧
        Shares heap m.toChain source.toChain n heap' m'.toChain source'.toChain ∧
          m'.writeCnt = m.writeCnt + BitVec.ofNat 32 n ∧
            source'.writeCnt = source.writeCnt := by
  have held : n ≤ source.cells.length := by
    rw [← sound.counted]
    exact enough
  obtain ⟨heap', target', source', loop, shares⟩ :=
    shareLoop_shares receives (Nat.lt_succ_self _) held
  let m' : Marshal :=
    { m with
      toChain := target'
      writeCnt := m.writeCnt + BitVec.ofNat 32 n
      contentSize := m.contentSize + n }
  let rest : Marshal :=
    { source with
      toChain := source'
      contentSize := source.contentSize - n }
  refine ⟨heap', m', rest, ?_, ⟨shares.targetOk, ?_⟩, ⟨shares.sourceOk, ?_⟩, shares, rfl, rfl⟩
  · simp only [Marshal.shareFrom, loop, some_bind, guard_eq_some enough]
    rfl
  · show m.contentSize + n = target'.cells.length
    rw [shares.targetCells, length_append, length_take, Nat.min_eq_left held, target.counted]
  · show source.contentSize - n = source'.cells.length
    rw [shares.sourceCells, length_drop, sound.counted]

/-- An empty marshal gets its bytes by sharing. -/
theorem Sound.readFromMarshal_eq {heap : Heap} {source : Marshal}
    (sound : Sound heap source) {n : Nat} (enough : n ≤ source.contentSize) :
    ∃ heap' m' source', Marshal.empty.readFromMarshal heap source n = some (n, heap', m', source') ∧
      Sound heap' m' ∧ Sound heap' source' ∧
        Shares heap Marshal.empty.toChain source.toChain n heap' m'.toChain source'.toChain ∧
          source'.writeCnt = source.writeCnt := by
  have receives : Receives heap Marshal.empty.toChain source.toChain :=
    ⟨WellFormed.empty heap, sound.wellFormed, by simp [Marshal.empty],
      by simp [Marshal.empty]⟩
  obtain ⟨heap', m', source', shared, sound', soundRest, shares, -, sourceCnt⟩ :=
    (sound_empty heap).shareFrom_eq sound receives enough
  refine ⟨heap', m', source', ?_, sound', soundRest, shares, sourceCnt⟩
  rw [Marshal.readFromMarshal]
  simp only [sound.getContentSize_eq, guard_eq_some enough, Option.bind_eq_bind, Option.bind_some]
  simp only [Marshal.empty] at shared ⊢
  simp only [shared, sound'.assertContentSize_eq, Option.bind_some]
  rfl

end SRPC.Marshalling
