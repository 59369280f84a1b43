import SRPC.MarshalSharing

/-!
# Moving bytes from one marshal to another

`read_from_marshal` fills the room at the tail of the target with copies and
shares the chunks of the source for the rest.
-/

namespace SRPC.Marshalling

open List

/-- No block belongs to both chains. -/
def Apart (first second : Chain) : Prop :=
  ∀ chunk ∈ first.chunks, ∀ other ∈ second.chunks, chunk.data ≠ other.data

instance (first second : Chain) : Decidable (Apart first second) :=
  inferInstanceAs (Decidable (∀ chunk ∈ first.chunks, _))

section Beside

variable {heap heap' : Heap} {chain other other' : Chain}

theorem Apart.symm (apart : Apart chain other) : Apart other chain :=
  fun chunk member second secondMember same =>
    apart second secondMember chunk member same.symm

theorem Apart.of_data {chain' : Chain} (apart : Apart chain other)
    (same : ∀ chunk ∈ chain'.chunks, ∃ old ∈ chain.chunks,
      old.data = chunk.data) : Apart chain' other := by
  intro chunk member second secondMember
  obtain ⟨old, oldMember, data⟩ := same chunk member
  rw [← data]
  exact apart old oldMember second secondMember

theorem Shrinks.apart {count : Nat} (apart : Apart chain other)
    (shrinks : Shrinks heap chain count heap' other') : Apart other' other := by
  refine apart.of_data fun chunk member => ?_
  have held : 0 < other'.refs chunk.data := count_pos_iff.mpr (mem_map_of_mem member)
  have before : 0 < chain.refs chunk.data := Nat.lt_of_lt_of_le held (shrinks.refs_le _)
  exact mem_map.mp (count_pos_iff.mp before)

theorem WellFormed.beside (wellFormed : WellFormed heap chain)
    (apart : Apart other chain) (frame : Frame heap other heap' other') :
    WellFormed heap' chain ∧ chain.content heap' = chain.content heap := by
  constructor
  · refine wellFormed.transfer frame.next_le
      (fun chunk member => frame.size_eq _ (wellFormed.data_lt chunk member)) fun chunk member => ?_
    have none : other.refs chunk.data = 0 :=
      refs_eq_zero fun second secondMember =>
        apart second secondMember chunk member
    have live := (wellFormed.valid chunk member).1
    have balance := frame.balance _ (wellFormed.data_lt chunk member)
    omega
  · refine map_congr_left fun cell member =>
      frame.byte_eq cell (wellFormed.cell_lt member) ?_
    rintro ⟨last, isLast, block, -⟩
    obtain ⟨chunk, chunkMember, cellMember⟩ := mem_flatMap.mp member
    exact apart last (mem_of_getLast? isLast) chunk chunkMember
      (block.trans (Chunk.mem_cells.mp cellMember).1)

theorem Sound.beside {m : Marshal} (sound : Sound heap m)
    (apart : Apart other m.toChain) (frame : Frame heap other heap' other') :
    Sound heap' m ∧ m.content heap' = m.content heap :=
  have kept := sound.wellFormed.beside apart frame
  ⟨⟨kept.1, sound.counted⟩, kept.2⟩

end Beside

/-- `n` bytes have gone from the source to the target. -/
structure Transfers (heap : Heap) (m source : Marshal) (n : Nat)
    (heap' : Heap) (m' source' : Marshal) : Prop where
  targetSound : Sound heap' m'
  sourceSound : Sound heap' source'
  targetContent : m'.content heap' = m.content heap ++ (source.content heap).take n
  sourceContent : source'.content heap' = (source.content heap).drop n
  cells : ∃ added, m'.cells = m.cells ++ added
  writeCnt : m'.writeCnt = m.writeCnt + BitVec.ofNat 32 n
  sourceCnt : source'.writeCnt = source.writeCnt

theorem Transfers.trans {heap heap₁ heap₂ : Heap} {m m₁ m₂ : Marshal}
    {source source₁ source₂ : Marshal} {first second : Nat}
    (one : Transfers heap m source first heap₁ m₁ source₁)
    (two : Transfers heap₁ m₁ source₁ second heap₂ m₂ source₂) :
    Transfers heap m source (first + second) heap₂ m₂ source₂ where
  targetSound := two.targetSound
  sourceSound := two.sourceSound
  targetContent := by
    rw [two.targetContent, one.targetContent, one.sourceContent, take_add, append_assoc]
  sourceContent := by rw [two.sourceContent, one.sourceContent, drop_drop]
  cells := by
    obtain ⟨early, first⟩ := one.cells
    obtain ⟨late, second⟩ := two.cells
    exact ⟨early ++ late, by rw [second, first, append_assoc]⟩
  writeCnt := by
    rw [two.writeCnt, one.writeCnt, BitVec.ofNat_add, BitVec.add_assoc]
  sourceCnt := two.sourceCnt.trans one.sourceCnt

theorem Transfers.map_byte {heap heap' : Heap} {m m' source source' : Marshal}
    {n : Nat} (moved : Transfers heap m source n heap' m' source') :
    ∃ added, m'.cells = m.cells ++ added ∧
      m.cells.map heap'.byte = m.cells.map heap.byte ∧
      added.map heap'.byte = (source.content heap).take n := by
  obtain ⟨added, cells⟩ := moved.cells
  have content := moved.targetContent
  rw [Chain.content, Chain.content, cells, map_append] at content
  obtain ⟨kept, new⟩ := append_inj content (by simp)
  exact ⟨added, cells, kept, new⟩

section Sharing

variable {heap : Heap} {m source : Marshal} {n : Nat}

theorem Sound.shareFrom_transfers (target : Sound heap m) (sound : Sound heap source)
    (receives : Receives heap m.toChain source.toChain) (enough : n ≤ source.contentSize) :
    ∃ heap' m' source', m.shareFrom heap source n = some (heap', m', source') ∧
      Transfers heap m source n heap' m' source' := by
  obtain ⟨heap', m', source', shared, targetSound, sourceSound, shares,
    writeCnt, sourceCnt⟩ := target.shareFrom_eq sound receives enough
  exact ⟨heap', m', source', shared, targetSound, sourceSound,
    shares.targetContent, shares.sourceContent, ⟨_, shares.targetCells⟩, writeCnt, sourceCnt⟩

theorem receives_of_no_room (target : Sound heap m) (sound : Sound heap source)
    (apart : Apart m.toChain source.toChain)
    (noRoom : ∀ last ∈ m.chunks.getLast?, last.writeIdx = last.size heap) :
    Receives heap m.toChain source.toChain :=
  ⟨target.wellFormed, sound.wellFormed, target.wellFormed.full_of_noRoom noRoom, apart⟩

theorem Sound.readFromMarshal_shares (target : Sound heap m)
    (sound : Sound heap source) (apart : Apart m.toChain source.toChain)
    (noRoom : ∀ last ∈ m.chunks.getLast?, last.writeIdx = last.size heap)
    (enough : n ≤ source.contentSize) :
    ∃ heap' m' source', m.readFromMarshal heap source n = some (n, heap', m', source') ∧
        Transfers heap m source n heap' m' source' := by
  obtain ⟨heap', m', source', shared, transfers⟩ :=
    target.shareFrom_transfers sound (receives_of_no_room target sound apart noRoom) enough
  refine ⟨heap', m', source', ?_, transfers⟩
  have counted := transfers.targetSound.assertContentSize_eq
  rw [Marshal.readFromMarshal]
  simp only [sound.getContentSize_eq, guard_eq_some enough, Option.bind_eq_bind, Option.bind_some]
  rcases eq_nil_or_concat' m.chunks with none | ⟨front, last, chunks⟩
  · have noTail : m.tail = .none := by simp [target.wellFormed.tail, none]
    simp only [none, guard_eq_some noTail, shared, counted, Option.bind_some]
    rfl
  · have valid := target.wellFormed.valid last (by simp [chunks])
    have full := noRoom last (by simp [chunks])
    obtain ⟨first, rest, cons⟩ : ∃ first rest, m.chunks = first :: rest :=
      exists_cons_of_ne_nil (by simp [chunks])
    simp only [cons, target.wellFormed.splitTail chunks,
      Chunk.fullyWritten_eq valid, full, beq_self_eq_true, if_true, shared,
      counted, Option.bind_some]
    rfl

end Sharing

section Copying

variable {heap : Heap} {m source : Marshal} {front : List Chunk} {last : Chunk}

theorem write_fitting (wellFormed : WellFormed heap m.toChain)
    (chunks : m.chunks = front ++ [last]) {bytes : List Byte} (nonempty : bytes ≠ [])
    (room : last.writeIdx + bytes.length ≤ last.size heap) :
    Chain.write heap m.toChain bytes =
      some (heap.store last.data last.writeIdx bytes, Chain.link front
          { last with writeIdx := last.writeIdx + bytes.length }) := by
  have valid := wellFormed.valid last (by simp [chunks])
  have positive : 0 < bytes.length := length_pos_iff.mpr nonempty
  have notFull : ¬ last.writeIdx = last.size heap := by omega
  obtain ⟨first, rest, cons⟩ : ∃ first rest, m.chunks = first :: rest :=
    exists_cons_of_ne_nil (by simp [chunks])
  have wrote := Chunk.write_eq valid bytes
  rw [Nat.min_eq_left (by omega), take_length] at wrote
  rw [Chain.write, cons]
  simp only [wellFormed.splitTail chunks, some_bind, Chunk.fullyWritten_eq valid, wrote,
    Nat.lt_irrefl, if_false, guard_eq_some positive]
  rw [if_neg (by simpa using notFull)]
  rfl

theorem Sound.copy_eq (target : Sound heap m) (sound : Sound heap source)
    (apart : Apart m.toChain source.toChain)
    (chunks : m.chunks = front ++ [last]) {count : Nat} (positive : 0 < count)
    (room : last.writeIdx + count ≤ last.size heap) (enough : count ≤ source.contentSize) :
    ∃ buf heap₁ source' heap' m', buf.length = count ∧
      source.read heap count = some (buf, heap₁, source') ∧
      m.write heap₁ buf = some (count, heap', m') ∧
      Transfers heap m source count heap' m' source' ∧
      Apart m'.toChain source'.toChain ∧
      m'.chunks = front ++ [{ last with writeIdx := last.writeIdx + count }] ∧
      last.size heap' = last.size heap := by
  obtain ⟨heap₁, source', readEq, sourceSound, shrinks, sourceCnt⟩ := sound.read_eq count
  have taken : ((source.content heap).take count).length = count := by
    rw [length_take, sound.length_content, Nat.min_eq_left enough]
  have nonempty : (source.content heap).take count ≠ [] := by
    rw [← length_pos_iff, taken]
    exact positive
  obtain ⟨target₁, contentEq⟩ := target.beside apart.symm shrinks.frame
  have lastOld := target.wellFormed.data_lt last (by simp [chunks])
  have sizeEq : last.size heap₁ = last.size heap := shrinks.frame.size_eq _ lastOld
  have fits : last.writeIdx + ((source.content heap).take count).length ≤ last.size heap₁ := by
    rw [taken, sizeEq]
    exact room
  have stored := grows_store target₁.wellFormed chunks _ fits
  have held := heap₁.map_byte_store last.data last.writeIdx ((source.content heap).take count)
  obtain ⟨m', writeEq, targetSound, chainEq, writeCnt⟩ := target₁.write_of_grows
    (write_fitting target₁.wellFormed chunks nonempty fits) stored held
  have apart₁ : Apart m.toChain source'.toChain := (shrinks.apart apart.symm).symm
  obtain ⟨sourceSound', sourceContent⟩ := sourceSound.beside apart₁ stored.frame
  have targetContent : m'.content
      (heap₁.store last.data last.writeIdx ((source.content heap).take count)) =
        m.content heap ++ (source.content heap).take count := by
    rw [chainEq, stored.content target₁.wellFormed, contentEq, held]
  have cells : ∃ added, m'.cells = m.cells ++ added := ⟨_, by rw [chainEq, stored.cells]⟩
  rw [taken] at writeEq writeCnt chainEq
  have chunks' : m'.chunks = front ++ [{ last with writeIdx := last.writeIdx + count }] := by
    rw [chainEq]
    rfl
  refine ⟨_, heap₁, source', _, m', taken, readEq, writeEq,
    ⟨targetSound, sourceSound', targetContent, ?_, cells, writeCnt, sourceCnt⟩, ?_, chunks', ?_⟩
  · rw [sourceContent, shrinks.content]
  · refine apart₁.of_data fun chunk member => ?_
    rw [chunks'] at member
    rw [chunks]
    rcases mem_append.mp member with early | isLast
    · exact ⟨chunk, mem_append_left _ early, rfl⟩
    · rw [mem_singleton.mp isLast]
      exact ⟨last, by simp, rfl⟩
  · rw [Chunk.size, Heap.store_size]
    exact sizeEq

/-- `read_from_marshal` after it has filled the room behind the last chunk. -/
def Marshal.shareRest (m : Marshal) (heap : Heap) (source : Marshal)
    (n copyN : Nat) : Option (Nat × Heap × Marshal × Marshal) := do
  if 0 < n - copyN then
    let (_, last) ← m.splitTail
    guard ((← last.fullyWritten heap) = true)
    let available ← source.getContentSize heap
    guard (n - copyN ≤ available)
    let (heap, m, source) ← m.shareFrom heap source (n - copyN)
    m.assertContentSize heap
    return (n, heap, m, source)
  else
    m.assertContentSize heap
    return (n, heap, m, source)

theorem Sound.readFromMarshal_copies (target : Sound heap m)
    (sound : Sound heap source) (apart : Apart m.toChain source.toChain)
    (chunks : m.chunks = front ++ [last])
    (notFull : last.writeIdx < last.size heap) {n : Nat} (positive : 0 < n)
    (enough : n ≤ source.contentSize) :
    ∃ heap' m' source', m.readFromMarshal heap source n = some (n, heap', m', source') ∧
        Transfers heap m source n heap' m' source' := by
  have valid := target.wellFormed.valid last (by simp [chunks])
  obtain ⟨first, rest, cons⟩ : ∃ first rest, m.chunks = first :: rest :=
    exists_cons_of_ne_nil (by simp [chunks])
  obtain ⟨copyN, copyEq⟩ : ∃ copyN, copyN = min (last.size heap - last.writeIdx) n := ⟨_, rfl⟩
  obtain ⟨buf, heap₁, source₁, heap₂, m₂, bufLength, readEq, writeEq, copied,
    apart₂, chunks₂, size₂⟩ := target.copy_eq sound apart chunks
      (show 0 < copyN by omega) (by omega) (by omega)
  have begun : m.readFromMarshal heap source n = m₂.shareRest heap₂ source₁ n copyN := by
    rw [Marshal.readFromMarshal, Marshal.shareRest]
    simp only [sound.getContentSize_eq, guard_eq_some enough, some_bind, cons,
      target.wellFormed.splitTail chunks, Chunk.fullyWritten_eq valid,
      beq_iff_eq, if_neg (Nat.ne_of_lt notFull), ← copyEq, readEq, guard_eq_some bufLength, writeEq]
  rw [begun, Marshal.shareRest]
  by_cases more : 0 < n - copyN
  · have valid₂ := copied.targetSound.wellFormed.valid
      { last with writeIdx := last.writeIdx + copyN } (by simp [chunks₂])
    have filled : last.writeIdx + copyN = Chunk.size heap₂
        { last with writeIdx := last.writeIdx + copyN } := by
      show _ = last.size heap₂
      omega
    have size₁ := sound.length_content
    have left : n - copyN ≤ source₁.contentSize := by
      rw [← copied.sourceSound.length_content, copied.sourceContent, length_drop]
      omega
    obtain ⟨heap', m', source', shared, moved⟩ :=
      copied.targetSound.shareFrom_transfers copied.sourceSound
        (receives_of_no_room copied.targetSound copied.sourceSound apart₂
          (by simpa [chunks₂] using filled)) left
    refine ⟨heap', m', source', ?_, ?_⟩
    · simp only [if_pos more, copied.targetSound.wellFormed.splitTail chunks₂,
        Chunk.fullyWritten_eq valid₂, some_bind,
        copied.sourceSound.getContentSize_eq, guard_eq_some left, shared,
        moved.targetSound.assertContentSize_eq]
      rw [guard_eq_some (by simpa using filled)]
      rfl
    · have total := copied.trans moved
      rwa [show copyN + (n - copyN) = n by omega] at total
  · have all : copyN = n := by omega
    subst all
    refine ⟨heap₂, m₂, source₁, ?_, copied⟩
    simp only [if_neg more, copied.targetSound.assertContentSize_eq, some_bind]
    rfl

theorem Sound.write_nothing (target : Sound heap m) (chunks : m.chunks = front ++ [last])
    (notFull : last.writeIdx < last.size heap) : m.write heap [] = none := by
  have valid := target.wellFormed.valid last (by simp [chunks])
  obtain ⟨first, rest, cons⟩ : ∃ first rest, m.chunks = first :: rest :=
    exists_cons_of_ne_nil (by simp [chunks])
  have refused : Chain.write heap m.toChain [] = none := by
    rw [Chain.write, cons]
    simp only [target.wellFormed.splitTail chunks, some_bind, Chunk.fullyWritten_eq valid,
      beq_iff_eq, if_neg (Nat.ne_of_lt notFull), Chunk.write_eq valid, length_nil,
      Nat.zero_min, Nat.lt_irrefl]
    rfl
  rw [Marshal.write, guard_bind target.wellFormed.tailIsLast, refused]
  rfl

theorem Sound.readFromMarshal_nothing (target : Sound heap m)
    (sound : Sound heap source) (apart : Apart m.toChain source.toChain)
    (chunks : m.chunks = front ++ [last]) (notFull : last.writeIdx < last.size heap) :
    m.readFromMarshal heap source 0 = none := by
  have valid := target.wellFormed.valid last (by simp [chunks])
  obtain ⟨first, rest, cons⟩ : ∃ first rest, m.chunks = first :: rest :=
    exists_cons_of_ne_nil (by simp [chunks])
  obtain ⟨heap₁, source₁, readEq, -, shrinks, -⟩ := sound.read_eq 0
  have lastOld := target.wellFormed.data_lt last (by simp [chunks])
  have refused : m.write heap₁ [] = none := by
    refine (target.beside apart.symm shrinks.frame).1.write_nothing chunks ?_
    rw [Chunk.size, shrinks.frame.size_eq _ lastOld]
    exact notFull
  rw [Marshal.readFromMarshal]
  simp only [sound.getContentSize_eq, guard_eq_some (Nat.zero_le _), some_bind, cons,
    target.wellFormed.splitTail chunks, Chunk.fullyWritten_eq valid,
    beq_iff_eq, if_neg (Nat.ne_of_lt notFull), Nat.min_zero, readEq,
    take_zero, length_nil, guard_eq_some, refused]
  rfl

end Copying

/-- The bytes move, whatever the chunks are. -/
theorem Sound.readFromMarshal_transfers {heap : Heap} {m source : Marshal}
    (target : Sound heap m) (sound : Sound heap source)
    (apart : Apart m.toChain source.toChain) {n : Nat} (positive : 0 < n)
    (enough : n ≤ source.contentSize) :
    ∃ heap' m' source', m.readFromMarshal heap source n = some (n, heap', m', source') ∧
        Transfers heap m source n heap' m' source' := by
  rcases eq_nil_or_concat' m.chunks with none | ⟨front, last, chunks⟩
  · exact target.readFromMarshal_shares sound apart (by simp [none]) enough
  by_cases full : last.writeIdx = last.size heap
  · exact target.readFromMarshal_shares sound apart (by simp [chunks, full]) enough
  · have valid := target.wellFormed.valid last (by simp [chunks])
    exact target.readFromMarshal_copies sound apart chunks
      (Nat.lt_of_le_of_ne valid.2.1 full) positive enough

/-- `read_from_marshal` moves bytes exactly. -/
theorem read_from_marshal_moves_bytes {heap : Heap} {d m : Marshal}
    (target : Sound heap d) (source : Sound heap m)
    (apart : Apart d.toChain m.toChain) {n : Nat} (positive : 0 < n) (enough : n ≤ m.contentSize) :
    ∃ heap' d' m', d.readFromMarshal heap m n = some (n, heap', d', m') ∧
      Sound heap' d' ∧ Sound heap' m' ∧
      d'.content heap' = d.content heap ++ (m.content heap).take n ∧
      m'.content heap' = (m.content heap).drop n ∧
      d'.writeCnt = d.writeCnt + BitVec.ofNat 32 n ∧
      d'.contentSize = (d'.content heap').length ∧
      m'.contentSize = (m'.content heap').length := by
  obtain ⟨heap', d', m', readEq, moved⟩ :=
    target.readFromMarshal_transfers source apart positive enough
  exact ⟨heap', d', m', readEq, moved.targetSound, moved.sourceSound,
    moved.targetContent, moved.sourceContent, moved.writeCnt, moved.targetSound.length_content.symm,
    moved.sourceSound.length_content.symm⟩

def twoBlocks : Heap := (Chunk.new (Chunk.new blankHeap [1]).2 [2, 3, 4]).2

def blockMarshal (data count : Nat) : Marshal where
  chunks := [⟨data + 1, data, 0, count⟩]
  tail := some (data + 1)
  writeCnt := BitVec.ofNat 32 count
  contentSize := count

theorem blockMarshal_sound :
    Sound twoBlocks (blockMarshal 0 1) ∧ Sound twoBlocks (blockMarshal 2 3) := by
  refine ⟨⟨⟨?_, ?_, ?_, ?_, ?_, ?_, ?_, ?_⟩, ?_⟩, ⟨⟨?_, ?_, ?_, ?_, ?_, ?_, ?_, ?_⟩, ?_⟩⟩
  all_goals decide

theorem read_from_marshal_moves_two_bytes :
    Sound twoBlocks (blockMarshal 0 1) ∧ Sound twoBlocks (blockMarshal 2 3) ∧
      Apart (blockMarshal 0 1).toChain (blockMarshal 2 3).toChain ∧
      ∃ heap' d' m', (blockMarshal 0 1).readFromMarshal twoBlocks
          (blockMarshal 2 3) 2 = some (2, heap', d', m') ∧
        d'.content heap' = [1, 2, 3] ∧ m'.content heap' = [4] := by
  obtain ⟨target, source⟩ := blockMarshal_sound
  have apart : Apart (blockMarshal 0 1).toChain (blockMarshal 2 3).toChain := by
    decide
  obtain ⟨heap', d', m', readEq, -, -, moved, left, -⟩ :=
    read_from_marshal_moves_bytes target source apart (show 0 < 2 by decide) (by decide)
  exact ⟨target, source, apart, heap', d', m', readEq, moved, left⟩

end SRPC.Marshalling
