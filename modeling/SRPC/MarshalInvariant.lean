import Mathlib.Data.List.Flatten
import SRPC.IndexedLists
import SRPC.Marshal

/-!
# Invariant of a marshal

The content of a chain is the list of its cells in reading order, and the bytes
the heap has there.  `WellFormed` is the shape every operation restores, and
`Frame` bounds what an operation on one chain may do to the rest of the heap.
-/

namespace SRPC.Marshalling

open List

variable {condition : Prop}

theorem guard_eq_some [Decidable condition] (holds : condition) :
    (guard condition : Option Unit) = some () := by
  simp [guard, holds]

theorem guard_bind {α : Type} [Decidable condition] (holds : condition) (next : Unit → Option α) :
    ((guard condition : Option Unit) >>= next) = next () := by
  rw [guard_eq_some holds]
  rfl

section Kernel

theorem kernelResult_bounds (requested : Nat) (answer : Int) :
    -1 ≤ kernelResult requested answer ∧
      kernelResult requested answer ≤ requested ∧
        kernelResult requested answer ≤ 0x7ffff000 := by
  rw [kernelResult]
  omega

theorem toI32_kernelResult (requested : Nat) (answer : Int) :
    toI32 (kernelResult requested answer) = kernelResult requested answer := by
  have bounds := kernelResult_bounds requested answer
  rw [toI32, BitVec.toInt_ofInt]
  exact Int.bmod_eq_of_le (by omega) (by omega)

/-- The result of a call that may ask for a part of the `available` bytes only:
what the kernel answers, or a smaller count that is not 0. -/
def CallGives (available : Nat) (answer r : Int) : Prop :=
  r = kernelResult available answer ∨ 0 < r ∧ r < kernelResult available answer

instance (available : Nat) (answer r : Int) : Decidable (CallGives available answer r) :=
  inferInstanceAs (Decidable (_ ∨ _))

/-- The results of the calls of a loop, for these answers of a kernel that has
`available` bytes.  The loop makes a call while `asks` holds of the bytes that
are left, and ends after one that moves none.  A call without an answer fails. -/
def KernelCalls (asks : Nat → Prop) : (results answers : List Int) → (available : Nat) → Prop
  | [], _, available => ¬ asks available
  | r :: results, answers, available => asks available ∧
      CallGives available (answers.headD (-1)) r ∧
        (r ≤ 0 ∧ results = [] ∨ 0 < r ∧ KernelCalls asks results answers.tail (available - r.toNat))

instance decidableKernelCalls (asks : Nat → Prop) [DecidablePred asks] :
    ∀ results answers available, Decidable (KernelCalls asks results answers available)
  | [], _, _ => inferInstanceAs (Decidable (¬ _))
  | r :: results, answers, available =>
    have := decidableKernelCalls asks results answers.tail (available - r.toNat)
    inferInstanceAs (Decidable (_ ∧ _ ∧ (_ ∧ _ ∨ _ ∧ _)))

variable {available requested : Nat} {answer r : Int}

theorem callGives_of_requested (positive : 0 < requested) (inside : requested ≤ available)
    (answer : Int) : CallGives available answer (kernelResult requested answer) := by
  simp only [CallGives, kernelResult]
  omega

theorem CallGives.toNat_le (given : CallGives available answer r) : r.toNat ≤ available := by
  have bounds := kernelResult_bounds available answer
  rw [CallGives] at given
  omega

theorem CallGives.eq_of_refused (given : CallGives available (-1) r) : r = -1 := by
  rw [CallGives, kernelResult] at given
  omega

theorem CallGives.positive (given : CallGives available answer r) (accepted : 0 < answer)
    (some : available ≠ 0) : 0 < r := by
  rw [CallGives, kernelResult] at given
  omega

section Calls

variable {asks : Nat → Prop} {results answers : List Int}

theorem KernelCalls.sum_le (calls : KernelCalls asks results answers available) :
    (results.map Int.toNat).sum ≤ available := by
  induction results generalizing answers available with
  | nil => exact Nat.zero_le _
  | cons r results ih =>
    obtain ⟨_, given, rest⟩ := calls
    have bound := given.toNat_le
    rw [map_cons, sum_cons]
    rcases rest with ⟨_, rfl⟩ | ⟨_, calls⟩
    · simpa using bound
    · have later := ih calls
      omega

/-- A kernel that refuses nothing moves all bytes or runs out of answers, each
of which has moved a byte. -/
theorem KernelCalls.of_positive (calls : KernelCalls asks results answers available)
    (waits : ∀ n, ¬ asks n → n = 0) (accepted : ∀ answer ∈ answers, 0 < answer) :
    (results.map Int.toNat).sum = available ∨
      -1 ∈ results ∧ answers.length ≤ (results.map Int.toNat).sum := by
  induction results generalizing answers available with
  | nil => exact .inl (waits _ calls).symm
  | cons r results ih =>
    obtain ⟨_, given, rest⟩ := calls
    cases answers with
    | nil =>
      obtain rfl := given.eq_of_refused
      exact .inr ⟨mem_cons_self, Nat.zero_le _⟩
    | cons answer answers =>
      have bound := given.toNat_le
      have moved := given.positive (accepted answer mem_cons_self)
      rw [map_cons, sum_cons, length_cons]
      rcases rest with ⟨stop, rfl⟩ | ⟨_, calls⟩
      · left
        simp only [map_nil, sum_nil]
        omega
      · rcases ih calls fun other member => accepted other (mem_cons_of_mem _ member) with
          all | ⟨refused, enough⟩
        · left
          omega
        · rw [tail_cons] at enough
          exact .inr ⟨mem_cons_of_mem _ refused, by omega⟩

/-- The number of bytes that the calls of a loop move. -/
def KernelMoves (asks : Nat → Prop) (answers : List Int) (available n : Nat) : Prop :=
  ∃ results, KernelCalls asks results answers available ∧ n = (results.map Int.toNat).sum

variable {n : Nat}

theorem KernelMoves.le (moves : KernelMoves asks answers available n) : n ≤ available := by
  obtain ⟨results, calls, rfl⟩ := moves
  exact calls.sum_le

theorem KernelMoves.eq_of_positive (moves : KernelMoves asks answers available n)
    (waits : ∀ n, ¬ asks n → n = 0) (accepted : ∀ answer ∈ answers, 0 < answer)
    (enough : available ≤ answers.length) : n = available := by
  obtain ⟨results, calls, rfl⟩ := moves
  have bound := calls.sum_le
  have moved := calls.of_positive waits accepted
  omega

end Calls

end Kernel

namespace Heap

variable (heap : Heap) (data offset : Nat) (bytes : List Byte)

@[simp]
theorem store_next : (heap.store data offset bytes).next = heap.next := rfl

@[simp]
theorem dropRef_next : (heap.dropRef data).next = heap.next := rfl

@[simp]
theorem refCopy_next : (heap.refCopy data).next = heap.next := rfl

@[simp]
theorem store_size (other : Nat) :
    ((heap.store data offset bytes).rawBytes other).size = (heap.rawBytes other).size := by
  by_cases same : other = data
  · subst same
    simp [store, update]
  · simp [store, update, same]

@[simp]
theorem store_refcnt (other : Nat) :
    ((heap.store data offset bytes).rawBytes other).refcnt = (heap.rawBytes other).refcnt := by
  by_cases same : other = data
  · subst same
    simp [store, update]
  · simp [store, update, same]

@[simp]
theorem dropRef_size (other : Nat) :
    ((heap.dropRef data).rawBytes other).size = (heap.rawBytes other).size := by
  by_cases same : other = data
  · subst same
    simp [dropRef, update]
  · simp [dropRef, update, same]

theorem dropRef_refcnt (other : Nat) :
    ((heap.dropRef data).rawBytes other).refcnt =
      (heap.rawBytes other).refcnt - if other = data then 1 else 0 := by
  by_cases same : other = data
  · subst same
    simp [dropRef, update]
  · simp [dropRef, update, same]

@[simp]
theorem dropRef_byte (cell : Cell) : (heap.dropRef data).byte cell = heap.byte cell := by
  by_cases same : cell.1 = data
  · subst same
    simp [byte, dropRef, update]
  · simp [byte, dropRef, update, same]

@[simp]
theorem refCopy_size (other : Nat) :
    ((heap.refCopy data).rawBytes other).size = (heap.rawBytes other).size := by
  by_cases same : other = data
  · subst same
    simp [refCopy, update]
  · simp [refCopy, update, same]

theorem refCopy_refcnt (other : Nat) :
    ((heap.refCopy data).rawBytes other).refcnt =
      (heap.rawBytes other).refcnt + if other = data then 1 else 0 := by
  by_cases same : other = data
  · subst same
    simp [refCopy, update]
  · simp [refCopy, update, same]

@[simp]
theorem refCopy_byte (cell : Cell) : (heap.refCopy data).byte cell = heap.byte cell := by
  by_cases same : cell.1 = data
  · subst same
    simp [byte, refCopy, update]
  · simp [byte, refCopy, update, same]

theorem store_byte_of_outside {cell : Cell}
    (outside : cell.1 ≠ data ∨ cell.2 < offset ∨
      offset + bytes.length ≤ cell.2) :
    (heap.store data offset bytes).byte cell = heap.byte cell := by
  by_cases same : cell.1 = data
  · subst same
    have range : ¬ offset ≤ cell.2 ∨ bytes.length ≤ cell.2 - offset := by
      omega
    rcases range with before | behind
    · simp [byte, store, update, before]
    · simp [byte, store, update, getElem?_eq_none behind]
  · simp [byte, store, update, same]

theorem map_byte_store :
    (((List.range' offset bytes.length).map (Prod.mk data)).map
      (heap.store data offset bytes).byte) = bytes := by
  apply ext_getElem
  · simp
  · intro i _ inside
    have reached : offset ≤ offset + i := by omega
    simp [byte, store, update, getElem?_eq_getElem inside]

end Heap

namespace Chunk

/-- The cells that are written and not yet read. -/
def cells (chunk : Chunk) : List Cell :=
  (List.range' chunk.readIdx (chunk.writeIdx - chunk.readIdx)).map (Prod.mk chunk.data)

@[simp]
theorem length_cells (chunk : Chunk) : chunk.cells.length = chunk.writeIdx - chunk.readIdx := by
  simp [cells]

theorem mem_cells {chunk : Chunk} {cell : Cell} :
    cell ∈ chunk.cells ↔ cell.1 = chunk.data ∧
      chunk.readIdx ≤ cell.2 ∧ cell.2 < chunk.writeIdx := by
  obtain ⟨data, index⟩ := cell
  simp only [cells, mem_map, mem_range'_1, Prod.mk.injEq]
  constructor
  · rintro ⟨i, inside, rfl, rfl⟩
    exact ⟨rfl, by omega, by omega⟩
  · rintro ⟨rfl, above, below⟩
    exact ⟨index, by omega, rfl, rfl⟩

theorem nodup_cells (chunk : Chunk) : chunk.cells.Nodup :=
  (nodup_range').map fun _ _ equal => (Prod.mk.inj equal).2

end Chunk

namespace Chain

/-- The cells of a chain in reading order. -/
def cells (chain : Chain) : List Cell := chain.chunks.flatMap Chunk.cells

/-- The bytes that the heap has in the cells. -/
def content (heap : Heap) (chain : Chain) : List Byte := chain.cells.map heap.byte

/-- The cells an operation may fill without taking a new block: those behind
the write index of the last chunk. -/
def Writable (chain : Chain) (cell : Cell) : Prop :=
  ∃ last ∈ chain.chunks.getLast?, last.data = cell.1 ∧ last.writeIdx ≤ cell.2

/-- How many chunks of the chain are windows into the block. -/
def refs (chain : Chain) (data : Nat) : Nat := (chain.chunks.map Chunk.data).count data

end Chain

/-- All chunks but the last are written in full, and none is read in full. -/
structure WellFormed (heap : Heap) (chain : Chain) : Prop where
  valid : ∀ chunk ∈ chain.chunks, chunk.Valid heap
  unread : ∀ chunk ∈ chain.chunks, chunk.readIdx < chunk.size heap
  full : ∀ chunk ∈ chain.chunks.dropLast, chunk.writeIdx = chunk.size heap
  tail : chain.tail = chain.chunks.getLast?.map Chunk.addr
  addrs : (chain.chunks.map Chunk.addr).Nodup
  blocks : (chain.chunks.map Chunk.data).Nodup
  addr_lt : ∀ chunk ∈ chain.chunks, chunk.addr < heap.next
  data_lt : ∀ chunk ∈ chain.chunks, chunk.data < heap.next

/-- Only what the chain may write or owns has changed on the heap. -/
structure Frame (heap : Heap) (chain : Chain) (heap' : Heap) (chain' : Chain) : Prop where
  next_le : heap.next ≤ heap'.next
  size_eq : ∀ data < heap.next, (heap'.rawBytes data).size = (heap.rawBytes data).size
  balance : ∀ data < heap.next, (heap'.rawBytes data).refcnt - chain'.refs data =
      (heap.rawBytes data).refcnt - chain.refs data
  byte_eq : ∀ cell : Cell, cell.1 < heap.next → ¬ chain.Writable cell →
    heap'.byte cell = heap.byte cell
  writable : ∀ cell, chain'.Writable cell → chain.Writable cell ∨ heap.next ≤ cell.1

theorem Frame.refl (heap : Heap) (chain : Chain) : Frame heap chain heap chain where
  next_le := Nat.le_refl _
  size_eq := fun _ _ => rfl
  balance := fun _ _ => rfl
  byte_eq := fun _ _ _ => rfl
  writable := fun _ writable => Or.inl writable

theorem Frame.trans {heap heap₁ heap₂ : Heap} {chain chain₁ chain₂ : Chain}
    (first : Frame heap chain heap₁ chain₁) (second : Frame heap₁ chain₁ heap₂ chain₂) :
    Frame heap chain heap₂ chain₂ where
  next_le := Nat.le_trans first.next_le second.next_le
  size_eq := fun data old =>
    (second.size_eq data (by have := first.next_le; omega)).trans (first.size_eq data old)
  balance := fun data old =>
    (second.balance data (by have := first.next_le; omega)).trans (first.balance data old)
  byte_eq := by
    intro cell old fixed
    have stillFixed : ¬ chain₁.Writable cell := by
      intro writable
      rcases first.writable cell writable with before | new
      · exact fixed before
      · omega
    rw [second.byte_eq cell (by have := first.next_le; omega) stillFixed,
      first.byte_eq cell old fixed]
  writable := by
    intro cell writable
    rcases second.writable cell writable with before | new
    · exact first.writable cell before
    · exact Or.inr (by have := first.next_le; omega)

namespace WellFormed

variable {heap : Heap} {chain : Chain}

theorem empty (heap : Heap) : WellFormed heap ⟨[], none⟩ := by
  constructor <;> simp

variable {cell : Cell}

theorem cell_lt (wellFormed : WellFormed heap chain) (member : cell ∈ chain.cells) :
    cell.1 < heap.next := by
  obtain ⟨chunk, chunkMember, cellMember⟩ := mem_flatMap.mp member
  rw [(Chunk.mem_cells.mp cellMember).1]
  exact wellFormed.data_lt chunk chunkMember

theorem not_writable (wellFormed : WellFormed heap chain) (member : cell ∈ chain.cells) :
    ¬ chain.Writable cell := by
  rintro ⟨last, isLast, sameBlock, behind⟩
  obtain ⟨chunk, chunkMember, cellMember⟩ := mem_flatMap.mp member
  obtain ⟨block, _, before⟩ := Chunk.mem_cells.mp cellMember
  have same : chunk = last :=
    inj_on_of_nodup_map wellFormed.blocks chunkMember
      (mem_of_getLast? isLast) (by rw [sameBlock, block])
  subst same
  omega

theorem nodup_cells (wellFormed : WellFormed heap chain) : chain.cells.Nodup := by
  rw [Chain.cells, nodup_flatMap]
  refine ⟨fun chunk _ => chunk.nodup_cells, ?_⟩
  have blocks := pairwise_map.mp wellFormed.blocks
  refine blocks.imp ?_
  intro first second different cell inFirst inSecond
  exact different ((Chunk.mem_cells.mp inFirst).1.symm.trans (Chunk.mem_cells.mp inSecond).1)

variable {heap' : Heap}

section

variable (wellFormed : WellFormed heap chain)

include wellFormed

theorem content_eq_of_frame {chain' : Chain} (frame : Frame heap chain heap' chain') :
    chain.content heap' = chain.content heap := by
  apply map_congr_left
  intro cell member
  exact frame.byte_eq cell (wellFormed.cell_lt member) (wellFormed.not_writable member)

theorem transfer (next : heap.next ≤ heap'.next)
    (size : ∀ chunk ∈ chain.chunks, chunk.size heap' = chunk.size heap)
    (live : ∀ chunk ∈ chain.chunks, 0 < (heap'.rawBytes chunk.data).refcnt) :
    WellFormed heap' chain where
  valid := by
    intro chunk member
    obtain ⟨_, writeOk, readOk⟩ := wellFormed.valid chunk member
    have same := size chunk member
    rw [Chunk.size, Chunk.size] at same
    exact ⟨live chunk member, by omega, readOk⟩
  unread := by
    intro chunk member
    rw [size chunk member]
    exact wellFormed.unread chunk member
  full := by
    intro chunk member
    rw [size chunk (mem_of_mem_dropLast member)]
    exact wellFormed.full chunk member
  tail := wellFormed.tail
  addrs := wellFormed.addrs
  blocks := wellFormed.blocks
  addr_lt := fun chunk member =>
    Nat.lt_of_lt_of_le (wellFormed.addr_lt chunk member) next
  data_lt := fun chunk member =>
    Nat.lt_of_lt_of_le (wellFormed.data_lt chunk member) next

theorem full_of_noRoom (noRoom : ∀ last ∈ chain.chunks.getLast?, last.writeIdx = last.size heap) :
    ∀ chunk ∈ chain.chunks, chunk.writeIdx = chunk.size heap := by
  have full := wellFormed.full
  rcases eq_nil_or_concat' chain.chunks with none | ⟨front, last, chunks⟩
  · simp [none]
  · rw [chunks, dropLast_concat] at full
    rw [chunks]
    exact forall_mem_concat full (noRoom last (by simp [chunks]))

theorem append {chunk : Chunk}
    (noRoom : ∀ last ∈ chain.chunks.getLast?, last.writeIdx = last.size heap)
    (valid : chunk.Valid heap) (unread : chunk.readIdx < chunk.size heap)
    (newAddr : ∀ other ∈ chain.chunks, other.addr ≠ chunk.addr)
    (newBlock : ∀ other ∈ chain.chunks, other.data ≠ chunk.data) (addr_lt : chunk.addr < heap.next)
    (data_lt : chunk.data < heap.next) : WellFormed heap (Chain.link chain.chunks chunk) := by
  refine ⟨forall_mem_concat wellFormed.valid valid, forall_mem_concat wellFormed.unread unread,
    ?_, by simp [Chain.link], nodup_map_concat wellFormed.addrs newAddr,
    nodup_map_concat wellFormed.blocks newBlock, forall_mem_concat wellFormed.addr_lt addr_lt,
    forall_mem_concat wellFormed.data_lt data_lt⟩
  rw [Chain.link, dropLast_concat]
  exact wellFormed.full_of_noRoom noRoom

theorem tailIsLast : chain.TailIsLast := Or.inr wellFormed.tail

theorem splitTail {front : List Chunk} {last : Chunk} (chunks : chain.chunks = front ++ [last]) :
    chain.splitTail = some (front, last) := by
  have tail := wellFormed.tail
  simp only [chunks, getLast?_append_of_ne_nil, ne_eq, cons_ne_nil,
    not_false_eq_true, getLast?_singleton, Option.map_some] at tail
  simp [Chain.splitTail, chunks, tail]

end

end WellFormed

end SRPC.Marshalling
