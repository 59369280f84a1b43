import SRPC.MarshalByteQueue
import SRPC.MarshalOperations
import SRPC.TransitionRuns

/-! # A marshal refines a byte queue -/

namespace SRPC.Marshalling

open TransitionRuns List

/-- The cells of a bookmark are where the queue has reserved items. -/
def BookmarkAt (chain : Chain) (queue : ReservableQueue Byte)
    (cells : List Cell) (bookmark : Nat × Nat) : Prop :=
  cells.length = bookmark.2 ∧ bookmark.1 + bookmark.2 ≤ queue.limit ∧
    (queue.taken ≤ bookmark.1 →
      cells = (chain.cells.drop (bookmark.1 - queue.taken)).take bookmark.2)

/-- The relation between a marshal and the queue that runs with it. -/
structure Matches (state : MarshalState) (spec : ByteQueue) : Prop where
  sound : Sound state.heap state.marshal
  content : ReservableQueue.Agrees (state.marshal.content state.heap) spec.queue.items
  writeCnt : state.marshal.writeCnt = spec.writeCnt
  bookmarks : List.Forall₂ (BookmarkAt state.marshal.toChain spec.queue)
    state.bookmarks spec.bookmarks

section Bookmarks

variable {chain chain' : Chain} {queue : ReservableQueue Byte}
  {cells added : List Cell} {bookmark : Nat × Nat}

theorem BookmarkAt.grow (at_ : BookmarkAt chain queue cells bookmark)
    (length : chain.cells.length = queue.items.length) (grown : chain'.cells = chain.cells ++ added)
    (items : List (Option Byte)) :
    BookmarkAt chain' { queue with items := queue.items ++ items } cells bookmark := by
  obtain ⟨size, below, located⟩ := at_
  refine ⟨size, ?_, ?_⟩
  · simp only [ReservableQueue.limit, length_append] at below ⊢
    omega
  · intro alive
    rw [ReservableQueue.limit] at below
    have inside : bookmark.1 - queue.taken ≤ chain.cells.length := by
      simp only at alive
      omega
    rw [located alive, grown, drop_append_of_le_length inside, take_append_of_le_length]
    rw [length_drop]
    simp only at alive
    omega

theorem BookmarkAt.shrink (at_ : BookmarkAt chain queue cells bookmark)
    (length : chain.cells.length = queue.items.length) {count : Nat}
    (dropped : chain'.cells = chain.cells.drop count) :
    BookmarkAt chain' (queue.drop count) cells bookmark := by
  obtain ⟨size, below, located⟩ := at_
  refine ⟨size, ?_, ?_⟩
  · simp only [ReservableQueue.limit, ReservableQueue.drop, length_drop] at below ⊢
    omega
  · intro alive
    simp only [ReservableQueue.drop, ReservableQueue.limit] at alive below ⊢
    rw [located (by omega), dropped, drop_drop]
    by_cases all : count ≤ queue.items.length
    · congr 2
      omega
    · have nothing : bookmark.2 = 0 := by omega
      rw [nothing, take_zero, take_zero]

end Bookmarks

theorem content_overwrite {heap heap' : Heap} {chain : Chain}
    {cells : List Cell} {bytes : List Byte} {index : Nat} (wellFormed : WellFormed heap chain)
    (overwrites : Overwrites heap cells heap') (filled : cells.map heap'.byte = bytes)
    (located : cells = (chain.cells.drop index).take bytes.length) :
    chain.content heap' = (chain.content heap).take index ++ bytes ++
      (chain.content heap).drop (index + bytes.length) := by
  have split : chain.cells = chain.cells.take index ++ cells ++
      chain.cells.drop (index + bytes.length) := by
    rw [located, append_assoc, ← drop_drop, take_append_drop, take_append_drop]
  have distinct := wellFormed.nodup_cells
  rw [split, append_assoc, nodup_append] at distinct
  obtain ⟨_, inner, apart⟩ := distinct
  rw [nodup_append] at inner
  have before : (chain.cells.take index).map heap'.byte =
      (chain.cells.take index).map heap.byte := by
    apply map_congr_left
    intro cell member
    apply overwrites.byte
    intro inside
    exact apart cell member cell (mem_append_left _ inside) rfl
  have behind : (chain.cells.drop (index + bytes.length)).map heap'.byte =
      (chain.cells.drop (index + bytes.length)).map heap.byte := by
    apply map_congr_left
    intro cell member
    apply overwrites.byte
    intro inside
    exact inner.2.2 cell inside cell member rfl
  calc chain.content heap' = (chain.cells.take index ++ cells ++
        chain.cells.drop (index + bytes.length)).map heap'.byte := by
        rw [← split]
        rfl
    _ = _ := by
        rw [map_append, map_append, before, filled, behind, Chain.content, map_take, map_drop]

namespace Matches

variable {state : MarshalState} {spec : ByteQueue} {heap' : Heap} {m' : Marshal}

section

variable (matched : Matches state spec)

include matched

theorem length_cells : state.marshal.cells.length = spec.queue.items.length := by
  rw [← matched.content.length_eq, Chain.content, length_map]

theorem grow {added : List Cell} {items : List (Option Byte)} (sound : Sound heap' m')
    (grows : Grows state.heap state.marshal.toChain added heap' m'.toChain)
    (agrees : ReservableQueue.Agrees (added.map heap'.byte) items) :
    Matches ⟨heap', m', state.bookmarks⟩
      ⟨{ spec.queue with items := spec.queue.items ++ items }, m'.writeCnt, spec.bookmarks⟩ where
  sound := sound
  content := by
    rw [grows.content matched.sound.wellFormed]
    exact matched.content.append agrees
  writeCnt := rfl
  bookmarks := matched.bookmarks.imp fun _ _ located =>
    located.grow matched.length_cells grows.cells items

theorem shrink {count : Nat} (sound : Sound heap' m')
    (shrinks : Shrinks state.heap state.marshal.toChain count heap' m'.toChain) :
    Matches ⟨heap', m', state.bookmarks⟩ ⟨spec.queue.drop count, m'.writeCnt, spec.bookmarks⟩ where
  sound := sound
  content := by
    rw [shrinks.content]
    exact matched.content.drop count
  writeCnt := rfl
  bookmarks := matched.bookmarks.imp fun _ _ located =>
    located.shrink matched.length_cells shrinks.cells

theorem reserve {cells : List Cell} (sound : Sound heap' m')
    (grows : Grows state.heap state.marshal.toChain cells heap' m'.toChain) :
    Matches ⟨heap', m', state.bookmarks ++ [cells]⟩
      ⟨spec.queue.reserve cells.length, m'.writeCnt,
        spec.bookmarks ++ [(spec.queue.limit, cells.length)]⟩ := by
  have reserved := ReservableQueue.Agrees.replicate_none (cells.map heap'.byte)
  rw [length_map] at reserved
  have grown := matched.grow sound grows reserved
  refine ⟨sound, grown.content, rfl, rel_append grown.bookmarks ?_⟩
  refine List.Forall₂.cons ⟨rfl, ?_, ?_⟩ List.Forall₂.nil
  · simp [ReservableQueue.limit, Nat.add_assoc]
  · intro _
    have index : spec.queue.limit - spec.queue.taken = state.marshal.cells.length := by
      rw [matched.length_cells, ReservableQueue.limit]
      omega
    simp only [index, grows.cells]
    simp

theorem fill {cells : List Cell} {bytes : List Byte} {start : Nat}
    (located : BookmarkAt state.marshal.toChain spec.queue cells (start, bytes.length))
    (alive : spec.queue.taken ≤ start) :
    ∃ heap', Marshal.writeBookmark state.heap cells bytes = some heap' ∧
      Matches { state with heap := heap' } { spec with queue := spec.queue.fill start bytes } := by
  obtain ⟨size, below, place⟩ := located
  have wellFormed := matched.sound.wellFormed
  have slice := place alive
  simp only [ReservableQueue.limit] at below slice
  have sublist : cells.Sublist state.marshal.cells := by
    rw [slice]
    exact (take_sublist _ _).trans (drop_sublist _ _)
  obtain ⟨heap', wrote, overwrites, filled⟩ := writeBookmark_eq wellFormed size
    (fun _ member => sublist.subset member) (sublist.nodup wellFormed.nodup_cells)
  refine ⟨heap', wrote, ⟨wellFormed.overwrite overwrites, matched.sound.counted⟩, ?_,
    matched.writeCnt, ?_⟩
  · rw [content_overwrite wellFormed overwrites filled slice]
    exact ((matched.content.take _).append
      (ReservableQueue.Agrees.map_some bytes)).append (matched.content.drop _)
  · refine matched.bookmarks.imp fun _ _ other => ?_
    obtain ⟨otherSize, otherBelow, otherPlace⟩ := other
    refine ⟨otherSize, ?_, otherPlace⟩
    simp only [ReservableQueue.limit, ReservableQueue.fill, length_append,
      length_take, length_map, length_drop] at otherBelow ⊢
    omega

end

end Matches

theorem step_matches {state : MarshalState} {spec : ByteQueue} {op : Op}
    (matched : Matches state spec) (allowed : spec.Allowed op) :
    ∃ reply state', state.step op = some (reply, state') ∧
      spec.Answers op reply ∧ Matches state' (spec.next op reply) := by
  obtain ⟨heap, m, bookmarks⟩ := state
  have sound := matched.sound
  have length := matched.content.length_eq
  have cnt := matched.writeCnt
  simp only at sound length cnt
  cases op with
  | write bytes =>
    obtain ⟨heap', m', added, wrote, sound', grows, held, written⟩ := sound.write_eq allowed
    have agrees := ReservableQueue.Agrees.map_some bytes
    nth_rewrite 1 [← held] at agrees
    have grown := matched.grow sound' grows agrees
    rw [written, cnt] at grown
    exact ⟨.count bytes.length, ⟨heap', m', bookmarks⟩,
      by simp [MarshalState.step, wrote], rfl, grown⟩
  | read n =>
    obtain ⟨heap', m', delivered, sound', shrinks, written⟩ := sound.read_eq n
    have shrunk := matched.shrink sound' shrinks
    rw [written, cnt] at shrunk
    exact ⟨.bytes _, ⟨heap', m', bookmarks⟩,
      by simp [MarshalState.step, delivered], matched.content.take n, shrunk⟩
  | peek n =>
    exact ⟨.bytes _, ⟨heap, m, bookmarks⟩,
      by simp [MarshalState.step, sound.peek_eq], matched.content.take n, matched⟩
  | readFromFd incoming answers =>
    obtain ⟨n, results, heap', m', added, received, total, calls, sound', grows, held,
      written⟩ := sound.readFromFd_eq incoming answers
    have agrees := ReservableQueue.Agrees.map_some (incoming.take n)
    nth_rewrite 1 [← held] at agrees
    have grown := matched.grow sound' grows agrees
    rw [written, cnt] at grown
    exact ⟨.received n results, ⟨heap', m', bookmarks⟩,
      by simp [MarshalState.step, received], ⟨total, calls⟩, grown⟩
  | writeToFd answers =>
    obtain ⟨n, results, heap', m', sent, total, calls, sound', shrinks, written⟩ :=
      sound.writeToFd_eq answers
    have shrunk := matched.shrink sound' shrinks
    rw [written, cnt] at shrunk
    rw [length] at calls
    exact ⟨.sent n results _, ⟨heap', m', bookmarks⟩,
      by simp [MarshalState.step, sent], ⟨total, calls, matched.content.take n⟩, shrunk⟩
  | setBookmark n =>
    obtain ⟨cells, heap', m', reserved, size, sound', grows, written⟩ :=
      sound.setBookmark_eq (cnt.trans allowed) n
    have grown := matched.reserve sound' grows
    rw [written, cnt, size] at grown
    exact ⟨.done, ⟨heap', m', bookmarks ++ [cells]⟩,
      by simp [MarshalState.step, reserved], trivial, grown⟩
  | writeBookmark index bytes =>
    obtain ⟨⟨start, size⟩, found, sizeEq, alive⟩ := allowed
    simp only at sizeEq alive
    subst sizeEq
    obtain ⟨cells, stored, located⟩ : ∃ cells, bookmarks[index]? = some cells ∧
        BookmarkAt m.toChain spec.queue cells (start, bytes.length) := by
      have inside := (List.getElem?_eq_some_iff.mp found)
      obtain ⟨bound, value⟩ := inside
      have same := matched.bookmarks.length_eq
      simp only at same
      have bound' : index < bookmarks.length := by omega
      refine ⟨bookmarks[index], getElem?_eq_getElem bound', ?_⟩
      have located := List.Forall₂.get matched.bookmarks bound' bound
      simpa [value] using located
    obtain ⟨heap', wrote, filled⟩ := matched.fill located alive
    refine ⟨.done, ⟨heap', m, bookmarks⟩, ?_, trivial, ?_⟩
    · simp only at wrote
      simp [MarshalState.step, stored, wrote]
    · simp only [ByteQueue.next, Option.mem_def.mp found]
      exact filled
  | getAndResetWriteCnt =>
    refine ⟨.writeCnt m.writeCnt, ⟨heap, { m with writeCnt := 0 }, bookmarks⟩,
      rfl, cnt, ?_⟩
    exact ⟨⟨sound.wellFormed, sound.counted⟩, matched.content, rfl, matched.bookmarks⟩

/-- The marshal holds the queue, but for what is reserved and not written. -/
structure Refines (state : MarshalState) (spec : ByteQueue) : Prop where
  content : ReservableQueue.Agrees (state.marshal.content state.heap) spec.queue.items
  contentSize : state.marshal.contentSize = spec.queue.items.length
  full : ∀ chunk ∈ state.marshal.chunks.dropLast, chunk.writeIdx = chunk.size state.heap
  tail : state.marshal.tail = state.marshal.chunks.getLast?.map Chunk.addr

/-- The marshal and its queue take the same operation; the reply is logged with
the queue it was given by. -/
def lockstep (pair : MarshalState × ByteQueue) (op : Op) :
    Option (List (ByteQueue × Op × Reply) × MarshalState × ByteQueue) :=
  (pair.1.step op).map fun (reply, state) =>
    ([(pair.2, op, reply)], state, pair.2.next op reply)

/-- A marshal that starts empty behaves as a byte queue under every sequence of
operations: none of them fails, every reply is one of the queue, and in the
state reached the chunks hold the content of the queue. -/
theorem marshal_refines_byteQueue (heap : Heap) (ops : List Op)
    (allowed : Admissible lockstep (fun pair op => pair.2.Allowed op)
      (⟨heap, Marshal.empty, []⟩, ByteQueue.empty) ops) :
    ∃ log state spec, run lockstep (⟨heap, Marshal.empty, []⟩, ByteQueue.empty) ops =
          some (log, state, spec) ∧
      (∀ entry ∈ log, ByteQueue.Answers entry.1 entry.2.1 entry.2.2) ∧
        Refines state spec := by
  let Invariant (log : List (ByteQueue × Op × Reply)) (pair : MarshalState × ByteQueue) : Prop :=
    (∀ entry ∈ log, ByteQueue.Answers entry.1 entry.2.1 entry.2.2) ∧ Matches pair.1 pair.2
  have start : Invariant [] (⟨heap, Marshal.empty, []⟩, ByteQueue.empty) :=
    ⟨by simp, sound_empty heap, ReservableQueue.Agrees.nil, rfl, List.Forall₂.nil⟩
  have preserved : ∀ log pair op, Invariant log pair →
      ByteQueue.Allowed pair.2 op →
        ∃ outputs next, lockstep pair op = some (outputs, next) ∧
          Invariant (log ++ outputs) next := by
    rintro log ⟨state, spec⟩ op ⟨answered, matched⟩ permitted
    obtain ⟨reply, state', stepEq, answers, matched'⟩ := step_matches matched permitted
    refine ⟨_, _, by simp [lockstep, stepEq]; exact ⟨rfl, rfl⟩, ?_, matched'⟩
    intro entry member
    rw [mem_append, mem_singleton] at member
    rcases member with member | rfl
    · exact answered entry member
    · exact answers
  obtain ⟨log, ⟨state, spec⟩, runEq, answered, matched⟩ :=
    run_of_admissible preserved [] start ops allowed
  exact ⟨log, state, spec, runEq, answered, matched.content,
    matched.sound.counted.trans matched.length_cells,
    matched.sound.wellFormed.full, matched.sound.wellFormed.tail⟩

def sampleOps : List Op :=
  [.setBookmark 4, .write [1, 2, 3], .getAndResetWriteCnt, .peek 5,
    .writeBookmark 0 [3, 0, 0, 0], .readFromFd [9, 8, 7] [2, 5, -1], .read 2,
    .writeToFd [3, 1, 0], .read 100]

theorem marshal_refines_byteQueue_sample :
    ∃ log state spec, run lockstep
        (⟨blankHeap, Marshal.empty, []⟩, ByteQueue.empty) sampleOps = some (log, state, spec) ∧
      (∀ entry ∈ log, ByteQueue.Answers entry.1 entry.2.1 entry.2.2) ∧
        Refines state spec := marshal_refines_byteQueue blankHeap sampleOps (by decide +kernel)

end SRPC.Marshalling
