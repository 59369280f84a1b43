import SRPC.MarshalInvariant
import SRPC.ReservableQueue

/-!
# The byte queue behind a marshal

The operations of one marshal, what their callers see, and the queue of bytes
with reserved places that explains it.
-/

namespace SRPC.Marshalling

/-- One operation, with what the kernel does where it is involved. -/
inductive Op
  | write (bytes : List Byte)
  | read (n : Nat)
  | peek (n : Nat)
  | readFromFd (incoming : List Byte) (answers : List Int)
  | writeToFd (answers : List Int)
  | setBookmark (n : Nat)
  | writeBookmark (index : Nat) (bytes : List Byte)
  | getAndResetWriteCnt
  deriving DecidableEq, Repr

/-- What the caller of an operation sees. -/
inductive Reply
  | count (n : Nat)
  | bytes (delivered : List Byte)
  | received (n : Nat) (results : List Int)
  | sent (n : Nat) (results : List Int) (delivered : List Byte)
  | writeCnt (cnt : BitVec 32)
  | done
  deriving DecidableEq, Repr

/-- A marshal, with the bookmarks that were set in it. -/
structure MarshalState where
  heap : Heap
  marshal : Marshal
  bookmarks : List (List Cell)

def MarshalState.step (state : MarshalState) :
    Op → Option (Reply × MarshalState)
  | .write bytes => do
    let (n, heap, m) ← state.marshal.write state.heap bytes
    return (.count n, { state with heap := heap, marshal := m })
  | .read n => do
    let (bytes, heap, m) ← state.marshal.read state.heap n
    return (.bytes bytes, { state with heap := heap, marshal := m })
  | .peek n => do
    let bytes ← state.marshal.peek state.heap n
    return (.bytes bytes, state)
  | .readFromFd incoming answers => do
    let (n, results, _, heap, m) ← state.marshal.readFromFd state.heap incoming answers
    return (.received n results, { state with heap := heap, marshal := m })
  | .writeToFd answers => do
    let (n, results, sent, heap, m) ← state.marshal.writeToFd state.heap answers
    return (.sent n results sent, { state with heap := heap, marshal := m })
  | .setBookmark n => do
    let (cells, heap, m) ← state.marshal.setBookmark state.heap n
    return (.done, ⟨heap, m, state.bookmarks ++ [cells]⟩)
  | .writeBookmark index bytes => do
    let cells ← state.bookmarks[index]?
    let heap ← Marshal.writeBookmark state.heap cells bytes
    return (.done, { state with heap := heap })
  | .getAndResetWriteCnt =>
    let (cnt, m) := state.marshal.getAndResetWriteCnt
    some (.writeCnt cnt, { state with marshal := m })

/-- The abstract state: the bytes, the write counter, and for each bookmark
the position of its first byte and its size. -/
structure ByteQueue where
  queue : ReservableQueue Byte
  writeCnt : BitVec 32
  bookmarks : List (Nat × Nat)
  deriving DecidableEq, Repr

namespace ByteQueue

def empty : ByteQueue := ⟨ReservableQueue.empty, 0, []⟩

/-- The reply tells the queue only how many bytes the kernel has moved. -/
def next (spec : ByteQueue) : Op → Reply → ByteQueue
  | .write bytes, _ =>
    { spec with
      queue := spec.queue.append bytes
      writeCnt := spec.writeCnt + BitVec.ofNat 32 bytes.length }
  | .read n, _ => { spec with queue := spec.queue.drop n }
  | .readFromFd incoming _, .received n _ =>
    { spec with
      queue := spec.queue.append (incoming.take n)
      writeCnt := spec.writeCnt + BitVec.ofNat 32 n }
  | .writeToFd _, .sent n _ _ => { spec with queue := spec.queue.drop n }
  | .setBookmark n, _ =>
    { spec with
      queue := spec.queue.reserve n
      bookmarks := spec.bookmarks ++ [(spec.queue.limit, n)] }
  | .writeBookmark index bytes, _ =>
    match spec.bookmarks[index]? with
    | some (start, _) =>
      { spec with queue := spec.queue.fill start bytes }
    | none => spec
  | .getAndResetWriteCnt, _ => { spec with writeCnt := 0 }
  | _, _ => spec

/-- The replies of the queue.  `read_from_fd` asks the kernel for more until a
call gives no byte, `write_to_fd` also until the queue is empty. -/
def Answers (spec : ByteQueue) : Op → Reply → Prop
  | .write bytes, .count n => n = bytes.length
  | .read n, .bytes delivered =>
    ReservableQueue.Agrees delivered (spec.queue.items.take n)
  | .peek n, .bytes delivered =>
    ReservableQueue.Agrees delivered (spec.queue.items.take n)
  | .readFromFd incoming answers, .received n results =>
    n = (results.map Int.toNat).sum ∧ KernelCalls (fun _ => True) results answers incoming.length
  | .writeToFd answers, .sent n results delivered =>
    n = (results.map Int.toNat).sum ∧
      KernelCalls (fun left => left ≠ 0) results answers spec.queue.items.length ∧
        ReservableQueue.Agrees delivered (spec.queue.items.take n)
  | .setBookmark _, .done => True
  | .writeBookmark _ _, .done => True
  | .getAndResetWriteCnt, .writeCnt cnt => cnt = spec.writeCnt
  | _, _ => False

/-- The calls the users of a marshal make: `write` gets at least one byte,
`set_bookmark` follows a reset of the write counter, and `write_bookmark` comes
before a byte of the bookmark is consumed. -/
def Allowed (spec : ByteQueue) : Op → Prop
  | .write bytes => bytes ≠ []
  | .setBookmark _ => spec.writeCnt = 0
  | .writeBookmark index bytes =>
    ∃ bookmark ∈ spec.bookmarks[index]?, bookmark.2 = bytes.length ∧ spec.queue.taken ≤ bookmark.1
  | _ => True

instance (spec : ByteQueue) : (op : Op) → Decidable (spec.Allowed op)
  | .write bytes => inferInstanceAs (Decidable (bytes ≠ []))
  | .read _ => .isTrue trivial
  | .peek _ => .isTrue trivial
  | .readFromFd _ _ => .isTrue trivial
  | .writeToFd _ => .isTrue trivial
  | .setBookmark _ => inferInstanceAs (Decidable (spec.writeCnt = 0))
  | .writeBookmark index bytes => inferInstanceAs (Decidable
      (∃ bookmark ∈ spec.bookmarks[index]?,
        bookmark.2 = bytes.length ∧ spec.queue.taken ≤ bookmark.1))
  | .getAndResetWriteCnt => .isTrue trivial

end ByteQueue

end SRPC.Marshalling
