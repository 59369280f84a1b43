import SRPC.MarshalChunk

/-!
# Marshal

A marshal is a linked list of chunks with a pointer to the last one and two
counters.
-/

namespace SRPC.Marshalling

/-- The chunks reachable from `head_`, and `tail_`. -/
structure Chain where
  chunks : List Chunk
  tail : Option Nat
  deriving DecidableEq, Repr

/-- A chain with `write_cnt_` and `content_size_`. -/
structure Marshal extends Chain where
  writeCnt : BitVec 32
  contentSize : Nat
  deriving DecidableEq, Repr

namespace Chain

/-- `tail_ == nullptr || tail_->next == nullptr`. -/
def TailIsLast (chain : Chain) : Prop :=
  chain.tail = none ∨ chain.tail = chain.chunks.getLast?.map Chunk.addr

instance (chain : Chain) : Decidable chain.TailIsLast :=
  inferInstanceAs (Decidable (_ ∨ _))

/-- Follow `tail_`: the chunks before it and the chunk it points to. -/
def splitTail (chain : Chain) : Option (List Chunk × Chunk) :=
  match chain.chunks.getLast? with
  | none => none
  | some last =>
    if chain.tail = some last.addr then some (chain.chunks.dropLast, last)
    else none

/-- Hang a chunk behind the chunks `front` and let `tail_` point to it. -/
def link (front : List Chunk) (chunk : Chunk) : Chain := ⟨front ++ [chunk], some chunk.addr⟩

/-- Hangs a new chunk with these bytes behind the others. -/
def appendNew (heap : Heap) (front : List Chunk) (bytes : List Byte) : Heap × Chain :=
  let (chunk, heap) := Chunk.new heap bytes
  (heap, link front chunk)

/-- The branch at the top of `read_from_fd` and `set_bookmark` that makes room
at the tail. -/
def ensureRoom (heap : Heap) (chain : Chain) : Option (Heap × Chain) :=
  match chain.chunks with
  | [] => some (appendNew heap [] [])
  | _ :: _ => do
    let (_, last) ← chain.splitTail
    if ← last.fullyWritten heap then
      return appendNew heap chain.chunks []
    else
      return (heap, chain)

/-- Deletes a head chunk that is fully read. -/
def popFullyRead (heap : Heap) (chain : Chain) : Option (Heap × Chain) :=
  match chain.chunks with
  | [] => none
  | head :: rest => do
    if ← head.fullyRead heap then
      let heap ← head.delete heap
      return (heap, ⟨rest, if chain.tail = some head.addr then none else chain.tail⟩)
    else
      return (heap, chain)

/-- The chain part of `write`. -/
def write (heap : Heap) (chain : Chain) (bytes : List Byte) : Option (Heap × Chain) :=
  match chain.chunks with
  | [] =>
    if chain.tail = none then some (appendNew heap [] bytes) else none
  | _ :: _ => do
    let (front, last) ← chain.splitTail
    if ← last.fullyWritten heap then
      return appendNew heap chain.chunks bytes
    else
      let (nWrite, heap, last) ← last.write heap bytes
      guard (0 < nWrite)
      if nWrite < bytes.length then
        return appendNew heap (front ++ [last]) (bytes.drop nWrite)
      else
        return (heap, link front last)

/-- The loop of `read`; `n` is the number of bytes still wanted. -/
def readLoop : Nat → Heap → Chain → Nat → Option (List Byte × Heap × Chain)
  | 0, _, _, _ => none
  | fuel + 1, heap, chain, n =>
    match chain.chunks with
    | [] => some ([], heap, chain)
    | head :: rest => do
      let available ← head.contentSize heap
      if 0 < n ∧ 0 < available then
        let (bytes, head) ← head.read heap n
        let (heap, chain) ← popFullyRead heap ⟨head :: rest, chain.tail⟩
        if bytes.length = 0 then
          return ([], heap, chain)
        else
          let (later, result) ← readLoop fuel heap chain (n - bytes.length)
          return (bytes ++ later, result)
      else
        return ([], heap, chain)

/-- The loop of `peek`. -/
def peekLoop (heap : Heap) : List Chunk → Nat → Option (List Byte)
  | [], _ => some []
  | chunk :: rest, n =>
    if 0 < n then do
      let bytes ← chunk.peek heap n
      if bytes.length = 0 then
        return []
      else
        let later ← peekLoop heap rest (n - bytes.length)
        return bytes ++ later
    else
      some []

/-- One round of `read_from_fd`: the kernel's count, what is left of the
incoming bytes and the new chain. -/
def readTailFromFd (heap : Heap) (chain : Chain) (incoming : List Byte)
    (answer : Int) : Option (Int × List Byte × Heap × Chain) := do
  let (heap, chain) ← ensureRoom heap chain
  let (front, last) ← chain.splitTail
  let (r, incoming, heap, last) ← last.readFromFd heap incoming answer
  return (r, incoming, heap, link front last)

/-- The loop of `read_from_fd`, by recursion on the answers of the kernel; a
call without an answer fails. -/
def readFromFdLoop : Heap → Chain → List Byte → List Int →
    Option (Nat × List Int × List Byte × Heap × Chain)
  | heap, chain, incoming, [] => do
    let (r, result) ← readTailFromFd heap chain incoming (-1)
    return (0, [r], result)
  | heap, chain, incoming, answer :: answers => do
    let (r, incoming, heap, chain) ← readTailFromFd heap chain incoming answer
    if r ≤ 0 then
      return (0, [r], incoming, heap, chain)
    else
      let (nBytes, results, result) ← readFromFdLoop heap chain incoming answers
      return (r.toNat + nBytes, r :: results, result)

/-- One round of `set_bookmark`. -/
def setTailBookmark (heap : Heap) (chain : Chain) :
    Option (Cell × Heap × Chain) := do
  let (heap, chain) ← ensureRoom heap chain
  let (front, last) ← chain.splitTail
  let (cell, last) ← last.setBookmark heap
  return (cell, heap, link front last)

/-- The loop of `set_bookmark`. -/
def setBookmarkLoop : Nat → Heap → Chain → Option (List Cell × Heap × Chain)
  | 0, heap, chain => some ([], heap, chain)
  | n + 1, heap, chain => do
    let (cell, heap, chain) ← setTailBookmark heap chain
    let (cells, result) ← setBookmarkLoop n heap chain
    return (cell :: cells, result)

/-- Hangs the chunk behind the one that `tail_` points to. -/
def append (chain : Chain) (chunk : Chunk) : Option Chain :=
  match chain.chunks with
  | [] => some (link [] chunk)
  | _ :: _ => do
    let _ ← chain.splitTail
    return link chain.chunks chunk

/-- The loop of `read_from_marshal` that shares the chunks of the source;
`n` is the number of bytes still to be fetched. -/
def shareLoop : Nat → Heap → Chain → Chain → Nat →
    Option (Heap × Chain × Chain)
  | 0, _, _, _, _ => none
  | fuel + 1, heap, target, source, n =>
    if n = 0 then
      some (heap, target, source)
    else
      match source.chunks with
      | [] => none
      | head :: rest => do
        let (chunk, heap) ← head.sharedCopy heap
        let content ← chunk.contentSize heap
        let chunk :=
          if n < content then
            { chunk with writeIdx := chunk.writeIdx - (content - n) }
          else chunk
        let cnt ← chunk.contentSize heap
        guard (0 < cnt)
        let (discarded, head) ← head.discard heap cnt
        guard (discarded = cnt)
        let target ← target.append chunk
        let (heap, source) ← popFullyRead heap ⟨head :: rest, source.tail⟩
        shareLoop fuel heap target source (n - cnt)

/-- `content_size_slow`. -/
def contentSizeSlow (heap : Heap) (chain : Chain) : Option Nat :=
  if chain.TailIsLast then
    chain.chunks.foldlM (fun sz chunk => do
      let size ← chunk.contentSize heap
      return sz + size) 0
  else
    none

end Chain

namespace Marshal

/-- `Marshal()`. -/
def empty : Marshal where
  chunks := []
  tail := none
  writeCnt := 0
  contentSize := 0

/-- `~Marshal`. -/
def delete (heap : Heap) (m : Marshal) : Option Heap :=
  m.chunks.foldlM (fun heap chunk => chunk.delete heap) heap

/-- `assert(content_size_ == content_size_slow())`. -/
def assertContentSize (heap : Heap) (m : Marshal) : Option Unit := do
  let slow ← Chain.contentSizeSlow heap m.toChain
  guard (m.contentSize = slow)

/-- `empty()`. -/
def isEmpty (heap : Heap) (m : Marshal) : Option Bool := do
  m.assertContentSize heap
  return m.contentSize == 0

/-- `content_size()`. -/
def getContentSize (heap : Heap) (m : Marshal) : Option Nat := do
  m.assertContentSize heap
  return m.contentSize

/-- `assert(empty() || (head_ != nullptr && !head_->fully_read()))`. -/
def assertReadable (heap : Heap) (m : Marshal) : Option Unit := do
  if ← m.isEmpty heap then
    return ()
  else
    match m.chunks with
    | [] => none
    | head :: _ =>
      let done ← head.fullyRead heap
      guard (done = false)

def write (heap : Heap) (m : Marshal) (bytes : List Byte) :
    Option (Nat × Heap × Marshal) := do
  guard m.TailIsLast
  let (heap, chain) ← Chain.write heap m.toChain bytes
  let m := { m with
    toChain := chain
    writeCnt := m.writeCnt + BitVec.ofNat 32 bytes.length
    contentSize := m.contentSize + bytes.length }
  m.assertContentSize heap
  return (bytes.length, heap, m)

def read (heap : Heap) (m : Marshal) (n : Nat) :
    Option (List Byte × Heap × Marshal) := do
  guard m.TailIsLast
  m.assertReadable heap
  let (bytes, heap, chain) ← Chain.readLoop (m.chunks.length + 1) heap m.toChain n
  guard (bytes.length ≤ m.contentSize)
  let m := { m with
    toChain := chain
    contentSize := m.contentSize - bytes.length }
  m.assertContentSize heap
  guard (bytes.length ≤ n)
  guard m.TailIsLast
  m.assertReadable heap
  return (bytes, heap, m)

def peek (heap : Heap) (m : Marshal) (n : Nat) : Option (List Byte) := do
  guard m.TailIsLast
  m.assertReadable heap
  let bytes ← Chain.peekLoop heap m.chunks n
  guard (bytes.length ≤ n)
  guard m.TailIsLast
  m.assertReadable heap
  return bytes

/-- `read_from_fd`: the number of bytes read, the results of the calls of the
kernel and the bytes it still has. -/
def readFromFd (heap : Heap) (m : Marshal) (incoming : List Byte) (answers : List Int) :
    Option (Nat × List Int × List Byte × Heap × Marshal) := do
  m.assertReadable heap
  let (nBytes, results, incoming, heap, chain) ←
    Chain.readFromFdLoop heap m.toChain incoming answers
  let m := { m with
    toChain := chain
    writeCnt := m.writeCnt + BitVec.ofNat 32 nBytes
    contentSize := m.contentSize + nBytes }
  m.assertContentSize heap
  m.assertReadable heap
  return (nBytes, results, incoming, heap, m)

/-- One round of `write_to_fd` on a marshal that is not empty. -/
def writeHeadToFd (heap : Heap) (m : Marshal) (answer : Int) :
    Option (Int × List Byte × Heap × Marshal) :=
  match m.chunks with
  | [] => none
  | head :: rest => do
    let (cnt, sent, head) ← head.writeToFd heap answer
    let (heap, chain) ← Chain.popFullyRead heap ⟨head :: rest, m.tail⟩
    if cnt ≤ 0 then
      return (cnt, sent, heap, { m with toChain := chain })
    else
      guard (cnt.toNat ≤ m.contentSize)
      return (cnt, sent, heap,
        { m with
          toChain := chain
          contentSize := m.contentSize - cnt.toNat })

/-- The loop of `write_to_fd`, by recursion on the answers of the kernel: the
number of bytes, the results of the calls and the bytes it has accepted. -/
def writeToFdLoop : Heap → Marshal → List Int →
    Option (Nat × List Int × List Byte × Heap × Marshal)
  | heap, m, [] => do
    if ← m.isEmpty heap then
      return (0, [], [], heap, m)
    else
      let (cnt, sent, result) ← writeHeadToFd heap m (-1)
      return (0, [cnt], sent, result)
  | heap, m, answer :: answers => do
    if ← m.isEmpty heap then
      return (0, [], [], heap, m)
    else
      let (cnt, sent, heap, m) ← writeHeadToFd heap m answer
      if cnt ≤ 0 then
        return (0, [cnt], sent, heap, m)
      else
        let (nWrite, results, later, result) ← writeToFdLoop heap m answers
        return (cnt.toNat + nWrite, cnt :: results, sent ++ later, result)

def writeToFd (heap : Heap) (m : Marshal) (answers : List Int) :
    Option (Nat × List Int × List Byte × Heap × Marshal) := do
  let (nWrite, results, sent, heap, m) ← writeToFdLoop heap m answers
  m.assertContentSize heap
  return (nWrite, results, sent, heap, m)

/-- `set_bookmark`: the pointers to the reserved bytes. -/
def setBookmark (heap : Heap) (m : Marshal) (n : Nat) :
    Option (List Cell × Heap × Marshal) := do
  guard (m.writeCnt = 0)
  let (cells, heap, chain) ← Chain.setBookmarkLoop n heap m.toChain
  let m := { m with
    toChain := chain
    contentSize := m.contentSize + n }
  m.assertContentSize heap
  return (cells, heap, m)

/-- `write_bookmark`. -/
def writeBookmark : Heap → List Cell → List Byte → Option Heap
  | heap, [], _ => some heap
  | _, _ :: _, [] => none
  | heap, cell :: cells, byte :: bytes => do
    let heap ← heap.poke cell byte
    writeBookmark heap cells bytes

def getAndResetWriteCnt (m : Marshal) : BitVec 32 × Marshal :=
  (m.writeCnt, { m with writeCnt := 0 })

/-- The branch of `read_from_marshal` that copies no data. -/
def shareFrom (heap : Heap) (m source : Marshal) (n : Nat) :
    Option (Heap × Marshal × Marshal) := do
  let (heap, target, rest) ←
    Chain.shareLoop (source.chunks.length + 1) heap m.toChain source.toChain n
  guard (n ≤ source.contentSize)
  return (heap,
    { m with
      toChain := target
      writeCnt := m.writeCnt + BitVec.ofNat 32 n
      contentSize := m.contentSize + n },
    { source with
      toChain := rest
      contentSize := source.contentSize - n })

/-- `read_from_marshal`.  The recursive call of the second branch finds the
tail fully written and takes the first branch. -/
def readFromMarshal (heap : Heap) (m source : Marshal) (n : Nat) :
    Option (Nat × Heap × Marshal × Marshal) := do
  let available ← source.getContentSize heap
  guard (n ≤ available)
  match m.chunks with
  | [] =>
    guard (m.tail = none)
    let (heap, m, source) ← shareFrom heap m source n
    m.assertContentSize heap
    return (n, heap, m, source)
  | _ :: _ =>
    let (_, last) ← m.splitTail
    if ← last.fullyWritten heap then
      let (heap, m, source) ← shareFrom heap m source n
      m.assertContentSize heap
      return (n, heap, m, source)
    else
      let copyN := min (last.size heap - last.writeIdx) n
      let (buf, heap, source) ← source.read heap copyN
      guard (buf.length = copyN)
      let (_, heap, m) ← m.write heap buf
      if 0 < n - copyN then
        let (_, last) ← m.splitTail
        guard ((← last.fullyWritten heap) = true)
        let available ← source.getContentSize heap
        guard (n - copyN ≤ available)
        let (heap, m, source) ← shareFrom heap m source (n - copyN)
        m.assertContentSize heap
        return (n, heap, m, source)
      else
        m.assertContentSize heap
        return (n, heap, m, source)

end Marshal

end SRPC.Marshalling
