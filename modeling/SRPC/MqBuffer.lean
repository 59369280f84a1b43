import SRPC.ByteArea

/-!
# The buffers of the message queue

A `buf_t` is an area with a read and a write index; its content lies between
them, and moves to the front or to a larger area when there is too little space.
-/

namespace SRPC.Mq

open List

inductive Status where
  | success
  | eagain
  | eof
  | connReset
  | epipe
  | other
  deriving DecidableEq, Repr

/-- What the socket answers to a call, with a number of bytes. -/
abbrev Answer := Status × Nat

def szBuf : Nat := 1 * 1024 * 1024

/-- `buf_t`. -/
structure Buf where
  raw : ByteArea
  sz : Nat
  idxRead : Nat
  idxWrite : Nat

namespace Buf

open ByteArea

/-- `buf_create`; what `malloc` returns is taken as zeros. -/
def create : Buf where
  raw := fun _ => 0
  sz := szBuf
  idxRead := 0
  idxWrite := 0

def szContent (buf : Buf) : Nat := buf.idxWrite - buf.idxRead

/-- The bytes between the indices. -/
def content (buf : Buf) : List Byte := load buf.raw buf.idxRead buf.szContent

/-- Moves the content to the front of an area of this size. -/
def realloc (buf : Buf) (sz : Nat) : Option Buf :=
  if buf.szContent < sz then
    some {
      raw := store (fun _ => 0) 0 (load buf.raw buf.idxRead buf.szContent)
      sz := sz
      idxRead := 0
      idxWrite := buf.szContent }
  else none

/-- The loop of `buf_readjust`. -/
def readjustLoop (needed : Nat) : Nat → Buf → Option Buf
  | 0, _ => none
  | fuel + 1, buf =>
    if buf.sz - buf.idxWrite < needed then
      if buf.idxRead < buf.sz / 2 then
        (buf.realloc (buf.sz * 2)).bind (readjustLoop needed fuel)
      else (buf.realloc buf.sz).bind (readjustLoop needed fuel)
    else some buf

/-- `buf_readjust`.  Every turn but the first doubles the size. -/
def readjust (buf : Buf) (needed : Nat) : Option Buf := readjustLoop needed (needed + 2) buf

/-- The difference of two `size_t`. -/
def subSizeT (a b : Nat) : Nat := (a + 2 ^ 64 - b) % 2 ^ 64

/-- `buf_realloc` in the arithmetic of `size_t`. -/
def reallocSizeT (buf : Buf) (sz : Nat) : Option Buf :=
  let szData := subSizeT buf.idxWrite buf.idxRead
  if szData < sz then
    some {
      raw := store (fun _ => 0) 0 (load buf.raw buf.idxRead szData)
      sz := sz
      idxRead := 0
      idxWrite := szData }
  else none

/-- The loop of `buf_readjust` in the arithmetic of `size_t`. -/
def readjustLoopSizeT (needed : Nat) : Nat → Buf → Option Buf
  | 0, _ => none
  | fuel + 1, buf =>
    if subSizeT buf.sz buf.idxWrite < needed then
      if buf.idxRead < buf.sz / 2 then
        (buf.reallocSizeT (buf.sz * 2 % 2 ^ 64)).bind (readjustLoopSizeT needed fuel)
      else (buf.reallocSizeT buf.sz).bind (readjustLoopSizeT needed fuel)
    else some buf

/-- Bytes are copied behind the content; writing past the area is no behaviour
of the program. -/
def append (buf : Buf) (data : List Byte) : Option Buf :=
  if buf.idxWrite + data.length ≤ buf.sz then
    some { buf with
      raw := store buf.raw buf.idxWrite data
      idxWrite := buf.idxWrite + data.length }
  else none

def write (buf : Buf) (data : List Byte) : Option (Nat × Buf) := do
  let buf ← buf.readjust data.length
  let buf ← buf.append data
  return (data.length, buf)

def read (buf : Buf) (n : Nat) : List Byte × Buf :=
  if n ≤ buf.szContent then
    (load buf.raw buf.idxRead n, { buf with idxRead := buf.idxRead + n })
  else (load buf.raw buf.idxRead buf.szContent, { buf with idxRead := buf.idxRead + buf.szContent })

def peek (buf : Buf) (n : Nat) : List Byte :=
  if n ≤ buf.szContent then load buf.raw buf.idxRead n
  else load buf.raw buf.idxRead buf.szContent

/-- `buf_to_sock`, with the bytes that the socket has taken.  The last answer of
the socket is that it would block. -/
def toSock (buf : Buf) : List Answer → Status × List Byte × Buf
  | [] => if buf.szContent = 0 then (.success, [], buf) else (.eagain, [], buf)
  | (status, count) :: answers =>
    if buf.szContent = 0 then (.success, [], buf)
    else
      let n := min count buf.szContent
      let bytes := load buf.raw buf.idxRead n
      let next := { buf with idxRead := buf.idxRead + n }
      if status ≠ .success then (status, bytes, next)
      else
        let result := next.toSock answers
        (result.1, bytes ++ result.2.1, result.2.2)

/-- `buf_from_sock`, with what is left of the bytes that have arrived.  The last
answer of the socket is that it would block. -/
def fromSock (buf : Buf) (wire : List Byte) :
    List Answer → Option (Status × List Byte × Buf)
  | [] => (buf.readjust 1).map fun buf => (.eagain, wire, buf)
  | (status, count) :: answers =>
    match buf.readjust 1 with
    | none => none
    | some buf =>
      let n := min count (buf.sz - buf.idxWrite)
      match buf.append (wire.take n) with
      | none => none
      | some buf =>
        if status ≠ .success then some (status, wire.drop n, buf)
        else buf.fromSock (wire.drop n) answers

section Contents

variable {buf next : Buf} {data : List Byte}

/-- The indices are in order, and there is more than one byte of space. -/
structure Sound (buf : Buf) : Prop where
  ordered : buf.idxRead ≤ buf.idxWrite
  inside : buf.idxWrite ≤ buf.sz
  large : 2 ≤ buf.sz

@[simp]
theorem length_content : buf.content.length = buf.szContent := length_load _

theorem create_sound : create.Sound where
  ordered := Nat.le_refl 0
  inside := Nat.zero_le _
  large := by decide

/-- The content was moved to the front of a buffer that is at most twice as
large. -/
structure Moved (buf next : Buf) : Prop where
  sound : next.Sound
  content : next.content = buf.content
  idxRead : next.idxRead = 0
  idxWrite : next.idxWrite = buf.szContent
  kept : buf.sz ≤ next.sz
  atMost : next.sz ≤ buf.sz * 2
  doubled : buf.idxRead = 0 → next.sz = buf.sz * 2

theorem realloc_moved {sz : Nat} (large : 2 ≤ sz) (enough : buf.szContent < sz)
    (kept : buf.sz ≤ sz) (atMost : sz ≤ buf.sz * 2) (doubled : buf.idxRead = 0 → sz = buf.sz * 2) :
    ∃ next, buf.realloc sz = some next ∧ Moved buf next := by
  refine ⟨_, if_pos enough, ⟨Nat.zero_le _, enough.le, large⟩, ?_, rfl, rfl, kept, atMost, doubled⟩
  have same := @load_store (fun _ => 0) 0 buf.content
  rw [length_content] at same
  exact same

theorem subSizeT_eq {a b : Nat} (ordered : b ≤ a) (small : a < 2 ^ 64) : subSizeT a b = a - b := by
  rw [subSizeT]
  omega

theorem Sound.reallocSizeT_eq (sound : buf.Sound) (small : buf.sz < 2 ^ 64) (sz : Nat) :
    buf.reallocSizeT sz = buf.realloc sz := by
  have inside := sound.inside
  rw [reallocSizeT, subSizeT_eq sound.ordered (by omega)]
  rfl

variable {needed : Nat}

/-- One turn of the loop, in either arithmetic.  A buffer is only compacted if
something has been read, so that it becomes smaller than its area. -/
theorem Sound.turn (sound : buf.Sound) (short : buf.sz - buf.idxWrite < needed) :
    ∃ next, Moved buf next ∧
      (∀ fuel, readjustLoop needed (fuel + 1) buf = readjustLoop needed fuel next) ∧
      (buf.sz * 2 < 2 ^ 64 → ∀ fuel,
        readjustLoopSizeT needed (fuel + 1) buf = readjustLoopSizeT needed fuel next) := by
  have large := sound.large
  have inside := sound.inside
  have ordered := sound.ordered
  have shortSizeT : buf.sz * 2 < 2 ^ 64 → subSizeT buf.sz buf.idxWrite < needed := by
    intro small
    rwa [subSizeT_eq inside (by omega)]
  by_cases half : buf.idxRead < buf.sz / 2
  · obtain ⟨next, nextEq, moved⟩ := realloc_moved (show 2 ≤ buf.sz * 2 by omega)
      (show buf.szContent < buf.sz * 2 by rw [szContent]; omega) (by omega)
      (Nat.le_refl _) fun _ => rfl
    refine ⟨next, moved, fun fuel => ?_, fun small fuel => ?_⟩
    · rw [readjustLoop, if_pos short, if_pos half, nextEq]
      rfl
    · rw [readjustLoopSizeT, if_pos (shortSizeT small), if_pos half, Nat.mod_eq_of_lt small,
        sound.reallocSizeT_eq (by omega), nextEq]
      rfl
  · obtain ⟨next, nextEq, moved⟩ := realloc_moved large
      (show buf.szContent < buf.sz by rw [szContent]; omega) (Nat.le_refl _) (by omega) (by omega)
    refine ⟨next, moved, fun fuel => ?_, fun small fuel => ?_⟩
    · rw [readjustLoop, if_pos short, if_neg half, nextEq]
      rfl
    · rw [readjustLoopSizeT, if_pos (shortSizeT small), if_neg half,
        sound.reallocSizeT_eq (by omega), nextEq]
      rfl

/-- The loop ends with enough space, the content stays, and the area has not
become smaller. -/
def Readjusts (needed : Nat) (buf : Buf) (result : Option Buf) : Prop :=
  ∃ next, result = some next ∧ next.Sound ∧ next.content = buf.content ∧
    needed ≤ next.sz - next.idxWrite ∧ buf.sz ≤ next.sz

theorem Moved.readjusts (moved : Moved buf next) {result : Option Buf}
    (readjusts : Readjusts needed next result) : Readjusts needed buf result := by
  obtain ⟨last, lastEq, sound, same, space, kept⟩ := readjusts
  exact ⟨last, lastEq, sound, same.trans moved.content, space, moved.kept.trans kept⟩

variable {fuel : Nat}

theorem Sound.readjustLoop_front (sound : buf.Sound) (front : buf.idxRead = 0)
    (fueled : needed < (buf.sz - buf.idxWrite) + fuel) :
    Readjusts needed buf (readjustLoop needed (fuel + 1) buf) := by
  induction fuel generalizing buf with
  | zero =>
    rw [readjustLoop, if_neg (by omega)]
    exact ⟨buf, rfl, sound, rfl, by omega, Nat.le_refl _⟩
  | succ fuel ih =>
    by_cases short : buf.sz - buf.idxWrite < needed
    · obtain ⟨next, moved, turnEq, -⟩ := sound.turn short
      have doubled := moved.doubled front
      have start := moved.idxWrite
      have large := sound.large
      have inside := sound.inside
      rw [szContent, front] at start
      rw [turnEq]
      exact moved.readjusts (ih moved.sound moved.idxRead (by omega))
    · rw [readjustLoop, if_neg short]
      exact ⟨buf, rfl, sound, rfl, by omega, Nat.le_refl _⟩

theorem Sound.readjusts (sound : buf.Sound) (needed : Nat) :
    Readjusts needed buf (buf.readjust needed) := by
  rw [Buf.readjust]
  by_cases short : buf.sz - buf.idxWrite < needed
  · -- Whatever the first turn does, the content is at the front behind it.
    obtain ⟨next, moved, turnEq, -⟩ := sound.turn short
    have ordered := sound.ordered
    have inside := sound.inside
    have large := sound.large
    have kept := moved.kept
    have start := moved.idxWrite
    have doubled := moved.doubled
    rw [szContent] at start
    rw [turnEq]
    exact moved.readjusts (moved.sound.readjustLoop_front moved.idxRead (by omega))
  · rw [readjustLoop, if_neg short]
    exact ⟨buf, rfl, sound, rfl, by omega, Nat.le_refl _⟩

theorem Sound.readjust (sound : buf.Sound) (needed : Nat) :
    ∃ next, buf.readjust needed = some next ∧ next.Sound ∧
      next.content = buf.content ∧ needed ≤ next.sz - next.idxWrite := by
  obtain ⟨next, nextEq, nextSound, same, space, -⟩ := sound.readjusts needed
  exact ⟨next, nextEq, nextSound, same, space⟩

theorem readjustLoop_mono {more : Nat} (done : readjustLoop needed fuel buf = some next)
    (enough : fuel ≤ more) : readjustLoop needed more buf = some next := by
  induction fuel generalizing buf more with
  | zero => cases done
  | succ fuel ih =>
    obtain ⟨rest, rfl⟩ : ∃ rest, more = rest + 1 := ⟨more - 1, by omega⟩
    have less : fuel ≤ rest := by omega
    rw [readjustLoop] at done ⊢
    split at done
    · rename_i short
      rw [if_pos short]
      split at done
      · rename_i half
        obtain ⟨middle, middleEq, done⟩ := Option.bind_eq_some_iff.mp done
        rw [if_pos half, middleEq]
        exact ih done less
      · rename_i half
        obtain ⟨middle, middleEq, done⟩ := Option.bind_eq_some_iff.mp done
        rw [if_neg half, middleEq]
        exact ih done less
    · rename_i long
      rw [if_neg long]
      exact done

/-- While a buffer is too small its size is below what is needed and written, so
that doubling does not overflow. -/
theorem Sound.readjustLoopSizeT_eq (sound : buf.Sound) (few : needed + buf.idxWrite < 2 ^ 63)
    (small : buf.sz < 2 ^ 64) (fuel : Nat) :
    readjustLoopSizeT needed fuel buf = readjustLoop needed fuel buf := by
  induction fuel generalizing buf with
  | zero => rfl
  | succ fuel ih =>
    have inside := sound.inside
    have ordered := sound.ordered
    by_cases short : buf.sz - buf.idxWrite < needed
    · obtain ⟨next, moved, turnEq, turnEqSizeT⟩ := sound.turn short
      have start := moved.idxWrite
      rw [szContent] at start
      rw [turnEq, turnEqSizeT (by omega)]
      exact ih moved.sound (by omega) (by have := moved.atMost; omega)
    · rw [readjustLoop, readjustLoopSizeT, subSizeT_eq inside small, if_neg short, if_neg short]

/-- With the indices in order, at least two bytes and a request that does not
overflow, `buf_readjust` ends without a failed assertion: there is room for the
request, the area has not shrunk and the unread bytes are the same. -/
theorem readjust_ends_with_room (buf : Buf) (needed : Nat) (ordered : buf.idxRead ≤ buf.idxWrite)
    (inside : buf.idxWrite ≤ buf.sz) (large : 2 ≤ buf.sz) (small : needed < 2 ^ 62 - buf.sz) :
    ∃ next, (∀ fuel, needed + 2 ≤ fuel → readjustLoopSizeT needed fuel buf = some next) ∧
      next.idxWrite ≤ next.sz ∧ needed ≤ next.sz - next.idxWrite ∧ buf.sz ≤ next.sz ∧
      next.content = buf.content := by
  have sound : buf.Sound := ⟨ordered, inside, large⟩
  obtain ⟨next, nextEq, nextSound, same, space, kept⟩ := sound.readjusts needed
  refine ⟨next, fun fuel enough => ?_, nextSound.inside, space, kept, same⟩
  rw [sound.readjustLoopSizeT_eq (by omega) (by omega)]
  exact readjustLoop_mono nextEq enough

/-- Half of the content was read, and the request is larger than the buffer. -/
theorem readjust_ends_with_room_compacted :
    ∃ next, (∀ fuel, 5 ≤ fuel →
        readjustLoopSizeT 3 fuel ⟨fun address => BitVec.ofNat 8 address, 2, 1, 2⟩ = some next) ∧
      next.idxWrite ≤ next.sz ∧ 3 ≤ next.sz - next.idxWrite ∧ 2 ≤ next.sz ∧
      next.content = [1] :=
  readjust_ends_with_room ⟨fun address => BitVec.ofNat 8 address, 2, 1, 2⟩ 3
    (by decide) (by decide) (by decide) (by decide)

theorem Sound.append (sound : buf.Sound) (space : data.length ≤ buf.sz - buf.idxWrite) :
    ∃ next, buf.append data = some next ∧ next.Sound ∧
      next.content = buf.content ++ data := by
  have inside := sound.inside
  have ordered := sound.ordered
  refine ⟨_, if_pos (by omega),
    ⟨Nat.le_add_right_of_le ordered, by dsimp only; omega, sound.large⟩, ?_⟩
  have size : buf.idxWrite + data.length - buf.idxRead = buf.szContent + data.length := by
    rw [szContent]
    omega
  have behind : buf.idxRead + buf.szContent = buf.idxWrite := by
    rw [szContent]
    omega
  rw [content, szContent]
  dsimp only
  rw [size, load_add, behind, load_store]
  congr 1
  refine load_congr fun address _ below => store_of_outside (.inl ?_)
  omega

theorem Sound.write (sound : buf.Sound) (data : List Byte) :
    ∃ next, buf.write data = some (data.length, next) ∧ next.Sound ∧
      next.content = buf.content ++ data := by
  obtain ⟨middle, readjusted, middleSound, same, space⟩ := sound.readjust data.length
  obtain ⟨next, appended, nextSound, nextContent⟩ := middleSound.append space
  refine ⟨next, ?_, nextSound, by rw [nextContent, same]⟩
  simp [Buf.write, readjusted, appended]

theorem Sound.advance (sound : buf.Sound) {n : Nat} (enough : n ≤ buf.szContent) :
    { buf with idxRead := buf.idxRead + n }.Sound ∧
      load buf.raw buf.idxRead n = buf.content.take n ∧
      { buf with idxRead := buf.idxRead + n }.content = buf.content.drop n := by
  have ordered := sound.ordered
  refine ⟨⟨?_, sound.inside, sound.large⟩, ?_, ?_⟩
  · rw [szContent] at enough
    dsimp only
    omega
  · rw [content, take_load, Nat.min_eq_left enough]
  · rw [content, content, drop_load, szContent, szContent]
    dsimp only
    rw [Nat.sub_sub]

theorem Sound.read (sound : buf.Sound) (n : Nat) :
    (buf.read n).1 = buf.content.take n ∧ (buf.read n).2.Sound ∧
      (buf.read n).2.content = buf.content.drop n := by
  rw [Buf.read]
  split
  · rename_i enough
    obtain ⟨nextSound, bytes, rest⟩ := sound.advance enough
    exact ⟨bytes, nextSound, rest⟩
  · rename_i short
    obtain ⟨nextSound, bytes, rest⟩ := sound.advance (Nat.le_refl buf.szContent)
    have all : buf.content.length ≤ n := by
      rw [length_content]
      omega
    have whole : buf.content.length ≤ buf.szContent := length_content.le
    rw [take_of_length_le whole] at bytes
    rw [drop_of_length_le whole] at rest
    rw [take_of_length_le all, drop_of_length_le all]
    exact ⟨bytes, nextSound, rest⟩

theorem peek_eq (buf : Buf) (n : Nat) : buf.peek n = buf.content.take n := by
  rw [peek, content, take_load]
  split
  · rename_i enough
    rw [Nat.min_eq_left enough]
  · rename_i short
    rw [Nat.min_eq_right (by omega)]

/-- The socket gets the first bytes of the content. -/
theorem Sound.toSock (sound : buf.Sound) (answers : List Answer) :
    (buf.toSock answers).2.2.Sound ∧
      (buf.toSock answers).2.1 ++ (buf.toSock answers).2.2.content = buf.content := by
  induction answers generalizing buf with
  | nil =>
    rw [Buf.toSock]
    split
    · exact ⟨sound, rfl⟩
    · exact ⟨sound, rfl⟩
  | cons answer answers ih =>
    obtain ⟨status, count⟩ := answer
    obtain ⟨nextSound, bytes, rest⟩ := sound.advance (Nat.min_le_right count buf.szContent)
    rw [Buf.toSock]
    split
    · exact ⟨sound, rfl⟩
    · dsimp only
      split
      · refine ⟨nextSound, ?_⟩
        rw [bytes, rest, take_append_drop]
      · obtain ⟨lastSound, lastContent⟩ := ih nextSound
        refine ⟨lastSound, ?_⟩
        rw [append_assoc, lastContent, bytes, rest, take_append_drop]

theorem toSock_status (buf : Buf) (answers : List Answer) :
    (buf.toSock answers).1 = .success ∨ (buf.toSock answers).1 = .eagain ∨
      ∃ answer ∈ answers, answer.1 = (buf.toSock answers).1 := by
  induction answers generalizing buf with
  | nil =>
    rw [toSock]
    split
    · exact .inl rfl
    · exact .inr (.inl rfl)
  | cons answer answers ih =>
    obtain ⟨status, count⟩ := answer
    rw [toSock]
    split
    · exact .inl rfl
    · dsimp only
      split
      · exact .inr (.inr ⟨_, mem_cons_self, rfl⟩)
      · refine (ih _).imp_right (Or.imp_right ?_)
        rintro ⟨answer, member, same⟩
        exact ⟨answer, mem_cons_of_mem _ member, same⟩

/-- The content grows by what the socket gives. -/
theorem Sound.fromSock (sound : buf.Sound) (wire : List Byte) (answers : List Answer) :
    ∃ status left next, buf.fromSock wire answers = some (status, left, next) ∧
      next.Sound ∧ next.content ++ left = buf.content ++ wire ∧
      (status = .eagain ∨ ∃ answer ∈ answers, answer.1 = status) := by
  induction answers generalizing buf wire with
  | nil =>
    obtain ⟨next, readjusted, nextSound, same, _⟩ := sound.readjust 1
    refine ⟨.eagain, wire, next, ?_, nextSound, by rw [same], .inl rfl⟩
    rw [Buf.fromSock, readjusted]
    rfl
  | cons answer answers ih =>
    obtain ⟨status, count⟩ := answer
    obtain ⟨middle, readjusted, middleSound, same, _⟩ := sound.readjust 1
    have space : (wire.take (min count (middle.sz - middle.idxWrite))).length ≤
        middle.sz - middle.idxWrite := by
      rw [length_take]
      omega
    obtain ⟨next, appended, nextSound, nextContent⟩ := middleSound.append space
    have received : next.content ++ wire.drop (min count (middle.sz - middle.idxWrite)) =
          buf.content ++ wire := by
      rw [nextContent, same, append_assoc, take_append_drop]
    rw [Buf.fromSock, readjusted]
    dsimp only
    rw [appended]
    dsimp only
    split
    · exact ⟨_, _, _, rfl, nextSound, received, .inr ⟨_, mem_cons_self, rfl⟩⟩
    · obtain ⟨last, left, lastBuf, lastEq, lastSound, lastContent, answered⟩ :=
        ih nextSound (wire.drop (min count (middle.sz - middle.idxWrite)))
      refine ⟨last, left, lastBuf, lastEq, lastSound,
        lastContent.trans received, answered.imp_right ?_⟩
      rintro ⟨answer, member, answerEq⟩
      exact ⟨answer, mem_cons_of_mem _ member, answerEq⟩

end Contents

end Buf

end SRPC.Mq
