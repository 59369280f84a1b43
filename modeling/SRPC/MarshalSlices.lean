import SRPC.IndexedLists
import SRPC.MarshalOwnership
import SRPC.TransitionRuns

/-!
# Slices of a marshal

`in_` of a connection is filled from a socket, and its packets are sliced off by
`read_from_marshal` into marshals that share its blocks and are only read.
-/

namespace SRPC.Marshalling

open TransitionRuns List

/-- The bytes of the input and of each marshal cut from it. -/
structure Queues where
  pending : List Byte
  slices : List (List Byte)
  deriving DecidableEq

/-- What is asked for and what it gives. -/
inductive SliceEvent
  | received (wire : List Byte) (answers : List Int) (n : Nat) (results : List Int)
  | peeked (n : Nat) (bytes : List Byte)
  | read (n : Nat) (bytes : List Byte)
  | sliced (n count : Nat)
  | slicePeeked (index n : Nat) (bytes : List Byte)
  | sliceRead (index n : Nat) (bytes : List Byte)
  | sliceDeleted (index : Nat)
  deriving DecidableEq

/-- The queues after an event, if they can show it. -/
def Queues.after (queues : Queues) : SliceEvent → Option Queues
  | .received wire answers n results => do
    guard (n = (results.map Int.toNat).sum ∧
      KernelCalls (fun _ => True) results answers wire.length)
    return { queues with pending := queues.pending ++ wire.take n }
  | .peeked n bytes => do
    guard (bytes = queues.pending.take n)
    return queues
  | .read n bytes => do
    guard (bytes = queues.pending.take n)
    return { queues with pending := queues.pending.drop n }
  | .sliced n count => do
    guard (count = n)
    return ⟨queues.pending.drop n, queues.slices ++ [queues.pending.take n]⟩
  | .slicePeeked index n bytes => do
    let slice ← queues.slices[index]?
    guard (bytes = slice.take n)
    return queues
  | .sliceRead index n bytes => do
    let slice ← queues.slices[index]?
    guard (bytes = slice.take n)
    return { queues with slices := queues.slices.set index (slice.drop n) }
  | .sliceDeleted index =>
    some { queues with slices := queues.slices.set index [] }

/-- `in_` and the slices that were taken off it.  A slice that was deleted is
left as an empty one. -/
structure Slicing where
  heap : Heap
  in_ : Marshal
  slices : List Marshal

/-- A call for `in_`, or for one of the slices. -/
inductive SliceInput
  | readFromFd (wire : List Byte) (answers : List Int)
  | peek (n : Nat)
  | read (n : Nat)
  | slice (n : Nat)
  | peekSlice (index n : Nat)
  | readSlice (index n : Nat)
  | deleteSlice (index : Nat)
  deriving DecidableEq

namespace Slicing

def new (heap : Heap) : Slicing := ⟨heap, Marshal.empty, []⟩

/-- The queues that the marshals hold. -/
def queues (slicing : Slicing) : Queues :=
  ⟨slicing.in_.content slicing.heap, slicing.slices.map fun slice => slice.content slicing.heap⟩

/-- A call for the slice at this place. -/
def useSlice (slicing : Slicing) (index : Nat)
    (use : Heap → Marshal → Option (SliceEvent × Heap × Marshal)) :
    Option (List SliceEvent × Slicing) :=
  match slicing.slices[index]? with
  | none => some ([], slicing)
  | some slice => do
    let (event, heap, slice) ← use slicing.heap slice
    return ([event], { slicing with
      heap := heap
      slices := slicing.slices.set index slice })

def step (slicing : Slicing) : SliceInput → Option (List SliceEvent × Slicing)
  | .readFromFd wire answers => do
    let (n, results, _, heap, in_) ← slicing.in_.readFromFd slicing.heap wire answers
    return ([.received wire answers n results], { slicing with heap := heap, in_ := in_ })
  | .peek n => do
    let bytes ← slicing.in_.peek slicing.heap n
    return ([.peeked n bytes], slicing)
  | .read n => do
    let (bytes, heap, in_) ← slicing.in_.read slicing.heap n
    return ([.read n bytes], { slicing with heap := heap, in_ := in_ })
  | .slice n => do
    let (count, heap, slice, in_) ← Marshal.empty.readFromMarshal slicing.heap slicing.in_ n
    return ([.sliced n count], ⟨heap, in_, slicing.slices ++ [slice]⟩)
  | .peekSlice index n => slicing.useSlice index fun heap slice => do
    let bytes ← slice.peek heap n
    return (.slicePeeked index n bytes, heap, slice)
  | .readSlice index n => slicing.useSlice index fun heap slice => do
    let (bytes, heap, slice) ← slice.read heap n
    return (.sliceRead index n bytes, heap, slice)
  | .deleteSlice index => slicing.useSlice index fun heap slice => do
    let heap ← slice.delete heap
    return (.sliceDeleted index, heap, Marshal.empty)

/-- No more is sliced off than there is, as `read_from_marshal` asserts. -/
def Allows (slicing : Slicing) : SliceInput → Prop
  | .slice n => n ≤ slicing.in_.contentSize
  | _ => True

instance decidableAllows (slicing : Slicing) :
    ∀ input, Decidable (slicing.Allows input)
  | .slice _ => inferInstanceAs (Decidable (_ ≤ _))
  | .readFromFd _ _ | .peek _ | .read _ | .peekSlice _ _ | .readSlice _ _
  | .deleteSlice _ => inferInstanceAs (Decidable True)

def readers (slicing : Slicing) : List Chain := slicing.slices.map fun slice => slice.toChain

/-- Only `in_` is written to, and never where a slice has its bytes. -/
structure Intact (slicing : Slicing) : Prop where
  sound : Sound slicing.heap slicing.in_
  slices : ∀ slice ∈ slicing.slices, Sound slicing.heap slice
  owned : Owned slicing.heap slicing.in_.toChain slicing.readers

theorem intact_new (heap : Heap) : Intact (new heap) :=
  ⟨sound_empty heap, by simp [new], Owned.alone (WellFormed.empty heap)⟩

variable {slicing : Slicing} {heap : Heap}

theorem sound_of_owned {heap' : Heap} {owner : Chain} {others : List Marshal}
    (owned : Owned heap' owner (others.map fun other => other.toChain))
    (sound : ∀ other ∈ others, Sound heap other) :
    ∀ other ∈ others, Sound heap' other := fun other member =>
  ⟨owned.othersOk _ (mem_map_of_mem member), (sound other member).counted⟩

variable {in_ : Marshal}

theorem Intact.act (intact : slicing.Intact) (sound : Sound heap in_)
    (frame : Frame slicing.heap slicing.in_.toChain heap in_.toChain) :
    Intact { slicing with heap := heap, in_ := in_ } ∧
      queues { slicing with heap := heap, in_ := in_ } =
        ⟨in_.content heap, slicing.queues.slices⟩ := by
  obtain ⟨owned, same⟩ := intact.owned.act frame sound.wellFormed
  refine ⟨⟨sound, sound_of_owned owned intact.slices, owned⟩, ?_⟩
  refine congrArg (Queues.mk _) (map_congr_left fun slice member => ?_)
  exact same _ (mem_map_of_mem member)

variable {index : Nat}

theorem Intact.replace (intact : slicing.Intact) {slice slice' : Marshal} {count : Nat}
    (found : slicing.slices[index]? = some slice)
    (shrinks : Shrinks slicing.heap slice.toChain count heap slice'.toChain)
    (sound : Sound heap slice') :
    Intact { slicing with
        heap := heap
        slices := slicing.slices.set index slice' } ∧
      queues { slicing with
        heap := heap
        slices := slicing.slices.set index slice' } =
          ⟨slicing.queues.pending, slicing.queues.slices.set index (slice'.content heap)⟩ := by
  have owned := intact.owned
  rw [readers, map_split _ found] at owned
  have owned' := owned.consume shrinks
  rw [← map_set_split (fun slice : Marshal => slice.toChain) found slice']
    at owned'
  have same (chain : Chain) : chain.content heap = chain.content slicing.heap :=
    content_congr fun cell _ => shrinks.bytes cell
  refine ⟨⟨⟨owned'.ownerOk, intact.sound.counted⟩, fun other member => ?_, owned'⟩, ?_⟩
  · obtain old | rfl := mem_or_eq_of_mem_set member
    · exact ⟨owned'.othersOk _ (mem_map_of_mem member), (intact.slices other old).counted⟩
    · exact sound
  · simp only [queues, map_set, same]

theorem Intact.slice (intact : slicing.Intact) {slice : Marshal} {n : Nat} (sound : Sound heap in_)
    (soundSlice : Sound heap slice)
    (shares : Shares slicing.heap Marshal.empty.toChain slicing.in_.toChain n
      heap slice.toChain in_.toChain) :
    Intact ⟨heap, in_, slicing.slices ++ [slice]⟩ ∧
      queues ⟨heap, in_, slicing.slices ++ [slice]⟩ =
        ⟨slicing.queues.pending.drop n,
          slicing.queues.slices ++ [slicing.queues.pending.take n]⟩ := by
  have owned := intact.owned.share shares
  have same (chain : Chain) : chain.content heap = chain.content slicing.heap :=
    content_congr fun cell _ => shares.bytes cell
  have readersEq : readers ⟨heap, in_, slicing.slices ++ [slice]⟩ =
      slicing.readers ++ [slice.toChain] := by
    simp [readers]
  refine ⟨⟨sound, fun other member => ?_, readersEq ▸ owned⟩, ?_⟩
  · obtain old | isNew := mem_append.mp member
    · exact ⟨owned.othersOk _ (mem_append_left _ (mem_map_of_mem old)),
        (intact.slices other old).counted⟩
    · rw [mem_singleton.mp isNew]
      exact soundSlice
  · have content : slice.content heap = (slicing.in_.content slicing.heap).take n := by
      rw [shares.targetContent]
      rfl
    rw [same] at content
    simp only [queues, shares.sourceContent, map_append, map_cons, map_nil, content, same]

theorem getElem?_queues_slices {slice : Marshal} (found : slicing.slices[index]? = some slice) :
    slicing.queues.slices[index]? = some (slice.content slicing.heap) := by
  simp [queues, found]

theorem Intact.useSlice (intact : slicing.Intact)
    {use : Heap → Marshal → Option (SliceEvent × Heap × Marshal)}
    (used : ∀ slice, slicing.slices[index]? = some slice →
      ∃ event heap slice' count,
        use slicing.heap slice = some (event, heap, slice') ∧
        Shrinks slicing.heap slice.toChain count heap slice'.toChain ∧
        Sound heap slice' ∧
        slicing.queues.after event = some ⟨slicing.queues.pending,
          slicing.queues.slices.set index (slice'.content heap)⟩) :
    ∃ events next, slicing.useSlice index use = some (events, next) ∧
      next.Intact ∧
      events.foldlM Queues.after slicing.queues = some next.queues := by
  rw [Slicing.useSlice]
  cases found : slicing.slices[index]? with
  | none => exact ⟨[], slicing, rfl, intact, rfl⟩
  | some slice =>
    obtain ⟨event, heap, slice', count, useEq, shrinks, sound, afterEq⟩ := used slice found
    obtain ⟨intact', queuesEq⟩ := intact.replace found shrinks sound
    refine ⟨[event], _, ?_, intact', ?_⟩
    · simp only [useEq, some_bind]
      rfl
    · rw [queuesEq, foldlM_cons, afterEq]
      rfl

/-- Every call shows what the queues show. -/
theorem Intact.step (intact : slicing.Intact) {input : SliceInput}
    (allowed : slicing.Allows input) :
    ∃ events next, slicing.step input = some (events, next) ∧ next.Intact ∧
      events.foldlM Queues.after slicing.queues = some next.queues := by
  cases input with
  | readFromFd wire answers =>
    obtain ⟨n, results, heap, in_, added, readEq, total, calls, sound, grows, delivered, -⟩ :=
      intact.sound.readFromFd_eq wire answers
    obtain ⟨intact', queuesEq⟩ := intact.act sound grows.frame
    refine ⟨[.received wire answers n results], _, ?_, intact', ?_⟩
    · rw [Slicing.step, readEq]
      rfl
    · rw [queuesEq, grows.content intact.sound.wellFormed, delivered]
      rw [foldlM_cons, Queues.after, guard_bind ⟨total, calls⟩]
      rfl
  | peek n =>
    refine ⟨[.peeked n ((slicing.in_.content slicing.heap).take n)], slicing, ?_, intact, ?_⟩
    · rw [Slicing.step, intact.sound.peek_eq]
      rfl
    · simp [Queues.after, queues]
  | read n =>
    obtain ⟨heap, in_, readEq, sound, shrinks, -⟩ := intact.sound.read_eq n
    obtain ⟨intact', queuesEq⟩ := intact.act sound shrinks.frame
    refine ⟨[.read n ((slicing.in_.content slicing.heap).take n)], _, ?_, intact', ?_⟩
    · rw [Slicing.step, readEq]
      rfl
    · rw [queuesEq, shrinks.content]
      simp [Queues.after, queues]
  | slice n =>
    obtain ⟨heap, slice, in_, sharedEq, soundSlice, sound, shares, -⟩ :=
      intact.sound.readFromMarshal_eq allowed
    obtain ⟨intact', queuesEq⟩ := intact.slice sound soundSlice shares
    refine ⟨[.sliced n n], _, ?_, intact', ?_⟩
    · rw [Slicing.step, sharedEq]
      rfl
    · rw [queuesEq]
      simp [Queues.after]
  | peekSlice index n =>
    rw [Slicing.step]
    refine intact.useSlice fun slice found => ?_
    have sound := intact.slices slice (mem_of_getElem? found)
    refine ⟨.slicePeeked index n ((slice.content slicing.heap).take n), _,
      slice, 0, ?_, Shrinks.refl sound.wellFormed, sound, ?_⟩
    · simp only [sound.peek_eq, some_bind]
      rfl
    · rw [set_of_getElem? (getElem?_queues_slices found)]
      simp [Queues.after, getElem?_queues_slices found]
  | readSlice index n =>
    rw [Slicing.step]
    refine intact.useSlice fun slice found => ?_
    have sound := intact.slices slice (mem_of_getElem? found)
    obtain ⟨heap, slice', readEq, sound', shrinks, -⟩ := sound.read_eq n
    refine ⟨.sliceRead index n ((slice.content slicing.heap).take n), heap,
      slice', n, ?_, shrinks, sound', ?_⟩
    · simp only [readEq, some_bind]
      rfl
    · rw [shrinks.content]
      simp [Queues.after, getElem?_queues_slices found]
  | deleteSlice index =>
    rw [Slicing.step]
    refine intact.useSlice fun slice found => ?_
    have sound := intact.slices slice (mem_of_getElem? found)
    obtain ⟨heap, tail, deleted, shrinks⟩ := delete_shrinks sound.wellFormed
    obtain rfl : tail = none := shrinks.wellFormed.tail
    refine ⟨.sliceDeleted index, heap, Marshal.empty, _, ?_, shrinks, sound_empty heap, rfl⟩
    simp only [Marshal.delete, deleted, some_bind]
    rfl

/-- Whatever is done to `in_` and to the slices, each of them delivers its own
bytes. -/
theorem slices_stay_intact (heap : Heap) (inputs : List SliceInput)
    (admissible : Admissible step Allows (new heap) inputs) :
    ∃ events slicing, run step (new heap) inputs = some (events, slicing) ∧
      events.foldlM Queues.after ⟨[], []⟩ = some slicing.queues := by
  have preserved : ∀ events slicing input,
      (Intact slicing ∧
        events.foldlM Queues.after ⟨[], []⟩ = some slicing.queues) →
      Allows slicing input →
        ∃ more next, step slicing input = some (more, next) ∧ Intact next ∧
          (events ++ more).foldlM Queues.after ⟨[], []⟩ = some next.queues := by
    rintro events slicing input ⟨intact, shown⟩ allowed
    obtain ⟨more, next, stepEq, intact', more'⟩ := intact.step allowed
    refine ⟨more, next, stepEq, intact', ?_⟩
    rw [foldlM_append, shown]
    exact more'
  obtain ⟨events, slicing, runEq, -, shown⟩ := run_of_admissible
    preserved [] ⟨intact_new heap, rfl⟩ inputs admissible
  exact ⟨events, slicing, runEq, shown⟩

def twoSlices : List SliceInput :=
  [.readFromFd [1, 2, 3, 4, 5] [5], .slice 2, .readFromFd [6, 7] [2], .slice 3,
    .readSlice 0 1, .peek 2, .readSlice 1 3, .read 1, .deleteSlice 0, .peekSlice 1 1]

theorem slices_stay_intact_twoSlices :
    ∃ events slicing, run step (new blankHeap) twoSlices = some (events, slicing) ∧
      events.foldlM Queues.after ⟨[], []⟩ = some slicing.queues :=
  slices_stay_intact blankHeap twoSlices (by decide +kernel)

end Slicing

end SRPC.Marshalling
