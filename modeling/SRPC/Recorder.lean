import Mathlib.Algebra.Group.Nat.Defs
import SRPC.MarshalOperations
import SRPC.TransitionRuns

/-!
# The recorder

`submit` queues a payload with a callback, `flush_buf` writes the queued
payloads to the file, and `invoke_cb` runs the callbacks of what was written.
-/

namespace SRPC.Recording

open LittleEndian Marshalling TransitionRuns

/-- `io_req_t`. -/
structure IoReq (Callback : Type) where
  first : List Byte
  second : Option Callback
  deriving DecidableEq

/-- `Recorder`, with what was written to `fd_`. -/
structure Recorder (Callback : Type) where
  flushReqs : List (IoReq Callback)
  callbackReqs : List (IoReq Callback)
  file : List Byte
  deriving DecidableEq

variable {Callback : Type}

/-- An `int` that gets a size. -/
def intOf (size : Nat) : Int := (BitVec.ofNat 32 size).toInt

/-- The bytes of the requests, one after the other. -/
def payloads (reqs : List (IoReq Callback)) : List Byte := reqs.flatMap IoReq.first

def callbacks (reqs : List (IoReq Callback)) : List Callback := reqs.filterMap IoReq.second

namespace Recorder

/-- `submit` of a string. -/
def submit (recorder : Recorder Callback) (buf : List Byte)
    (cb : Option Callback) : Recorder Callback :=
  { recorder with flushReqs := recorder.flushReqs ++ [⟨buf, cb⟩] }

/-- `submit` of a marshal.  The string is resized to the size of the content,
which fills it with zeros, and these are written to the marshal. -/
def submitMarshal (recorder : Recorder Callback) (heap : Heap) (m : Marshal)
    (cb : Option Callback) : Option (Heap × Marshal × Recorder Callback) := do
  let size ← m.getContentSize heap
  let s : List Byte := List.replicate size 0
  let (_, heap, m) ← m.write heap s
  return (heap, m, recorder.submit s cb)

/-- The loop of `flush_buf`, in which every `write` is complete.  Its result and
both counters are of type `int`, whose overflow is undefined. -/
def writeReqs (file : List Byte) : Nat → Nat → List (IoReq Callback) →
    Option (List Byte)
  | _, _, [] => some file
  | cntFlush, szFlush, req :: reqs =>
    if intOf req.first.length = req.first.length ∧ cntFlush + 1 < 2 ^ 31 ∧
        szFlush + req.first.length < 2 ^ 31 then
      writeReqs (file ++ req.first) (cntFlush + 1) (szFlush + req.first.length) reqs
    else
      none

/-- `flush_buf`, which counts the requests in an `int`. -/
def flushBuf (recorder : Recorder Callback) : Option (Recorder Callback) :=
  let sz := intOf recorder.flushReqs.length
  let reqs := recorder.flushReqs
  let kept := if 0 < sz then [] else reqs
  if sz = 0 then
    some { recorder with flushReqs := kept }
  else
    (writeReqs recorder.file 0 0 reqs).map fun file =>
      { flushReqs := kept
        callbackReqs := recorder.callbackReqs ++ reqs
        file := file }

/-- `invoke_cb`: the callbacks that it runs.  With a negative `sz` it would
delete the list that `callback_reqs_` still points to. -/
def invokeCb (recorder : Recorder Callback) : Option (List Callback × Recorder Callback) :=
  let sz := intOf recorder.callbackReqs.length
  if sz = 0 then some ([], recorder)
  else if 0 < sz then
    some (callbacks recorder.callbackReqs, { recorder with callbackReqs := [] })
  else none

end Recorder

structure SoundMarshal where
  heap : Heap
  m : Marshal
  sound : Sound heap m

/-- `content` is what `read` would return. -/
def SoundMarshal.content (marshal : SoundMarshal) : List Byte := marshal.m.content marshal.heap

/-- The recorder and what it was asked for: the requests in order, how many of
them were to be flushed and to be called back, and the callbacks that have run. -/
structure System (Callback : Type) where
  recorder : Recorder Callback
  submitted : List (IoReq Callback)
  flushed : Nat
  called : Nat
  ran : List Callback

inductive Input (Callback : Type)
  | submit (buf : List Byte) (cb : Option Callback)
  | submitMarshal (marshal : SoundMarshal) (cb : Option Callback)
  | flushBuf
  | invokeCb

namespace System

def start : System Callback := ⟨⟨[], [], []⟩, [], 0, 0, []⟩

def step (system : System Callback) :
    Input Callback → Option (List Callback × System Callback)
  | .submit buf cb => some ([], { system with
      recorder := system.recorder.submit buf cb
      submitted := system.submitted ++ [⟨buf, cb⟩] })
  | .submitMarshal marshal cb =>
    (system.recorder.submitMarshal marshal.heap marshal.m cb).map fun result =>
      ([], { system with
        recorder := result.2.2
        submitted := system.submitted ++ [⟨marshal.content, cb⟩] })
  | .flushBuf => system.recorder.flushBuf.map fun recorder =>
    ([], { system with
      recorder := recorder
      flushed := system.submitted.length })
  | .invokeCb => system.recorder.invokeCb.map fun result =>
    (result.1, { system with
      recorder := result.2
      called := system.flushed
      ran := system.ran ++ result.1 })

/-- The file holds the payloads that were flushed, the callbacks of an initial
part of these have run, and the rest is still queued. -/
structure Faithful (system : System Callback) : Prop where
  file : system.recorder.file = payloads (system.submitted.take system.flushed)
  ran : system.ran = callbacks (system.submitted.take system.called)
  written : system.called ≤ system.flushed
  known : system.flushed ≤ system.submitted.length
  waiting : system.recorder.callbackReqs = (system.submitted.take system.flushed).drop system.called
  queued : system.recorder.flushReqs = system.submitted.drop system.flushed

/-- The content of a marshal is all zeros, and the marshal is not an empty one
with room in its last chunk; batches are of less than `2 ^ 31` requests and
bytes, and so is the number of requests that wait for their callbacks. -/
def Allows (system : System Callback) : Input Callback → Prop
  | .submit _ _ => True
  | .submitMarshal marshal _ => (∀ byte ∈ marshal.content, byte = 0) ∧
      (marshal.content = [] → marshal.m.chunks = [])
  | .flushBuf => system.recorder.flushReqs.length < 2 ^ 31 ∧
      (payloads system.recorder.flushReqs).length < 2 ^ 31
  | .invokeCb => intOf system.recorder.callbackReqs.length ≤ 0 → system.recorder.callbackReqs = []

end System

end SRPC.Recording
