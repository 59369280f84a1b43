import Mathlib.Data.Int.Order.Basic
import Mathlib.Logic.Function.Basic
import SRPC.OrderedSets
import SRPC.TransitionRuns

/-!
# Remote logging

`RLog::log_v` numbers the messages of a source and sends them without waiting.
`RLogServiceImpl::log` gets them in any order, keeps them in a buffer by their
numbers and writes what is due.
-/

namespace SRPC.RemoteLog

/-- A message with its number, an `i64`; no source sends `2 ^ 63` messages. -/
structure LogPiece (Message : Type) where
  msgId : Int
  level : BitVec 32
  message : Message
  deriving DecidableEq

variable (Source Message : Type)

/-- `RLogServiceImpl`.  A source that is not in `done_` is entered with 0. -/
structure RLogServiceImpl where
  done : Source → Int
  buffer : Source → List (LogPiece Message)

abbrev Entry := Source × LogPiece Message

/-- Sources, the messages on their way, the service and the log it writes.  The
messages that have arrived are kept as a record. -/
structure System where
  msgCounter : Source → Int
  inFlight : List (Entry Source Message)
  service : RLogServiceImpl Source Message
  lines : List (Entry Source Message)
  arrived : List (Entry Source Message)

/-- A source logs a message, or the message at this place of those on their way
arrives. -/
inductive Input
  | logV (source : Source) (level : BitVec 32) (message : Message)
  | arrive (index : Nat)

variable {Source Message}

/-- The loop of `log`: the pieces it writes, `done` and the rest of the
buffer. -/
def writeDue (done : Int) :
    List (LogPiece Message) →
      List (LogPiece Message) × Int × List (LogPiece Message)
  | [] => ([], done, [])
  | piece :: buffer =>
    if piece.msgId ≤ done + 1 then
      let (written, done, buffer) := writeDue (max done piece.msgId) buffer
      (piece :: written, done, buffer)
    else
      ([], done, piece :: buffer)

/-- What `log` does to the buffer of a source. -/
def receive (done : Int) (buffer : List (LogPiece Message)) (piece : LogPiece Message) :
    List (LogPiece Message) × Int × List (LogPiece Message) :=
  writeDue done (OrderedSets.insert LogPiece.msgId piece buffer)

variable [DecidableEq Source]

/-- Buffers the message and writes what is due. -/
def RLogServiceImpl.log (service : RLogServiceImpl Source Message)
    (source : Source) (piece : LogPiece Message) :
    List (Entry Source Message) × RLogServiceImpl Source Message :=
  let (written, done, buffer) := receive (service.done source) (service.buffer source) piece
  (written.map fun piece => (source, piece),
    { done := Function.update service.done source done
      buffer := Function.update service.buffer source buffer })

namespace System

def start : System Source Message where
  msgCounter _ := 0
  inFlight := []
  service := ⟨fun _ => 0, fun _ => []⟩
  lines := []
  arrived := []

/-- `log_v` sends the next number of the counter with the message. -/
def logV (system : System Source Message) (source : Source) (level : BitVec 32)
    (message : Message) : System Source Message :=
  { system with
    msgCounter := Function.update system.msgCounter source (system.msgCounter source + 1)
    inFlight := system.inFlight ++ [(source, ⟨system.msgCounter source, level, message⟩)] }

/-- A message arrives and leaves those on their way. -/
def deliver (system : System Source Message) (index : Nat)
    (entry : Entry Source Message) : System Source Message :=
  let (written, service) := system.service.log entry.1 entry.2
  { system with
    inFlight := system.inFlight.eraseIdx index
    service := service
    lines := system.lines ++ written
    arrived := system.arrived ++ [entry] }

def step (system : System Source Message) :
    Input Source Message →
      Option (List (Entry Source Message) × System Source Message)
  | .logV source level message => some ([], system.logV source level message)
  | .arrive index =>
    match system.inFlight[index]? with
    | none => some ([], system)
    | some entry =>
      some ((system.service.log entry.1 entry.2).1, system.deliver index entry)

end System

/-- The messages of one source. -/
def ofSource (source : Source) (entries : List (Entry Source Message)) : List (LogPiece Message) :=
  (entries.filter fun entry => entry.1 = source).map Prod.snd

/-- The lines of a source are written by increasing numbers; every message that
arrived is written or held back, once, and held back exactly if a smaller number
has not arrived. -/
structure System.InOrder (system : System Source Message) (source : Source) : Prop where
  increasing : OrderedSets.Increasing LogPiece.msgId (ofSource source system.lines)
  once : (ofSource source system.lines ++ system.service.buffer source).Perm
    (ofSource source system.arrived)
  held : ∀ piece ∈ ofSource source system.arrived, piece ∈ system.service.buffer source ↔
      ∃ id, 0 ≤ id ∧ id < piece.msgId ∧ id ∉ (ofSource source system.arrived).map LogPiece.msgId

/-- The second message of a source arrives after its first. -/
def System.FirstBeforeSecond (system : System Source Message) :
    Input Source Message → Prop
  | .logV _ _ _ => True
  | .arrive index => ∀ entry, system.inFlight[index]? = some entry →
      entry.2.msgId = 1 → 0 ∈ (ofSource entry.1 system.arrived).map LogPiece.msgId

end SRPC.RemoteLog
