import SRPC.MqBuffer
import SRPC.TransitionRuns

/-!
# Messages of the message queue

A message is sent with its size and number.  The other side takes it from its
buffer as soon as it has arrived in full, and calls the function that is
registered for the number, in its thread pool if the number asks for it.
-/

namespace SRPC.Mq

open LittleEndian

def szMsgid : Nat := 2

def szSzmsg : Nat := 4

def newThreadCall : BitVec 16 := 0x8000

structure Message where
  msgid : BitVec 16
  data : List Byte
  deriving DecidableEq, Repr

inductive PollMode where
  | pollIn
  | pollInOut
  deriving DecidableEq, Repr

/-- `poll_job_t`: the events that are asked for, and whether it is in a poll
set. -/
structure PollJob where
  reqevents : PollMode
  ps : Bool
  deriving DecidableEq, Repr

namespace PollJob

/-- `poll_mgr_update_job`. -/
def update (job : PollJob) (mode : PollMode) : PollJob :=
  if job.reqevents = mode then job
  else if ¬job.ps then job
  else { job with reqevents := mode }

/-- `poll_mgr_remove_job`. -/
def remove (job : PollJob) : PollJob :=
  if ¬job.ps then job
  else { job with ps := false }

end PollJob

/-- The side that sends. -/
inductive Endpoint where
  | client
  | sconn
  deriving DecidableEq, Repr

/-- One direction of a connection: what its sender and its receiver hold, and
the bytes on the way. -/
structure Link where
  sender : Endpoint
  /-- The functions that the receiver has registered. -/
  ht : BitVec 16 → Bool
  bufSend : Buf
  sendJob : PollJob
  wire : List Byte
  bufRecv : Buf
  recvJob : PollJob
  /-- The calls that wait in the thread pool. -/
  tp : List Message

inductive Event where
  | sent (message : Message)
  | dispatched (message : Message)
  | called (message : Message)
  deriving DecidableEq, Repr

namespace Link

def new (sender : Endpoint) (ht : BitVec 16 → Bool) : Link where
  sender := sender
  ht := ht
  bufSend := .create
  sendJob := ⟨.pollIn, true⟩
  wire := []
  bufRecv := .create
  recvJob := ⟨.pollIn, true⟩
  tp := []

/-- The writes of `write_trigger_poll`.  The size is the lower half of a
`size_t`. -/
def writeMessage (buf : Buf) (message : Message) : Option Buf := do
  let buf ← buf.readjust (message.data.length + szSzmsg + szMsgid)
  let (n, buf) ← buf.write (toBytes szSzmsg (BitVec.ofNat 64 message.data.length))
  guard (n = szSzmsg)
  guard (message.msgid ≠ 0)
  let (n, buf) ← buf.write (toBytes szMsgid message.msgid)
  guard (n = szMsgid)
  let (n, buf) ← buf.write message.data
  guard (n = message.data.length)
  return buf

/-- Puts a message into the buffer and asks for write events. -/
def writeTriggerPoll (link : Link) (message : Message) : Option (List Event × Link) :=
  (writeMessage link.bufSend message).map fun buf => ([.sent message],
    { link with bufSend := buf, sendJob := link.sendJob.update .pollInOut })

def handleClientWrite (link : Link) (answers : List Answer) : Option Link :=
  let (status, bytes, buf) := link.bufSend.toSock answers
  if status = .success ∨ status = .eagain then
    some { link with
      bufSend := buf
      wire := link.wire ++ bytes
      sendJob := if buf.szContent = 0 then link.sendJob.update .pollIn
        else link.sendJob }
  else none

def handleSconnWrite (link : Link) (answers : List Answer) : Option Link :=
  let (status, bytes, buf) := link.bufSend.toSock answers
  if status = .success ∨ status = .eagain then
    some { link with
      bufSend := buf
      wire := link.wire ++ bytes
      sendJob := link.sendJob.update (if 0 < buf.szContent then .pollInOut else .pollIn) }
  else if status = .connReset ∨ status = .epipe then
    some { link with
      bufSend := buf
      wire := link.wire ++ bytes
      sendJob := link.sendJob.remove }
  else none

def handleWrite (link : Link) (answers : List Answer) : Option Link :=
  match link.sender with
  | .client => link.handleClientWrite answers
  | .sconn => link.handleSconnWrite answers

/-- Calls the function that is registered for the number. -/
def msgCall (link : Link) (message : Message) : Option (List Event × Link) :=
  if link.ht message.msgid then some ([.called message], link) else none

/-- The reads of a message that has arrived in full, each of which is to give
what it has asked for. -/
def takeChecked (buf : Buf) : Option (Message × Buf) :=
  let size := buf.read szSzmsg
  let szMsg := ofBytes 32 size.1
  let msgid := size.2.read szMsgid
  let data := msgid.2.read szMsg.toNat
  if size.1.length = szSzmsg ∧ msgid.1.length = szMsgid ∧
      data.1.length = szMsg.toNat then
    some (⟨ofBytes 16 msgid.1, data.1⟩, data.2)
  else none

/-- Takes a message, as the client does. -/
def takeUnchecked (buf : Buf) : Message × Buf :=
  let size := buf.read szSzmsg
  let szMsg := ofBytes 32 size.1
  let msgid := size.2.read szMsgid
  let data := msgid.2.read szMsg.toNat
  (⟨ofBytes 16 msgid.1, data.1⟩, data.2)

/-- A server connection calls the function for a message or hands the call to the
thread pool. -/
def dispatch (link : Link) (message : Message) : Option (List Event × Link) :=
  if message.msgid &&& newThreadCall ≠ 0 then
    some ([.dispatched message], { link with tp := link.tp ++ [message] })
  else (link.msgCall message).map fun result =>
    (.dispatched message :: result.1, result.2)

/-- The loop of `handle_sconn_read`. -/
def sconnLoop : Nat → Link → Option (List Event × Link)
  | 0, _ => none
  | fuel + 1, link =>
    if szSzmsg < link.bufRecv.szContent then
      let peeked := link.bufRecv.peek szSzmsg
      let szMsg := ofBytes 32 peeked
      if peeked.length = szSzmsg ∧ 0 < szMsg.toNat then
        if szMsg.toNat + szSzmsg + szMsgid ≤ link.bufRecv.szContent then
          match takeChecked link.bufRecv with
          | none => none
          | some (message, buf) =>
            match { link with bufRecv := buf }.dispatch message with
            | none => none
            | some (events, link) => (sconnLoop fuel link).map fun result =>
              (events ++ result.1, result.2)
        else some ([], link)
      else none
    else some ([], link)

/-- The loop of `handle_client_read`. -/
def clientLoop : Nat → Link → Option (List Event × Link)
  | 0, _ => none
  | fuel + 1, link =>
    if szSzmsg < link.bufRecv.szContent then
      let szMsg := ofBytes 32 (link.bufRecv.peek szSzmsg)
      if szMsg.toNat + szSzmsg + szMsgid ≤ link.bufRecv.szContent then
        let taken := takeUnchecked link.bufRecv
        if link.ht taken.1.msgid then
          (clientLoop fuel { link with bufRecv := taken.2 }).map fun result =>
            ([.dispatched taken.1, .called taken.1] ++ result.1, result.2)
        else none
      else some ([], link)
    else some ([], link)

/-- What both handlers do about the status of `buf_from_sock`. -/
def afterRead (link : Link) : Status → Option Link
  | .success => some link
  | .eof => some { link with recvJob := link.recvJob.remove }
  | .connReset => some { link with recvJob := link.recvJob.remove }
  | .eagain => some link
  | .epipe => none
  | .other => none

def readLoop (link : Link) : Option (List Event × Link) :=
  match link.sender with
  | .client => sconnLoop (link.bufRecv.szContent + 1) link
  | .sconn => clientLoop (link.bufRecv.szContent + 1) link

/-- `handle_sconn_read` or `handle_client_read`. -/
def handleRead (link : Link) (answers : List Answer) :
    Option (List Event × Link) := do
  let (status, wire, buf) ← link.bufRecv.fromSock link.wire answers
  let (events, link) ← { link with wire := wire, bufRecv := buf }.readLoop
  let link ← link.afterRead status
  return (events, link)

/-- The thread pool runs a message that waits there. -/
def poolCall (link : Link) (index : Nat) : Option (List Event × Link) :=
  match link.tp[index]? with
  | none => some ([], link)
  | some message => { link with tp := link.tp.eraseIdx index }.msgCall message

end Link

inductive Input where
  | send (message : Message)
  | handleWrite (answers : List Answer)
  | handleRead (answers : List Answer)
  | poolCall (index : Nat)
  deriving DecidableEq, Repr

namespace Link

def step (link : Link) : Input → Option (List Event × Link)
  | .send message => link.writeTriggerPoll message
  | .handleWrite answers => (link.handleWrite answers).map fun link => ([], link)
  | .handleRead answers => link.handleRead answers
  | .poolCall index => link.poolCall index

/-- The errors of a socket that the sender does not give up on. -/
def toleratedOnWrite : Endpoint → List Status
  | .client => [.success, .eagain]
  | .sconn => [.success, .eagain, .connReset, .epipe]

/-- The answers on which no assertion fails. -/
def toleratedOnRead : List Status := [.success, .eagain, .eof, .connReset]

/-- A message that may be sent: it has a number, for which the receiver has a
function, and a size that is not zero and fits in four bytes. -/
structure Sendable (ht : BitVec 16 → Bool) (message : Message) : Prop where
  msgid : message.msgid ≠ 0
  registered : ht message.msgid
  nonempty : 0 < message.data.length
  small : message.data.length < 2 ^ 32

instance (ht : BitVec 16 → Bool) (message : Message) : Decidable (Sendable ht message) :=
  decidable_of_iff (message.msgid ≠ 0 ∧ ht message.msgid ∧
      0 < message.data.length ∧ message.data.length < 2 ^ 32)
    ⟨fun fields => ⟨fields.1, fields.2.1, fields.2.2.1, fields.2.2.2⟩,
      fun sendable => ⟨sendable.msgid, sendable.registered, sendable.nonempty, sendable.small⟩⟩

def Allows (link : Link) : Input → Prop
  | .send message => Sendable link.ht message
  | .handleWrite answers =>
    ∀ answer ∈ answers, answer.1 ∈ toleratedOnWrite link.sender
  | .handleRead answers => ∀ answer ∈ answers, answer.1 ∈ toleratedOnRead
  | .poolCall _ => True

instance decidableAllows (link : Link) : ∀ input, Decidable (link.Allows input)
  | .send message => inferInstanceAs (Decidable (Sendable link.ht message))
  | .handleWrite answers => inferInstanceAs
      (Decidable (∀ answer ∈ answers, answer.1 ∈ toleratedOnWrite link.sender))
  | .handleRead answers => inferInstanceAs
      (Decidable (∀ answer ∈ answers, answer.1 ∈ toleratedOnRead))
  | .poolCall _ => .isTrue trivial

end Link

/-- The bytes of a message on the wire. -/
def Message.encode (message : Message) : List Byte :=
  toBytes szSzmsg (BitVec.ofNat 32 message.data.length) ++
    toBytes szMsgid message.msgid ++ message.data

def sentOf (log : List Event) : List Message :=
  log.filterMap fun
    | .sent message => some message
    | _ => none

def dispatchedOf (log : List Event) : List Message :=
  log.filterMap fun
    | .dispatched message => some message
    | _ => none

def calledOf (log : List Event) : List Message :=
  log.filterMap fun
    | .called message => some message
    | _ => none

end SRPC.Mq
