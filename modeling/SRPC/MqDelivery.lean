import SRPC.IndexedLists
import SRPC.MessageStreams
import SRPC.MqMessages

/-! # The messages of a connection arrive -/

namespace SRPC.Mq

open LittleEndian TransitionRuns MessageStreams List

section Encoding

variable {message : Message}

theorem toBytes_size (size : Nat) :
    toBytes szSzmsg (BitVec.ofNat 64 size) = toBytes szSzmsg (BitVec.ofNat 32 size) := by
  apply ext_getElem
  · simp
  · intro index _ inside
    rw [length_toBytes, szSzmsg] at inside
    apply BitVec.eq_of_getLsbD_eq
    intro bit bitLt
    simp only [toBytes, getElem_map, getElem_range, getLsbD_byteAt, BitVec.getLsbD_ofNat]
    grind

theorem length_encode (message : Message) : message.encode.length = message.data.length + 6 := by
  simp [Message.encode, szSzmsg, szMsgid]
  omega

theorem encode_ne_nil (message : Message) : message.encode ≠ [] :=
  ne_nil_of_length_pos (by rw [length_encode]; omega)

theorem size_encode (small : message.data.length < 2 ^ 32) (more : List Byte) :
    (ofBytes 32 ((message.encode ++ more).take szSzmsg)).toNat = message.data.length := by
  rw [Message.encode, append_assoc, append_assoc,
    take_left' (length_toBytes _ _), ofBytes_toBytes _ (by decide),
    BitVec.toNat_ofNat, Nat.mod_eq_of_lt small]

end Encoding

namespace Link

section Buffers

variable {buf : Buf} {message : Message} {more : List Byte}

theorem writeMessage_sound (sound : buf.Sound) (msgid : message.msgid ≠ 0) :
    ∃ next, writeMessage buf message = some next ∧ next.Sound ∧
      next.content = buf.content ++ message.encode := by
  obtain ⟨first, firstEq, firstSound, firstContent, _⟩ :=
    sound.readjust (message.data.length + szSzmsg + szMsgid)
  obtain ⟨second, secondEq, secondSound, secondContent⟩ := firstSound.write
    (toBytes szSzmsg (BitVec.ofNat 64 message.data.length))
  obtain ⟨third, thirdEq, thirdSound, thirdContent⟩ :=
    secondSound.write (toBytes szMsgid message.msgid)
  obtain ⟨last, lastEq, lastSound, lastContent⟩ := thirdSound.write message.data
  refine ⟨last, ?_, lastSound, ?_⟩
  · have asserted : (guard (message.msgid ≠ 0) : Option Unit) = some () := if_pos msgid
    rw [writeMessage, firstEq]
    simp only [Option.bind_eq_bind, Option.bind_some, secondEq, length_toBytes,
      asserted, thirdEq, lastEq]
    rfl
  · rw [lastContent, thirdContent, secondContent, firstContent, toBytes_size,
      Message.encode, append_assoc, append_assoc, append_assoc]

theorem take_message (sound : buf.Sound) (small : message.data.length < 2 ^ 32)
    (content : buf.content = message.encode ++ more) :
    ∃ next, takeUnchecked buf = (message, next) ∧
      takeChecked buf = some (message, next) ∧ next.Sound ∧
      next.content = more := by
  have size := sound.read szSzmsg
  rw [content, Message.encode, append_assoc, append_assoc,
    take_left' (length_toBytes _ _), drop_left' (length_toBytes _ _)] at size
  have msgid := size.2.1.read szMsgid
  rw [size.2.2, take_left' (length_toBytes _ _), drop_left' (length_toBytes _ _)] at msgid
  have data := msgid.2.1.read message.data.length
  rw [msgid.2.2, take_left, drop_left] at data
  have szMsg : (ofBytes 32 (buf.read szSzmsg).1).toNat = message.data.length := by
    rw [size.1, ofBytes_toBytes _ (by decide), BitVec.toNat_ofNat, Nat.mod_eq_of_lt small]
  have number : ofBytes 16 ((buf.read szSzmsg).2.read szMsgid).1 = message.msgid := by
    rw [msgid.1]
    exact ofBytes_toBytes _ (by decide)
  refine ⟨_, ?_, ?_, data.2.1, data.2.2⟩
  · rw [takeUnchecked]
    rw [szMsg, number, data.1]
  · rw [takeChecked]
    rw [szMsg, number, data.1, if_pos]
    refine ⟨?_, ?_, rfl⟩
    · rw [size.1, length_toBytes]
    · rw [msgid.1, length_toBytes]

theorem fragment_size {items : List Message} {bytes : List Byte}
    (fragment : Fragment Message.encode items bytes)
    (sendable : ∀ message ∈ items, 0 < message.data.length ∧ message.data.length < 2 ^ 32)
    (header : szSzmsg < bytes.length) :
    0 < (ofBytes 32 (bytes.take szSzmsg)).toNat ∧
      bytes.length < (ofBytes 32 (bytes.take szSzmsg)).toNat + szSzmsg + szMsgid := by
  obtain ⟨_, rfl⟩ | ⟨message, rest, missing, rfl, encodeEq, ne⟩ := fragment
  · cases header
  · have positive := length_pos_iff.mpr ne
    obtain ⟨nonempty, small⟩ := sendable message mem_cons_self
    have length := congrArg List.length encodeEq
    rw [length_encode, length_append] at length
    have first : bytes.take szSzmsg = (message.encode ++ []).take szSzmsg := by
      rw [append_nil, encodeEq, take_append_of_le_length header.le]
    rw [first, size_encode small]
    refine ⟨nonempty, ?_⟩
    rw [szSzmsg, szMsgid]
    omega

end Buffers

section Loops

variable {link : Link} {messages : List Message}

def sconnEvents (message : Message) : List Event :=
  if message.msgid &&& newThreadCall ≠ 0 then [.dispatched message]
  else [.dispatched message, .called message]

def clientEvents (message : Message) : List Event := [.dispatched message, .called message]

/-- The messages that are handed to the thread pool. -/
def pooled (messages : List Message) : List Message :=
  messages.filter fun message => message.msgid &&& newThreadCall ≠ 0

/-- The link with these messages taken and these bytes left. -/
structure Holds (link : Link) (tp : List Message → List Message) (next : Link)
    (bytes : List Byte) (taken : List Message) : Prop where
  sound : next.bufRecv.Sound
  content : next.bufRecv.content = bytes
  rest : next = { link with bufRecv := next.bufRecv, tp := link.tp ++ tp taken }

section First

variable {tp : List Message → List Message} {state : Link} {message : Message}
  {more bytes : List Byte} {taken rest : List Message}

theorem Holds.first (holds : Holds link tp state (message.encode ++ more) taken)
    (sendable : Sendable link.ht message) :
    state.bufRecv.szContent = message.data.length + 6 + more.length ∧
      (state.bufRecv.peek szSzmsg).length = szSzmsg ∧
      (ofBytes 32 (state.bufRecv.peek szSzmsg)).toNat = message.data.length ∧
      state.ht message.msgid := by
  have length := congrArg List.length holds.content
  rw [Buf.length_content, length_append, length_encode] at length
  refine ⟨length, ?_, ?_, ?_⟩
  · rw [Buf.peek_eq, length_take, Buf.length_content, length, szSzmsg]
    omega
  · rw [Buf.peek_eq, holds.content]
    exact size_encode sendable.small more
  · rw [holds.rest]
    exact sendable.registered

theorem Holds.waits (holds : Holds link tp state bytes taken)
    (fragment : Fragment Message.encode rest bytes)
    (ready : ∀ message ∈ rest, Sendable link.ht message)
    (header : szSzmsg < state.bufRecv.szContent) :
    (state.bufRecv.peek szSzmsg).length = szSzmsg ∧
      0 < (ofBytes 32 (state.bufRecv.peek szSzmsg)).toNat ∧
      state.bufRecv.szContent <
        (ofBytes 32 (state.bufRecv.peek szSzmsg)).toNat + szSzmsg + szMsgid := by
  rw [← Buf.length_content, holds.content] at header ⊢
  rw [Buf.peek_eq, holds.content, length_take]
  exact ⟨Nat.min_eq_left header.le, fragment_size fragment
    (fun message member => ⟨(ready message member).nonempty, (ready message member).small⟩) header⟩

end First

theorem dispatch_eq {message : Message} (registered : link.ht message.msgid) :
    link.dispatch message = some (sconnEvents message,
      { link with tp := link.tp ++ pooled [message] }) := by
  rw [dispatch, sconnEvents, pooled]
  split
  · rename_i asks
    rw [filter_cons_of_pos (by simpa using asks), filter_nil]
  · rename_i asks
    rw [filter_cons_of_neg (by simpa using asks), filter_nil,
      append_nil, msgCall, if_pos registered]
    rfl

variable {later : List Byte}

theorem sconnLoop_takes (ready : ∀ message ∈ messages, Sendable link.ht message)
    (sound : link.bufRecv.Sound)
    (stream : link.bufRecv.content ++ later = messages.flatMap Message.encode) :
    ∃ complete rest left last, messages = complete ++ rest ∧
      sconnLoop (link.bufRecv.szContent + 1) link = some (complete.flatMap sconnEvents, last) ∧
      Holds link pooled last left complete ∧
      left ++ later = rest.flatMap Message.encode ∧
      Fragment Message.encode rest left := by
  refine loop_takes (fun message _ => encode_ne_nil message) ?_ ?_ (nil_append messages).symm
    (⟨sound, rfl, by simp [pooled]⟩ : Holds link pooled link _ []) stream
    (by rw [Buf.length_content]; exact Nat.lt_succ_self _)
  · intro state taken message rest more fuel split holds
    have sendable := ready message (by simp [split])
    have nonempty := sendable.nonempty
    obtain ⟨next, _, takeEq, nextSound, nextContent⟩ :=
      take_message holds.sound sendable.small holds.content
    obtain ⟨length, peeked, size, registered⟩ := holds.first sendable
    refine ⟨{ state with bufRecv := next, tp := state.tp ++ pooled [message] },
      ⟨nextSound, nextContent, ?_⟩, ?_⟩
    · rw [holds.rest]
      simp [pooled]
    · rw [sconnLoop, if_pos (by rw [length, szSzmsg]; omega)]
      dsimp only
      rw [size, if_pos ⟨peeked, nonempty⟩, if_pos (by rw [length, szSzmsg, szMsgid]; omega), takeEq]
      dsimp only
      rw [dispatch_eq (show { state with bufRecv := next }.ht message.msgid from
        registered)]
  · intro state taken rest bytes fuel split holds fragment
    rw [sconnLoop]
    split
    · rename_i header
      obtain ⟨peeked, nonempty, short⟩ := holds.waits fragment
        (fun message member => ready message (by simp [split, member])) header
      dsimp only
      rw [if_pos ⟨peeked, nonempty⟩, if_neg (by omega)]
    · rfl

theorem clientLoop_takes (ready : ∀ message ∈ messages, Sendable link.ht message)
    (sound : link.bufRecv.Sound)
    (stream : link.bufRecv.content ++ later = messages.flatMap Message.encode) :
    ∃ complete rest left last, messages = complete ++ rest ∧
      clientLoop (link.bufRecv.szContent + 1) link = some (complete.flatMap clientEvents, last) ∧
      Holds link (fun _ => []) last left complete ∧
      left ++ later = rest.flatMap Message.encode ∧
      Fragment Message.encode rest left := by
  refine loop_takes (fun message _ => encode_ne_nil message) ?_ ?_ (nil_append messages).symm
    (⟨sound, rfl, by simp⟩ : Holds link (fun _ => []) link _ []) stream
    (by rw [Buf.length_content]; exact Nat.lt_succ_self _)
  · intro state taken message rest more fuel split holds
    have sendable := ready message (by simp [split])
    obtain ⟨next, takeEq, _, nextSound, nextContent⟩ :=
      take_message holds.sound sendable.small holds.content
    obtain ⟨length, _, size, registered⟩ := holds.first sendable
    refine ⟨{ state with bufRecv := next }, ⟨nextSound, nextContent, ?_⟩, ?_⟩
    · rw [holds.rest]
    · rw [clientLoop, if_pos (by rw [length, szSzmsg]; omega)]
      dsimp only
      rw [size, if_pos (by rw [length, szSzmsg, szMsgid]; omega), takeEq, if_pos registered]
      rfl
  · intro state taken rest bytes fuel split holds fragment
    rw [clientLoop]
    split
    · rename_i header
      obtain ⟨_, _, short⟩ := holds.waits fragment
        (fun message member => ready message (by simp [split, member])) header
      dsimp only
      rw [if_neg (by omega)]
    · rfl

end Loops

section Runs

variable {log : List Event} {link : Link}

@[simp]
theorem sentOf_append (first second : List Event) :
    sentOf (first ++ second) = sentOf first ++ sentOf second := filterMap_append

@[simp]
theorem dispatchedOf_append (first second : List Event) :
    dispatchedOf (first ++ second) = dispatchedOf first ++ dispatchedOf second := filterMap_append

@[simp]
theorem calledOf_append (first second : List Event) :
    calledOf (first ++ second) = calledOf first ++ calledOf second := filterMap_append

variable {events : Message → List Event}

theorem sentOf_flatMap (none : ∀ message, sentOf (events message) = []) (messages : List Message) :
    sentOf (messages.flatMap events) = [] := by
  rw [sentOf, filterMap_flatMap, flatMap_eq_nil_iff]
  exact fun message _ => none message

theorem dispatchedOf_flatMap (one : ∀ message, dispatchedOf (events message) = [message])
    (messages : List Message) : dispatchedOf (messages.flatMap events) = messages := by
  rw [dispatchedOf, filterMap_flatMap]
  exact (congrArg messages.flatMap (funext one)).trans (flatMap_singleton' messages)

theorem calledOf_clientEvents (messages : List Message) :
    calledOf (messages.flatMap clientEvents) = messages := by
  rw [calledOf, filterMap_flatMap]
  exact flatMap_singleton' messages

theorem calledOf_sconnEvents (messages : List Message) :
    (calledOf (messages.flatMap sconnEvents) ++ pooled messages).Perm messages := by
  induction messages with
  | nil => exact .refl _
  | cons message messages ih =>
    rw [flatMap_cons, calledOf_append, sconnEvents, pooled]
    split
    · rename_i asks
      rw [filter_cons_of_pos (by simpa using asks)]
      exact perm_middle.trans (.cons message ih)
    · rename_i asks
      rw [filter_cons_of_neg (by simpa using asks)]
      exact .cons message ih

/-- A read loop takes the messages that have arrived in full. -/
structure Taken (link : Link) (messages : List Message) (later : List Byte)
    (outputs : List Event) (complete rest tp : List Message) (last : Link) : Prop where
  split : messages = complete ++ rest
  sound : last.bufRecv.Sound
  stream : last.bufRecv.content ++ later = rest.flatMap Message.encode
  fragment : Fragment Message.encode rest last.bufRecv.content
  same : last = { link with bufRecv := last.bufRecv, tp := link.tp ++ tp }
  sent : sentOf outputs = []
  dispatched : dispatchedOf outputs = complete
  called : (calledOf outputs ++ tp).Perm complete

theorem readLoop_takes {messages : List Message} {later : List Byte}
    (ready : ∀ message ∈ messages, Sendable link.ht message) (sound : link.bufRecv.Sound)
    (stream : link.bufRecv.content ++ later = messages.flatMap Message.encode) :
    ∃ outputs complete rest tp last, link.readLoop = some (outputs, last) ∧
      Taken link messages later outputs complete rest tp last := by
  rw [readLoop]
  cases link.sender with
  | client =>
    obtain ⟨complete, rest, left, last, split, loopEq, holds, streamLeft,
      fragment⟩ := sconnLoop_takes ready sound stream
    obtain ⟨lastSound, rfl, same⟩ := holds
    have events : ∀ message, sentOf (sconnEvents message) = [] ∧
        dispatchedOf (sconnEvents message) = [message] := by
      intro message
      rw [sconnEvents]
      split <;> exact ⟨rfl, rfl⟩
    exact ⟨_, complete, rest, pooled complete, last, loopEq, split, lastSound,
      streamLeft, fragment, same, sentOf_flatMap (fun message =>
        (events message).1) complete, dispatchedOf_flatMap (fun message =>
          (events message).2) complete, calledOf_sconnEvents complete⟩
  | sconn =>
    obtain ⟨complete, rest, left, last, split, loopEq, holds, streamLeft,
      fragment⟩ := clientLoop_takes ready sound stream
    obtain ⟨lastSound, rfl, same⟩ := holds
    refine ⟨_, complete, rest, [], last, loopEq, split, lastSound, streamLeft,
      fragment, same, sentOf_flatMap (fun _ => rfl) complete,
      dispatchedOf_flatMap (fun _ => rfl) complete, ?_⟩
    rw [append_nil, calledOf_clientEvents]

/-- The messages that have been sent have been dispatched or are on their way,
and those that have been dispatched have been called or wait in the thread
pool. -/
structure Intact (log : List Event) (link : Link) : Prop where
  send : link.bufSend.Sound
  recv : link.bufRecv.Sound
  stream : ∃ rest, sentOf log = dispatchedOf log ++ rest ∧
    link.bufRecv.content ++ (link.wire ++ link.bufSend.content) = rest.flatMap Message.encode ∧
    Fragment Message.encode rest link.bufRecv.content ∧ ∀ message ∈ rest, Sendable link.ht message
  calls : (calledOf log ++ link.tp).Perm (dispatchedOf log)
  registered : ∀ message ∈ link.tp, link.ht message.msgid

theorem new_intact (sender : Endpoint) (ht : BitVec 16 → Bool) : Intact [] (new sender ht) where
  send := Buf.create_sound
  recv := Buf.create_sound
  stream := ⟨[], rfl, rfl, .inl ⟨rfl, rfl⟩, fun _ member => nomatch member⟩
  calls := .refl _
  registered := fun _ member => nomatch member

theorem Intact.writeTriggerPoll (intact : Intact log link) {message : Message}
    (sendable : Sendable link.ht message) :
    ∃ outputs next, link.writeTriggerPoll message = some (outputs, next) ∧
      Intact (log ++ outputs) next := by
  obtain ⟨buf, bufEq, bufSound, bufContent⟩ := writeMessage_sound intact.send sendable.msgid
  obtain ⟨rest, sent, stream, fragment, ready⟩ := intact.stream
  rw [Link.writeTriggerPoll, bufEq]
  refine ⟨_, _, rfl, bufSound, intact.recv, ⟨rest ++ [message], ?_, ?_,
    fragment.append (encode_ne_nil message), ?_⟩, ?_, intact.registered⟩
  · have none : dispatchedOf [.sent message] = [] := rfl
    have one : sentOf [.sent message] = [message] := rfl
    rw [sentOf_append, sent, dispatchedOf_append, none, one, append_nil, append_assoc]
  · rw [bufContent, ← append_assoc link.wire, ← append_assoc, stream,
      flatMap_append, flatMap_singleton]
  · exact forall_mem_concat ready sendable
  · simpa [calledOf, dispatchedOf] using intact.calls

theorem Intact.moved (intact : Intact log link) (answers : List Answer) (sendJob : PollJob) :
    Intact log { link with
      bufSend := (link.bufSend.toSock answers).2.2
      wire := link.wire ++ (link.bufSend.toSock answers).2.1
      sendJob := sendJob } := by
  obtain ⟨bufSound, bufContent⟩ := intact.send.toSock answers
  obtain ⟨rest, sent, stream, fragment, ready⟩ := intact.stream
  refine ⟨bufSound, intact.recv, ⟨rest, sent, ?_, fragment, ready⟩, intact.calls, intact.registered⟩
  rw [append_assoc, bufContent]
  exact stream

variable {answers : List Answer}

theorem Intact.handleWrite (intact : Intact log link)
    (tolerated : ∀ answer ∈ answers, answer.1 ∈ toleratedOnWrite link.sender) :
    ∃ next, link.handleWrite answers = some next ∧ Intact log next := by
  have status := link.bufSend.toSock_status answers
  rw [Link.handleWrite]
  cases senderEq : link.sender with
  | client =>
    have fine : (link.bufSend.toSock answers).1 = .success ∨
        (link.bufSend.toSock answers).1 = .eagain := by
      obtain success | again | ⟨answer, member, same⟩ := status
      · exact .inl success
      · exact .inr again
      · have listed := tolerated answer member
        rw [senderEq, same] at listed
        simpa [toleratedOnWrite] using listed
    dsimp only
    rw [handleClientWrite]
    dsimp only
    rw [if_pos fine]
    exact ⟨_, rfl, intact.moved answers _⟩
  | sconn =>
    dsimp only
    rw [handleSconnWrite]
    dsimp only
    split
    · exact ⟨_, rfl, intact.moved answers _⟩
    · rename_i failed
      have reset : (link.bufSend.toSock answers).1 = .connReset ∨
          (link.bufSend.toSock answers).1 = .epipe := by
        obtain success | again | ⟨answer, member, same⟩ := status
        · exact absurd (.inl success) failed
        · exact absurd (.inr again) failed
        · have listed := tolerated answer member
          rw [senderEq, same] at listed
          simp only [toleratedOnWrite, mem_cons, not_mem_nil, or_false] at listed
          rw [← or_assoc] at listed
          exact listed.resolve_left failed
      rw [if_pos reset]
      exact ⟨_, rfl, intact.moved answers _⟩

/-- What was received is taken apart into messages. -/
theorem Intact.readLoop (intact : Intact log link) {wire : List Byte} {buf : Buf}
    (sound : buf.Sound) (received : buf.content ++ wire = link.bufRecv.content ++ link.wire) :
    ∃ outputs next, { link with wire := wire, bufRecv := buf }.readLoop =
      some (outputs, next) ∧ Intact (log ++ outputs) next := by
  obtain ⟨messages, sentEq, stream, _, ready⟩ := intact.stream
  rw [← append_assoc, ← received, append_assoc] at stream
  obtain ⟨outputs, complete, rest, tp, next, loopEq, taken⟩ :=
    @readLoop_takes { link with wire := wire, bufRecv := buf } messages
      (wire ++ link.bufSend.content) ready sound stream
  have arrived : ∀ message ∈ complete, Sendable link.ht message :=
    fun message member => ready message (by simp [taken.split, member])
  refine ⟨outputs, next, loopEq, ?_⟩
  rw [taken.same]
  refine ⟨intact.send, taken.sound, ⟨rest, ?_, ?_, taken.fragment, ?_⟩, ?_, ?_⟩
  · rw [sentOf_append, sentEq, taken.sent, dispatchedOf_append, taken.dispatched,
      taken.split, append_nil, append_assoc]
  · exact taken.stream
  · exact fun message member => ready message (by simp [taken.split, member])
  · rw [calledOf_append, dispatchedOf_append, taken.dispatched]
    have both := intact.calls.append taken.called
    refine .trans ?_ both
    simp only [append_assoc]
    refine .append_left _ ?_
    rw [← append_assoc, ← append_assoc]
    exact .append_right _ perm_append_comm
  · intro message member
    obtain old | new := mem_append.mp member
    · exact intact.registered message old
    · have inside := taken.called.subset (mem_append_right _ new)
      exact (arrived message inside).registered

theorem Intact.handleRead (intact : Intact log link)
    (tolerated : ∀ answer ∈ answers, answer.1 ∈ toleratedOnRead) :
    ∃ outputs next, link.handleRead answers = some (outputs, next) ∧
      Intact (log ++ outputs) next := by
  obtain ⟨status, wire, buf, sockEq, sound, received, answered⟩ :=
    intact.recv.fromSock link.wire answers
  obtain ⟨outputs, next, loopEq, nextIntact⟩ := intact.readLoop sound received
  have listed : status ∈ toleratedOnRead := by
    obtain rfl | ⟨answer, member, rfl⟩ := answered
    · decide
    · exact tolerated answer member
  obtain ⟨recvJob, after⟩ : ∃ recvJob,
      next.afterRead status = some { next with recvJob := recvJob } := by
    cases status with
    | success | eagain | eof | connReset => exact ⟨_, rfl⟩
    | epipe | other => simp [toleratedOnRead] at listed
  refine ⟨outputs, { next with recvJob := recvJob }, ?_, nextIntact.send,
    nextIntact.recv, nextIntact.stream, nextIntact.calls, nextIntact.registered⟩
  simp [Link.handleRead, sockEq, loopEq, after]

theorem Intact.poolCall (intact : Intact log link) (index : Nat) :
    ∃ outputs next, link.poolCall index = some (outputs, next) ∧
      Intact (log ++ outputs) next := by
  rw [Link.poolCall]
  cases found : link.tp[index]? with
  | none => exact ⟨_, _, rfl, by rw [append_nil]; exact intact⟩
  | some message =>
    obtain ⟨inside, at_⟩ := List.getElem?_eq_some_iff.mp found
    have registered := intact.registered message (mem_of_getElem? found)
    dsimp only
    rw [msgCall, if_pos registered]
    refine ⟨_, _, rfl, intact.send, intact.recv, ?_, ?_, ?_⟩
    · obtain ⟨rest, sent, stream⟩ := intact.stream
      refine ⟨rest, ?_, stream⟩
      have none : sentOf [.called message] = [] := rfl
      have noneEither : dispatchedOf [.called message] = [] := rfl
      rw [sentOf_append, dispatchedOf_append, none, noneEither, append_nil, append_nil, sent]
    · have one : calledOf [.called message] = [message] := rfl
      have none : dispatchedOf [.called message] = [] := rfl
      rw [calledOf_append, dispatchedOf_append, one, none, append_nil, append_assoc]
      have moved := getElem_cons_eraseIdx_perm inside
      rw [at_] at moved
      exact (moved.append_left _).trans intact.calls
    · exact fun other member =>
        intact.registered other (mem_of_mem_eraseIdx member)

/-- Every step keeps the stream intact. -/
theorem Intact.step (log : List Event) (link : Link) (input : Input)
    (intact : Intact log link) (allowed : link.Allows input) :
    ∃ outputs next, link.step input = some (outputs, next) ∧
      Intact (log ++ outputs) next := by
  cases input with
  | send message => exact intact.writeTriggerPoll allowed
  | handleWrite answers =>
    obtain ⟨next, nextEq, nextIntact⟩ := intact.handleWrite allowed
    refine ⟨[], next, ?_, by rw [append_nil]; exact nextIntact⟩
    rw [Link.step, nextEq]
    rfl
  | handleRead answers => exact intact.handleRead allowed
  | poolCall index => exact intact.poolCall index

/-- Whatever the sockets take and give in one call, no assertion fails, and the
messages that the receiver has dispatched are the first of those that have been
sent, each once and in order.  It holds less than the next message in its buffer,
where it stays as it has arrived.  When the sender and the sockets have nothing
left, all messages have been dispatched, and every one has been called once or
waits in the thread pool. -/
theorem messages_arrive (sender : Endpoint) (ht : BitVec 16 → Bool) (inputs : List Input)
    (admissible : Admissible step Allows (new sender ht) inputs) :
    ∃ log last, run step (new sender ht) inputs = some (log, last) ∧
      (∃ rest, sentOf log = dispatchedOf log ++ rest ∧
        last.bufRecv.content ++ (last.wire ++ last.bufSend.content) = rest.flatMap Message.encode ∧
        Fragment Message.encode rest last.bufRecv.content) ∧
      (last.wire = [] → last.bufSend.content = [] →
        dispatchedOf log = sentOf log ∧ last.bufRecv.content = []) ∧
      (calledOf log ++ last.tp).Perm (dispatchedOf log) := by
  obtain ⟨log, last, runEq, intact⟩ :=
    run_of_admissible Intact.step [] (new_intact sender ht) inputs admissible
  rw [nil_append] at intact
  obtain ⟨rest, sent, stream, fragment, _⟩ := intact.stream
  refine ⟨log, last, runEq, ⟨rest, sent, stream, fragment⟩, ?_, intact.calls⟩
  intro wire bufSend
  rw [wire, bufSend, append_nil, append_nil] at stream
  obtain rfl := fragment.eq_nil stream
  exact ⟨by rw [sent, append_nil], stream⟩

def sampleInputs : List Input :=
  [.send ⟨7, [1, 2, 3]⟩, .handleWrite [(.success, 2), (.eagain, 0)],
    .handleRead [(.success, 2)], .send ⟨0x8001, [4]⟩, .handleWrite [(.success, 3)],
    .handleRead [(.success, 1), (.success, 9)], .handleWrite [(.success, 99)],
    .handleRead [(.success, 6)], .handleRead [(.success, 99), (.eof, 0)], .poolCall 0]

theorem messages_arrive_sample :
    ∃ log last, run step (new .client fun _ => true) sampleInputs =
      some (log, last) ∧ dispatchedOf log = [⟨7, [1, 2, 3]⟩, ⟨0x8001, [4]⟩] := by
  obtain ⟨log, last, runEq, _, all, _⟩ :=
    messages_arrive .client (fun _ => true) sampleInputs (by decide +kernel)
  have sample : ((run step (new .client fun _ => true) sampleInputs).map
      fun result => (result.2.wire, result.2.bufSend.content, sentOf result.1)) =
        some ([], [], [⟨7, [1, 2, 3]⟩, ⟨0x8001, [4]⟩]) := by
    decide +kernel
  rw [runEq] at sample
  simp only [Option.map_some, Option.some.injEq, Prod.mk.injEq] at sample
  refine ⟨log, last, runEq, ?_⟩
  rw [(all sample.1 sample.2.1).1, sample.2.2]

end Runs

end Link

end SRPC.Mq
