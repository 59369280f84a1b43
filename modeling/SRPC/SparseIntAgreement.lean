import SRPC.TcpClient

/-! # The sizes and widths of sparse integers agree -/

namespace SRPC.SparseInt

open LittleEndian Marshalling ByteSource

/-- The size that is returned is the one by the value and the one by the first
byte, from 1 to `most`. -/
structure SizesAgree (dump : List Byte × Nat) (valSize most : Nat) : Prop where
  returned : dump.2 = valSize
  announced : ∃ byte0, dump.1.head? = some byte0 ∧ bufSize byte0 = valSize
  positive : 1 ≤ valSize
  bounded : valSize ≤ most

theorem sizesAgree_dumpI64 (val : BitVec 64) : SizesAgree (dumpI64 val) (valSize val) 9 := by
  refine ⟨?_, ?_, ?_, valSize_le_nine val⟩
  · obtain ⟨_, _, _, _, _, _, dump, size, _⟩ | ⟨_, dump, size, _⟩ | ⟨_, dump, size, _⟩ :=
      dumpI64_forms val <;> rw [dump, size]
  · obtain ⟨byte0, first, size⟩ := writeV64_head val
    rw [writeV64, List.head?_take] at first
    split at first
    · cases first
    · exact ⟨byte0, first, size.trans (length_writeV64 val)⟩
  · rw [← length_writeV64]
    exact List.length_pos_iff.mpr (writeV64_ne_nil val)

theorem sizesAgree_dumpI32 (val : BitVec 32) :
    SizesAgree (dumpI32 val) (valSize (val.signExtend 64)) 5 := by
  have wide := sizesAgree_dumpI64 (val.signExtend 64)
  rw [dumpI64_signExtend] at wide
  refine ⟨wide.returned, wide.announced, wide.positive, ?_⟩
  rw [valSize_signExtend]
  exact length_writeV32_le_five val

/-- `handle_read` of a client subtracts the sizes of the id and the error code
it has read.  They are the numbers of bytes it has taken from `in_`, even where
the id that is read is not the one that was written. -/
theorem sparseInt_sizes_agree (xid : BitVec 64) (errorCode : BitVec 32) :
    SizesAgree (dumpI64 xid) (valSize xid) 9 ∧
    SizesAgree (dumpI32 errorCode) (valSize (errorCode.signExtend 64)) 5 ∧
    ∀ (client : Tcp.Client) (stack : Nat → Byte) (rest : List Byte), Sound client.heap client.in_ →
      client.in_.content client.heap = writeV64 xid ++ (writeV32 errorCode ++ rest) →
      ∃ read heap₁ in₁ heap₂ in₂,
        getV64 marshalSource stack (client.heap, client.in_) = some (read, heap₁, in₁) ∧
        getSparse marshalSource 5 loadI32 (heap₁, in₁) = some (errorCode, heap₂, in₂) ∧
        (client.in_.content client.heap).length = valSize read + (in₁.content heap₁).length ∧
        (in₁.content heap₁).length =
          valSize (errorCode.signExtend 64) + (in₂.content heap₂).length := by
  refine ⟨sizesAgree_dumpI64 xid, sizesAgree_dumpI32 errorCode, ?_⟩
  intro client stack rest sound content
  obtain ⟨read, xidEq, form⟩ := getV64_writeV64_form xid stack (writeV32 errorCode ++ rest)
  have codeEq : getSparse ByteSource.list 5 loadI32 (writeV32 errorCode ++ rest) =
      some (errorCode, rest) := by
    rw [getSparse_list]
    exact readV32_writeV32 errorCode rest
  rw [← content] at xidEq
  obtain ⟨heap₁, in₁, heap₂, in₂, firstEq, secondEq, -, -, content₁, content₂⟩ :=
    Tcp.Client.getHeader_eq sound xidEq codeEq
  have sameSize : valSize read = valSize xid := by
    rcases form with same | ⟨readLost, lost⟩
    · rw [same]
    · rw [readLost.valSize, lost.valSize]
  refine ⟨read, heap₁, in₁, heap₂, in₂, firstEq, secondEq, ?_, ?_⟩
  · rw [content, content₁, List.length_append, length_writeV64, sameSize]
  · rw [content₁, content₂, List.length_append, valSize_signExtend]

/-- A reply with an id that is not read as it was written. -/
theorem sparseInt_sizes_agree_two_pow_48 :
    ∃ (client : Tcp.Client) (read : BitVec 64) (heap : Heap) (in_ : Marshal),
      client.in_.content client.heap = writeV64 (BitVec.ofInt 64 (2 ^ 48)) ++ (writeV32 0 ++ []) ∧
      getV64 marshalSource (fun _ => 7) (client.heap, client.in_) = some (read, heap, in_) ∧
      (client.in_.content client.heap).length = valSize read + (in_.content heap).length := by
  obtain ⟨heap, m, -, sound, content⟩ := (Puts.bytes (show
    writeV64 (BitVec.ofInt 64 (2 ^ 48)) ++ (writeV32 0 ++ []) ≠ [] by decide)).content
      (sound_empty blankHeap)
  obtain ⟨read, heap₁, in₁, _, _, readEq, -, taken, -⟩ :=
    (sparseInt_sizes_agree (BitVec.ofInt 64 (2 ^ 48)) 0).2.2
      ⟨heap, m, fun _ => none, []⟩ (fun _ => 7) [] sound content
  exact ⟨_, read, heap₁, in₁, content, readEq, taken⟩

/-- The bytes of an `i32` are the same in both widths and are read as the same
number by both, so that a `v32` may be read as a `v64` and the other way
round. -/
theorem sparseInt_widths_agree (val : BitVec 32) (behind stream : List Byte) :
    (val.signExtend 64).toInt = val.toInt ∧
    dumpI64 (val.signExtend 64) = dumpI32 val ∧
    loadI32 ((dumpI32 val).1 ++ behind) = some val ∧
    loadI64 ((dumpI32 val).1 ++ behind) = some (val.signExtend 64) ∧
    readV64 (writeV32 val ++ stream) = some (val.signExtend 64, stream) ∧
    readV32 (writeV64 (val.signExtend 64) ++ stream) = some (val, stream) := by
  have whole : (dumpI32 val).1 = writeV32 val := by
    rw [writeV32]
    obtain ⟨size, positive, _, _, _, dump⟩ | ⟨_, _, dump⟩ := dumpI32_forms val
    · rw [dump, List.take_of_length_le (length_short positive val).le]
    · rw [dump, List.take_of_length_le (by simp)]
  have kept := not_losesByte_signExtend val
  refine ⟨toInt_signExtend_64 val, dumpI64_signExtend val, ?_, ?_, ?_, ?_⟩
  · rw [whole]
    exact load_append (loadI32_writeV32 val) behind
  · rw [whole, ← writeV64_signExtend]
    exact load_append (loadI64_writeV64 kept) behind
  · rw [← writeV64_signExtend]
    exact readV64_writeV64 kept stream
  · rw [writeV64_signExtend]
    exact readV32_writeV32 val stream

end SRPC.SparseInt
