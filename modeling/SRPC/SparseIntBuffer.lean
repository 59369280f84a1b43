import SRPC.ByteSource
import SRPC.SparseIntCanonical

/-!
# Reading a `v64` into a buffer on the stack

`operator>>` of a `v64` reads as many bytes as the first one announces into a
buffer of nine bytes.  For the form that loses a byte `load_i64` goes on to a byte
of the buffer that was not read.
-/

namespace SRPC.SparseInt

open LittleEndian ByteSource

/-- `operator>>` of a `v64`, where `buf` initially has what is on the stack. -/
def getV64 {State : Type} (source : ByteSource State) (stack : Nat → Byte) :
    Reader State (BitVec 64) := do
  let byte0 ← source.peekByte
  let buf ← source.readExactly (bufSize byte0)
  StateT.lift (loadI64 (buf ++ (List.range' buf.length (9 - buf.length)).map stack))

section Load

variable {w threshold : Nat} {buf : List Byte} {val : BitVec w}

theorem mapM_mono {α β : Type*} {f g : α → Option β} {items : List α} {results : List β}
    (extends_ : ∀ item result, f item = some result → g item = some result)
    (mapped : items.mapM f = some results) : items.mapM g = some results := by
  induction items generalizing results with
  | nil => exact mapped
  | cons item items ih =>
    simp only [List.mapM_cons, Option.bind_eq_bind, Option.bind_eq_some_iff] at mapped ⊢
    obtain ⟨first, firstEq, rest, restEq, equal⟩ := mapped
    exact ⟨first, extends_ item first firstEq, rest, ih restEq, equal⟩

theorem getElem?_append_some {more : List Byte} {i : Nat} {byte : Byte}
    (found : buf[i]? = some byte) : (buf ++ more)[i]? = some byte := by
  rw [List.getElem?_append_left (List.getElem?_eq_some_iff.mp found).1]
  exact found

theorem load_append (loaded : load w threshold buf = some val)
    (more : List Byte) : load w threshold (buf ++ more) = some val := by
  simp only [load, Option.bind_eq_bind, Option.bind_eq_some_iff] at loaded ⊢
  obtain ⟨byte0, first, loaded⟩ := loaded
  refine ⟨byte0, getElem?_append_some first, ?_⟩
  split at loaded
  · rename_i below
    rw [if_pos below]
    obtain ⟨pv, cells, loaded⟩ := Option.bind_eq_some_iff.mp loaded
    exact Option.bind_eq_some_iff.mpr
      ⟨pv, mapM_mono (fun _ _ => getElem?_append_some) cells, loaded⟩
  · rename_i above
    rw [if_neg above]
    obtain ⟨pv, cells, loaded⟩ := Option.bind_eq_some_iff.mp loaded
    exact Option.bind_eq_some_iff.mpr
      ⟨pv, mapM_mono (fun _ _ => getElem?_append_some) cells, loaded⟩

theorem loadI64_eq_some (length : buf.length = 9) : ∃ val, loadI64 buf = some val := by
  have inside (i : Nat) (small : i < 9) : buf[i]? = some (buf.getD i 0) := by
    have within : i < buf.length := by omega
    simp [within]
  have bounds := bufSize_bounds (buf.getD 0 0)
  rw [loadI64, load, inside 0 (by decide)]
  simp only [Option.bind_eq_bind, Option.bind_some]
  split
  · rw [mapM_eq_some fun i member => by
      rw [List.mem_range] at member
      exact inside _ (by omega)]
    simp only [Option.bind_some]
    split <;> exact ⟨_, rfl⟩
  · rw [mapM_eq_some fun i member => inside _ (by omega)]
    exact ⟨_, rfl⟩

end Load

/-- What is behind the bytes of a `v64` in the buffer they are read into. -/
def stackBehind (stack : Nat → Byte) (val : BitVec 64) : List Byte :=
  (List.range' (writeV64 val).length (9 - (writeV64 val).length)).map stack

theorem getV64_list (val : BitVec 64) (stack : Nat → Byte) (stream : List Byte) {read : BitVec 64}
    (loaded : loadI64 (writeV64 val ++ stackBehind stack val) = some read) :
    getV64 ByteSource.list stack (writeV64 val ++ stream) = some (read, stream) := by
  obtain ⟨byte0, first, size⟩ := writeV64_head val
  have peeked : ByteSource.list.peekByte (writeV64 val ++ stream) =
      some (byte0, writeV64 val ++ stream) := by
    cases wire : writeV64 val with
    | nil => simp [wire] at first
    | cons byte rest =>
      rw [wire, List.head?_cons, Option.some.injEq] at first
      subst first
      rfl
  have readEq : ByteSource.list.readExactly (bufSize byte0)
      (writeV64 val ++ stream) = some (writeV64 val, stream) :=
    readExactly_list_eq_some.mpr ⟨size.symm, rfl⟩
  exact bind_eq_some.mpr ⟨_, _, peeked, bind_eq_some.mpr
    ⟨_, _, readEq, lift_eq_some.mpr ⟨loaded, rfl⟩⟩⟩

theorem getV64_writeV64 (val : BitVec 64) (stack : Nat → Byte) (stream : List Byte) :
    ∃ read, getV64 ByteSource.list stack (writeV64 val ++ stream) =
        some (read, stream) ∧ (¬ LosesByte val → read = val) := by
  obtain ⟨byte0, -, size⟩ := writeV64_head val
  have bounds := bufSize_bounds byte0
  have full : (writeV64 val ++ stackBehind stack val).length = 9 := by
    rw [stackBehind, List.length_append, List.length_map, List.length_range', ← size]
    omega
  obtain ⟨read, loaded⟩ := loadI64_eq_some full
  refine ⟨read, getV64_list val stack stream loaded, fun kept => ?_⟩
  exact Option.some.inj (loaded.symm.trans (load_append (loadI64_writeV64 kept) _))

theorem toNat_ofBytes_div (first second : Byte) (bytes : List Byte) :
    (ofBytes 64 (first :: bytes)).toNat / 256 = (ofBytes 64 (second :: bytes)).toNat / 256 := by
  have high : ofBytes 64 (first :: bytes) >>> 8 = ofBytes 64 (second :: bytes) >>> 8 := by
    apply BitVec.eq_of_getLsbD_eq
    intro bit _
    have next : (8 + bit) / 8 = bit / 8 + 1 := by omega
    rw [BitVec.getLsbD_ushiftRight, BitVec.getLsbD_ushiftRight,
      getLsbD_ofBytes, getLsbD_ofBytes, next, List.getD_cons_succ, List.getD_cons_succ]
  have numbers := congrArg BitVec.toNat high
  rwa [BitVec.toNat_ushiftRight, BitVec.toNat_ushiftRight,
    Nat.shiftRight_eq_div_pow, Nat.shiftRight_eq_div_pow] at numbers

theorem LosesByte.le_toNat {val : BitVec 64} (lost : LosesByte val) : 2 ^ 48 ≤ val.toNat := by
  rw [LosesByte, BitVec.toInt_eq_toNat_cond] at lost
  split at lost <;> omega

theorem LosesByte.valSize {val : BitVec 64} (lost : LosesByte val) : valSize val = 8 := by
  obtain ⟨kept, _⟩ | ⟨_, _, size, _⟩ | ⟨kept, _⟩ := dumpI64_forms val
  · exact absurd lost kept
  · exact size
  · exact absurd lost kept

theorem LosesByte.of_high {val read : BitVec 64} (lost : LosesByte val)
    (high : read.toNat / 256 = val.toNat / 256) : LosesByte read := by
  rw [LosesByte, BitVec.toInt_eq_toNat_cond] at lost ⊢
  split at lost <;> split <;> omega

theorem loadI64_lost {val : BitVec 64} (lost : LosesByte val) (garbage : Byte) :
    ∃ read, loadI64 (writeV64 val ++ [garbage]) = some read ∧ LosesByte read := by
  obtain ⟨kept, _⟩ | ⟨_, dump, _⟩ | ⟨kept, _⟩ := dumpI64_forms val
  · exact absurd lost kept
  · refine ⟨ofBytes 64 (garbage :: (toBytes 8 val).tail), by
      rw [writeV64, dump]; rfl, lost.of_high ?_⟩
    have whole : byteAt val 0 :: (toBytes 8 val).tail = toBytes 8 val := rfl
    rw [toNat_ofBytes_div garbage (byteAt val 0), whole, ofBytes_toBytes val (by decide)]
  · exact absurd lost kept

theorem getV64_writeV64_form (val : BitVec 64) (stack : Nat → Byte) (stream : List Byte) :
    ∃ read, getV64 ByteSource.list stack (writeV64 val ++ stream) = some (read, stream) ∧
      (read = val ∨ LosesByte read ∧ LosesByte val) := by
  by_cases lost : LosesByte val
  · have behind : stackBehind stack val = [stack 8] := by
      rw [stackBehind, length_writeV64, lost.valSize]
      rfl
    obtain ⟨read, loaded, form⟩ := loadI64_lost lost (stack 8)
    exact ⟨read, getV64_list val stack stream (behind ▸ loaded), .inr ⟨form, lost⟩⟩
  · obtain ⟨read, eq, same⟩ := getV64_writeV64 val stack stream
    exact ⟨read, eq, .inl (same lost)⟩

theorem getV64_writeV64_small (val : BitVec 64) (stack : Nat → Byte) (stream : List Byte) :
    ∃ read, getV64 ByteSource.list stack (writeV64 val ++ stream) = some (read, stream) ∧
      (read = val ∨ 2 ^ 48 ≤ read.toNat ∧ 2 ^ 48 ≤ val.toNat) := by
  obtain ⟨read, eq, form⟩ := getV64_writeV64_form val stack stream
  exact ⟨read, eq, form.imp_right fun lost => ⟨lost.1.le_toNat, lost.2.le_toNat⟩⟩

theorem getV64_simulates {State : Type} {source : ByteSource State}
    {holds : State → List Byte → Prop} (held : source.Holds holds) (stack : Nat → Byte) :
    Simulates holds (getV64 source stack) (getV64 ByteSource.list stack) :=
  (Simulates.peekByte held).bind fun _ =>
    (Simulates.readExactly held _).bind fun _ => Simulates.lift _

end SRPC.SparseInt
