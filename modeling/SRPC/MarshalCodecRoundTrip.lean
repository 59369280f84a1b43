import SRPC.MarshalCodecFootprint

/-!
# Which values survive the stream operators

All values come back that hold no string, no container and no `v64` in the band
that loses a byte.
-/

namespace SRPC.Marshalling

open LittleEndian SparseInt ByteSource

/-- The values that come back: no string, no container, and no `v64` that
loses a byte. -/
def Lossless : (type : WireType) → Value type → Prop
  | .scalar _, _ => True
  | .v32, _ => True
  | .v64, value => ¬ LosesByte value
  | .pair first second, (x, y) => Lossless first x ∧ Lossless second y
  | _, _ => False

variable {type : WireType}

theorem get_encode {value : Value type} (lossless : Lossless type value) (stream : List Byte) :
    get ByteSource.list type (encode type value ++ stream) = some (value, stream) := by
  induction type generalizing stream with
  | scalar kind => exact getWord_toBytes kind.size value stream
  | v32 =>
    rw [get, getSparse_list]
    exact readV32_writeV32 value stream
  | v64 =>
    rw [get, getSparse_list]
    exact readV64_writeV64 lossless stream
  | pair first second firstEq secondEq =>
    show get ByteSource.list (.pair first second)
      ((encode first value.1 ++ encode second value.2) ++ stream) = _
    rw [List.append_assoc]
    exact bind_eq_some.mpr ⟨_, _, firstEq lossless.1 _,
      bind_eq_some.mpr ⟨_, _, secondEq lossless.2 stream, rfl⟩⟩
  | string | vector | list | set | map | unorderedSet | unorderedMap => exact lossless.elim

/-- Without strings and containers only a `v64` that loses a byte can fail,
and then `load_i64` looks at a byte that was not read. -/
theorem get_eq_none (flat : Flat type) {value : Value type} (lossy : ¬ Lossless type value)
    (stream : List Byte) : get ByteSource.list type (encode type value ++ stream) = none := by
  induction type generalizing stream with
  | scalar kind | v32 => exact absurd trivial lossy
  | v64 =>
    rw [get, getSparse_list]
    exact readV64_eq_none (not_not.mp lossy) stream
  | pair first second firstNone secondNone =>
    show (get ByteSource.list first
      ((encode first value.1 ++ encode second value.2) ++ stream)).bind _ = _
    rw [List.append_assoc]
    by_cases lossless : Lossless first value.1
    · rw [get_encode lossless]
      have failed := secondNone flat.2 (fun other => lossy ⟨lossless, other⟩) stream
      show (get ByteSource.list second (encode second value.2 ++ stream)).bind _ = _
      rw [failed]
      rfl
    · rw [firstNone flat.1 lossless]
      rfl
  | string | vector | list | set | map | unorderedSet | unorderedMap => exact flat.elim

theorem same_self {value : Value type} (lossless : Lossless type value) :
    Same type value value := by
  induction type with
  | scalar kind | v32 | v64 => rfl
  | pair first second firstSame secondSame =>
    exact ⟨firstSame lossless.1, secondSame lossless.2⟩
  | string | vector | list | set | map | unorderedSet | unorderedMap => exact lossless.elim

theorem get_same_iff {value : Value type} (short : Short type value) (stream : List Byte) :
    (∃ other, get ByteSource.list type (encode type value ++ stream) =
        some (other, stream) ∧ Same type value other) ↔
      Lossless type value := by
  constructor
  · rintro ⟨other, decoded, same⟩
    by_contra lossy
    by_cases flat : Flat type
    · rw [get_eq_none flat lossy] at decoded
      cases decoded
    · -- The value takes more bytes than were written.
      have taken := get_consumes type _ _ _ decoded
      have written := length_encode_lt flat short
      rw [← footprint_eq_of_same same, List.length_append] at taken
      omega
  · intro lossless
    exact ⟨value, get_encode lossless stream, same_self lossless⟩

/-- `operator<<` appends the encoding of a value to every marshal.  When a
marshal holds the encoding followed by more bytes, `operator>>` brings back the
value and leaves the other bytes if and only if the value is lossless. -/
theorem marshal_codec_roundTrip {type : WireType} {value : Value type} (short : Short type value) :
    (∀ heap m, Sound heap m → ∃ heap' m',
      put type value (heap, m) = some ((), heap', m') ∧ Sound heap' m' ∧
        m'.content heap' = m.content heap ++ encode type value) ∧
    ∀ heap m stream, Sound heap m →
      m.content heap = encode type value ++ stream →
      ((∃ other heap' m', get marshalSource type (heap, m) = some (other, heap', m') ∧
            Same type value other ∧ m'.content heap' = stream) ↔
        Lossless type value) := by
  refine ⟨fun _ _ sound => (put_puts type value).content sound, ?_⟩
  intro heap m stream sound held
  rw [← get_same_iff short stream]
  have simulated := get_simulates (marshalSource_holds heap m.toChain) type
    (heap, m) (encode type value ++ stream) ⟨sound, held, 0, Shrinks.refl sound.wellFormed⟩
  constructor
  · rintro ⟨other, heap', m', decoded, same, left⟩
    cases result : get ByteSource.list type (encode type value ++ stream) with
    | none =>
      rw [result] at simulated
      rw [simulated] at decoded
      cases decoded
    | some pair =>
      obtain ⟨read, unread⟩ := pair
      rw [result] at simulated
      obtain ⟨next, nextEq, _, rest, _⟩ := simulated
      obtain ⟨rfl, rfl⟩ := Prod.mk.inj (Option.some.inj (decoded.symm.trans nextEq))
      exact ⟨other, by rw [← left, rest], same⟩
  · rintro ⟨other, decoded, same⟩
    rw [decoded] at simulated
    obtain ⟨⟨heap', m'⟩, nextEq, _, rest, _⟩ := simulated
    exact ⟨other, heap', m', nextEq, same, rest⟩

/-- One string of the letter `a`, read from the marshal it was written to. -/
theorem marshal_codec_roundTrip_string :
    ¬ Lossless .string ([0x61] : List Byte) ∧
      ∀ heap m stream, Sound heap m →
        m.content heap = encode .string ([0x61] : List Byte) ++ stream →
        ¬ ∃ other heap' m', get marshalSource .string (heap, m) = some (other, heap', m') ∧
            Same .string ([0x61] : List Byte) other ∧
              m'.content heap' = stream := by
  refine ⟨id, ?_⟩
  intro heap m stream sound held found
  have short : Short .string ([0x61] : List Byte) := by
    show 1 < 2 ^ 31
    decide
  exact ((marshal_codec_roundTrip short).2 heap m stream sound held).mp found

/-- The string is written in two bytes, and the eight bytes of the length
`operator>>` looks for are not there. -/
theorem marshal_codec_loses_string :
    (put .string ([0x61] : List Byte) (blankHeap, Marshal.empty)).map
        (fun written => written.2.2.content written.2.1) = some [0x01, 0x61] ∧
    ((put .string ([0x61] : List Byte) (blankHeap, Marshal.empty)).bind
      fun written => get marshalSource .string written.2).isNone := by
  decide

end SRPC.Marshalling
