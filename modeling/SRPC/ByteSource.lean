import SRPC.LittleEndian

/-!
# Readers over byte sources

Readers are programs over a source of bytes.  They simulate the same programs over
lists of bytes, where they can be analysed.
-/

namespace SRPC

/-- A read delivers at most the number of bytes it asks for. -/
structure ByteSource (State : Type) where
  read : Nat → State → Option (List Byte × State)
  peek : Nat → State → Option (List Byte)

namespace ByteSource

variable {State α β : Type}

/-- A program over a source of bytes. -/
abbrev Reader (State α : Type) := StateT State Option α

def list : ByteSource (List Byte) where
  read n bytes := some (bytes.take n, bytes.drop n)
  peek n bytes := some (bytes.take n)

/-- Fails if there are fewer bytes. -/
def readExactly (source : ByteSource State) (n : Nat) :
    Reader State (List Byte) := fun state => do
  let (bytes, state) ← source.read n state
  guard (bytes.length = n)
  return (bytes, state)

def peekByte (source : ByteSource State) : Reader State Byte := fun state => do
  let bytes ← source.peek 1 state
  let byte ← bytes.head?
  return (byte, state)

/-- Run `body` a number of times, adding each result to a collection. -/
def collect (body : Reader State α) (insert : List α → α → List α) :
    Nat → List α → Reader State (List α)
  | 0, items => pure items
  | n + 1, items => do
    let item ← body
    collect body insert n (insert items item)

variable {state last : State}

theorem bind_eq_some {reader : Reader State α} {next : α → Reader State β} {result : β} :
    (reader >>= next) state = some (result, last) ↔
      ∃ value middle, reader state = some (value, middle) ∧
        next value middle = some (result, last) := by
  show (reader state >>= fun (value, rest) => next value rest) = some (result, last) ↔ _
  cases reader state with
  | none => simp
  | some pair =>
    obtain ⟨value, middle⟩ := pair
    simp

theorem lift_eq_some {option : Option α} {value : α} :
    (StateT.lift option : Reader State α) state = some (value, last) ↔
      option = some value ∧ last = state := by
  cases option with
  | none => simp [StateT.lift]
  | some other =>
    simp only [StateT.lift, Option.bind_eq_bind, Option.bind_some]
    constructor
    · intro equal
      obtain ⟨rfl, rfl⟩ := Prod.mk.inj (Option.some.inj equal)
      exact ⟨rfl, rfl⟩
    · rintro ⟨equal, rfl⟩
      rw [Option.some.inj equal]
      rfl

theorem readExactly_list_eq_some {n : Nat} {bytes value rest : List Byte} :
    list.readExactly n bytes = some (value, rest) ↔
      value.length = n ∧ bytes = value ++ rest := by
  simp only [readExactly, list, Option.bind_eq_bind, Option.bind_some]
  by_cases enough : (bytes.take n).length = n
  · simp only [guard, enough, if_true]
    constructor
    · intro equal
      obtain ⟨rfl, rfl⟩ := Prod.mk.inj (Option.some.inj equal)
      exact ⟨enough, (List.take_append_drop n bytes).symm⟩
    · rintro ⟨rfl, rfl⟩
      simp
  · constructor
    · intro equal
      simp only [guard, enough, if_false] at equal
      cases equal
    · rintro ⟨rfl, rfl⟩
      simp at enough

/-- A relation between programs over a source and programs over byte lists that
goes through their parts. -/
structure Respects (source : ByteSource State)
    (related : ∀ α : Type, Reader State α → Reader (List Byte) α → Prop) : Prop where
  pure : ∀ {α : Type} (value : α), related α (pure value) (pure value)
  bind : ∀ {α β : Type} {reader : Reader State α}
    {model : Reader (List Byte) α} {next : α → Reader State β}
    {nextModel : α → Reader (List Byte) β}, related α reader model →
      (∀ value, related β (next value) (nextModel value)) →
        related β (reader >>= next) (model >>= nextModel)
  lift : ∀ {α : Type} (result : Option α), related α (StateT.lift result) (StateT.lift result)
  readExactly : ∀ {n : Nat}, 0 < n → related (List Byte) (source.readExactly n) (list.readExactly n)

theorem Respects.collect {source : ByteSource State}
    {related : ∀ α : Type, Reader State α → Reader (List Byte) α → Prop}
    (respects : source.Respects related) {body : Reader State α}
    {model : Reader (List Byte) α} (one : related α body model)
    (insert : List α → α → List α) (n : Nat) (items : List α) :
    related (List α) (collect body insert n items) (collect model insert n items) := by
  induction n generalizing items with
  | zero => exact respects.pure items
  | succ n ih => exact respects.bind one fun item => ih (insert items item)

/-- Reading gives the bytes that a state is said to hold. -/
structure Holds (source : ByteSource State) (holds : State → List Byte → Prop) : Prop where
  read : ∀ {state bytes}, holds state bytes → ∀ n, ∃ next,
    source.read n state = some (bytes.take n, next) ∧ holds next (bytes.drop n)
  peek : ∀ {state bytes}, holds state bytes → ∀ n, source.peek n state = some (bytes.take n)

/-- A reader does on the states what another does on the lists they hold. -/
def Simulates (holds : State → List Byte → Prop) (reader : Reader State α)
    (model : Reader (List Byte) α) : Prop :=
  ∀ state bytes, holds state bytes →
    match model bytes with
    | none => reader state = none
    | some (value, rest) =>
      ∃ next, reader state = some (value, next) ∧ holds next rest

namespace Simulates

variable {holds : State → List Byte → Prop} {source : ByteSource State}

theorem pure (value : α) : Simulates holds (pure value : Reader State α) (pure value) :=
  fun state _ held => ⟨state, rfl, held⟩

theorem bind {reader : Reader State α} {model : Reader (List Byte) α}
    {next : α → Reader State β} {nextModel : α → Reader (List Byte) β}
    (first : Simulates holds reader model)
    (second : ∀ value, Simulates holds (next value) (nextModel value)) :
    Simulates holds (reader >>= next) (model >>= nextModel) := by
  intro state bytes held
  have step := first state bytes held
  show match (model bytes >>= fun (value, rest) => nextModel value rest) with
    | none => (reader state >>= fun (value, rest) => next value rest) = none
    | some (value, rest) => ∃ last, (reader state >>= fun (value, rest) => next value rest) =
          some (value, last) ∧ holds last rest
  cases result : model bytes with
  | none =>
    rw [result] at step
    rw [step]
    rfl
  | some pair =>
    obtain ⟨value, rest⟩ := pair
    rw [result] at step
    obtain ⟨middle, readerEq, heldMiddle⟩ := step
    rw [readerEq]
    exact second value middle rest heldMiddle

theorem lift (result : Option α) :
    Simulates holds (StateT.lift result : Reader State α) (StateT.lift result) := by
  intro state bytes held
  cases result with
  | none => rfl
  | some value => exact ⟨state, rfl, held⟩

theorem readExactly (held : source.Holds holds) (n : Nat) :
    Simulates holds (source.readExactly n) (list.readExactly n) := by
  intro state bytes holdsBytes
  obtain ⟨next, readEq, holdsRest⟩ := held.read holdsBytes n
  by_cases enough : (bytes.take n).length = n
  · simp only [ByteSource.readExactly, list, readEq, Option.bind_eq_bind,
      Option.bind_some, guard, enough, if_true]
    exact ⟨next, rfl, holdsRest⟩
  · simp only [ByteSource.readExactly, list, readEq, Option.bind_eq_bind,
      Option.bind_some, guard, enough, if_false]
    rfl

theorem peekByte (held : source.Holds holds) : Simulates holds source.peekByte list.peekByte := by
  intro state bytes holdsBytes
  have peekEq := held.peek holdsBytes 1
  cases bytes with
  | nil => simp [ByteSource.peekByte, list, peekEq]
  | cons byte rest =>
    simp only [ByteSource.peekByte, list, peekEq, Option.bind_eq_bind,
      Option.bind_some, List.take_succ_cons, List.head?_cons]
    exact ⟨state, rfl, holdsBytes⟩

theorem respects (held : source.Holds holds) : source.Respects fun _ => Simulates holds where
  pure := pure
  bind := bind
  lift := lift
  readExactly := fun _ => readExactly held _

end Simulates

end ByteSource

end SRPC
