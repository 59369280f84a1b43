import Mathlib.Data.List.Basic

/-!
# Runs of partial transition functions

A component is a partial step function: `none` stands for a failed assertion,
and a successful step emits a list of outputs.  An invariant that each admissible
input restores is an invariant of every admissible run, and no such run fails.
-/

namespace SRPC.TransitionRuns

variable {State Input Output : Type*}

/-- Fold a partial step function over a list of inputs, concatenating the
emitted outputs. -/
def run (step : State → Input → Option (List Output × State)) :
    State → List Input → Option (List Output × State)
  | state, [] => some ([], state)
  | state, input :: inputs =>
    match step state input with
    | none => none
    | some (outputs, next) =>
      (run step next inputs).map fun later => (outputs ++ later.1, later.2)

/-- Every input of the list is allowed in the state in which it is taken. -/
def Admissible (step : State → Input → Option (List Output × State))
    (allowed : State → Input → Prop) : State → List Input → Prop
  | _, [] => True
  | state, input :: inputs =>
    allowed state input ∧
      match step state input with
      | none => True
      | some (_, next) => Admissible step allowed next inputs

instance decidableAdmissible (step : State → Input → Option (List Output × State))
    (allowed : State → Input → Prop)
    [decidableAllowed : ∀ state input, Decidable (allowed state input)] :
    ∀ state inputs, Decidable (Admissible step allowed state inputs)
  | _, [] => .isTrue trivial
  | state, input :: inputs =>
    match decidableAllowed state input with
    | .isFalse refused => .isFalse fun admissible => refused admissible.1
    | .isTrue accepted =>
      match stepEq : step state input with
      | none => .isTrue ⟨accepted, by rw [stepEq]; trivial⟩
      | some (_, next) =>
        match decidableAdmissible step allowed next inputs with
        | .isTrue rest => .isTrue ⟨accepted, by rw [stepEq]; exact rest⟩
        | .isFalse refused => .isFalse fun admissible => refused (by
            have rest := admissible.2
            rw [stepEq] at rest
            exact rest)

variable {step : State → Input → Option (List Output × State)} {allowed : State → Input → Prop}

theorem admissible_of_forall (state : State) (inputs : List Input)
    (always : ∀ input ∈ inputs, ∀ state, allowed state input) :
    Admissible step allowed state inputs := by
  induction inputs generalizing state with
  | nil => trivial
  | cons input inputs ih =>
    refine ⟨always input List.mem_cons_self state, ?_⟩
    have later : ∀ other ∈ inputs, ∀ state, allowed state other :=
      fun other member => always other (List.mem_cons_of_mem _ member)
    cases step state input with
    | none => trivial
    | some result => exact ih result.2 later

variable {state : State} {Invariant : List Output → State → Prop}

/-- An invariant that every allowed step restores, without failing, holds at
the end of every admissible run. -/
theorem run_of_admissible
    (preserved : ∀ log state input, Invariant log state →
      allowed state input →
        ∃ outputs next, step state input = some (outputs, next) ∧
          Invariant (log ++ outputs) next) (log : List Output) (start : Invariant log state)
    (inputs : List Input) (admissible : Admissible step allowed state inputs) :
    ∃ outputs last, run step state inputs = some (outputs, last) ∧
      Invariant (log ++ outputs) last := by
  induction inputs generalizing log state with
  | nil => exact ⟨[], state, rfl, by simpa using start⟩
  | cons input inputs ih =>
    obtain ⟨accepted, rest⟩ := admissible
    obtain ⟨outputs, next, stepEq, restored⟩ := preserved log state input start accepted
    rw [stepEq] at rest
    obtain ⟨later, last, runEq, final⟩ := ih _ restored rest
    refine ⟨outputs ++ later, last, ?_, by simpa using final⟩
    simp [run, stepEq, runEq]

variable {last : State} {outputs later : List Output} {input : Input} {inputs : List Input}

theorem run_cons {next : State} (stepEq : step state input = some (outputs, next))
    (runEq : run step next inputs = some (later, last)) :
    run step state (input :: inputs) = some (outputs ++ later, last) := by
  simp [run, stepEq, runEq]

/-- A run of inputs that produce nothing and leave the record as it is. -/
theorem run_silent {Machine Record : Type*} {Kind : Input → Prop} {Kept : Machine → Prop}
    {step : Machine × Record → Input → Option (List Output × Machine × Record)} {record : Record}
    (keeps : ∀ machine input, Kept machine → Kind input →
      ∃ next, step (machine, record) input = some ([], next, record) ∧ Kept next)
    {machine : Machine} (kept : Kept machine) (inputs : List Input)
    (kind : ∀ input ∈ inputs, Kind input) :
    ∃ last, run step (machine, record) inputs = some ([], last, record) ∧ Kept last := by
  induction inputs generalizing machine with
  | nil => exact ⟨machine, rfl, kept⟩
  | cons input inputs ih =>
    obtain ⟨first, others⟩ := List.forall_mem_cons.mp kind
    obtain ⟨next, stepEq, kept'⟩ := keeps machine input kept first
    obtain ⟨last, runEq, final⟩ := ih kept' others
    exact ⟨last, run_cons stepEq runEq, final⟩

variable {log : List Output}

theorem run_cons_eq_some (runEq : run step state (input :: inputs) = some (log, last)) :
    ∃ outputs next later, step state input = some (outputs, next) ∧
      run step next inputs = some (later, last) ∧ log = outputs ++ later := by
  rw [run] at runEq
  cases stepEq : step state input with
  | none => simp [stepEq] at runEq
  | some result =>
    rw [stepEq] at runEq
    obtain ⟨later, laterEq, same⟩ := Option.map_eq_some_iff.mp runEq
    cases same
    exact ⟨result.1, result.2, later.1, rfl, laterEq, rfl⟩

variable {Intact : State → Prop}

/-- Where an allowed step keeps the state intact, and only an allowed step ends
in an intact state, the runs that end so are the admissible ones. -/
theorem run_intact_iff {Invariant : State → Prop}
    (kept : ∀ state input outputs next, Invariant state →
      step state input = some (outputs, next) → Invariant next)
    (forth : ∀ state input, Invariant state → Intact state →
      allowed state input →
        ∃ outputs next, step state input = some (outputs, next) ∧ Intact next)
    (back : ∀ state input outputs next, Invariant state →
      step state input = some (outputs, next) → Intact next →
        Intact state ∧ allowed state input) (start : Invariant state) (inputs : List Input) :
    (∃ log last, run step state inputs = some (log, last) ∧ Intact last) ↔
      Intact state ∧ Admissible step allowed state inputs := by
  induction inputs generalizing state with
  | nil =>
    constructor
    · rintro ⟨log, last, runEq, intact⟩
      cases runEq
      exact ⟨intact, trivial⟩
    · rintro ⟨intact, -⟩
      exact ⟨[], state, rfl, intact⟩
  | cons input inputs ih =>
    constructor
    · rintro ⟨log, last, runEq, intact⟩
      obtain ⟨outputs, next, later, stepEq, laterEq, -⟩ := run_cons_eq_some runEq
      obtain ⟨nextIntact, rest⟩ := (ih (kept _ _ _ _ start stepEq)).mp
        ⟨later, last, laterEq, intact⟩
      obtain ⟨before, accepted⟩ := back _ _ _ _ start stepEq nextIntact
      refine ⟨before, accepted, ?_⟩
      rw [stepEq]
      exact rest
    · rintro ⟨intact, accepted, rest⟩
      obtain ⟨outputs, next, stepEq, nextIntact⟩ := forth _ _ start intact accepted
      rw [stepEq] at rest
      obtain ⟨later, last, laterEq, final⟩ :=
        (ih (kept _ _ _ _ start stepEq)).mpr ⟨nextIntact, rest⟩
      exact ⟨outputs ++ later, last, run_cons stepEq laterEq, final⟩

/-- In a lawful run, where an allowed step keeps an intact state intact and no
other step does, all states are intact exactly if the run is admissible. -/
theorem lawful_intact_iff {lawful : State → Input → Prop} {Invariant : State → Prop}
    (kept : ∀ state input outputs next, Invariant state → lawful state input →
      step state input = some (outputs, next) → Invariant next)
    (forth : ∀ state input, Invariant state → lawful state input →
      Intact state → allowed state input →
      ∃ outputs next, step state input = some (outputs, next) ∧ Intact next)
    (back : ∀ state input outputs next, Invariant state → lawful state input →
      Intact state → step state input = some (outputs, next) → Intact next →
        allowed state input) (invariant : Invariant state) (start : Intact state)
    (inputs : List Input) (keeps : Admissible step lawful state inputs) :
    (∀ first second, inputs = first ++ second → ∃ log last,
        run step state first = some (log, last) ∧ Intact last) ↔
      Admissible step allowed state inputs := by
  induction inputs generalizing state with
  | nil =>
    refine ⟨fun _ => trivial, fun _ first second split => ?_⟩
    obtain ⟨rfl, -⟩ := List.append_eq_nil_iff.mp split.symm
    exact ⟨[], state, rfl, start⟩
  | cons input inputs ih =>
    obtain ⟨law, laws⟩ := keeps
    constructor
    · intro always
      obtain ⟨log, next, runEq, intact⟩ := always [input] inputs rfl
      obtain ⟨outputs, next, later, stepEq, endEq, rfl⟩ := run_cons_eq_some runEq
      cases endEq
      rw [stepEq] at laws
      refine ⟨back state input outputs next invariant law start stepEq intact, ?_⟩
      rw [stepEq]
      refine (ih (kept _ _ _ _ invariant law stepEq) intact laws).mp fun first second split => ?_
      obtain ⟨log, last, runEq, intactLast⟩ := always (input :: first) second (by rw [split]; rfl)
      obtain ⟨outputs', next', later, stepEq', laterEq, -⟩ := run_cons_eq_some runEq
      rw [stepEq] at stepEq'
      cases stepEq'
      exact ⟨later, last, laterEq, intactLast⟩
    · rintro ⟨accepted, rest⟩ first second split
      cases first with
      | nil => exact ⟨[], state, rfl, start⟩
      | cons other first =>
        obtain ⟨rfl, remaining⟩ := List.cons.inj split
        obtain ⟨outputs, next, stepEq, intact⟩ := forth state input invariant law start accepted
        rw [stepEq] at rest laws
        obtain ⟨later, last, laterEq, final⟩ :=
          (ih (kept _ _ _ _ invariant law stepEq) intact laws).mpr rest first second remaining
        exact ⟨outputs ++ later, last, run_cons stepEq laterEq, final⟩

/-- The same where the log of the run is part of the invariant. -/
theorem intact_iff_of_preserved {lawful : State → Input → Prop}
    (preserved : ∀ log state input, Invariant log state → lawful state input →
      ∃ outputs next, step state input = some (outputs, next) ∧ Invariant (log ++ outputs) next)
    (stays : ∀ log state input outputs next, Invariant log state → lawful state input →
      Intact state → step state input = some (outputs, next) →
        (Intact next ↔ allowed state input)) (log : List Output) (invariant : Invariant log state)
    (start : Intact state) (inputs : List Input) (keeps : Admissible step lawful state inputs) :
    (∀ first second, inputs = first ++ second → ∃ log last,
        run step state first = some (log, last) ∧ Intact last) ↔
      Admissible step allowed state inputs := by
  have kept : ∀ state input outputs next, (∃ log, Invariant log state) → lawful state input →
      step state input = some (outputs, next) → ∃ log, Invariant log next := by
    rintro state input outputs next ⟨log, invariant⟩ law stepEq
    obtain ⟨_, _, sameEq, later⟩ := preserved log state input invariant law
    cases sameEq.symm.trans stepEq
    exact ⟨_, later⟩
  refine lawful_intact_iff kept ?_ ?_ ⟨log, invariant⟩ start inputs keeps
  · rintro state input ⟨log, invariant⟩ law intact accepted
    obtain ⟨outputs, next, stepEq, -⟩ := preserved log state input invariant law
    exact ⟨outputs, next, stepEq, (stays _ _ _ _ _ invariant law intact stepEq).mpr accepted⟩
  · rintro state input outputs next ⟨log, invariant⟩ law intact stepEq
    exact (stays _ _ _ _ _ invariant law intact stepEq).mp

/-- Where an allowed step keeps an intact state intact, and no other step does,
all states of a run are intact exactly if the run is admissible. -/
theorem always_intact_iff
    (forth : ∀ state input, Intact state → allowed state input →
      ∃ outputs next, step state input = some (outputs, next) ∧ Intact next)
    (back : ∀ state input outputs next, Intact state →
      step state input = some (outputs, next) → Intact next →
        allowed state input) (start : Intact state) (inputs : List Input) :
    (∀ first second, inputs = first ++ second → ∃ log last,
        run step state first = some (log, last) ∧ Intact last) ↔
      Admissible step allowed state inputs :=
  lawful_intact_iff (fun _ _ _ _ _ _ _ => trivial) (fun state input _ _ => forth state input)
    (fun state input outputs next _ _ => back state input outputs next)
    trivial start inputs (admissible_of_forall state inputs fun _ _ _ => trivial)

variable {first second : List Input} {middle : State}

theorem run_append (firstEq : run step state first = some (outputs, middle))
    (secondEq : run step middle second = some (later, last)) :
    run step state (first ++ second) = some (outputs ++ later, last) := by
  induction first generalizing state outputs with
  | nil =>
    cases firstEq
    exact secondEq
  | cons input inputs ih =>
    obtain ⟨outputs, next, rest, stepEq, runEq, rfl⟩ := run_cons_eq_some firstEq
    simp [run, stepEq, ih runEq]

theorem run_append_eq_some (runEq : run step state (first ++ second) = some (log, last)) :
    ∃ outputs middle later, run step state first = some (outputs, middle) ∧
      run step middle second = some (later, last) ∧ log = outputs ++ later := by
  induction first generalizing state log with
  | nil => exact ⟨[], state, log, rfl, runEq, rfl⟩
  | cons input inputs ih =>
    obtain ⟨outputs, next, rest, stepEq, restEq, rfl⟩ := run_cons_eq_some runEq
    obtain ⟨more, middle, later, firstEq, secondEq, rfl⟩ := ih restEq
    exact ⟨outputs ++ more, middle, later, run_cons stepEq firstEq, secondEq, by simp⟩

theorem admissible_append (admissible : Admissible step allowed state (first ++ second)) :
    Admissible step allowed state first ∧
      ∀ outputs middle, run step state first = some (outputs, middle) →
        Admissible step allowed middle second := by
  induction first generalizing state with
  | nil =>
    refine ⟨trivial, fun outputs middle eq => ?_⟩
    cases eq
    exact admissible
  | cons input inputs ih =>
    obtain ⟨accepted, rest⟩ := admissible
    rw [Admissible, run]
    cases stepEq : step state input with
    | none => exact ⟨⟨accepted, trivial⟩, fun _ _ eq => by cases eq⟩
    | some result =>
      rw [stepEq] at rest
      refine ⟨⟨accepted, (ih rest).1⟩, fun outputs middle eq => ?_⟩
      obtain ⟨later, runEq, same⟩ := Option.map_eq_some_iff.mp eq
      cases same
      exact (ih rest).2 _ _ runEq

theorem Admissible.append (admissible : Admissible step allowed state first)
    (runEq : run step state first = some (outputs, middle))
    (later : Admissible step allowed middle second) :
    Admissible step allowed state (first ++ second) := by
  induction first generalizing state outputs with
  | nil =>
    cases runEq
    exact later
  | cons input inputs ih =>
    obtain ⟨accepted, rest⟩ := admissible
    obtain ⟨outputs, next, others, stepEq, restEq, rfl⟩ := run_cons_eq_some runEq
    rw [stepEq] at rest
    refine ⟨accepted, ?_⟩
    rw [stepEq]
    exact ih rest restEq

/-- Where every state short of the goal has an allowed step to a lower rank, the
goal is reached. -/
theorem reaches_of_progress {Rank : Type*} [WellFoundedRelation Rank] {Goal : State → Prop}
    (rank : State → Rank)
    (progress : ∀ log state, Invariant log state → ¬Goal state →
      ∃ input outputs next, allowed state input ∧
        step state input = some (outputs, next) ∧
        Invariant (log ++ outputs) next ∧
        WellFoundedRelation.rel (rank next) (rank state)) (log : List Output) (state : State)
    (start : Invariant log state) :
    ∃ inputs outputs last, Admissible step allowed state inputs ∧
      run step state inputs = some (outputs, last) ∧
      Invariant (log ++ outputs) last ∧ Goal last := by
  by_cases done : Goal state
  · exact ⟨[], [], state, trivial, rfl, by simpa using start, done⟩
  · obtain ⟨input, outputs, next, accepted, stepEq, restored, lower⟩ :=
      progress log state start done
    obtain ⟨inputs, later, last, rest, runEq, final, goal⟩ :=
      reaches_of_progress rank progress (log ++ outputs) next restored
    refine ⟨input :: inputs, outputs ++ later, last, ⟨accepted, ?_⟩, ?_, ?_, goal⟩
    · rw [stepEq]
      exact rest
    · simp [run, stepEq, runEq]
    · simpa using final
termination_by rank state

end SRPC.TransitionRuns
