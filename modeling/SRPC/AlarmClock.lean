import Mathlib.Data.List.Perm.Basic
import Mathlib.Algebra.Group.Nat.Defs
import SRPC.OrderedSets
import SRPC.TransitionRuns

/-!
# Alarms

An `Alarm` keeps callbacks with the times at which they are due in a map that is
ordered by the ids it hands out.
-/

namespace SRPC.Alarms

open List

variable {Func : Type*}

/-- An entry of `waiting_`; `serial` tells which call of `add` it is from. -/
structure AlarmEntry (Func : Type*) where
  serial : Nat
  id : Nat
  time : Nat
  func : Func
  deriving DecidableEq, Repr

/-- `tm_now > tm_out`. -/
def AlarmEntry.due (entry : AlarmEntry Func) (now : Nat) : Bool :=
  decide (now > entry.time)

/-- `waiting` has the entries of the map from its beginning.  `added` counts the
calls of `add`, and `overwritten` are entries that were replaced by one with the
same id. -/
structure Alarm (Func : Type*) where
  nextId : Nat
  waiting : List (AlarmEntry Func)
  added : Nat
  overwritten : List (AlarmEntry Func)
  deriving DecidableEq, Repr

/-- What becomes of the entry of a call of `add`. -/
inductive AlarmEvent
  | removed (serial : Nat)
  | invoked (serial : Nat)
  deriving DecidableEq, Repr

def AlarmEvent.serial : AlarmEvent → Nat
  | .removed serial => serial
  | .invoked serial => serial

/-- The calls, with the time of the clock. -/
inductive AlarmCall (Func : Type*)
  | add (time : Nat) (func : Func)
  | remove (id : Nat)
  | run (now : Nat)

namespace Alarm

def new : Alarm Func where
  nextId := 1
  waiting := []
  added := 0
  overwritten := []

/-- `add`, which returns the id; `next_id_` has 64 bits. -/
def add (alarm : Alarm Func) (time : Nat) (func : Func) : Nat × Alarm Func :=
  let id := alarm.nextId
  (id,
    { nextId := (id + 1) % 2 ^ 64
      waiting := OrderedSets.insert AlarmEntry.id ⟨alarm.added, id, time, func⟩
        (alarm.waiting.filter fun entry => decide (entry.id ≠ id))
      added := alarm.added + 1
      overwritten := alarm.overwritten ++
        alarm.waiting.filter fun entry => decide (entry.id = id) })

/-- `remove`: whether an entry was erased, the erased ones, and the alarm. -/
def remove (alarm : Alarm Func) (id : Nat) : Bool × List (AlarmEntry Func) × Alarm Func :=
  let erased := alarm.waiting.filter fun entry => decide (entry.id = id)
  (erased.length == 1, erased,
    { alarm with
      waiting := alarm.waiting.filter fun entry => decide (entry.id ≠ id) })

/-- `exe_next`: the entry whose callback was called, if it returns `true`. -/
def exeNext (alarm : Alarm Func) (now : Nat) : Option (AlarmEntry Func × Alarm Func) :=
  match alarm.waiting with
  | [] => none
  | first :: rest =>
    if first.due now then some (first, { alarm with waiting := rest })
    else none

/-- The loop of `run`: the entries whose callbacks were called. -/
def runLoop (now : Nat) :
    Nat → Alarm Func → Option (List (AlarmEntry Func) × Alarm Func)
  | 0, _ => none
  | fuel + 1, alarm =>
    match alarm.exeNext now with
    | none => some ([], alarm)
    | some (entry, alarm) =>
      (runLoop now fuel alarm).map fun result =>
        (entry :: result.1, result.2)

/-- An entry that is not due keeps all behind it from being called. -/
def run (alarm : Alarm Func) (now : Nat) : Option (List (AlarmEntry Func) × Alarm Func) :=
  runLoop now (alarm.waiting.length + 1) alarm

/-- A call, with the alarms that are no longer pending after it as far as the
caller of `remove` is told. -/
def step (alarm : Alarm Func) :
    AlarmCall Func → Option (List AlarmEvent × Alarm Func)
  | .add time func => some ([], (alarm.add time func).2)
  | .remove id =>
    let (removed, erased, alarm) := alarm.remove id
    some (if removed then erased.map fun entry => .removed entry.serial
      else [], alarm)
  | .run now => do
    let (called, alarm) ← alarm.run now
    return (called.map fun entry => .invoked entry.serial, alarm)

/-- The entries that were neither removed nor called. -/
def pending (alarm : Alarm Func) : List (AlarmEntry Func) := alarm.waiting ++ alarm.overwritten

/-- `run` ends, calls the callbacks of all pending alarms that are due and of no
others, and erases just these. -/
def FiresDue (alarm : Alarm Func) (now : Nat) : Prop :=
  ∃ called after,
    (∀ fuel, alarm.waiting.length < fuel →
      runLoop now fuel alarm = some (called, after)) ∧
    called.Perm (alarm.pending.filter fun entry => entry.due now) ∧
    after.waiting = alarm.waiting.filter fun entry => !entry.due now

/-- An alarm that is due has no earlier one before it in the map that is not
due. -/
def DueFirst (alarm : Alarm Func) (now : Nat) : Prop :=
  alarm.waiting.Pairwise fun earlier later =>
    later.due now = true → earlier.due now = true

theorem runLoop_eq (now : Nat) {fuel : Nat} {alarm : Alarm Func}
    (enough : alarm.waiting.length < fuel) :
    runLoop now fuel alarm =
      some (alarm.waiting.takeWhile fun entry => entry.due now,
        { alarm with
          waiting := alarm.waiting.dropWhile fun entry => entry.due now }) := by
  induction fuel generalizing alarm with
  | zero => omega
  | succ fuel ih =>
    obtain ⟨nextId, waiting, added, overwritten⟩ := alarm
    cases waiting with
    | nil => rfl
    | cons first rest =>
      cases due : first.due now with
      | false => simp [runLoop, exeNext, due]
      | true =>
        simp only [length_cons, Nat.succ_lt_succ_iff] at enough
        have later := @ih ⟨nextId, rest, added, overwritten⟩ enough
        simp [runLoop, exeNext, due, later]

variable {now : Nat}

theorem DueFirst.takeWhile_eq {alarm : Alarm Func} (first : alarm.DueFirst now) :
    alarm.waiting.takeWhile (fun entry => entry.due now) =
        alarm.waiting.filter (fun entry => entry.due now) ∧
      alarm.waiting.dropWhile (fun entry => entry.due now) =
        alarm.waiting.filter fun entry => !entry.due now := by
  obtain ⟨nextId, waiting, added, overwritten⟩ := alarm
  simp only [DueFirst] at first ⊢
  induction waiting with
  | nil => exact ⟨rfl, rfl⟩
  | cons entry rest ih =>
    obtain ⟨before, ordered⟩ := pairwise_cons.mp first
    cases due : entry.due now with
    | true => simp [due, ih ordered]
    | false =>
      have late : ∀ other ∈ rest, other.due now = false := by
        intro other member
        by_contra isDue
        have := before other member (by simpa using isDue)
        rw [due] at this
        cases this
      have none : rest.filter (fun other => other.due now) = [] :=
        filter_eq_nil_iff.mpr fun other member => by
          simp [late other member]
      have all : rest.filter (fun other => !other.due now) = rest :=
        filter_eq_self.mpr fun other member => by
          simp [late other member]
      simp [due, none, all]

theorem dueFirst_of_dropWhile {alarm : Alarm Func}
    (left : alarm.waiting.dropWhile (fun entry => entry.due now) =
      alarm.waiting.filter fun entry => !entry.due now) : alarm.DueFirst now := by
  obtain ⟨nextId, waiting, added, overwritten⟩ := alarm
  simp only [DueFirst] at left ⊢
  induction waiting with
  | nil => exact List.Pairwise.nil
  | cons entry rest ih =>
    cases due : entry.due now with
    | true =>
      simp only [dropWhile_cons, filter_cons, due] at left
      exact pairwise_cons.mpr ⟨fun _ _ _ => due, ih (by simpa using left)⟩
    | false =>
      simp only [dropWhile_cons, filter_cons, due] at left
      have all : rest.filter (fun other => !other.due now) = rest := by
        simpa using left.symm
      have late : ∀ other ∈ rest, other.due now = false := fun other member =>
        by simpa using filter_eq_self.mp all other member
      refine pairwise_cons.mpr ⟨?_, ?_⟩
      · intro other member isDue
        rw [late other member] at isDue
        cases isDue
      · refine pairwise_of_forall_mem_list fun _ _ other member isDue => ?_
        rw [late other member] at isDue
        cases isDue

theorem firesDue_iff (alarm : Alarm Func) (now : Nat) :
    alarm.FiresDue now ↔ alarm.DueFirst now ∧
      ∀ entry ∈ alarm.overwritten, entry.due now = false := by
  constructor
  · rintro ⟨called, after, runs, fired, left⟩
    have result := runs _ (Nat.lt_succ_self _)
    rw [runLoop_eq now (Nat.lt_succ_self _)] at result
    cases result
    have first := dueFirst_of_dropWhile left
    refine ⟨first, fun entry member => ?_⟩
    rw [first.takeWhile_eq.1, pending, filter_append] at fired
    have none := fired.length_eq
    rw [length_append, Nat.left_eq_add, length_eq_zero_iff, filter_eq_nil_iff] at none
    simpa using none entry member
  · rintro ⟨first, none⟩
    refine ⟨_, _, fun fuel enough => runLoop_eq now enough, ?_,
      first.takeWhile_eq.2⟩
    have kept : alarm.overwritten.filter (fun entry => entry.due now) = [] :=
      filter_eq_nil_iff.mpr fun entry member => by simp [none entry member]
    rw [first.takeWhile_eq.1, pending, filter_append, kept, append_nil]

/-- The alarms that were added are those that are pending and those that were
removed or called, each once. -/
structure Accounted (log : List AlarmEvent) (alarm : Alarm Func) : Prop where
  increasing : OrderedSets.Increasing AlarmEntry.id alarm.waiting
  nextId : alarm.nextId = (alarm.added + 1) % 2 ^ 64
  ids : ∀ entry ∈ alarm.pending, entry.id = (entry.serial + 1) % 2 ^ 64
  serials : (log.map AlarmEvent.serial ++
    alarm.pending.map AlarmEntry.serial).Perm (List.range alarm.added)
  kept : alarm.added ≤ 2 ^ 64 → alarm.overwritten = []

theorem accounted_new : Accounted [] (new : Alarm Func) where
  increasing := List.Pairwise.nil
  nextId := rfl
  ids := fun _ member => absurd member not_mem_nil
  serials := List.Perm.refl _
  kept := fun _ => rfl

variable {log : List AlarmEvent} {alarm : Alarm Func}

theorem filter_id_perm (id : Nat) :
    (alarm.waiting.filter (fun entry => decide (entry.id = id)) ++
      alarm.waiting.filter fun entry => decide (entry.id ≠ id)).Perm alarm.waiting := by
  have split := filter_append_perm (fun entry => decide (entry.id = id)) alarm.waiting
  simpa only [decide_not] using split

theorem pending_add (time : Nat) (func : Func) :
    (alarm.add time func).2.pending.Perm
      (⟨alarm.added, alarm.nextId, time, func⟩ :: alarm.pending) := by
  have absent : ∀ other ∈ alarm.waiting.filter (fun entry => decide (entry.id ≠ alarm.nextId)),
      other.id ≠ alarm.nextId := fun other member =>
    of_decide_eq_true (mem_filter.mp member).2
  refine (List.Perm.append_right _ (OrderedSets.insert_perm absent)).trans ?_
  rw [cons_append]
  refine List.Perm.cons _ ?_
  refine (perm_append_comm_assoc _ _ _).trans ?_
  refine List.Perm.trans ?_ perm_append_comm
  exact (perm_append_comm.trans (filter_id_perm alarm.nextId)).append_left _

section

variable (accounted : Accounted log alarm)

include accounted

theorem Accounted.serial_lt {entry : AlarmEntry Func} (member : entry ∈ alarm.pending) :
    entry.serial < alarm.added :=
  mem_range.mp (accounted.serials.mem_iff.mp (mem_append_right _ (mem_map_of_mem member)))

theorem Accounted.add (time : Nat) (func : Func) : Accounted log (alarm.add time func).2 where
  increasing := OrderedSets.Increasing.insert (List.Pairwise.filter _ accounted.increasing) _
  nextId := by
    show (alarm.nextId + 1) % 2 ^ 64 = _
    rw [accounted.nextId, Nat.mod_add_mod]
    rfl
  ids := by
    intro entry member
    rcases mem_cons.mp ((pending_add time func).mem_iff.mp member) with
      rfl | old
    · exact accounted.nextId
    · exact accounted.ids entry old
  serials := by
    refine (((pending_add time func).map _).append_left _).trans ?_
    rw [map_cons]
    refine perm_middle.trans ((accounted.serials.cons _).trans ?_)
    show List.Perm _ (List.range (alarm.added + 1))
    rw [range_succ]
    exact (perm_append_singleton _ _).symm
  kept := by
    intro few
    have before := accounted.kept (Nat.le_of_succ_le few)
    show alarm.overwritten ++ _ = []
    rw [before, nil_append, filter_eq_nil_iff]
    intro entry member
    have waits : entry ∈ alarm.pending := mem_append_left _ member
    have older := accounted.serial_lt waits
    have few : alarm.added + 1 ≤ 2 ^ 64 := few
    rw [decide_eq_true_iff, accounted.ids entry waits, accounted.nextId]
    omega

theorem Accounted.length_filter_id (id : Nat) :
    (alarm.waiting.filter fun entry => decide (entry.id = id)).length ≤ 1 := by
  have increasing := List.Pairwise.filter (fun entry => decide (entry.id = id)) accounted.increasing
  have same : ∀ entry ∈ alarm.waiting.filter
      (fun entry => decide (entry.id = id)), entry.id = id := fun entry member =>
    of_decide_eq_true (mem_filter.mp member).2
  generalize alarm.waiting.filter (fun entry => decide (entry.id = id)) = found at increasing same
  match found with
  | [] => exact Nat.zero_le _
  | [_] => exact Nat.le_refl _
  | first :: second :: rest =>
    have less := rel_of_pairwise_cons increasing mem_cons_self
    rw [same first (by simp), same second (by simp)] at less
    exact absurd less (Nat.lt_irrefl id)

theorem Accounted.settle {settled waiting : List (AlarmEntry Func)} {events : List AlarmEvent}
    (split : (settled ++ waiting).Perm alarm.waiting)
    (increasing : OrderedSets.Increasing AlarmEntry.id waiting)
    (logged : events.map AlarmEvent.serial = settled.map AlarmEntry.serial) :
    Accounted (log ++ events) { alarm with waiting := waiting } := by
  have pendingSplit : (settled ++ (waiting ++ alarm.overwritten)).Perm alarm.pending := by
    rw [← append_assoc]
    exact split.append_right _
  refine ⟨increasing, accounted.nextId, fun entry member => ?_, ?_, accounted.kept⟩
  · exact accounted.ids entry (pendingSplit.mem_iff.mp (mem_append_right _ member))
  · refine List.Perm.trans ?_ accounted.serials
    rw [map_append, logged, append_assoc, ← map_append]
    exact (pendingSplit.map _).append_left _

/-- Every call keeps account of the entries. -/
theorem Accounted.step (call : AlarmCall Func) :
    ∃ events after, alarm.step call = some (events, after) ∧
      Accounted (log ++ events) after := by
  cases call with
  | add time func =>
    refine ⟨[], _, rfl, ?_⟩
    rw [append_nil]
    exact accounted.add time func
  | remove id =>
    have few := accounted.length_filter_id id
    refine ⟨_, _, rfl, accounted.settle (filter_id_perm id)
      (List.Pairwise.filter _ accounted.increasing) ?_⟩
    by_cases one : ((alarm.waiting.filter fun entry => decide (entry.id = id)).length == 1) = true
    · rw [if_pos one, map_map]
      rfl
    · rw [if_neg one]
      rw [beq_iff_eq] at one
      have none : alarm.waiting.filter (fun entry => decide (entry.id = id)) = [] :=
        length_eq_zero_iff.mp (by omega)
      rw [none]
      rfl
  | run now =>
    refine ⟨_, _, by
      rw [Alarm.step, run, runLoop_eq now (Nat.lt_succ_self _)]
      rfl, accounted.settle (List.Perm.of_eq takeWhile_append_dropWhile)
        (accounted.increasing.sublist (dropWhile_sublist _)) ?_⟩
    rw [map_map]
    rfl

end

theorem run_accounted (calls : List (AlarmCall Func)) :
    ∃ log alarm, TransitionRuns.run step new calls = some (log, alarm) ∧ Accounted log alarm := by
  have preserved (log : List AlarmEvent) (alarm : Alarm Func)
      (call : AlarmCall Func) (accounted : Accounted log alarm) (_ : True) := accounted.step call
  exact TransitionRuns.run_of_admissible preserved [] accounted_new calls
    (TransitionRuns.admissible_of_forall _ _ fun _ _ _ => trivial)

/-- Alarms are called as they should be as far as they are in the order of their
times. -/
theorem alarm_fires_due_iff (calls : List (AlarmCall Func)) :
    ∃ log alarm, TransitionRuns.run step new calls = some (log, alarm) ∧
      (log.map AlarmEvent.serial ++ alarm.pending.map AlarmEntry.serial).Perm
        (List.range alarm.added) ∧
      (alarm.added ≤ 2 ^ 64 → alarm.overwritten = []) ∧
      ∀ now, alarm.FiresDue now ↔ alarm.DueFirst now ∧
        ∀ entry ∈ alarm.overwritten, entry.due now = false := by
  obtain ⟨log, alarm, ran, accounted⟩ := run_accounted calls
  exact ⟨log, alarm, ran, accounted.serials, accounted.kept, alarm.firesDue_iff⟩

def unordered : Alarm Unit where
  nextId := 3
  waiting := [⟨0, 1, 100, ()⟩, ⟨1, 2, 10, ()⟩]
  added := 2
  overwritten := []

/-- At 50 the second alarm is due and is not called. -/
theorem due_alarm_not_called :
    TransitionRuns.run step new [.add 100 (), .add 10 ()] = some ([], unordered) ∧
      unordered.run 50 = some ([], unordered) ∧ ¬ unordered.FiresDue 50 := by
  refine ⟨by decide, by decide, fun fires => ?_⟩
  have first := (unordered.firesDue_iff 50).mp fires
  simp [DueFirst, unordered, AlarmEntry.due] at first

end Alarm

end SRPC.Alarms
