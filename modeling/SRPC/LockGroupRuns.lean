import Mathlib.Data.List.Perm.Subperm
import SRPC.LockGroup
import SRPC.TransitionRuns
import SRPC.WoundDieLock

/-!
# Runs of a group of locks

The answers to the requests of a group and the wounds it suffers come in any
order.  A ledger keeps who has answered and which grants the group has.
-/

namespace SRPC.LockGroup

open WaitDie TransitionRuns List

variable {Lock : Type*} [DecidableEq Lock]

/-- The locks that have answered, the grants the group has with their ids, and
whether a request was refused or a grant lost before all have answered. -/
structure Ledger (Lock : Type*) where
  answered : List Lock
  held : List (Lock × Nat)
  refused : Bool
  surrendered : Bool

/-- A call of `yes_cb` or `no_cb`, with the grants the group has when the call
of the group in which it happens is over. -/
structure Verdict (Lock : Type*) where
  answer : Answer
  held : List (Lock × Nat)
  deriving DecidableEq, Repr

namespace Ledger

def nothing : Ledger Lock := ⟨[], [], false, false⟩

/-- Every lock has answered. -/
def Complete (locks : List Lock) (ledger : Ledger Lock) : Prop :=
  ∀ alock ∈ locks, alock ∈ ledger.answered

instance (locks : List Lock) (ledger : Ledger Lock) : Decidable (ledger.Complete locks) :=
  inferInstanceAs (Decidable (∀ _ ∈ _, _))

/-- The grants that the group does not abort. -/
def released (events : List (GroupEvent Lock)) (held : List (Lock × Nat)) : List (Lock × Nat) :=
  held.filter fun entry => decide (.abort entry.1 entry.2 ∉ events)

def next (locks : List Lock) (ledger : Ledger Lock)
    (events : List (GroupEvent Lock)) : GroupInput Lock → Ledger Lock
  | .yes alock id =>
    { ledger with
      answered := ledger.answered ++ [alock]
      held := released events (ledger.held ++ [(alock, id)]) }
  | .no alock =>
    { ledger with
      answered := ledger.answered ++ [alock]
      held := released events ledger.held
      refused := true }
  | .wound alock ret =>
    if ret = 0 then
      { ledger with
        held := erase ledger.held alock
        surrendered := ledger.surrendered || decide (¬ ledger.Complete locks) }
    else
      ledger
  | .unlockAll => { ledger with held := released events ledger.held }

/-- A lock that was asked for answers once, with an id that is not zero, and
wounds the group only if it has granted the request. -/
def Allows (locks : List Lock) (group : ALockGroup Lock)
    (ledger : Ledger Lock) : GroupInput Lock → Prop
  | .yes alock id => alock ∈ locks ∧ alock ∉ ledger.answered ∧ id ≠ 0
  | .no alock => alock ∈ locks ∧ alock ∉ ledger.answered
  | .wound alock _ => alock ∈ ledger.held.map Prod.fst
  | .unlockAll => group.status = .lock

instance decidableAllows (locks : List Lock) (group : ALockGroup Lock)
    (ledger : Ledger Lock) : ∀ input, Decidable (ledger.Allows locks group input)
  | .yes _ _ => inferInstanceAs (Decidable (_ ∧ _ ∧ _))
  | .no _ => inferInstanceAs (Decidable (_ ∧ _))
  | .wound _ _ => inferInstanceAs (Decidable (_ ∈ _))
  | .unlockAll => inferInstanceAs (Decidable (_ = _))

end Ledger

/-- The final calls, with the grants that the group has. -/
def verdicts (events : List (GroupEvent Lock)) (held : List (Lock × Nat)) : List (Verdict Lock) :=
  events.filterMap fun
    | .yesCb => some ⟨.yes, held⟩
    | .noCb => some ⟨.no, held⟩
    | .abort _ _ => none

def groupStep (locks : List Lock) (state : ALockGroup Lock × Ledger Lock)
    (input : GroupInput Lock) :
    Option (List (Verdict Lock) × ALockGroup Lock × Ledger Lock) := do
  let (events, group) ← step state.1 input
  let ledger := state.2.next locks events input
  return (verdicts events ledger.held, group, ledger)

abbrev groupAllows (locks : List Lock) (state : ALockGroup Lock × Ledger Lock)
    (input : GroupInput Lock) : Prop := state.2.Allows locks state.1 input

/-- The group has counted `nReady` answers and not come to a verdict. -/
structure Counts (locks : List Lock) (group : ALockGroup Lock)
    (ledger : Ledger Lock) (nReady : Nat) : Prop where
  db : group.db = some ⟨locks.length, nReady, false⟩
  status : group.status = if ledger.refused then .timeout else .wait
  locked : group.locked = ledger.held
  once : ledger.answered.Nodup
  known : ∀ alock ∈ ledger.answered, alock ∈ locks
  granted : ∀ entry ∈ ledger.held, entry.1 ∈ ledger.answered
  ids : ∀ entry ∈ ledger.held, entry.2 ≠ 0
  kept : ledger.refused = false → (ledger.surrendered = false ↔
    ∀ alock ∈ ledger.answered, alock ∈ ledger.held.map Prod.fst)

/-- A lock has still to answer. -/
def Pending (locks : List Lock) (group : ALockGroup Lock) (ledger : Ledger Lock) : Prop :=
  Counts locks group ledger ledger.answered.length ∧ ledger.answered.length < locks.length

/-- All locks have answered and the group has come to this verdict. -/
structure Settled (locks : List Lock) (ledger : Ledger Lock) (verdict : Verdict Lock) : Prop where
  complete : ledger.Complete locks
  answer : verdict.answer = if ledger.refused then .no else .yes
  refused : ledger.refused = true → verdict.held = []
  kept : ledger.refused = false → (ledger.surrendered = false ↔
    ∀ alock ∈ locks, alock ∈ verdict.held.map Prod.fst)

/-- The verdicts so far fit the group and its ledger. -/
def InStep (locks : List Lock) (log : List (Verdict Lock))
    (state : ALockGroup Lock × Ledger Lock) : Prop :=
  (log = [] ∧ Pending locks state.1 state.2) ∨
    ∃ verdict, log = [verdict] ∧ Settled locks state.2 verdict

section Answers

variable {locks : List Lock} {group : ALockGroup Lock} {ledger : Ledger Lock} {nReady : Nat}

omit [DecidableEq Lock] in
theorem complete_iff_length (distinct : locks.Nodup) (once : ledger.answered.Nodup)
    (known : ∀ alock ∈ ledger.answered, alock ∈ locks) :
    ledger.Complete locks ↔ ledger.answered.length = locks.length := by
  constructor
  · intro complete
    exact Nat.le_antisymm (subperm_of_subset once known).length_le
      (subperm_of_subset distinct complete).length_le
  · intro same alock member
    have perm := (subperm_of_subset once known).perm_of_length_le (Nat.le_of_eq same.symm)
    exact perm.mem_iff.mpr member

variable {events : List (GroupEvent Lock)}

theorem released_eq_self (none : ∀ alock id, .abort alock id ∉ events) (held : List (Lock × Nat)) :
    Ledger.released events held = held :=
  filter_eq_self.mpr fun entry _ => by simp [none entry.1 entry.2]

theorem released_abortAllLocked (counts : Counts locks group ledger nReady) :
    Ledger.released (.noCb :: abortAllLocked group) ledger.held = [] := by
  refine filter_eq_nil_iff.mpr fun entry member => ?_
  have aborted : GroupEvent.abort entry.1 entry.2 ∈ abortAllLocked group := by
    rw [abortAllLocked, counts.locked]
    refine mem_map.mpr ⟨entry, mem_filter.mpr ⟨member, ?_⟩, rfl⟩
    simp [counts.ids entry member]
  simp [aborted]

omit [DecidableEq Lock] in
theorem verdicts_abortAllLocked (held : List (Lock × Nat)) :
    verdicts (.noCb :: abortAllLocked group) held = [⟨.no, held⟩] := by
  simp [verdicts, abortAllLocked, filterMap_map]

theorem Counts.trigger_eq (distinct : locks.Nodup) (counts : Counts locks group ledger nReady)
    (one : ledger.answered.length = nReady + 1) :
    ∃ events group', trigger group = some (events, group') ∧
      InStep locks (verdicts events (Ledger.released events ledger.held))
        (group', { ledger with held := Ledger.released events ledger.held }) := by
  have bounded : ledger.answered.length ≤ locks.length :=
    (subperm_of_subset counts.once counts.known).length_le
  by_cases last : nReady + 1 = locks.length
  · have complete : ledger.Complete locks :=
      (complete_iff_length distinct counts.once counts.known).mpr (one.trans last)
    have status := counts.status
    cases refused : ledger.refused with
    | true =>
      rw [refused] at status
      refine ⟨.noCb :: abortAllLocked group, { group with db := none }, ?_, ?_⟩
      · simp [trigger, counts.db, last, wish, status, abortAllLocked]
      · rw [released_abortAllLocked counts, verdicts_abortAllLocked]
        exact .inr ⟨_, rfl, complete, by simp, fun _ => rfl, by simp⟩
    | false =>
      rw [refused] at status
      refine ⟨[.yesCb], { group with status := .lock, db := none }, ?_, ?_⟩
      · simp [trigger, counts.db, last, wish, status]
      · rw [released_eq_self (by simp)]
        refine .inr ⟨⟨.yes, ledger.held⟩, rfl, complete, by simp, by simp,
          fun _ => (counts.kept refused).trans ?_⟩
        exact ⟨fun all alock member => all alock (complete alock member),
          fun all alock member => all alock (counts.known alock member)⟩
  · refine ⟨[], { group with
      db := some ⟨locks.length, nReady + 1, false⟩ }, ?_, ?_⟩
    · have room : nReady + 1 ≤ locks.length := one ▸ bounded
      simp [trigger, counts.db, last, room]
    · rw [released_eq_self (by simp)]
      refine .inl ⟨rfl, ⟨by rw [one], counts.status, counts.locked, counts.once,
        counts.known, counts.granted, counts.ids, counts.kept⟩, ?_⟩
      show ledger.answered.length < locks.length
      omega

variable {alock : Lock}

theorem erase_eq_self {map : List (Lock × Nat)} (absent : alock ∉ map.map Prod.fst) :
    erase map alock = map := by
  refine filter_eq_self.mpr fun entry member => ?_
  have other : entry.1 ≠ alock := by
    rintro rfl
    exact absent (mem_map_of_mem member)
  simp [other]

omit [DecidableEq Lock] in
theorem Counts.not_held (counts : Counts locks group ledger nReady)
    {alock : Lock} (unanswered : alock ∉ ledger.answered) : alock ∉ ledger.held.map Prod.fst := by
  intro member
  obtain ⟨entry, entryMember, rfl⟩ := mem_map.mp member
  exact unanswered (counts.granted entry entryMember)

theorem Counts.yes (counts : Counts locks group ledger nReady) {id : Nat} (asked : alock ∈ locks)
    (unanswered : alock ∉ ledger.answered) (nonzero : id ≠ 0) :
    Counts locks { group with locked := assign group.locked alock id }
      { ledger with
        answered := ledger.answered ++ [alock]
        held := ledger.held ++ [(alock, id)] } nReady where
  db := counts.db
  status := counts.status
  locked := by
    rw [assign, counts.locked, erase_eq_self (counts.not_held unanswered)]
  once := nodup_concat counts.once unanswered
  known := forall_mem_concat counts.known asked
  granted := forall_mem_concat
    (fun entry member => mem_append_left _ (counts.granted entry member)) (by simp)
  ids := forall_mem_concat counts.ids nonzero
  kept := by
    intro notRefused
    refine (counts.kept notRefused).trans ?_
    simp only [map_append, map_singleton, mem_append, mem_singleton]
    constructor
    · rintro all other (member | rfl)
      · exact .inl (all other member)
      · exact .inr rfl
    · intro all other member
      refine (all other (.inl member)).resolve_right ?_
      rintro rfl
      exact unanswered member

omit [DecidableEq Lock] in
theorem Counts.no (counts : Counts locks group ledger nReady) {alock : Lock} (asked : alock ∈ locks)
    (unanswered : alock ∉ ledger.answered) :
    Counts locks { group with status := .timeout }
      { ledger with
        answered := ledger.answered ++ [alock]
        refused := true } nReady where
  db := counts.db
  status := rfl
  locked := counts.locked
  once := nodup_concat counts.once unanswered
  known := forall_mem_concat counts.known asked
  granted := fun entry member =>
    mem_append_left _ (counts.granted entry member)
  ids := counts.ids
  kept := nofun

theorem Counts.wound (counts : Counts locks group ledger nReady)
    (held : alock ∈ ledger.held.map Prod.fst) :
    Counts locks { group with locked := erase group.locked alock }
      { ledger with
        held := erase ledger.held alock
        surrendered := true } nReady where
  db := counts.db
  status := counts.status
  locked := by rw [counts.locked]
  once := counts.once
  known := counts.known
  granted := fun entry member =>
    counts.granted entry (mem_of_mem_filter member)
  ids := fun entry member => counts.ids entry (mem_of_mem_filter member)
  kept := by
    intro _
    refine iff_of_false (by simp) fun all => ?_
    obtain ⟨entry, member, rfl⟩ := mem_map.mp held
    obtain ⟨other, otherMember, same⟩ := mem_map.mp (all entry.1 (counts.granted entry member))
    have different := (mem_filter.mp otherMember).2
    simp [same] at different

variable {input : GroupInput Lock}

theorem groupStep_eq {group' : ALockGroup Lock} (stepEq : step group input = some (events, group'))
    :
    groupStep locks (group, ledger) input =
      some (verdicts events (ledger.next locks events input).held, group',
        ledger.next locks events input) := by
  rw [groupStep, stepEq]
  rfl

theorem groupStep_inStep (distinct : locks.Nodup) {log : List (Verdict Lock)}
    {state : ALockGroup Lock × Ledger Lock} (inStep : InStep locks log state)
    (allowed : groupAllows locks state input) :
    ∃ outputs state', groupStep locks state input = some (outputs, state') ∧
      InStep locks (log ++ outputs) state' := by
  obtain ⟨group, ledger⟩ := state
  rcases inStep with ⟨rfl, counts, few⟩ | ⟨verdict, rfl, settled⟩
  · have incomplete : ¬ ledger.Complete locks := by
      rw [complete_iff_length distinct counts.once counts.known]
      exact Nat.ne_of_lt few
    cases input with
    | yes alock id =>
      obtain ⟨asked, unanswered, nonzero⟩ := allowed
      obtain ⟨events, group', triggerEq, next⟩ :=
        (counts.yes asked unanswered nonzero).trigger_eq distinct (by simp)
      have stepEq : step group (.yes alock id) = some (events, group') := triggerEq
      exact ⟨_, _, groupStep_eq stepEq, next⟩
    | no alock =>
      obtain ⟨asked, unanswered⟩ := allowed
      obtain ⟨events, group', triggerEq, next⟩ :=
        (counts.no asked unanswered).trigger_eq distinct (by simp)
      have stepEq : step group (.no alock) = some (events, group') := triggerEq
      exact ⟨_, _, groupStep_eq stepEq, next⟩
    | wound alock ret =>
      refine ⟨[], _, rfl, .inl ⟨rfl, ?_⟩⟩
      by_cases gives : ret = 0
      · simp only [woundCb, Ledger.next, gives, if_true, incomplete,
          not_false_eq_true, decide_true, Bool.or_true]
        exact ⟨counts.wound allowed, few⟩
      · simp only [woundCb, Ledger.next, gives, if_false]
        exact ⟨counts, few⟩
    | unlockAll =>
      have isLock : group.status = .lock := allowed
      rw [counts.status] at isLock
      split at isLock <;> cases isLock
  · have complete := settled.complete
    cases input with
    | yes alock id => exact absurd (complete alock allowed.1) allowed.2.1
    | no alock => exact absurd (complete alock allowed.1) allowed.2
    | wound alock ret =>
      refine ⟨[], _, rfl, .inr ⟨verdict, rfl, ?_⟩⟩
      by_cases gives : ret = 0
      · simp only [Ledger.next, gives, if_true, complete, not_true_eq_false,
          decide_false, Bool.or_false]
        exact ⟨complete, settled.answer, settled.refused, settled.kept⟩
      · simp only [Ledger.next, gives, if_false]
        exact settled
    | unlockAll =>
      have isLock : group.status = .lock := allowed
      have stepEq : step group .unlockAll = some (abortAllLocked group,
          { group with status := .unlock }) := if_pos isLock
      have silent : ∀ held, verdicts (abortAllLocked group) held = [] := by
        simp [verdicts, abortAllLocked, filterMap_map]
      refine ⟨_, _, groupStep_eq stepEq, .inr ⟨verdict, by rw [silent]; rfl,
        complete, settled.answer, settled.refused, settled.kept⟩⟩

end Answers

/-- Whoever calls `yes_cb` has all the locks, whoever calls `no_cb` has none. -/
def AllOrNothing (locks : List Lock) (verdict : Verdict Lock) : Prop :=
  match verdict.answer with
  | .yes => ∀ alock ∈ locks, alock ∈ verdict.held.map Prod.fst
  | .no => verdict.held = []

omit [DecidableEq Lock] in
theorem Settled.allOrNothing_iff {locks : List Lock} {ledger : Ledger Lock}
    {verdict : Verdict Lock} (settled : Settled locks ledger verdict) :
    AllOrNothing locks verdict ↔
      ledger.refused = true ∨ ledger.surrendered = false := by
  have answer := settled.answer
  cases refused : ledger.refused with
  | true =>
    rw [refused] at answer
    refine iff_of_true ?_ (.inl rfl)
    simp only [AllOrNothing, answer]
    exact settled.refused refused
  | false =>
    rw [refused] at answer
    simp only [AllOrNothing, answer, Bool.false_eq_true, if_false, false_or]
    exact (settled.kept refused).symm

theorem foldlM_add (asked : List (Lock × LockType)) {group : ALockGroup Lock}
    (status : group.status = .init) (distinct : ((group.tolock ++ asked).map Prod.fst).Nodup) :
    asked.foldlM (fun group request => add group request.1 request.2) group =
      some { group with tolock := group.tolock ++ asked } := by
  induction asked generalizing group with
  | nil => simp
  | cons request asked ih =>
    have unknown : request.1 ∉ group.tolock.map Prod.fst := by
      rw [map_append, nodup_append] at distinct
      exact fun member => distinct.2.2 _ member _ (by simp) rfl
    have same : erase group.tolock request.1 = group.tolock := by
      refine filter_eq_self.mpr fun entry member => ?_
      have other : entry.1 ≠ request.1 := by
        intro same
        exact unknown (same ▸ mem_map_of_mem member)
      simp [other]
    have addEq : add group request.1 request.2 =
        some { group with tolock := group.tolock ++ [request] } := by
      rw [add, if_pos (.inl status), assign, same]
    rw [append_cons] at distinct
    rw [foldlM_cons, addEq, Option.bind_eq_bind, Option.bind_some]
    have restEq := ih (show ALockGroup.status { group with
      tolock := group.tolock ++ [request] } = .init from status) distinct
    simpa using restEq

theorem start_eq {asked : List (Lock × LockType)} (distinct : (asked.map Prod.fst).Nodup) :
    start asked = some ⟨.wait, [], [], some ⟨asked.length, 0, false⟩⟩ := by
  have addEq := foldlM_add asked (show (fresh : ALockGroup Lock).status = .init
    from rfl) (by simpa [fresh] using distinct)
  rw [start, addEq]
  rfl

/-- A group calls one of its callbacks once, with the last answer.  It then has
all of the locks or none of them, exactly if a lock was refused or none was lost
while others had not answered. -/
theorem group_all_or_nothing_iff (asked : List (Lock × LockType))
    (nonempty : asked ≠ []) (distinct : (asked.map Prod.fst).Nodup)
    (group : ALockGroup Lock) (started : start asked = some group) (inputs : List (GroupInput Lock))
    (admissible : Admissible (groupStep (asked.map Prod.fst))
      (groupAllows (asked.map Prod.fst)) (group, Ledger.nothing) inputs) :
    ∃ log state, run (groupStep (asked.map Prod.fst))
        (group, Ledger.nothing) inputs = some (log, state) ∧
      (¬ state.2.Complete (asked.map Prod.fst) → log = []) ∧
      (state.2.Complete (asked.map Prod.fst) → ∃ verdict, log = [verdict] ∧
        verdict.answer = (if state.2.refused then .no else .yes) ∧
        (AllOrNothing (asked.map Prod.fst) verdict ↔
          state.2.refused = true ∨ state.2.surrendered = false)) := by
  rw [start_eq distinct] at started
  cases started
  have begun : InStep (asked.map Prod.fst) []
      (⟨.wait, [], [], some ⟨asked.length, 0, false⟩⟩, Ledger.nothing) := by
    refine .inl ⟨rfl, ⟨by simp [Ledger.nothing], rfl, rfl, by simp [Ledger.nothing],
      by simp [Ledger.nothing], by simp [Ledger.nothing],
      by simp [Ledger.nothing], by simp [Ledger.nothing]⟩, ?_⟩
    simpa [Ledger.nothing] using length_pos_iff.mpr nonempty
  have preserved : ∀ log state input, InStep (asked.map Prod.fst) log state →
      groupAllows (asked.map Prod.fst) state input →
        ∃ outputs next, groupStep (asked.map Prod.fst) state input = some (outputs, next) ∧
            InStep (asked.map Prod.fst) (log ++ outputs) next :=
    fun _ _ _ inStep allowed => groupStep_inStep distinct inStep allowed
  obtain ⟨log, state, runEq, inStep⟩ := run_of_admissible preserved [] begun inputs admissible
  refine ⟨log, state, runEq, ?_⟩
  rw [nil_append] at inStep
  rcases inStep with ⟨rfl, counts, few⟩ | ⟨verdict, rfl, settled⟩
  · refine ⟨fun _ => rfl, fun complete => ?_⟩
    rw [complete_iff_length distinct counts.once counts.known] at complete
    omega
  · exact ⟨fun incomplete => absurd settled.complete incomplete, fun _ =>
      ⟨verdict, rfl, settled.answer, settled.allOrNothing_iff⟩⟩

def bothGranted : List (GroupInput Nat) := [.yes 0 1, .yes 1 4]

theorem group_all_or_nothing_bothGranted :
    ∃ log state, run (groupStep [0, 1])
        (⟨.wait, [], [], some ⟨2, 0, false⟩⟩, Ledger.nothing) bothGranted = some (log, state) ∧
      (¬ state.2.Complete [0, 1] → log = []) ∧
      (state.2.Complete [0, 1] → ∃ verdict, log = [verdict] ∧
        verdict.answer = (if state.2.refused then .no else .yes) ∧
        (AllOrNothing [0, 1] verdict ↔
          state.2.refused = true ∨ state.2.surrendered = false)) :=
  group_all_or_nothing_iff [(0, .wlock), (1, .wlock)] (by decide) (by decide) _
    rfl bothGranted (by decide +kernel)

/-- A holder of the lock 0 with priority 5 gives way to a request with priority
1, as a wound-die lock lets it.  If it belongs to a group that still waits for
the lock 1, the group calls `yes_cb` when it has lost the lock 0. -/
theorem wounded_group_says_yes :
    ((run WoundDie.step WoundDie.fresh
      [.vlock .wlock 5 "group" (fun _ => 0),
        .vlock .wlock 1 "other" (fun _ => 0)]).map fun result => result.1) =
      some [.answered ⟨1, "group", .yes⟩, .wounded 1 "group" 0, .answered ⟨2, "other", .yes⟩] ∧
    ((start [(0, .wlock), (1, .wlock)]).bind fun group =>
      (run (groupStep [0, 1]) (group, Ledger.nothing)
        [.yes 0 1, .wound 0 0, .yes 1 1]).map fun result => result.1) =
      some [⟨.yes, [(1, 1)]⟩] := by
  decide +kernel

end SRPC.LockGroup
