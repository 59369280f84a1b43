import Mathlib.Data.List.Count
import Mathlib.Data.List.Nodup
import SRPC.EventOrder
import SRPC.MprDagRuns

/-! # Serialisation of conflicting items -/

namespace SRPC.MprDag

open FaultContracts SharedQueues TransitionRuns EventOrder List

variable {QueueId Data : Type}

namespace System

variable {system next : System QueueId Data} {log events : List Event} {index : Nat}

section Whitening

/-- An item becomes white once, and then it is white, handed out or popped. -/
structure WhiteOnce (log : List Event) (system : System QueueId Data) : Prop where
  once : ∀ index, log.count (.whitened index) ≤ 1
  below : ∀ index, .whitened index ∈ log → index < system.items.length
  known : ∀ index, .whitened index ∈ log → index ∈ system.live →
    index ∈ system.dag.qu ++ system.handed

theorem count_whitened (new : List Nat) (index : Nat) :
    (new.map Event.whitened).count (.whitened index) = new.count index :=
  count_map_of_injective _ _ (fun _ _ same => Event.whitened.inj same) _

theorem exists_whitened {before after : Dag QueueId Data} (more : before.qu <+: after.qu) :
    ∃ new, after.qu = before.qu ++ new ∧
      whitened before after = new.map .whitened := by
  obtain ⟨new, grown⟩ := more
  exact ⟨new, grown.symm, by simp [whitened, ← grown]⟩

theorem WhiteOnce.append (white : WhiteOnce log system) {new : List Nat}
    (grown : next.dag.qu = system.dag.qu ++ new)
    (counts : ∀ index, events.count (.whitened index) = new.count index)
    (longer : system.items.length ≤ next.items.length)
    (known : ∀ index ∈ next.dag.qu ++ next.handed, index ∈ next.live ∧ index < next.items.length)
    (once : (next.dag.qu ++ next.handed).Nodup)
    (live : ∀ index ∈ next.live, index < system.items.length →
      index ∈ system.live ∧
        (index ∈ system.handed → index ∈ next.handed)) : WhiteOnce (log ++ events) next := by
  have isNew (index : Nat) (member : .whitened index ∈ events) : index ∈ new := by
    have positive := count_pos_iff.mpr member
    rw [counts] at positive
    exact count_pos_iff.mp positive
  rw [grown] at known once
  obtain ⟨quNew, -, apartHanded⟩ := nodup_append.mp once
  obtain ⟨-, newOnce, apart⟩ := nodup_append.mp quNew
  have kept (index : Nat) (member : .whitened index ∈ log) (inLive : index ∈ next.live) :
      index ∈ system.dag.qu ∨ index ∈ next.handed := by
    obtain ⟨wasLive, wasHanded⟩ := live index inLive (white.below index member)
    exact (mem_append.mp (white.known index member wasLive)).imp_right wasHanded
  refine ⟨fun index => ?_, fun index member => ?_, fun index member inLive => ?_⟩
  · rw [count_append, counts]
    by_cases inNew : index ∈ new
    · have fresh : .whitened index ∉ log := by
        intro member
        have inLive := (known index (by simp [inNew])).1
        rcases kept index member inLive with old | out
        · exact apart index old index inNew rfl
        · exact apartHanded index (mem_append_right _ inNew) index out rfl
      rw [count_eq_zero_of_not_mem fresh, Nat.zero_add]
      exact nodup_iff_count_le_one.mp newOnce index
    · rw [count_eq_zero_of_not_mem inNew, Nat.add_zero]
      exact white.once index
  · rcases mem_append.mp member with old | late
    · exact Nat.lt_of_lt_of_le (white.below index old) longer
    · exact (known index (by simp [isNew index late])).2
  · rw [grown]
    rcases mem_append.mp member with old | late
    · rcases kept index old inLive with inQu | out
      · simp [inQu]
      · simp [out]
    · simp [isNew index late]

end Whitening

section Handling

/-- Items that share a queue are handed out one after the other. -/
structure InOrder (log : List Event) (system : System QueueId Data) : Prop where
  sent : ∀ index, .handedOut index ∈ log → index < system.items.length
  out : ∀ index ∈ system.handed, .handedOut index ∈ log
  done : ∀ index < system.items.length, index ∉ system.live → .popped index ∈ log
  inOrder : ∀ later, ∀ index < later, system.Shares index later →
    Precedes log (.popped index) (.handedOut later)
  popOrder : ∀ index, Precedes log (.handedOut index) (.popped index)

theorem InOrder.push (order : InOrder log system) (qids : List QueueId)
    (same : system.items.length = system.dag.nodes.length) (dag : Dag QueueId Data)
    (noneOut : ∀ index, .handedOut index ∉ events) (nonePopped : ∀ index, .popped index ∉ events) :
    InOrder (log ++ events) { system with
      dag := dag
      items := system.items ++ [qids]
      live := system.live ++ [system.dag.nodes.length] } := by
  have old (index : Nat) (member : .handedOut index ∈ log ++ events) : .handedOut index ∈ log :=
    (mem_append.mp member).resolve_right (noneOut index)
  refine ⟨fun index member => ?_, fun index out => ?_, fun index below gone => ?_,
    fun later index less shares => ?_, fun index => ?_⟩
  · rw [length_append]
    exact Nat.lt_add_right _ (order.sent index (old index member))
  · exact mem_append_left _ (order.out index out)
  · rw [length_append, length_singleton] at below
    rw [mem_append, mem_singleton, not_or] at gone
    exact mem_append_left _ (order.done index (by omega) gone.1)
  · by_cases sent : .handedOut later ∈ log
    · have below := order.sent later sent
      obtain ⟨qid, first, second⟩ := shares
      have wereShared : system.Shares index later := by
        refine ⟨qid, ?_, ?_⟩
        · rw [ids, ← ids_concat_of_lt qids (Nat.lt_trans less below)]
          exact first
        · rw [ids, ← ids_concat_of_lt qids below]
          exact second
      exact (order.inOrder later index less wereShared).append (noneOut later)
    · exact precedes_of_not_mem (fun member => sent (old later member)) _
  · exact (order.popOrder index).append (nonePopped index)

theorem InOrder.handOut (order : InOrder log system) (dag : Dag QueueId Data)
    (below : index < system.items.length)
    (free : ∀ other < index, system.Shares other index →
      other ∉ system.live) :
    InOrder (log ++ [.handedOut index]) { system with
      dag := dag
      handed := system.handed ++ [index] } := by
  refine ⟨fun other member => ?_, fun other out => ?_, fun other known gone => ?_,
    fun later other less shares => ?_, fun other => ?_⟩
  · rcases mem_append.mp member with old | new
    · exact order.sent other old
    · obtain rfl : other = index := by simpa using new
      exact below
  · rcases mem_append.mp out with old | new
    · exact mem_append_left _ (order.out other old)
    · rw [mem_singleton.mp new]
      exact mem_append_right _ mem_cons_self
  · exact mem_append_left _ (order.done other known gone)
  · have before := order.inOrder later other less shares
    by_cases same : later = index
    · subst same
      exact before.concat (order.done other (Nat.lt_trans less below) (free other less shares))
    · exact before.append (by simpa using same)
  · exact (order.popOrder other).append (by simp)

theorem InOrder.pop (order : InOrder log system) (dag : Dag QueueId Data)
    (out : index ∈ system.handed) (distinct : system.live.Nodup)
    (noneOut : ∀ other, .handedOut other ∉ events) (nonePopped : ∀ other, .popped other ∉ events) :
    InOrder (log ++ (events ++ [.popped index])) { system with
      dag := dag
      live := system.live.erase index
      handed := system.handed.erase index } := by
  have quiet (other : Nat) : .handedOut other ∉ events ++ [.popped index] := by
    simp [noneOut other]
  refine ⟨fun other member => ?_, fun other left => ?_, fun other below gone => ?_,
    fun later other less shares => ?_, fun other => ?_⟩
  · exact order.sent other ((mem_append.mp member).resolve_right (quiet other))
  · exact mem_append_left _ (order.out other (mem_of_mem_erase left))
  · by_cases same : other = index
    · simp [same]
    · refine mem_append_left _ (order.done other below fun inLive => gone ?_)
      exact distinct.mem_erase_iff.mpr ⟨same, inLive⟩
  · exact (order.inOrder later other less shares).append (quiet later)
  · rw [← append_assoc]
    have before := (order.popOrder other).append (nonePopped other)
    by_cases same : other = index
    · subst same
      exact before.concat (mem_append_left _ (order.out other out))
    · exact before.append (by simpa using same)

end Handling

variable [DecidableEq QueueId]

/-- The log fits the state of the dag. -/
structure Recorded (log : List Event) (system : System QueueId Data) : Prop where
  invariant : system.Invariant
  white : WhiteOnce log system
  order : InOrder log system

theorem start_recorded : Recorded [] (start : System QueueId Data) where
  invariant := start_invariant
  white := ⟨fun _ => Nat.zero_le _, fun _ member => absurd member not_mem_nil,
    fun _ member => absurd member not_mem_nil⟩
  order := ⟨fun _ member => absurd member not_mem_nil,
    forall_mem_nil _, fun _ below => absurd below (Nat.not_lt_zero _),
    fun _ _ _ _ => precedes_of_not_mem not_mem_nil _, fun _ => precedes_of_not_mem not_mem_nil _⟩

theorem Invariant.known (invariant : system.Invariant) :
    ∀ index ∈ system.dag.qu ++ system.handed,
      index ∈ system.live ∧ index < system.items.length := by
  intro index member
  have inLive := invariant.colored.known index member
  refine ⟨inLive, ?_⟩
  rw [invariant.count]
  exact invariant.below index inLive

variable {dag : Dag QueueId Data}

theorem Recorded.push (recorded : Recorded log system) {qids : List QueueId}
    (pushed : system.Pushed qids dag) :
    Recorded (log ++ .pushed system.dag.nodes.length ::
        whitened system.dag dag)
      { system with
        dag := dag
        items := system.items ++ [qids]
        live := system.live ++ [system.dag.nodes.length] } := by
  obtain ⟨new, grown, eventsEq⟩ := exists_whitened pushed.more
  have count := recorded.invariant.count
  refine ⟨pushed.invariant, ?_, ?_⟩
  · refine recorded.white.append grown (fun index => ?_) (by simp)
      pushed.invariant.known pushed.invariant.colored.once fun index inLive below => ⟨?_, id⟩
    · rw [eventsEq, count_cons_of_ne (by simp), count_whitened]
    · refine (mem_append.mp inLive).resolve_right fun last => ?_
      rw [mem_singleton.mp last, count] at below
      exact Nat.lt_irrefl _ below
  · rw [eventsEq]
    exact recorded.order.push qids count dag (by simp) (by simp)

theorem Recorded.getwhite (recorded : Recorded log system) {handedOut : Option Nat}
    (invariant : ({ system with
      dag := dag
      handed := system.handed ++ handedOut.toList } : System QueueId Data).Invariant)
    (taken : system.dag.qu = handedOut.toList ++ dag.qu) :
    Recorded (log ++ handedOut.toList.map .handedOut) { system with
      dag := dag
      handed := system.handed ++ handedOut.toList } := by
  have moved : (dag.qu ++ (system.handed ++ handedOut.toList)).Perm
      (system.dag.qu ++ system.handed) := by
    rw [taken, ← append_assoc, append_assoc handedOut.toList]
    exact perm_append_comm
  have quiet (index : Nat) : .whitened index ∉ handedOut.toList.map Event.handedOut := by
    simp
  refine ⟨invariant, ⟨fun index => ?_, fun index member => ?_, fun index member inLive => ?_⟩, ?_⟩
  · rw [count_append, count_eq_zero_of_not_mem (quiet index), Nat.add_zero]
    exact recorded.white.once index
  · exact recorded.white.below index ((mem_append.mp member).resolve_right (quiet index))
  · exact moved.mem_iff.mpr (recorded.white.known index
      ((mem_append.mp member).resolve_right (quiet index)) inLive)
  · cases handedOut with
    | none =>
      have order := recorded.order
      rw [Option.toList_none, map_nil, append_nil, append_nil]
      exact ⟨order.sent, order.out, order.done, order.inOrder, order.popOrder⟩
    | some index =>
      have known : index ∈ system.dag.qu ++ system.handed := by simp [taken]
      obtain ⟨inLive, below⟩ := recorded.invariant.known index known
      refine recorded.order.handOut dag below ?_
      rintro other less ⟨qid, first, second⟩ stillLive
      have ready := (recorded.invariant.colored.ready index inLive).mp (mem_append.mp known)
      have after := ready.first recorded.invariant.sorted second stillLive
        first (Nat.ne_of_lt less)
      exact Nat.lt_asymm less after

theorem Recorded.pop (recorded : Recorded log system)
    {result : Nat × Data × Dag QueueId Data} (out : index ∈ system.handed)
    (popped : system.Popped index result) :
    Recorded (log ++ (whitened system.dag result.2.2 ++ [.popped index]))
      { system with
        dag := result.2.2
        live := system.live.erase index
        handed := system.handed.erase index } := by
  obtain ⟨new, grown, eventsEq⟩ := exists_whitened popped.more
  have distinct := recorded.invariant.distinct
  refine ⟨popped.invariant, ?_, ?_⟩
  · refine recorded.white.append grown (fun other => ?_) (Nat.le_refl _)
      popped.invariant.known popped.invariant.colored.once fun other inLive _ => ?_
    · have quiet : .whitened other ∉ [Event.popped index] := by simp
      rw [eventsEq, count_append, count_whitened, count_eq_zero_of_not_mem quiet, Nat.add_zero]
    · obtain ⟨ne, wasLive⟩ := distinct.mem_erase_iff.mp inLive
      exact ⟨wasLive, (mem_erase_of_ne ne).mpr⟩
  · rw [eventsEq]
    exact recorded.order.pop result.2.2 out distinct (by simp) (by simp)

/-- Every call keeps the order of the items. -/
theorem Recorded.step (log : List Event) (system : System QueueId Data)
    (input : Input QueueId Data) (recorded : Recorded log system) (allowed : system.Allows input) :
    ∃ events next, system.step input = some (events, next) ∧
      Recorded (log ++ events) next := by
  obtain ⟨proper, fits⟩ := allowed
  have ensured : Ensures (· = Fault.full) (system.stepExcept input)
      fun result => Recorded (log ++ result.1) result.2 := by
    cases input with
    | push qids data =>
      exact (recorded.invariant.push proper.1 proper.2 data).bind
        fun dag pushed => recorded.push pushed
    | getwhite =>
      obtain ⟨handedOut, dag, getEq, invariant, taken⟩ := recorded.invariant.getwhite
      rw [stepExcept, getEq]
      exact recorded.getwhite invariant taken
    | pop qids =>
      obtain ⟨index, out, own⟩ := proper
      refine (recorded.invariant.pop out own).bind fun result popped => ?_
      obtain ⟨retNode, data, dag⟩ := result
      obtain rfl : retNode = index := popped.retNode
      exact recorded.pop out popped
  obtain ⟨result, stepEq, next⟩ := ensured.returns fun fault stopped full => by
    rw [stopped, full] at fits
    exact fits
  exact ⟨result.1, result.2, by rw [System.step, stepEq]; rfl, next⟩

theorem Recorded.serialised (recorded : Recorded log system) : system.Serialised log := by
  have colored := recorded.invariant.colored
  have readyOf {index : Nat} (out : index ∈ system.handed) : Ready system.live system.ids index :=
    (colored.ready index (colored.known index (mem_append_right _ out))).mp (.inr out)
  refine ⟨recorded.white.once, fun index inLive => ?_, ?_, ?_, fun some => ?_⟩
  · rw [colored.ready index inLive]
    exact forall₂_congr fun qid _ => by rw [recorded.invariant.holds.contents]
  · intro before after later split index less shares
    exact (recorded.order.popOrder index).trans
      (recorded.order.inOrder later index less shares) split
  · rintro first firstOut second secondOut ⟨qid, inFirst, inSecond⟩
    exact (readyOf firstOut).eq (readyOf secondOut) inFirst inSecond
  · obtain ⟨index, rest, live⟩ := exists_cons_of_ne_nil some
    have inLive : index ∈ system.live := by simp [live]
    refine ⟨index, inLive, (colored.ready index inLive).mpr ?_⟩
    rw [live]
    exact ready_head index rest _

end System

/-- Every run of `mpr_dag_push`, `mpr_dag_getwhite` and `mpr_dag_pop`, in any
order and without a queue that runs out of room, serialises the items that share
a queue, and no `SAFE_ASSERT` fails. -/
theorem conflicting_items_serialised (QueueId Data : Type)
    [DecidableEq QueueId] (inputs : List (Input QueueId Data))
    (admissible : Admissible System.step System.Allows System.start inputs) :
    ∃ log last, run System.step System.start inputs = some (log, last) ∧
      System.Serialised log last := by
  obtain ⟨log, last, runEq, recorded⟩ := run_of_admissible
    System.Recorded.step [] System.start_recorded inputs admissible
  exact ⟨log, last, runEq, recorded.serialised⟩

def sampleInputs : List (Input Nat Unit) :=
  [.push [1, 2] (), .push [2, 3, 1] (), .push [3] (), .getwhite, .pop [2, 1],
    .getwhite, .pop [2, 3, 1], .getwhite, .pop [3]]

theorem conflicting_items_serialised_sample :
    ∃ log last, run System.step System.start sampleInputs = some (log, last) ∧
      System.Serialised log last :=
  conflicting_items_serialised Nat Unit sampleInputs (by decide +kernel)

end SRPC.MprDag
