import Mathlib.Data.List.Nodup
import Mathlib.Data.List.Perm.Basic
import SRPC.IndexedLists
import SRPC.RemoteLogOrder

/-! # Runs of remote logging -/

namespace SRPC.RemoteLog

open OrderedSets TransitionRuns List

variable {Source Message : Type} [DecidableEq Source]

section Entries

variable {source other : Source}

@[simp]
theorem ofSource_append (first second : List (Entry Source Message)) :
    ofSource source (first ++ second) = ofSource source first ++ ofSource source second := by
  simp [ofSource]

@[simp]
theorem ofSource_map (pieces : List (LogPiece Message)) :
    ofSource source (pieces.map fun piece => (source, piece)) = pieces := by
  simp [ofSource, filter_map, Function.comp_def]

@[simp]
theorem ofSource_singleton (piece : LogPiece Message) :
    ofSource source [(source, piece)] = [piece] := by
  simp [ofSource]

theorem ofSource_map_of_ne (ne : other ≠ source) (pieces : List (LogPiece Message)) :
    ofSource other (pieces.map fun piece => (source, piece)) = [] := by
  simp [ofSource, filter_map, Function.comp_def, ne.symm]

theorem ofSource_singleton_of_ne (ne : other ≠ source)
    (piece : LogPiece Message) : ofSource other [(source, piece)] = [] :=
  ofSource_map_of_ne ne [piece]

theorem ofSource_perm {first second : List (Entry Source Message)} (perm : first.Perm second) :
    (ofSource source first).Perm (ofSource source second) := (perm.filter _).map _

end Entries

/-- The messages of a source, arrived or not, have different numbers below its
counter. -/
structure System.Numbered (system : System Source Message) (source : Source) : Prop where
  counter : 0 ≤ system.msgCounter source
  below : ∀ piece ∈ ofSource source (system.arrived ++ system.inFlight),
    0 ≤ piece.msgId ∧ piece.msgId < system.msgCounter source
  distinct : ((ofSource source (system.arrived ++ system.inFlight)).map LogPiece.msgId).Nodup

/-- Message 1 was written before message 0. -/
def Overtaken (lines : List (LogPiece Message)) : Prop :=
  ∃ before piece after, lines = before ++ piece :: after ∧ piece.msgId = 1 ∧
    ∀ other ∈ before, other.msgId ≠ 0

theorem Overtaken.append {lines : List (LogPiece Message)}
    (overtaken : Overtaken lines) (more : List (LogPiece Message)) : Overtaken (lines ++ more) := by
  obtain ⟨before, piece, after, rfl, second, noFirst⟩ := overtaken
  exact ⟨before, piece, after ++ more, by simp, second, noFirst⟩

/-- The lines of the source are those below a first missing number. -/
def System.Reaches (system : System Source Message) (source : Source) : Prop :=
  ∃ count, Reached count (ofSource source system.lines)
    (ofSource source system.arrived) (system.service.buffer source) (system.service.done source)

/-- The lines of a source follow the numbers, or one was overtaken. -/
structure System.Invariant (system : System Source Message) : Prop where
  numbered : ∀ source, system.Numbered source
  tracked : ∀ source, system.Reaches source ∨ Overtaken (ofSource source system.lines)

namespace System

variable {system : System Source Message} {source other : Source}
  {piece : LogPiece Message} {index : Nat}

theorem start_reaches (source : Source) : (start : System Source Message).Reaches source :=
  ⟨0, ⟨rfl, List.Pairwise.nil, forall_mem_nil _, fun _ => forall_mem_nil _, rfl, .refl _⟩⟩

theorem start_invariant : (start : System Source Message).Invariant where
  numbered _ := ⟨le_refl _, forall_mem_nil _, nodup_nil⟩
  tracked source := .inl (start_reaches source)

theorem Reaches.inOrder (reaches : system.Reaches source) : system.InOrder source := by
  obtain ⟨count, reached⟩ := reaches
  refine ⟨?_, reached.once, ?_⟩
  · have ids : ((ofSource source system.lines).map LogPiece.msgId).Pairwise (· < ·) := by
      rw [reached.ids, pairwise_map]
      exact pairwise_lt_range.imp fun less => by omega
    exact pairwise_map.mp ids
  · intro piece arrived
    constructor
    · intro held
      exact ⟨count, by omega, reached.above piece held, reached.count_not_arrived⟩
    · rintro ⟨id, positive, less, missing⟩
      rcases mem_append.mp (reached.once.mem_iff.mpr arrived) with
        written | held
      · have inRange : piece.msgId ∈ (ofSource source system.lines).map LogPiece.msgId :=
          mem_map_of_mem written
        rw [reached.ids] at inRange
        obtain ⟨n, inside, same⟩ := mem_map.mp inRange
        have below := mem_range.mp inside
        exact absurd (reached.mem_ids_iff.mpr (.inl ⟨positive, by omega⟩)) missing
      · exact held

theorem Numbered.not_inOrder (numbered : system.Numbered source)
    (overtaken : Overtaken (ofSource source system.lines)) : ¬ system.InOrder source := by
  intro inOrder
  obtain ⟨before, piece, after, split, second, noFirst⟩ := overtaken
  have written : piece ∈ ofSource source system.lines := by simp [split]
  by_cases first : 0 ∈ (ofSource source system.arrived).map LogPiece.msgId
  · obtain ⟨zero, arrived, isFirst⟩ := mem_map.mp first
    have notHeld : zero ∉ system.service.buffer source := by
      intro held
      obtain ⟨id, positive, less, -⟩ := (inOrder.held zero arrived).mp held
      omega
    have zeroWritten := (mem_append.mp (inOrder.once.mem_iff.mpr arrived)).resolve_right notHeld
    have increasing := inOrder.increasing
    rw [split] at zeroWritten increasing
    rcases mem_append.mp zeroWritten with early | late
    · exact noFirst zero early isFirst
    · rcases mem_cons.mp late with rfl | behind
      · omega
      · have ordered := (pairwise_append.mp increasing).2.1
        have := (pairwise_cons.mp ordered).1 zero behind
        omega
  · have arrived : piece ∈ ofSource source system.arrived :=
      inOrder.once.mem_iff.mp (mem_append_left _ written)
    have held := (inOrder.held piece arrived).mpr ⟨0, by omega, by omega, first⟩
    have distinct : (ofSource source system.arrived).Nodup := by
      have nodup := numbered.distinct
      rw [ofSource_append, map_append] at nodup
      exact List.Nodup.of_map _ (nodup_append.mp nodup).1
    have twice := (inOrder.once.nodup_iff.mpr distinct)
    exact (nodup_append.mp twice).2.2 _ written _ held rfl

theorem Invariant.reaches (invariant : system.Invariant)
    (inOrder : system.InOrder source) : system.Reaches source :=
  (invariant.tracked source).resolve_right fun overtaken =>
    (invariant.numbered source).not_inOrder overtaken inOrder

theorem Numbered.logV (numbered : system.Numbered source) (level : BitVec 32) (message : Message) :
    (system.logV source level message).Numbered source := by
  have counter : (system.logV source level message).msgCounter source =
      system.msgCounter source + 1 := Function.update_self ..
  have messages : ofSource source ((system.logV source level message).arrived ++
      (system.logV source level message).inFlight) =
    ofSource source (system.arrived ++ system.inFlight) ++
      [⟨system.msgCounter source, level, message⟩] := by
    simp [System.logV]
  have positive := numbered.counter
  refine ⟨by omega, ?_, ?_⟩
  · rw [messages, counter]
    refine forall_mem_concat (fun piece old => ?_) ⟨positive, Int.lt_succ _⟩
    have := numbered.below piece old
    omega
  · rw [messages]
    exact nodup_map_concat numbered.distinct fun piece old =>
      Int.ne_of_lt (numbered.below piece old).2

theorem Invariant.logV (invariant : system.Invariant) (source : Source)
    (level : BitVec 32) (message : Message) : (system.logV source level message).Invariant := by
  refine ⟨fun other => ?_, invariant.tracked⟩
  by_cases same : other = source
  · subst same
    exact (invariant.numbered other).logV level message
  · obtain ⟨counter, below, distinct⟩ := invariant.numbered other
    have messages : ofSource other
        ((system.logV source level message).arrived ++
          (system.logV source level message).inFlight) =
        ofSource other (system.arrived ++ system.inFlight) := by
      simp [System.logV, ofSource_singleton_of_ne same]
    have kept : (system.logV source level message).msgCounter other =
        system.msgCounter other := Function.update_of_ne same ..
    exact ⟨by rwa [kept], by rwa [messages, kept], by rwa [messages]⟩

section Delivery

variable {entry : Entry Source Message}

theorem deliver_self (system : System Source Message) (index : Nat) (entry : Entry Source Message) :
    ofSource entry.1 (system.deliver index entry).lines =
        ofSource entry.1 system.lines ++ (receive (system.service.done entry.1)
          (system.service.buffer entry.1) entry.2).1 ∧
      ofSource entry.1 (system.deliver index entry).arrived =
        ofSource entry.1 system.arrived ++ [entry.2] ∧
      (system.deliver index entry).service.done entry.1 =
        (receive (system.service.done entry.1) (system.service.buffer entry.1) entry.2).2.1 ∧
      (system.deliver index entry).service.buffer entry.1 =
        (receive (system.service.done entry.1) (system.service.buffer entry.1) entry.2).2.2 := by
  have single : ofSource entry.1 [entry] = [entry.2] := ofSource_singleton entry.2
  simp [deliver, RLogServiceImpl.log, single]

theorem deliver_of_ne (system : System Source Message) (index : Nat) (ne : other ≠ entry.1) :
    ofSource other (system.deliver index entry).lines = ofSource other system.lines ∧
      ofSource other (system.deliver index entry).arrived = ofSource other system.arrived ∧
      (system.deliver index entry).service.done other = system.service.done other ∧
      (system.deliver index entry).service.buffer other = system.service.buffer other := by
  have single : ofSource other [entry] = [] := ofSource_singleton_of_ne ne entry.2
  simp [deliver, RLogServiceImpl.log, single, ofSource_map_of_ne ne, Function.update_of_ne ne]

theorem Reaches.deliver_of_ne (reaches : system.Reaches other) (index : Nat)
    (ne : other ≠ entry.1) : (system.deliver index entry).Reaches other := by
  obtain ⟨lines, arrived, done, buffer⟩ := system.deliver_of_ne index ne
  rw [Reaches, lines, arrived, done, buffer]
  exact reaches

theorem Numbered.deliver (numbered : system.Numbered other)
    (found : system.inFlight[index]? = some entry) :
    (system.deliver index entry).Numbered other := by
  obtain ⟨inside, rfl⟩ := List.getElem?_eq_some_iff.mp found
  have taken : ((system.deliver index system.inFlight[index]).arrived ++
      (system.deliver index system.inFlight[index]).inFlight).Perm
        (system.arrived ++ system.inFlight) := by
    show (system.arrived ++ [system.inFlight[index]] ++ system.inFlight.eraseIdx index).Perm _
    rw [append_assoc]
    exact (getElem_cons_eraseIdx_perm inside).append_left _
  have messages : (ofSource other _).Perm (ofSource other _) := ofSource_perm taken
  refine ⟨numbered.counter, fun piece member => ?_, ?_⟩
  · exact numbered.below piece (messages.mem_iff.mp member)
  · exact (messages.map _).nodup_iff.mpr numbered.distinct

theorem Numbered.fresh (numbered : system.Numbered entry.1)
    (found : system.inFlight[index]? = some entry) :
    0 ≤ entry.2.msgId ∧
      entry.2.msgId ∉ (ofSource entry.1 system.arrived).map LogPiece.msgId := by
  have sent : entry.2 ∈ ofSource entry.1 system.inFlight := by
    refine mem_map.mpr ⟨entry, mem_filter.mpr ⟨?_, by simp⟩, rfl⟩
    exact mem_of_getElem? found
  have distinct := numbered.distinct
  rw [ofSource_append, map_append] at distinct
  refine ⟨(numbered.below entry.2 ?_).1, fun arrived => ?_⟩
  · rw [ofSource_append]
    exact mem_append_right _ sent
  · exact (nodup_append.mp distinct).2.2 _ arrived _ (mem_map_of_mem sent) rfl

theorem Reaches.deliver (reaches : system.Reaches entry.1) (numbered : system.Numbered entry.1)
    (found : system.inFlight[index]? = some entry)
    (ordered : entry.2.msgId = 1 →
      0 ∈ (ofSource entry.1 system.arrived).map LogPiece.msgId) :
    (system.deliver index entry).Reaches entry.1 := by
  obtain ⟨count, reached⟩ := reaches
  obtain ⟨positive, fresh⟩ := numbered.fresh found
  obtain ⟨count, written, done, rest, eq, next⟩ := reached.receives fresh positive ordered
  obtain ⟨lines, arrived, doneEq, bufferEq⟩ := system.deliver_self index entry
  refine ⟨count, ?_⟩
  rw [lines, arrived, doneEq, bufferEq, eq]
  exact next

theorem Reaches.overtaken (reaches : system.Reaches entry.1) (index : Nat)
    (second : entry.2.msgId = 1)
    (missing : 0 ∉ (ofSource entry.1 system.arrived).map LogPiece.msgId) :
    Overtaken (ofSource entry.1 (system.deliver index entry).lines) := by
  obtain ⟨count, reached⟩ := reaches
  obtain ⟨none, written, eq⟩ := reached.overtakes second missing
  obtain ⟨lines, -⟩ := system.deliver_self index entry
  rw [lines, none, eq]
  exact ⟨[], entry.2, written, rfl, second, forall_mem_nil _⟩

theorem Invariant.deliver (invariant : system.Invariant)
    (found : system.inFlight[index]? = some entry) : (system.deliver index entry).Invariant := by
  refine ⟨fun other => (invariant.numbered other).deliver found, fun other => ?_⟩
  by_cases same : other = entry.1
  · subst same
    rcases invariant.tracked entry.1 with reaches | overtaken
    · by_cases ordered : entry.2.msgId = 1 →
          0 ∈ (ofSource entry.1 system.arrived).map LogPiece.msgId
      · exact .inl (reaches.deliver (invariant.numbered entry.1) found ordered)
      · obtain ⟨second, missing⟩ := Classical.not_imp.mp ordered
        exact .inr (reaches.overtaken index second missing)
    · right
      rw [(system.deliver_self index entry).1]
      exact overtaken.append _
  · rw [(system.deliver_of_ne index same).1]
    exact (invariant.tracked other).imp_left fun reaches =>
      reaches.deliver_of_ne index same

end Delivery

variable {input : Input Source Message} {written : List (Entry Source Message)}
  {next : System Source Message}

/-- Every step keeps the lines in step with the numbers. -/
theorem Invariant.step (invariant : system.Invariant)
    (stepEq : system.step input = some (written, next)) : next.Invariant := by
  cases input with
  | logV source level message =>
    cases stepEq
    exact invariant.logV source level message
  | arrive index =>
    rw [System.step] at stepEq
    split at stepEq
    · cases stepEq
      exact invariant
    · rename_i entry found
      cases stepEq
      exact invariant.deliver found

theorem Invariant.step_inOrder (invariant : system.Invariant)
    (inOrder : ∀ source, system.InOrder source) (ordered : system.FirstBeforeSecond input) :
    ∃ written next, system.step input = some (written, next) ∧
      ∀ source, next.InOrder source := by
  cases input with
  | logV source level message =>
    refine ⟨[], _, rfl, fun source => ?_⟩
    exact ⟨(inOrder source).increasing, (inOrder source).once, (inOrder source).held⟩
  | arrive index =>
    cases found : system.inFlight[index]? with
    | none => exact ⟨[], system, by simp [System.step, found], inOrder⟩
    | some entry =>
      refine ⟨(system.service.log entry.1 entry.2).1,
        system.deliver index entry, by simp [System.step, found], fun other => ?_⟩
      have reaches := invariant.reaches (inOrder other)
      by_cases same : other = entry.1
      · subst same
        exact (reaches.deliver (invariant.numbered entry.1) found (ordered entry found)).inOrder
      · exact (reaches.deliver_of_ne index same).inOrder

theorem Invariant.step_inOrder_only (invariant : system.Invariant)
    (stepEq : system.step input = some (written, next)) (inOrder : ∀ source, next.InOrder source) :
    (∀ source, system.InOrder source) ∧ system.FirstBeforeSecond input := by
  have nextInvariant := invariant.step stepEq
  have notOvertaken (source : Source) :
      ¬ Overtaken (ofSource source next.lines) := fun overtaken =>
    (nextInvariant.numbered source).not_inOrder overtaken (inOrder source)
  cases input with
  | logV source level message =>
    cases stepEq
    refine ⟨fun source => ?_, trivial⟩
    exact ⟨(inOrder source).increasing, (inOrder source).once, (inOrder source).held⟩
  | arrive index =>
    rw [System.step] at stepEq
    split at stepEq
    · rename_i none
      cases stepEq
      exact ⟨inOrder, fun entry found => by rw [none] at found; cases found⟩
    · rename_i entry found
      cases stepEq
      have reaches (other : Source) : system.Reaches other := by
        refine (invariant.tracked other).resolve_right fun overtaken => ?_
        refine notOvertaken other ?_
        by_cases same : other = entry.1
        · subst same
          rw [(system.deliver_self index entry).1]
          exact overtaken.append _
        · rw [(system.deliver_of_ne index same).1]
          exact overtaken
      refine ⟨fun other => (reaches other).inOrder, ?_⟩
      intro taken atIndex second
      obtain rfl : entry = taken := by
        rw [found] at atIndex
        exact Option.some.inj atIndex
      by_contra missing
      exact notOvertaken entry.1 ((reaches entry.1).overtaken index second missing)

end System

/-- The lines of every source are written in order, each once and as early as
possible, exactly in the runs in which the second message of every source
arrives after its first. -/
theorem log_inOrder_iff (Source Message : Type) [DecidableEq Source]
    (inputs : List (Input Source Message)) :
    (∃ written last, run System.step System.start inputs =
        some (written, last) ∧ ∀ source, System.InOrder last source) ↔
      Admissible System.step System.FirstBeforeSecond System.start inputs := by
  have intact : ∀ source, (System.start : System Source Message).InOrder source :=
    fun source => (System.start_reaches source).inOrder
  have kept (system : System Source Message) (input : Input Source Message)
      (written : List (Entry Source Message)) (next : System Source Message)
      (invariant : system.Invariant)
      (stepEq : system.step input = some (written, next)) : next.Invariant := invariant.step stepEq
  have runs := run_intact_iff kept
    (fun _ _ invariant inOrder ordered =>
      invariant.step_inOrder inOrder ordered)
    (fun _ _ _ _ invariant stepEq inOrder =>
      invariant.step_inOrder_only stepEq inOrder)
    System.start_invariant inputs
  exact runs.trans (and_iff_right intact)

/-- The second message arrives first. -/
def overtakingInputs : List (Input Unit Unit) :=
  [.logV () 0 (), .logV () 0 (), .arrive 1, .arrive 0]

/-- Message 1 arrives first and is written first. -/
theorem overtakingInputs_out_of_order :
    ∃ written last, run System.step System.start overtakingInputs = some (written, last) ∧
      written.map (fun entry => entry.2.msgId) = [1, 0] ∧
      ¬ System.InOrder last () := by
  refine ⟨_, _, rfl, rfl, fun inOrder => ?_⟩
  have increasing : List.Pairwise (· < ·) [(1 : Int), 0] := pairwise_map.mpr inOrder.increasing
  exact absurd increasing (by decide)

end SRPC.RemoteLog
