import SRPC.RemoteLog

/-!
# The order of remote log lines

As long as the first message of a source arrives before its second one, the
lines of the source are those with the numbers below the first that has not
arrived.
-/

namespace SRPC.RemoteLog

open OrderedSets TransitionRuns List

variable {Message : Type}

theorem writeDue_eq {done : Int} {buffer : List (LogPiece Message)}
    (increasing : Increasing LogPiece.msgId buffer) (above : ∀ piece ∈ buffer, done < piece.msgId) :
    ∃ written rest, writeDue done buffer = (written, done + written.length, rest) ∧
      buffer = written ++ rest ∧
      written.map LogPiece.msgId =
        ((List.range written.length).map fun n : Nat => done + 1 + (n : Int)) ∧
      ∀ piece ∈ rest, done + written.length + 1 < piece.msgId := by
  induction buffer generalizing done with
  | nil => exact ⟨[], [], by simp [writeDue], rfl, rfl, forall_mem_nil _⟩
  | cons piece buffer ih =>
    obtain ⟨before, increasingRest⟩ := pairwise_cons.mp increasing
    have more : done < piece.msgId := above piece mem_cons_self
    rw [writeDue]
    split
    · rename_i due
      have next : piece.msgId = done + 1 := by omega
      have larger : max done piece.msgId = done + 1 := by omega
      obtain ⟨written, rest, eq, split, ids, behind⟩ :=
        @ih (done + 1) increasingRest fun other member => by
          have := before other member
          omega
      refine ⟨piece :: written, rest, ?_, by rw [split]; rfl, ?_, ?_⟩
      · rw [larger, eq]
        simp only [length_cons]
        congr 2
        omega
      · rw [map_cons, ids, length_cons, range_succ_eq_map, map_cons, map_map, next]
        congr 1
        · omega
        · apply map_congr_left
          intro n _
          simp only [Function.comp_apply]
          omega
      · intro other member
        have := behind other member
        simp only [length_cons]
        omega
    · rename_i early
      refine ⟨[], piece :: buffer, by simp, rfl, rfl, ?_⟩
      intro other member
      rw [length_nil]
      rcases mem_cons.mp member with rfl | later
      · omega
      · have := before other later
        omega

/-- The lines have the numbers below `count`, and what has arrived besides is
held back behind a message that has not. -/
structure Reached (count : Nat) (lines arrived buffer : List (LogPiece Message))
    (done : Int) : Prop where
  ids : lines.map LogPiece.msgId = (List.range count).map Nat.cast
  increasing : Increasing LogPiece.msgId buffer
  above : ∀ piece ∈ buffer, (count : Int) < piece.msgId
  second : count = 0 → ∀ piece ∈ buffer, piece.msgId ≠ 1
  done : done = ((count - 1 : Nat) : Int)
  once : (lines ++ buffer).Perm arrived

namespace Reached

variable {count : Nat} {lines arrived buffer : List (LogPiece Message)}
  {done : Int} {piece : LogPiece Message}

section

variable (reached : Reached count lines arrived buffer done)

include reached

theorem mem_ids_iff {id : Int} : id ∈ arrived.map LogPiece.msgId ↔
      (0 ≤ id ∧ id < count) ∨ id ∈ buffer.map LogPiece.msgId := by
  rw [← (reached.once.map LogPiece.msgId).mem_iff, map_append, mem_append, reached.ids]
  apply or_congr_left
  simp only [mem_map, mem_range]
  constructor
  · rintro ⟨n, less, rfl⟩
    omega
  · rintro ⟨positive, less⟩
    exact ⟨id.toNat, by omega, by omega⟩

theorem count_not_arrived : (count : Int) ∉ arrived.map LogPiece.msgId := by
  rw [reached.mem_ids_iff]
  rintro (⟨-, less⟩ | held)
  · omega
  · obtain ⟨piece, member, same⟩ := mem_map.mp held
    have := reached.above piece member
    omega

theorem holds (fresh : piece.msgId ∉ arrived.map LogPiece.msgId)
    (later : (count : Int) < piece.msgId) (notSecond : count = 0 → piece.msgId ≠ 1) :
    receive done buffer piece = ([], done, insert LogPiece.msgId piece buffer) ∧
      Reached count lines (arrived ++ [piece]) (insert LogPiece.msgId piece buffer) done := by
  have absent : ∀ other ∈ buffer, other.msgId ≠ piece.msgId :=
    fun other member same => fresh (reached.mem_ids_iff.mpr
      (.inr (mem_map.mpr ⟨other, member, same⟩)))
  have above : ∀ other ∈ insert LogPiece.msgId piece buffer, (count : Int) < other.msgId := by
    intro other member
    rcases mem_of_mem_insert member with rfl | old
    · exact later
    · exact reached.above other old
  have second : count = 0 → ∀ other ∈ insert LogPiece.msgId piece buffer, other.msgId ≠ 1 := by
    intro none other member
    rcases mem_of_mem_insert member with rfl | old
    · exact notSecond none
    · exact reached.second none other old
  refine ⟨?_, reached.ids, reached.increasing.insert piece, above, second, reached.done, ?_⟩
  · rw [receive]
    cases inserted : insert LogPiece.msgId piece buffer with
    | nil => rfl
    | cons first rest =>
      have member : first ∈ insert LogPiece.msgId piece buffer := by
        rw [inserted]
        exact mem_cons_self
      have behind := above first member
      have notDue : ¬ first.msgId ≤ done + 1 := by
        rw [reached.done]
        by_cases none : count = 0
        · have := second none first member
          omega
        · omega
      rw [writeDue, if_neg notDue]
  · have inserted := (insert_perm absent).append_left lines
    have moved : (lines ++ piece :: buffer).Perm (lines ++ buffer ++ [piece]) := by
      rw [append_assoc]
      exact (perm_append_singleton piece buffer).symm.append_left lines
    exact inserted.trans (moved.trans (reached.once.append_right [piece]))

theorem releases (missing : piece.msgId = count) :
    ∃ written later rest, receive done buffer piece = (written, later, rest) ∧
      Reached (count + written.length) (lines ++ written) (arrived ++ [piece]) rest later := by
  have front : insert LogPiece.msgId piece buffer = piece :: buffer :=
    insert_of_before fun other member => by
      rw [missing]
      exact reached.above other member
  have due : piece.msgId ≤ done + 1 := by
    rw [missing, reached.done]
    omega
  have larger : max done piece.msgId = (count : Int) := by
    rw [missing, reached.done]
    omega
  obtain ⟨written, rest, eq, split, ids, behind⟩ := writeDue_eq reached.increasing reached.above
  refine ⟨piece :: written, count + written.length, rest, ?_, ?_, ?_, ?_, ?_, ?_, ?_⟩
  · rw [receive, front, writeDue, if_pos due, larger, eq]
  · rw [map_append, map_cons, reached.ids, ids, length_cons,
      Nat.add_comm written.length 1, ← Nat.add_assoc, range_add,
      range_succ, map_append, map_append, append_assoc, missing]
    congr 1
    rw [map_map]
    simp only [map_cons, map_nil, singleton_append]
    congr 1
  · have increasing := reached.increasing
    rw [split] at increasing
    exact (pairwise_append.mp increasing).2.1
  · intro other member
    have := behind other member
    simp only [length_cons]
    omega
  · intro none
    simp at none
  · simp only [length_cons]
    omega
  · rw [append_assoc, cons_append, ← split]
    have moved : (lines ++ piece :: buffer).Perm (lines ++ buffer ++ [piece]) := by
      rw [append_assoc]
      exact (perm_append_singleton piece buffer).symm.append_left lines
    exact moved.trans (reached.once.append_right [piece])

theorem receives (fresh : piece.msgId ∉ arrived.map LogPiece.msgId) (positive : 0 ≤ piece.msgId)
    (ordered : piece.msgId = 1 → 0 ∈ arrived.map LogPiece.msgId) :
    ∃ count written later rest, receive done buffer piece = (written, later, rest) ∧
      Reached count (lines ++ written) (arrived ++ [piece]) rest later := by
  have notBefore : ¬ piece.msgId < count := fun less =>
    fresh (reached.mem_ids_iff.mpr (.inl ⟨positive, less⟩))
  by_cases missing : piece.msgId = count
  · obtain ⟨written, later, rest, eq, next⟩ := reached.releases missing
    exact ⟨_, written, later, rest, eq, next⟩
  · have notSecond : count = 0 → piece.msgId ≠ 1 := by
      rintro rfl second
      exact reached.count_not_arrived (ordered second)
    obtain ⟨eq, next⟩ := reached.holds fresh (by omega) notSecond
    exact ⟨count, [], _, _, eq, by simpa using next⟩

theorem overtakes (second : piece.msgId = 1) (missing : 0 ∉ arrived.map LogPiece.msgId) :
    lines = [] ∧ ∃ written, (receive done buffer piece).1 = piece :: written := by
  have none : count = 0 := by
    by_contra some
    exact missing (reached.mem_ids_iff.mpr (.inl ⟨by omega, by omega⟩))
  subst none
  refine ⟨map_eq_nil_iff.mp reached.ids, ?_⟩
  have front : insert LogPiece.msgId piece buffer = piece :: buffer :=
    insert_of_before fun other member => by
      have := reached.above other member
      have := reached.second rfl other member
      omega
  have due : piece.msgId ≤ done + 1 := by
    rw [second, reached.done]
    omega
  exact ⟨_, by rw [receive, front, writeDue, if_pos due]⟩

end

end Reached

end SRPC.RemoteLog
