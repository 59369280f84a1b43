import SRPC.Recorder

/-! # Runs of the recorder -/

namespace SRPC.Recording

open LittleEndian Marshalling TransitionRuns List

variable {Callback : Type}

section Batches

theorem intOf_eq (size : Nat) :
    intOf size = if 2 * (size % 2 ^ 32) < 2 ^ 32 then ((size % 2 ^ 32 : Nat) : Int)
      else ((size % 2 ^ 32 : Nat) : Int) - 2 ^ 32 := by
  rw [intOf, BitVec.toInt_eq_toNat_cond, BitVec.toNat_ofNat]
  rfl

theorem intOf_eq_self_iff (size : Nat) : intOf size = size ↔ size < 2 ^ 31 := by
  rw [intOf_eq]
  split <;> omega

variable {size : Nat}

theorem intOf_of_small (small : size < 2 ^ 31) : intOf size = size :=
  (intOf_eq_self_iff size).mpr small

theorem intOf_eq_zero (zero : intOf size = 0) : size = 0 ∨ 2 ^ 32 ≤ size := by
  rw [intOf_eq] at zero
  split at zero <;> omega

@[simp]
theorem payloads_append (first second : List (IoReq Callback)) :
    payloads (first ++ second) = payloads first ++ payloads second := flatMap_append

@[simp]
theorem callbacks_append (first second : List (IoReq Callback)) :
    callbacks (first ++ second) = callbacks first ++ callbacks second := filterMap_append

theorem writeReqs_eq {cntFlush szFlush : Nat} (file : List Byte)
    (cnt : cntFlush < 2 ^ 31) (sz : szFlush < 2 ^ 31) (reqs : List (IoReq Callback)) :
    Recorder.writeReqs file cntFlush szFlush reqs =
      if cntFlush + reqs.length < 2 ^ 31 ∧
          szFlush + (payloads reqs).length < 2 ^ 31 then
        some (file ++ payloads reqs)
      else none := by
  induction reqs generalizing file cntFlush szFlush with
  | nil => rw [if_pos ⟨cnt, sz⟩, payloads, flatMap_nil, append_nil, Recorder.writeReqs]
  | cons req reqs ih =>
    have total : (payloads (req :: reqs)).length = req.first.length + (payloads reqs).length := by
      simp [payloads]
    rw [Recorder.writeReqs, length_cons, total]
    split
    · rename_i fits
      rw [ih _ fits.2.1 fits.2.2]
      simp only [payloads, flatMap_cons, append_assoc, Nat.add_assoc, Nat.add_comm 1]
    · rename_i overflow
      rw [intOf_eq_self_iff] at overflow
      rw [if_neg (by omega)]

/-- The counters of `flush_buf` do not overflow. -/
def Recorder.SmallBatch (recorder : Recorder Callback) : Prop :=
  recorder.flushReqs.length < 2 ^ 31 ∧ (payloads recorder.flushReqs).length < 2 ^ 31

instance (recorder : Recorder Callback) : Decidable recorder.SmallBatch :=
  inferInstanceAs (Decidable (_ ∧ _))

variable {recorder later : Recorder Callback}

theorem writeReqs_batch (recorder : Recorder Callback) :
    Recorder.writeReqs recorder.file 0 0 recorder.flushReqs =
      if recorder.SmallBatch then
        some (recorder.file ++ payloads recorder.flushReqs)
      else none := by
  rw [writeReqs_eq _ (by decide) (by decide), Nat.zero_add, Nat.zero_add]
  rfl

/-- All that is queued has been written. -/
def Recorder.flushAll (recorder : Recorder Callback) : Recorder Callback where
  flushReqs := []
  callbackReqs := recorder.callbackReqs ++ recorder.flushReqs
  file := recorder.file ++ payloads recorder.flushReqs

theorem flushBuf_of_small (small : recorder.SmallBatch) :
    recorder.flushBuf = some recorder.flushAll := by
  have sz := intOf_of_small small.1
  have batch := writeReqs_batch recorder
  rw [if_pos small] at batch
  simp only [Recorder.flushBuf, sz, batch]
  by_cases none : recorder.flushReqs = []
  · simp [none, Recorder.flushAll, payloads]
  · have positive : 0 < recorder.flushReqs.length := length_pos_iff.mpr none
    rw [if_neg (by omega), if_pos (by omega)]
    rfl

theorem flushBuf_eq_some (eq : recorder.flushBuf = some later) :
    (recorder.SmallBatch ∧ later = recorder.flushAll) ∨
      (2 ^ 32 ≤ recorder.flushReqs.length ∧ later = recorder) := by
  by_cases small : recorder.SmallBatch
  · rw [flushBuf_of_small small] at eq
    exact .inl ⟨small, (Option.some.inj eq).symm⟩
  · right
    simp only [Recorder.flushBuf, writeReqs_batch, if_neg small] at eq
    split at eq
    · rename_i zero
      refine ⟨(intOf_eq_zero zero).resolve_left fun none => small ?_, ?_⟩
      · have nil := eq_nil_of_length_eq_zero none
        simp [Recorder.SmallBatch, nil, payloads]
      · rw [zero, if_neg (by decide)] at eq
        exact (Option.some.inj eq).symm
    · cases eq

theorem invokeCb_of_counted (counted :
    intOf recorder.callbackReqs.length ≤ 0 → recorder.callbackReqs = []) :
    recorder.invokeCb = some (callbacks recorder.callbackReqs,
      { recorder with callbackReqs := [] }) := by
  by_cases positive : 0 < intOf recorder.callbackReqs.length
  · rw [Recorder.invokeCb]
    simp only [if_neg (Int.ne_of_gt positive), if_pos positive]
  · obtain ⟨flushReqs, callbackReqs, file⟩ := recorder
    obtain rfl : callbackReqs = [] := counted (Int.not_lt.mp positive)
    rfl

theorem counted_of_invokeCb {run : List Callback} (eq : recorder.invokeCb = some (run, later))
    (done : later.callbackReqs = []) (small : intOf recorder.callbackReqs.length ≤ 0) :
    recorder.callbackReqs = [] := by
  simp only [Recorder.invokeCb] at eq
  split at eq
  · cases eq
    exact done
  · rw [if_neg (Int.not_lt.mpr small)] at eq
    cases eq

end Batches

section Marshals

variable {heap : Heap} {m : Marshal}

/-- `assert(n_write > 0)` fails if nothing is written to an empty marshal with
room in its last chunk. -/
theorem write_nil_of_chunk (sound : Sound heap m) (none : m.content heap = [])
    (some : m.chunks ≠ []) : m.write heap [] = Option.none := by
  obtain ⟨front, last, chunks⟩ := (eq_nil_or_concat' m.chunks).resolve_left some
  have member : last ∈ m.chunks := by simp [chunks]
  have valid := sound.wellFormed.valid last member
  have unread := sound.wellFormed.unread last member
  have notFull : ¬ last.writeIdx = last.size heap := by
    have noCells : m.cells = [] := map_eq_nil_iff.mp none
    have length := last.length_cells
    rw [flatMap_eq_nil_iff.mp noCells last member, length_nil]
      at length
    omega
  obtain ⟨first, rest, cons⟩ := exists_cons_of_ne_nil some
  have chainWrite : Chain.write heap m.toChain [] = Option.none := by
    rw [Chain.write, cons]
    simp only [sound.wellFormed.splitTail chunks, some_bind, Chunk.fullyWritten_eq valid, notFull,
      Chunk.write_eq valid, beq_iff_eq, if_false]
    simp [guard]
  simp [Marshal.write, chainWrite]

theorem write_nil_of_empty (sound : Sound heap m) (none : m.chunks = []) :
    ∃ heap' m', m.write heap [] = some (0, heap', m') := by
  have noTail : m.tail = Option.none := by simp [sound.wellFormed.tail, none]
  have grows := grows_appendNew sound.wellFormed (by simp [none]) []
  have wrote : Chain.write heap m.toChain [] = some (Chain.appendNew heap m.chunks []) := by
    rw [Chain.write, none]
    simp [noTail]
  obtain ⟨m', writeEq, -⟩ := sound.write_of_grows wrote grows (map_byte_appendNew heap [] m.chunks)
  exact ⟨_, m', writeEq⟩

theorem submitMarshal_of_fits (recorder : Recorder Callback)
    (marshal : SoundMarshal) (cb : Option Callback)
    (fits : marshal.content = [] → marshal.m.chunks = []) :
    ∃ heap m, recorder.submitMarshal marshal.heap marshal.m cb =
      some (heap, m, recorder.submit (List.replicate marshal.content.length 0) cb) := by
  have sound := marshal.sound
  obtain ⟨heap, m, writeEq⟩ : ∃ heap m, marshal.m.write marshal.heap
      (List.replicate marshal.content.length 0) = some (marshal.content.length, heap, m) := by
    by_cases none : marshal.content = []
    · rw [none]
      exact write_nil_of_empty sound (fits none)
    · have zeros : List.replicate marshal.content.length (0 : Byte) ≠ [] := by
        simpa using none
      obtain ⟨heap, m, -, writeEq, -⟩ := sound.write_eq zeros
      exact ⟨heap, m, by simpa using writeEq⟩
  refine ⟨heap, m, ?_⟩
  have length : marshal.content.length = marshal.m.contentSize := sound.length_content
  rw [length] at writeEq ⊢
  simp only [Recorder.submitMarshal, sound.getContentSize_eq, writeEq, some_bind]
  rfl

theorem submitMarshal_eq_some {recorder later : Recorder Callback} {marshal : SoundMarshal}
    {cb : Option Callback}
    (eq : recorder.submitMarshal marshal.heap marshal.m cb = some (heap, m, later)) :
    (marshal.content = [] → marshal.m.chunks = []) ∧
      later = recorder.submit (List.replicate marshal.content.length 0) cb := by
  by_cases fits : marshal.content = [] → marshal.m.chunks = []
  · obtain ⟨heap, m, submitEq⟩ := submitMarshal_of_fits recorder marshal cb fits
    rw [submitEq] at eq
    cases eq
    exact ⟨fits, rfl⟩
  · obtain ⟨none, some⟩ := Classical.not_imp.mp fits
    have size : marshal.m.contentSize = 0 := by
      rw [← marshal.sound.length_content]
      exact length_eq_zero_iff.mpr none
    simp [Recorder.submitMarshal, marshal.sound.getContentSize_eq, size,
      write_nil_of_chunk marshal.sound none some] at eq

end Marshals

namespace System

variable {system : System Callback}

theorem start_faithful : (start : System Callback).Faithful :=
  ⟨rfl, rfl, Nat.le_refl _, Nat.le_refl _, rfl, rfl⟩

theorem faithful_submit_iff (faithful : system.Faithful) (taken meant : IoReq Callback) :
    ({ system with
      recorder := system.recorder.submit taken.first taken.second
      submitted := system.submitted ++ [meant] } : System Callback).Faithful ↔ taken = meant := by
  have known := faithful.known
  have called := Nat.le_trans faithful.written known
  have queue : (system.recorder.submit taken.first taken.second).flushReqs =
      system.submitted.drop system.flushed ++ [taken] := by
    rw [← faithful.queued]
    rfl
  constructor
  · intro next
    have queued : _ = (system.submitted ++ [meant]).drop system.flushed :=
      next.queued
    rw [queue, drop_append_of_le_length known] at queued
    exact singleton_inj.mp (append_cancel_left queued)
  · rintro rfl
    refine ⟨?_, ?_, faithful.written, ?_, ?_, ?_⟩
    · rw [take_append_of_le_length known]
      exact faithful.file
    · rw [take_append_of_le_length called]
      exact faithful.ran
    · rw [length_append]
      exact Nat.le_add_right_of_le known
    · rw [take_append_of_le_length known]
      exact faithful.waiting
    · rw [queue, drop_append_of_le_length known]

theorem Faithful.flushAll (faithful : system.Faithful) :
    ({ system with
      recorder := system.recorder.flushAll
      flushed := system.submitted.length } : System Callback).Faithful := by
  have all : system.submitted.take system.submitted.length = system.submitted := take_length
  have called : system.called ≤ (system.submitted.take system.flushed).length := by
    rw [length_take]
    exact Nat.le_min.mpr ⟨faithful.written, Nat.le_trans faithful.written faithful.known⟩
  refine ⟨?_, faithful.ran, Nat.le_trans faithful.written faithful.known, Nat.le_refl _, ?_, ?_⟩
  · show system.recorder.file ++ payloads system.recorder.flushReqs = _
    rw [all, faithful.file, faithful.queued, ← payloads_append, take_append_drop]
  · show system.recorder.callbackReqs ++ system.recorder.flushReqs = _
    rw [all, faithful.waiting, faithful.queued, ← drop_append_of_le_length called, take_append_drop]
  · exact drop_length.symm

theorem Faithful.invokeAll (faithful : system.Faithful) :
    ({ system with
      recorder := { system.recorder with callbackReqs := [] }
      called := system.flushed
      ran := system.ran ++ callbacks system.recorder.callbackReqs } :
        System Callback).Faithful := by
  refine ⟨faithful.file, ?_, Nat.le_refl _, faithful.known, ?_, faithful.queued⟩
  · have front : (system.submitted.take system.flushed).take system.called =
        system.submitted.take system.called := by
      rw [take_take, Nat.min_eq_left faithful.written]
    rw [faithful.ran, faithful.waiting, ← callbacks_append, ← front, take_append_drop]
  · exact (drop_eq_nil_of_le (length_take_le ..)).symm

/-- Every step keeps the order of the requests. -/
theorem Faithful.step (system : System Callback) (input : Input Callback)
    (faithful : system.Faithful) (allowed : system.Allows input) :
    ∃ run next, system.step input = some (run, next) ∧ next.Faithful := by
  cases input with
  | submit buf cb =>
    exact ⟨_, _, rfl, (faithful_submit_iff faithful ⟨buf, cb⟩ _).mpr rfl⟩
  | submitMarshal marshal cb =>
    obtain ⟨zeros, fits⟩ := allowed
    obtain ⟨heap, m, submitEq⟩ := submitMarshal_of_fits system.recorder marshal cb fits
    refine ⟨_, _, by rw [System.step, submitEq]; rfl,
      (faithful_submit_iff faithful ⟨_, cb⟩ _).mpr ?_⟩
    rw [← eq_replicate_of_mem zeros]
  | flushBuf =>
    exact ⟨_, _, by rw [System.step, flushBuf_of_small allowed]; rfl, faithful.flushAll⟩
  | invokeCb =>
    exact ⟨_, _, by rw [System.step, invokeCb_of_counted allowed]; rfl, faithful.invokeAll⟩

theorem Faithful.allows (system : System Callback) (input : Input Callback)
    (run : List Callback) (next : System Callback) (faithful : system.Faithful)
    (stepEq : system.step input = some (run, next))
    (nextFaithful : next.Faithful) : system.Allows input := by
  cases input with
  | submit buf cb => trivial
  | submitMarshal marshal cb =>
    obtain ⟨result, submitEq, same⟩ := Option.map_eq_some_iff.mp stepEq
    cases same
    obtain ⟨fits, later⟩ := submitMarshal_eq_some submitEq
    rw [later] at nextFaithful
    have meant := (faithful_submit_iff faithful
      ⟨List.replicate marshal.content.length 0, cb⟩ _).mp nextFaithful
    refine ⟨fun byte member => ?_, fits⟩
    rw [← (IoReq.mk.inj meant).1] at member
    exact eq_of_mem_replicate member
  | flushBuf =>
    obtain ⟨later, flushEq, same⟩ := Option.map_eq_some_iff.mp stepEq
    cases same
    rcases flushBuf_eq_some flushEq with ⟨small, -⟩ | ⟨many, rfl⟩
    · exact small
    · have none : system.recorder.flushReqs = [] := nextFaithful.queued.trans drop_length
      simp [none] at many
  | invokeCb =>
    obtain ⟨result, invokeEq, same⟩ := Option.map_eq_some_iff.mp stepEq
    cases same
    refine counted_of_invokeCb invokeEq (nextFaithful.waiting.trans ?_)
    exact drop_eq_nil_of_le (length_take_le ..)

theorem called_of_settled {before : List (Input Callback)}
    {log : List Callback} {last : System Callback}
    (runEq : run step start (before ++ [.flushBuf, .invokeCb]) =
      some (log, last)) : last.called = last.submitted.length := by
  obtain ⟨_, middle, later, _, endEq, -⟩ := run_append_eq_some runEq
  obtain ⟨_, flushed, rest, flushEq, restEq, -⟩ := run_cons_eq_some endEq
  obtain ⟨_, final, rest, invokeEq, doneEq, -⟩ := run_cons_eq_some restEq
  cases doneEq
  obtain ⟨recorder, -, same⟩ := Option.map_eq_some_iff.mp flushEq
  cases same
  obtain ⟨result, -, same⟩ := Option.map_eq_some_iff.mp invokeEq
  cases same
  rfl

end System

/-- In every state of a run the file holds the payloads that were flushed, in
the order of their submission, and callbacks have run for an initial part of
them only, in that order and once; after `flush_buf` and `invoke_cb` all have
run.  This is so exactly if every marshal that is submitted holds nothing but
zeros, besides bounds of the counters. -/
theorem recorder_faithful_iff (Callback : Type) (inputs : List (Input Callback)) :
    (∀ first second, inputs = first ++ second → ∃ ran last,
        run System.step System.start first = some (ran, last) ∧
        System.Faithful last ∧
        ∀ before, first = before ++ [.flushBuf, .invokeCb] →
          last.ran = callbacks last.submitted) ↔
      Admissible System.step System.Allows System.start inputs := by
  have always := always_intact_iff System.Faithful.step System.Faithful.allows
    System.start_faithful inputs
  constructor
  · intro held
    refine always.mp fun first second split => ?_
    obtain ⟨ran, last, runEq, faithful, -⟩ := held first second split
    exact ⟨ran, last, runEq, faithful⟩
  · intro admissible first second split
    obtain ⟨ran, last, runEq, faithful⟩ := always.mpr admissible first second split
    refine ⟨ran, last, runEq, faithful, ?_⟩
    rintro before rfl
    rw [faithful.ran, System.called_of_settled runEq, take_length]

/-- The recorder writes a zero for a marshal that holds a one. -/
theorem recorder_writes_zero :
    ∃ (marshal : SoundMarshal) (last : System Unit), marshal.content = [1] ∧
      run System.step System.start [.submitMarshal marshal none, .flushBuf] = some ([], last) ∧
      last.recorder.file = [0] ∧ ¬ last.Faithful := by
  obtain ⟨heap, m, added, -, sound, grows, held, -⟩ :=
    (sound_empty blankHeap).write_eq (cons_ne_nil (1 : Byte) [])
  let marshal : SoundMarshal := ⟨heap, m, sound⟩
  have content : marshal.content = [1] := by
    show m.cells.map heap.byte = [1]
    rw [grows.cells, ← held]
    rfl
  obtain ⟨heap', m', submitEq⟩ := submitMarshal_of_fits
    (System.start : System Unit).recorder marshal none (by simp [content])
  rw [content] at submitEq
  refine ⟨marshal, ⟨⟨[], [⟨[0], none⟩], [0]⟩, [⟨[1], none⟩], 1, 0, []⟩, content,
    ?_, rfl, fun faithful => ?_⟩
  · simp only [run, System.step, submitEq, content, Option.map_some]
    rfl
  · exact absurd faithful.file (by decide)

end SRPC.Recording
