import SRPC.TimeoutTurns

/-!
# Aborts and time-outs of the timeout lock

A request leaves the queue, or its alarm goes off.  If the last holder leaves,
those who wait get the lock.
-/

namespace SRPC.Timeout

open WaitDie List

variable {Owner : Type*} {lock : TimeoutALock Owner}
  {before after : List (ALockReq Owner)} {req : ALockReq Owner}

theorem lockAll_turns (coherent : Coherent lock) {between : TimeoutALock Owner}
    (nextId : between.nextId = lock.nextId) (fewer : between.requests.Sublist lock.requests)
    (stay : ∀ req ∈ lock.requests, req.status = .wait → req ∈ between.requests)
    (alarm : between.alarm = lock.alarm)
    (agrees : LockStatusWord.Agrees ALockReq.type .free between.nRlock
      (holders between.requests)) (free : between.status = .free) :
    Turns lock ((lockAll between).map fun (locked, lock) =>
      (locked.map ALockReq.yes, lock)) := by
  obtain ⟨nobody, none⟩ := agrees
  have distinct := (fewer.map ALockReq.id).nodup coherent.distinct
  obtain ⟨picks, status, n, locks⟩ := lockAll_locks free none distinct
  let granted := between.requests.filter picks
  let next : TimeoutALock Owner := { between with
    status := status
    nRlock := n
    requests := between.requests.map (grantIf picks)
    alarm := removeAll between.alarm granted }
  have ids : next.requests.map ALockReq.id = between.requests.map ALockReq.id := by
    rw [map_map]
    refine map_congr_left fun req _ => ?_
    simp only [Function.comp_apply, grantIf]
    split <;> rfl
  have origin : ∀ req ∈ next.requests, (req ∈ between.requests ∧ picks req = false) ∨
        ∃ old ∈ granted, req = old.withStatus .lock := by
    intro req member
    obtain ⟨old, oldMember, rfl⟩ := mem_map.mp member
    cases picked : picks old with
    | true =>
      exact .inr ⟨old, mem_filter.mpr ⟨oldMember, picked⟩,
        by simp [grantIf, picked]⟩
    | false =>
      have same : grantIf picks old = old := by simp [grantIf, picked]
      rw [same]
      exact .inl ⟨oldMember, picked⟩
  have alarmed : Alarmed between.alarm between.requests := by
    rw [alarm]
    exact coherent.alarmed.forget coherent.distinct stay fewer.subset
  refine ⟨granted.map ALockReq.yes, next, .none, granted, [], ?_, by simp, ?_,
    ?_, ?_, ?_, Nat.le_of_eq nextId.symm, by simp, ?_⟩
  · rw [locks.lockAll_eq]
    simp [granted, next, ALockReq.yes, ALockReq.withStatus, Function.comp_def]
  · rw [append_nil]
    exact (filter_sublist.map _).nodup distinct
  · intro req member
    rw [append_nil] at member
    obtain ⟨queued, picked⟩ := mem_filter.mp member
    exact ⟨by simpa using fewer.subset queued, locks.waited req queued picked⟩
  · intro req member
    obtain ⟨queued, picked⟩ := mem_filter.mp member
    exact mem_map.mpr ⟨req, queued, by simp [grantIf, picked]⟩
  · intro req member
    rcases origin req member with ⟨queued, unpicked⟩ | ⟨old, oldMember, same⟩
    · refine .inl ⟨by simpa using fewer.subset queued, ?_⟩
      rw [append_nil]
      intro picked
      rw [(mem_filter.mp picked).2] at unpicked
      cases unpicked
    · exact .inr (.inl ⟨old, oldMember, same⟩)
  · refine ⟨?_, locks.settled, ?_, ?_, ?_, ?_⟩
    · rw [holders_map_grantIf nobody]
      exact locks.agrees
    · intro req member
      rcases origin req member with ⟨queued, -⟩ | ⟨old, -, rfl⟩
      · exact coherent.kinds req (fewer.subset queued)
      · exact .inr (.inl rfl)
    · intro req member
      have idMember := mem_map_of_mem (f := ALockReq.id) member
      rw [ids] at idMember
      obtain ⟨old, oldMember, same⟩ := mem_map.mp idMember
      rw [← same]
      exact nextId ▸ coherent.older old (fewer.subset oldMember)
    · rw [ids]
      exact distinct
    · refine alarmed.settle distinct ?_ ?_ ?_
      · intro req member
        obtain ⟨queued, picked⟩ := mem_filter.mp member
        exact ⟨queued, locks.waited req queued picked⟩
      · intro req member _ notGranted
        refine mem_map.mpr ⟨req, member, ?_⟩
        have unpicked : picks req ≠ true := fun picked =>
          notGranted (mem_filter.mpr ⟨member, picked⟩)
        simp [grantIf, unpicked]
      · intro req member
        rcases origin req member with ⟨queued, unpicked⟩ | ⟨old, oldMember, rfl⟩
        · refine .inl ⟨queued, fun picked => ?_⟩
          rw [(mem_filter.mp picked).2] at unpicked
          cases unpicked
        · exact .inr ⟨by simp [ALockReq.withStatus], old, oldMember, rfl⟩

theorem Coherent.agrees_unlock (coherent : Coherent lock)
    (split : lock.requests = before ++ req :: after) (held : req.status = .lock) :
    LockStatusWord.Agrees ALockReq.type
      (if readersWithout lock.nRlock req.type = 0 then .free else lock.status)
      (readersWithout lock.nRlock req.type) (holders (before ++ after)) := by
  have agrees := coherent.agrees
  have isHeld : holders (req :: after) = req :: holders after := by
    simp [holders, isHolder, held]
  rw [split, holders_append, isHeld] at agrees
  rw [holders_append]
  cases type : req.type with
  | rlock =>
    obtain ⟨rlocked, types, count⟩ := agrees.reader type
    rw [rlocked]
    refine LockStatusWord.agrees_readers types ?_
    rw [readersWithout]
    omega
  | wlock =>
    obtain ⟨-, noneBefore, noneAfter, none⟩ := agrees.writer type
    rw [noneBefore, noneAfter]
    rw [readersWithout, if_pos none]
    exact ⟨rfl, none⟩

theorem unlock_turns (coherent : Coherent lock) (split : lock.requests = before ++ req :: after)
    (held : req.status = .lock) : Turns lock (unlock lock before req after) := by
  let between : TimeoutALock Owner := { lock with
    status :=
      if readersWithout lock.nRlock req.type = 0 then .free else lock.status
    nRlock := readersWithout lock.nRlock req.type
    requests := before ++ after }
  have agrees : LockStatusWord.Agrees ALockReq.type between.status
      between.nRlock (holders between.requests) := coherent.agrees_unlock split held
  have fewer : between.requests.Sublist lock.requests := by
    rw [split]
    exact (sublist_cons_self _ _).append_left _
  have stay : ∀ other ∈ lock.requests, other.status = .wait →
      other ∈ between.requests := by
    intro other member waits
    rw [split, mem_append, mem_cons] at member
    rw [mem_append]
    rcases member with member | rfl | member
    · exact .inl member
    · rw [held] at waits
      cases waits
    · exact .inr member
  have unlockEq : unlock lock before req after =
      if between.status = .free then
        (lockAll between).map fun (locked, lock) =>
          (locked.map ALockReq.yes, lock)
      else some ([], between) := rfl
  rw [unlockEq]
  by_cases free : between.status = .free
  · rw [if_pos free]
    rw [free] at agrees
    exact lockAll_turns coherent rfl fewer stay rfl agrees free
  · rw [if_neg free]
    have same : between.status = lock.status := if_neg fun none =>
      free (if_pos none)
    refine turns_quiet (fun other member => fewer.subset member) rfl
      ⟨agrees, ?_, fun other member => coherent.kinds other (fewer.subset member),
        fun other member => coherent.older other (fewer.subset member),
        (fewer.map _).nodup coherent.distinct, coherent.alarmed.forget coherent.distinct stay
          fun other member => fewer.subset member⟩
    rw [same]
    exact coherent.settled.mono fun other member _ => fewer.subset member

theorem abort_turns (coherent : Coherent lock) (id : Nat) : Turns lock (abort lock id) := by
  rw [abort]
  cases found : splitFirst (fun req => req.id = id) lock.requests with
  | none => exact turns_quiet (fun _ member => member) rfl coherent
  | some result =>
    obtain ⟨before, req, after⟩ := result
    obtain ⟨split, -⟩ := splitFirst_eq_some found
    have queued : ∀ other ∈ before ++ after, other ∈ lock.requests := by
      intro other member
      rw [split]
      exact mem_drop member
    rcases coherent.kinds req (by simp [split]) with waits | held | late
    · simp only [waits]
      refine turns_quiet queued rfl (coherent.drop split (by simp [waits]) ?_)
      exact coherent.alarmed_settle split waits (fun _ member => member) fun _ member => .inl member
    · simp only [held]
      exact unlock_turns coherent split held
    · simp only [late]
      refine turns_quiet queued rfl (coherent.drop split (by simp [late]) ?_)
      refine coherent.alarmed.forget coherent.distinct ?_ queued
      intro other member waits
      rw [split, mem_append, mem_cons] at member
      rw [mem_append]
      rcases member with member | rfl | member
      · exact .inl member
      · rw [late] at waits
        cases waits
      · exact .inr member

theorem timeout_turns (coherent : Coherent lock) (split : lock.requests = before ++ req :: after)
    (waits : req.status = .wait) :
    Turns lock (some ([req.no],
      { lock with
        requests := before ++ req.withStatus .timeout :: after
        alarm := lock.alarm.remove req.alarmId })) := by
  have distinct := coherent.distinct
  rw [split] at distinct
  have queued : ∀ other ∈ before ++ after, other ∈ lock.requests := by
    intro other member
    rw [split]
    exact mem_drop member
  have cases_ : ∀ other ∈ before ++ req.withStatus .timeout :: after,
      other ∈ before ++ after ∨ other = req.withStatus .timeout := by
    intro other member
    simp only [mem_append, mem_cons] at member ⊢
    tauto
  have sameIds : (before ++ req.withStatus .timeout :: after).map ALockReq.id =
      lock.requests.map ALockReq.id := by
    rw [split]
    simp [ALockReq.withStatus]
  refine ⟨_, _, none, [], [req], rfl, rfl, by simp, ?_, by simp, ?_, Nat.le_refl _, by simp, ?_⟩
  · intro other member
    have isReq : other = req := by simpa using member
    rw [isReq]
    exact ⟨by simp [split], waits⟩
  · intro other member
    rcases cases_ other member with stays | late
    · refine .inl ⟨by simpa using queued other stays, fun isReq => ?_⟩
      have isReq : other = req := by simpa using isReq
      exact not_mem_drop distinct stays (by rw [isReq])
    · exact .inr (.inr ⟨req, by simp, late⟩)
  · refine ⟨?_, ?_, ?_, ?_, sameIds ▸ coherent.distinct, ?_⟩
    · have agrees := coherent.agrees
      rw [split, holders_append, holders_cons (by simp [waits])] at agrees
      rwa [holders_append, holders_cons (by simp [ALockReq.withStatus])]
    · refine coherent.settled.mono fun other member otherWaits => ?_
      rcases cases_ other member with stays | late
      · exact queued other stays
      · rw [late] at otherWaits
        cases otherWaits
    · intro other member
      rcases cases_ other member with stays | late
      · exact coherent.kinds other (queued other stays)
      · rw [late]
        exact .inr (.inr rfl)
    · intro other member
      have idMember := mem_map_of_mem (f := ALockReq.id) member
      rw [sameIds] at idMember
      obtain ⟨old, oldMember, same⟩ := mem_map.mp idMember
      rw [← same]
      exact coherent.older old oldMember
    · refine coherent.alarmed_settle split waits ?_ ?_
      · intro other member
        rw [mem_append] at member ⊢
        exact member.imp_right (mem_cons_of_mem _)
      · intro other member
        refine (cases_ other member).imp_right fun late => ?_
        rw [late]
        exact ⟨by simp [ALockReq.withStatus], rfl⟩

variable {alarm : Alarm}

theorem turns_alarm (coherent : Coherent lock) (alarmed : Alarmed alarm lock.requests) :
    Turns lock (some ([], { lock with alarm := alarm })) :=
  turns_quiet (fun _ member => member) rfl ⟨coherent.agrees, coherent.settled,
    coherent.kinds, coherent.older, coherent.distinct, alarmed⟩

theorem Alarmed.remove_foreign {requests : List (ALockReq Owner)} (alarmed : Alarmed alarm requests)
    {entry : AlarmEntry} (member : entry ∈ alarm.waiting) (foreign : entry.request = none) :
    Alarmed (alarm.remove entry.id) requests := by
  have same : alarm.remove entry.id = removeElsewhere alarm entry.id := by
    rw [Alarm.remove, removeElsewhere]
    congr 1
    refine filter_congr fun other otherMember => ?_
    by_cases sameId : other.id = entry.id
    · rw [alarmed.entry_eq otherMember member sameId]
      simp [foreign]
    · simp [sameId]
  rw [same]
  exact alarmed.elsewhere entry.id

theorem fire_turns (coherent : Coherent lock) (alarmId : Nat) : Turns lock (fire lock alarmId) := by
  rw [fire]
  cases found : lock.alarm.waiting.find? fun entry => decide (entry.id = alarmId) with
  | none => exact turns_quiet (fun _ member => member) rfl coherent
  | some entry =>
    have member := mem_of_find?_eq_some found
    cases isOwn : entry.request with
    | none =>
      simpa [callEntry, isOwn] using turns_alarm coherent
        (coherent.alarmed.remove_foreign member isOwn)
    | some id =>
      obtain ⟨req, reqMember, reqId, waits, alarmEq⟩ :=
        coherent.alarmed.awaited entry member id isOwn
      have somewhere : splitFirst (fun req => req.id = id) lock.requests ≠ none :=
        fun nowhere => splitFirst_eq_none nowhere req reqMember reqId
      obtain ⟨⟨before, other, after⟩, splitEq⟩ := Option.ne_none_iff_exists'.mp somewhere
      obtain ⟨split, otherId, -⟩ := splitFirst_eq_some splitEq
      have same : other = req := inj_on_of_nodup_map coherent.distinct
        (by simp [split]) reqMember (otherId.trans reqId.symm)
      subst same
      have turns := timeout_turns coherent split waits
      rw [alarmEq] at turns
      simpa [callEntry, isOwn, doTimeout, splitEq, waits] using turns

theorem exeNext_turns (coherent : Coherent lock) (tmNow : Nat) :
    Turns lock (exeNext lock tmNow) := by
  rw [exeNext]
  split
  · exact turns_quiet (fun _ member => member) rfl coherent
  · split
    · exact fire_turns coherent _
    · exact turns_quiet (fun _ member => member) rfl coherent

/-- Every call of a coherent lock is a turn. -/
theorem step_turns (coherent : Coherent lock) (call : LockCall Owner) :
    Turns lock (step lock call) := by
  cases call with
  | vlock type owner tmNow => exact vlock_turns coherent type owner tmNow
  | abort id => exact abort_turns coherent id
  | fire alarmId => exact fire_turns coherent alarmId
  | exeNext tmNow => exact exeNext_turns coherent tmNow
  | addElsewhere time =>
    have nobody : ∀ req ∈ ([] : List (ALockReq Owner)),
        req.status = .wait ∧ req.alarmId = lock.alarm.nextId ∧ none = some req.id := by simp
    have alarmed := coherent.alarmed.add time nobody (by simp)
    rw [append_nil] at alarmed
    exact turns_alarm coherent alarmed
  | removeElsewhere alarmId =>
    exact turns_alarm coherent (coherent.alarmed.elsewhere alarmId)

end SRPC.Timeout
