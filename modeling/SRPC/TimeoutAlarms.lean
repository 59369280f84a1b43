import Mathlib.Data.List.Nodup
import SRPC.AlarmClock
import SRPC.TimeoutLock

/-!
# The alarms of the timeout lock

The requests that wait and the alarms of the lock belong together one by one, so
an alarm that goes off finds its request in the queue, and waiting.
-/

namespace SRPC.Timeout

open WaitDie List

variable {Owner : Type*}

section Clock

variable {clock : Alarms.Alarm (Option Nat)} {lock : TimeoutALock Owner}

/-- What a lock needs of an entry of the alarm. -/
def AlarmEntry.ofClock (entry : Alarms.AlarmEntry (Option Nat)) : AlarmEntry :=
  ⟨entry.id, entry.time, entry.func⟩

/-- What a lock needs of the alarm. -/
def Alarm.ofClock (clock : Alarms.Alarm (Option Nat)) : Alarm :=
  ⟨clock.nextId, clock.waiting.map .ofClock⟩

/-- The ids in use are below the next one, which does not wrap around. -/
structure Fresh (clock : Alarms.Alarm (Option Nat)) : Prop where
  increasing : OrderedSets.Increasing Alarms.AlarmEntry.id clock.waiting
  older : ∀ entry ∈ clock.waiting, entry.id < clock.nextId
  small : clock.nextId + 1 < 2 ^ 64

theorem fresh_of_accounted {log : List Alarms.AlarmEvent} (accounted : clock.Accounted log)
    (few : clock.added + 2 < 2 ^ 64) : Fresh clock := by
  have nextId : clock.nextId = clock.added + 1 :=
    accounted.nextId.trans (Nat.mod_eq_of_lt (by omega))
  refine ⟨accounted.increasing, fun entry member => ?_, by omega⟩
  have pending : entry ∈ clock.pending := mem_append_left _ member
  have older := accounted.serial_lt pending
  rw [accounted.ids entry pending, Nat.mod_eq_of_lt (by omega)]
  omega

theorem add_ofClock (fresh : Fresh clock) (time : Nat) (request : Option Nat) :
    (Alarm.ofClock clock).add time request = .ofClock (clock.add time request).2 := by
  have others : clock.waiting.filter (fun entry => decide (entry.id ≠ clock.nextId)) =
      clock.waiting :=
    filter_eq_self.mpr fun entry member => by simpa using (fresh.older entry member).ne
  rw [Alarm.add, Alarm.ofClock, Alarm.ofClock, Alarms.Alarm.add, others,
    OrderedSets.insert_of_after fresh.older, map_append, Nat.mod_eq_of_lt fresh.small]
  rfl

theorem remove_ofClock (clock : Alarms.Alarm (Option Nat)) (id : Nat) :
    (Alarm.ofClock clock).remove id = .ofClock (clock.remove id).2.2 := by
  rw [Alarm.remove, Alarm.ofClock, filter_map]
  rfl

theorem callEntry_alarm {entry : AlarmEntry} {callbacks : List (Callback Owner)}
    {next : TimeoutALock Owner} (called : callEntry lock entry = some (callbacks, next)) :
    next.alarm = lock.alarm := by
  simp only [callEntry, doTimeout] at called
  grind

theorem exeNext_ofClock (fresh : Fresh clock) (same : lock.alarm = .ofClock clock) (tmNow : Nat) :
    exeNext lock tmNow = match clock.exeNext tmNow with
      | none => some ([], lock)
      | some (entry, after) => (callEntry lock (.ofClock entry)).map fun result =>
        (result.1, { result.2 with alarm := .ofClock after }) := by
  have increasing := fresh.increasing
  cases waiting : clock.waiting with
  | nil => simp [exeNext, same, Alarm.ofClock, Alarms.Alarm.exeNext, waiting]
  | cons first rest =>
    rw [waiting] at increasing
    have left : clock.waiting.filter (fun entry => decide (entry.id ≠ first.id)) = rest := by
      rw [waiting, filter_cons_of_neg (by simp)]
      exact filter_eq_self.mpr fun entry member => by
        simpa using (rel_of_pairwise_cons increasing member).ne'
    have calls : exeNext lock tmNow =
        if first.time < tmNow then fire lock first.id else some ([], lock) := by
      simp [exeNext, same, Alarm.ofClock, waiting, AlarmEntry.ofClock]
    have found : lock.alarm.waiting.find? (fun entry => decide (entry.id = first.id)) =
        some (.ofClock first) := by
      simp [same, Alarm.ofClock, waiting, AlarmEntry.ofClock]
    rw [calls]
    by_cases due : first.time < tmNow
    · simp only [Alarms.Alarm.exeNext, waiting, Alarms.AlarmEntry.due, due, fire, found, if_true,
        decide_true]
      cases called : callEntry lock (.ofClock first) with
      | none => rfl
      | some result =>
        have unchanged := (callEntry_alarm called).trans same
        show some (_, { result.2 with alarm := result.2.alarm.remove first.id }) = some (_, _)
        rw [unchanged, remove_ofClock, Alarms.Alarm.remove, left]
    · simp [Alarms.Alarm.exeNext, waiting, Alarms.AlarmEntry.due, due]

/-- The alarm of a lock is an `Alarm`: after every run of one that has not added
so many alarms that an id comes again, `add`, `remove` and `exe_next` agree. -/
theorem alarm_ofClock (calls : List (Alarms.AlarmCall (Option Nat))) :
    ∃ log clock, TransitionRuns.run Alarms.Alarm.step .new calls = some (log, clock) ∧
      (clock.added + 2 < 2 ^ 64 →
        (∀ time request,
          (Alarm.ofClock clock).add time request = .ofClock (clock.add time request).2) ∧
        (∀ id, (Alarm.ofClock clock).remove id = .ofClock (clock.remove id).2.2) ∧
        ∀ (lock : TimeoutALock Owner) tmNow, lock.alarm = .ofClock clock →
          exeNext lock tmNow = match clock.exeNext tmNow with
            | none => some ([], lock)
            | some (entry, after) => (callEntry lock (.ofClock entry)).map fun result =>
              (result.1, { result.2 with alarm := .ofClock after })) := by
  obtain ⟨log, clock, ran, accounted⟩ := Alarms.Alarm.run_accounted calls
  refine ⟨log, clock, ran, fun few => ?_⟩
  have fresh := fresh_of_accounted accounted few
  exact ⟨add_ofClock fresh, remove_ofClock clock, fun lock tmNow same =>
    exeNext_ofClock fresh same tmNow⟩

end Clock

/-- Each waiting request has an alarm, and no other has. -/
structure Alarmed (alarm : Alarm) (requests : List (ALockReq Owner)) : Prop where
  positive : 0 < alarm.nextId ∧ ∀ entry ∈ alarm.waiting, 0 < entry.id
  older : ∀ entry ∈ alarm.waiting, entry.id < alarm.nextId
  distinct : (alarm.waiting.map AlarmEntry.id).Nodup
  /-- An alarm of this lock is for a request that waits. -/
  awaited : ∀ entry ∈ alarm.waiting, ∀ id, entry.request = some id →
    ∃ req ∈ requests, req.id = id ∧ req.status = .wait ∧ req.alarmId = entry.id
  registered : ∀ req ∈ requests, req.status = .wait →
    ∃ entry ∈ alarm.waiting, entry.id = req.alarmId ∧ entry.request = some req.id
  known : ∀ req ∈ requests, req.alarmId < alarm.nextId
  silent : ∀ req ∈ requests, req.status ≠ .wait → ∀ entry ∈ alarm.waiting, entry.id ≠ req.alarmId

theorem alarmed_nothing : Alarmed ⟨1, []⟩ ([] : List (ALockReq Owner)) where
  positive := by simp
  older := by simp
  distinct := by simp
  awaited := by simp
  registered := by simp
  known := by simp
  silent := by simp

variable {alarm : Alarm} {requests requests' : List (ALockReq Owner)}

theorem Alarmed.entry_eq (alarmed : Alarmed alarm requests)
    {first second : AlarmEntry} (firstMember : first ∈ alarm.waiting)
    (secondMember : second ∈ alarm.waiting) (same : first.id = second.id) :
    first = second := inj_on_of_nodup_map alarmed.distinct firstMember secondMember same

def removeAll (alarm : Alarm) (gone : List (ALockReq Owner)) : Alarm :=
  gone.foldl (fun alarm req => alarm.remove req.alarmId) alarm

@[simp]
theorem removeAll_nextId (alarm : Alarm) (gone : List (ALockReq Owner)) :
    (removeAll alarm gone).nextId = alarm.nextId := by
  induction gone generalizing alarm with
  | nil => rfl
  | cons req gone ih =>
    rw [removeAll, foldl_cons]
    exact ih (alarm.remove req.alarmId)

variable {gone : List (ALockReq Owner)}

theorem mem_removeAll {entry : AlarmEntry} :
    entry ∈ (removeAll alarm gone).waiting ↔
      entry ∈ alarm.waiting ∧ ∀ req ∈ gone, entry.id ≠ req.alarmId := by
  induction gone generalizing alarm with
  | nil => simp [removeAll]
  | cons req gone ih =>
    have later : entry ∈ (removeAll alarm (req :: gone)).waiting ↔
        entry ∈ (alarm.remove req.alarmId).waiting ∧ ∀ req ∈ gone, entry.id ≠ req.alarmId := ih
    rw [later]
    simp [Alarm.remove, and_assoc]

theorem removeAll_sublist (alarm : Alarm) (gone : List (ALockReq Owner)) :
    (removeAll alarm gone).waiting.Sublist alarm.waiting := by
  induction gone generalizing alarm with
  | nil => exact .refl _
  | cons req gone ih =>
    rw [removeAll, foldl_cons]
    exact (ih (alarm.remove req.alarmId)).trans (filter_sublist ..)

section

variable (alarmed : Alarmed alarm requests)

include alarmed

/-- Requests stop waiting and their alarms are removed.  Of the others, those
that wait stay, and nothing else comes in. -/
theorem Alarmed.settle (ids : (requests.map ALockReq.id).Nodup)
    (were : ∀ req ∈ gone, req ∈ requests ∧ req.status = .wait)
    (stay : ∀ req ∈ requests, req.status = .wait → req ∉ gone → req ∈ requests')
    (origin : ∀ req ∈ requests', (req ∈ requests ∧ req ∉ gone) ∨
      (req.status ≠ .wait ∧ ∃ old ∈ gone, req.alarmId = old.alarmId)) :
    Alarmed (removeAll alarm gone) requests' where
  positive := by
    rw [removeAll_nextId]
    exact ⟨alarmed.positive.1, fun entry member =>
      alarmed.positive.2 entry (mem_removeAll.mp member).1⟩
  older := by
    intro entry member
    rw [removeAll_nextId]
    exact alarmed.older entry (mem_removeAll.mp member).1
  distinct := ((removeAll_sublist alarm gone).map _).nodup alarmed.distinct
  awaited := by
    intro entry member id isOwn
    obtain ⟨was, others⟩ := mem_removeAll.mp member
    obtain ⟨req, reqMember, reqId, waits, alarmId⟩ := alarmed.awaited entry was id isOwn
    have remains : req ∉ gone := fun isGone => others req isGone alarmId.symm
    exact ⟨req, stay req reqMember waits remains, reqId, waits, alarmId⟩
  registered := by
    intro req member waits
    rcases origin req member with ⟨was, remains⟩ | ⟨settled, -⟩
    · obtain ⟨entry, entryMember, entryId, isOwn⟩ := alarmed.registered req was waits
      refine ⟨entry, mem_removeAll.mpr ⟨entryMember, ?_⟩, entryId, isOwn⟩
      intro old oldGone same
      obtain ⟨oldMember, oldWaits⟩ := were old oldGone
      obtain ⟨other, otherMember, otherId, otherOwn⟩ := alarmed.registered old oldMember oldWaits
      rw [alarmed.entry_eq entryMember otherMember (same.trans otherId.symm),
        otherOwn, Option.some.injEq] at isOwn
      have same := inj_on_of_nodup_map ids oldMember was isOwn
      exact remains (same ▸ oldGone)
    · exact absurd waits settled
  known := by
    intro req member
    rw [removeAll_nextId]
    rcases origin req member with ⟨was, -⟩ | ⟨-, old, oldGone, same⟩
    · exact alarmed.known req was
    · rw [same]
      exact alarmed.known old (were old oldGone).1
  silent := by
    intro req member settled entry entryMember
    obtain ⟨was, others⟩ := mem_removeAll.mp entryMember
    rcases origin req member with ⟨old, -⟩ | ⟨-, old, oldGone, same⟩
    · exact alarmed.silent req old settled entry was
    · rw [same]
      exact others old oldGone

theorem Alarmed.forget (ids : (requests.map ALockReq.id).Nodup)
    (stay : ∀ req ∈ requests, req.status = .wait → req ∈ requests')
    (fewer : ∀ req ∈ requests', req ∈ requests) : Alarmed alarm requests' := by
  have nobody : ∀ req ∈ ([] : List (ALockReq Owner)), req ∈ requests ∧ req.status = .wait := by simp
  exact alarmed.settle ids nobody (fun req member waits _ => stay req member waits)
    fun req member => .inl ⟨fewer req member, by simp⟩

theorem Alarmed.push {req : ALockReq Owner} (settled : req.status ≠ .wait)
    (none : req.alarmId = 0) : Alarmed alarm (requests ++ [req]) where
  positive := alarmed.positive
  older := alarmed.older
  distinct := alarmed.distinct
  awaited := by
    intro entry member id isOwn
    obtain ⟨old, oldMember, spec⟩ := alarmed.awaited entry member id isOwn
    exact ⟨old, mem_append_left _ oldMember, spec⟩
  registered := forall_mem_concat alarmed.registered fun waits => absurd waits settled
  known := by
    refine forall_mem_concat alarmed.known ?_
    rw [none]
    exact alarmed.positive.1
  silent := by
    refine forall_mem_concat alarmed.silent fun _ entry entryMember => ?_
    rw [none]
    exact Nat.ne_of_gt (alarmed.positive.2 entry entryMember)

theorem Alarmed.add (time : Nat) {request : Option Nat} {coming : List (ALockReq Owner)}
    (wait : ∀ req ∈ coming, req.status = .wait ∧ req.alarmId = alarm.nextId ∧
      request = some req.id) (for_ : ∀ id, request = some id → ∃ req ∈ coming, req.id = id) :
    Alarmed (alarm.add time request) (requests ++ coming) where
  positive := by
    refine ⟨Nat.succ_pos _, ?_⟩
    exact forall_mem_concat alarmed.positive.2 alarmed.positive.1
  older :=
    forall_mem_concat (fun entry member => Nat.lt_succ_of_lt (alarmed.older entry member))
      (Nat.lt_succ_self _)
  distinct :=
    nodup_map_concat alarmed.distinct fun entry member =>
      Nat.ne_of_lt (alarmed.older entry member)
  awaited := by
    intro entry member id isOwn
    rcases mem_append.mp member with member | member
    · obtain ⟨old, oldMember, spec⟩ := alarmed.awaited entry member id isOwn
      exact ⟨old, mem_append_left _ oldMember, spec⟩
    · rw [mem_singleton.mp member] at isOwn ⊢
      obtain ⟨req, reqMember, reqId⟩ := for_ id isOwn
      exact ⟨req, mem_append_right _ reqMember, reqId,
        (wait req reqMember).1, (wait req reqMember).2.1⟩
  registered := by
    intro req member waits
    rcases mem_append.mp member with member | member
    · obtain ⟨entry, entryMember, spec⟩ := alarmed.registered req member waits
      exact ⟨entry, mem_append_left _ entryMember, spec⟩
    · obtain ⟨-, alarmId, isOwn⟩ := wait req member
      exact ⟨⟨alarm.nextId, time, request⟩, mem_append_right _ (by simp), alarmId.symm, isOwn⟩
  known := by
    intro req member
    rcases mem_append.mp member with member | member
    · exact Nat.lt_succ_of_lt (alarmed.known req member)
    · rw [(wait req member).2.1]
      exact Nat.lt_succ_self _
  silent := by
    intro req member notWaiting entry entryMember
    rcases mem_append.mp member with member | member
    · exact forall_mem_concat (alarmed.silent req member notWaiting)
        (Nat.ne_of_gt (alarmed.known req member)) entry entryMember
    · exact absurd (wait req member).1 notWaiting

theorem Alarmed.elsewhere (alarmId : Nat) : Alarmed (removeElsewhere alarm alarmId) requests where
  positive := ⟨alarmed.positive.1, fun entry member =>
    alarmed.positive.2 entry (mem_of_mem_filter member)⟩
  older := fun entry member => alarmed.older entry (mem_of_mem_filter member)
  distinct := (filter_sublist.map _).nodup alarmed.distinct
  awaited := fun entry member =>
    alarmed.awaited entry (mem_of_mem_filter member)
  registered := by
    intro req member waits
    obtain ⟨entry, entryMember, entryId, isOwn⟩ := alarmed.registered req member waits
    exact ⟨entry, mem_filter.mpr ⟨entryMember, by simp [isOwn]⟩, entryId, isOwn⟩
  known := alarmed.known
  silent := fun req member settled entry entryMember =>
    alarmed.silent req member settled entry (mem_of_mem_filter entryMember)

end

end SRPC.Timeout
