import Mathlib.Data.List.Perm.Basic
import SRPC.WoundDieGrants

/-!
# The moves of the wound-die lock

Every call takes requests out of the queue, puts at most one into it and grants
some of those that wait.
-/

namespace SRPC.WoundDie

open WaitDie List

variable {Owner : Type*}

/-- A queue that nobody waits in for nothing, under ids that were handed out. -/
structure Coherent (lock : WoundDieALock Owner) (holders waiting : List (LockReq Owner)) : Prop
    extends Divided lock holders waiting where
  settled : Settled lock.status waiting
  live : lock.done = false
  older : ∀ req ∈ lock.requests, req.id < lock.nextId
  distinct : (lock.requests.map LockReq.id).Nodup

theorem coherent_fresh : Coherent (fresh : WoundDieALock Owner) [] [] where
  requests := rfl
  locked := by simp
  waits := by simp
  agrees := ⟨rfl, rfl⟩
  settled := rfl
  live := rfl
  older := by simp [fresh]
  distinct := by simp [fresh]

def answers (events : List (Event Owner)) : List (Callback Owner) :=
  events.filterMap fun
    | .answered callback => some callback
    | .wounded _ _ _ => none

@[simp]
theorem answers_append (first second : List (Event Owner)) :
    answers (first ++ second) = answers first ++ answers second := filterMap_append ..

@[simp]
theorem mem_answers {events : List (Event Owner)} {callback : Callback Owner} :
    callback ∈ answers events ↔ .answered callback ∈ events := by
  rw [answers, mem_filterMap]
  constructor
  · rintro ⟨event, member, same⟩
    cases event with
    | answered other =>
      cases same
      exact member
    | wounded id owner ret => cases same
  · exact fun member => ⟨_, member, rfl⟩

@[simp]
theorem answers_map_yes (reqs : List (LockReq Owner)) :
    answers (reqs.map yes) = reqs.map LockReq.yes := by
  simp [answers, filterMap_map, yes, Function.comp_def]

/-- Some holders are kept, some requests are promoted and the rest waits on;
some of those who waited were refused and some holders have lost the lock. -/
structure Move (lock : WoundDieALock Owner)
    (newcomers kept promoted rest refused lost : List (LockReq Owner))
    (events : List (Event Owner)) (next : WoundDieALock Owner) : Prop where
  arrangement : (lock.requests ++ newcomers).Perm (kept ++ (promoted ++ rest) ++ (refused ++ lost))
  order : (kept ++ (promoted ++ rest)).Sublist (lock.requests ++ newcomers)
  locked : ∀ req ∈ kept ++ lost, req.status = .lock
  waits : ∀ req ∈ promoted ++ rest ++ refused, req.status = .wait
  queued : ∀ req ∈ refused, req ∈ lock.requests
  divided : Divided next (kept ++ promoted.map LockReq.granted) rest
  settled : Settled next.status rest
  answered : (answers events).Perm (promoted.map LockReq.yes ++ refused.map LockReq.no)
  nextId : next.nextId = lock.nextId + newcomers.length
  done : next.done = lock.done

section Arrival

variable {lock : WoundDieALock Owner} {holders waiting : List (LockReq Owner)}

/-- Where the loop of `wound_die` for this newcomer stops. -/
def stopsAt (req : LockReq Owner) : LockReq Owner → Bool :=
  match req.type with
  | .wlock => stopsWrite req.priority
  | .rlock => stopsRead req.priority

def triesAt (req : LockReq Owner) : LockReq Owner → Bool :=
  match req.type with
  | .wlock => triesWrite req.priority
  | .rlock => triesRead

/-- What `vlock` does for the newcomer `req`. -/
structure Arrival (lock : WoundDieALock Owner) (req : LockReq Owner) (results : WoundResults)
    (untouched walked kept promoted rest : List (LockReq Owner))
    (wounds grants : List (Event Owner)) (next : WoundDieALock Owner) : Prop where
  split : lock.requests = untouched ++ walked
  stopped : ∀ last ∈ untouched.getLast?, stopsAt req last = true
  passed : ∀ other ∈ walked, stopsAt req other = false
  wounds_eq : wounds = (walked.reverse.filter (triesAt req)).map (attempt results)
  remains : kept ++ (promoted ++ rest) = untouched ++
    walked.filter (fun other => !goes results (triesAt req) other) ++ [req]
  locked : ∀ other ∈ kept, other.status = .lock
  waits : ∀ other ∈ promoted ++ rest, other.status = .wait
  divided : Divided next (kept ++ promoted.map LockReq.granted) rest
  settled : Settled next.status rest
  grants_eq : grants = promoted.map yes
  nextId : next.nextId = lock.nextId + 1
  done : next.done = lock.done

theorem filter_append_filter_not {α : Type*} {p : α → Bool} {items : List α}
    (sorted : items.Pairwise fun first second => p second → p first) :
    items.filter p ++ items.filter (fun item => !p item) = items := by
  induction items with
  | nil => rfl
  | cons first rest ih =>
    obtain ⟨ahead, sorted⟩ := pairwise_cons.mp sorted
    cases holds : p first with
    | true => simpa [holds] using ih sorted
    | false =>
      have none : ∀ item ∈ rest, p item = false := by
        intro item member
        cases later : p item with
        | true => exact absurd (ahead item member later) (by simp [holds])
        | false => rfl
      have left : rest.filter p = [] :=
        filter_eq_nil_iff.mpr fun item member => by simp [none item member]
      have right : rest.filter (fun item => !p item) = rest :=
        filter_eq_self.mpr fun item member => by simp [none item member]
      simp [holds, left, right]

theorem Divided.sorted (divided : Divided lock holders waiting) :
    lock.requests.Pairwise fun first second =>
      isHeld second → isHeld first := by
  rw [divided.requests, pairwise_append]
  refine ⟨pairwise_of_forall_mem_list ?_, pairwise_of_forall_mem_list ?_, ?_⟩
  · intro first member _ _ _
    simp [isHeld, divided.locked first member]
  · intro _ _ second member held
    simp [isHeld, divided.waits second member] at held
  · intro first member _ _ _
    simp [isHeld, divided.locked first member]

theorem Divided.held_eq (divided : Divided lock holders waiting) :
    held lock.requests = holders := by
  rw [divided.requests, held_append, held_eq_self divided.locked,
    held_eq_nil divided.waits, append_nil]

theorem divided_of_sorted
    (sorted : lock.requests.Pairwise fun first second =>
      isHeld second → isHeld first)
    (agrees : Agrees lock.status lock.nRlock (held lock.requests)) :
    Divided lock (held lock.requests) (lock.requests.filter fun req => !isHeld req) where
  requests := (filter_append_filter_not sorted).symm
  locked := by
    intro req member
    simpa [held, isHeld] using (mem_filter.mp member).2
  waits := by
    intro req member
    have free := (mem_filter.mp member).2
    cases status : req.status with
    | wait => rfl
    | lock => simp [isHeld, status] at free
  agrees := agrees

/-- A newcomer wounds others and enters the queue. -/
theorem vlock_arrival (coherent : Coherent lock holders waiting)
    (type : LockType) (priority : Int) (owner : Owner) (results : WoundResults) :
    ∃ wounds grants next untouched walked kept promoted rest,
      vlock lock type priority owner results = some (wounds ++ grants, next) ∧
      Arrival lock (newReq lock type priority owner) results untouched walked
        kept promoted rest wounds grants next := by
  let req := newReq lock type priority owner
  have agrees : Agrees (getNextId lock).status (getNextId lock).nRlock
      (held (lock.requests.reverse.reverse ++ [])) := by
    rw [reverse_reverse, append_nil, coherent.held_eq]
    exact coherent.agrees
  obtain ⟨wounds, wounded, untouched, walked, loopEq, nextId, done, walk⟩ :=
    woundLoop_eq results (stopsAt req) (triesAt req) agrees
  have split : lock.requests = untouched ++ walked := by
    rw [← walk.split, reverse_reverse]
  have requests : wounded.requests = untouched ++
      walked.filter fun other => !goes results (triesAt req) other := by
    rw [walk.requests, append_nil]
  let pushed := { wounded with requests := wounded.requests ++ [req] }
  have waits : req.status = .wait := rfl
  have sorted : pushed.requests.Pairwise fun first second =>
      isHeld second → isHeld first := by
    refine pairwise_append.mpr ⟨coherent.sorted.sublist ?_, by simp, ?_⟩
    · rw [requests, split]
      exact (filter_sublist ..).append_left _
    · intro _ _ second member held
      simp [mem_singleton.mp member, isHeld, waits] at held
  have same : held pushed.requests = held wounded.requests := by
    rw [held_append, held_cons_wait waits]
    exact append_nil _
  have divided : Divided pushed _ _ := divided_of_sorted sorted (same ▸ walk.agrees)
  obtain ⟨promoted, rest, grants, next, rests, grantEq, granted⟩ :=
    grantAfterArrival_grants divided (by simp [pushed])
  refine ⟨wounds, grants, next, untouched, walked, _, promoted, rest, ?_,
    split, walk.stopped, walk.passed, walk.events, ?_, divided.locked,
    rests ▸ divided.waits, granted.divided, granted.settled, granted.events, ?_, ?_⟩
  · have woundEq : woundDie results (getNextId lock) type priority = some (wounds, wounded) := by
      rw [← loopEq]
      cases type <;> rfl
    have live : (getNextId lock).done = false := coherent.live
    simp only [vlock, live, woundEq]
    simp [pushed, req] at grantEq
    simp [grantEq]
  · rw [← rests, ← divided.requests, ← requests]
  · rw [granted.nextId]
    exact nextId
  · rw [granted.done]
    exact done

end Arrival

section Moves

variable {lock next : WoundDieALock Owner} {req : LockReq Owner}
  {holders waiting kept promoted rest : List (LockReq Owner)}

/-- Those who waited and were wounded. -/
def refusedOf (results : WoundResults) (req : LockReq Owner)
    (walked : List (LockReq Owner)) : List (LockReq Owner) :=
  (walked.filter (goes results (triesAt req))).filter fun other => !isHeld other

/-- Those who held the lock and gave it back. -/
def lostOf (results : WoundResults) (req : LockReq Owner)
    (walked : List (LockReq Owner)) : List (LockReq Owner) :=
  (walked.filter (goes results (triesAt req))).filter isHeld

theorem answers_attempts (results : WoundResults) (req : LockReq Owner)
    (walked : List (LockReq Owner)) :
    answers ((walked.filter (triesAt req)).map (attempt results)) =
      (refusedOf results req walked).map LockReq.no := by
  induction walked with
  | nil => rfl
  | cons other walked ih =>
    cases tried : triesAt req other with
    | false => simpa [tried, refusedOf, goes] using ih
    | true =>
      cases status : other.status with
      | wait =>
        simp [tried, refusedOf, goes, yields, isHeld, attempt, no, answers, status] at ih ⊢
        exact ih
      | lock =>
        by_cases gives : results other.id = 0 <;>
          simp [tried, refusedOf, goes, yields, isHeld, attempt, answers, status, gives] at ih ⊢ <;>
          exact ih

theorem Arrival.move {results : WoundResults}
    {untouched walked : List (LockReq Owner)} {wounds grants : List (Event Owner)}
    (arrival : Arrival lock req results untouched walked kept promoted rest wounds grants next) :
    Move lock [req] kept promoted rest (refusedOf results req walked)
      (lostOf results req walked) (wounds ++ grants) next where
  arrangement := by
    rw [arrival.remains, arrival.split]
    have gone : (refusedOf results req walked ++ lostOf results req walked).Perm
        (walked.filter (goes results (triesAt req))) :=
      perm_append_comm.trans (filter_append_perm ..)
    have parts : (walked.filter (fun other => !goes results (triesAt req) other) ++
        walked.filter (goes results (triesAt req))).Perm walked :=
      perm_append_comm.trans (filter_append_perm ..)
    refine ((parts.symm.append_left _).append_right _).trans ?_
    simp only [append_assoc]
    refine (List.Perm.append_left _ (List.Perm.append_left _ ?_))
    exact perm_append_comm.trans (gone.symm.append_left _)
  order := by
    rw [arrival.remains, arrival.split]
    exact ((filter_sublist ..).append_left _).append_right _
  locked := by
    intro other member
    rcases mem_append.mp member with member | member
    · exact arrival.locked other member
    · simpa [isHeld] using (mem_filter.mp member).2
  waits := by
    intro other member
    rcases mem_append.mp member with member | member
    · exact arrival.waits other member
    · have unheld := (mem_filter.mp member).2
      cases status : other.status with
      | wait => rfl
      | lock => simp [isHeld, status] at unheld
  queued := by
    intro other member
    rw [arrival.split]
    exact mem_append_right _ (mem_of_mem_filter (mem_of_mem_filter member))
  divided := arrival.divided
  settled := arrival.settled
  answered := by
    rw [answers_append, arrival.wounds_eq, arrival.grants_eq, answers_map_yes, answers_attempts]
    refine perm_append_comm.trans (List.Perm.append_left _ ?_)
    refine List.Perm.map _ ?_
    rw [refusedOf, filter_reverse, filter_reverse]
    exact reverse_perm _
  nextId := arrival.nextId
  done := arrival.done

theorem move_of_removal {between : WoundDieALock Owner}
    {before after : List (LockReq Owner)} {events grants : List (Event Owner)}
    (split : lock.requests = before ++ req :: after)
    (remains : before ++ after = kept ++ (promoted ++ rest))
    (locked : ∀ other ∈ kept, other.status = .lock)
    (waits : ∀ other ∈ promoted ++ rest, other.status = .wait)
    (granted : Grants between kept promoted rest grants next)
    (nextId : between.nextId = lock.nextId) (done : between.done = lock.done)
    (emitted : events = grants ++ if req.status = .wait then [no req] else []) :
    Move lock [] kept promoted rest (if req.status = .wait then [req] else [])
      (if req.status = .wait then [] else [req]) events next where
  arrangement := by
    rw [append_nil, split, ← remains]
    refine perm_middle.trans ?_
    have last := (perm_append_singleton req (before ++ after)).symm
    by_cases wait : req.status = .wait <;> simpa [wait] using last
  order := by
    rw [append_nil, split, ← remains]
    exact (sublist_cons_self _ _).append_left _
  locked := by
    intro other member
    rcases mem_append.mp member with member | member
    · exact locked other member
    · cases status : req.status with
      | wait => simp [status] at member
      | lock =>
        simp only [status] at member
        rw [mem_singleton.mp member, status]
  waits := by
    intro other member
    rcases mem_append.mp member with member | member
    · exact waits other member
    · by_cases wait : req.status = .wait
      · rw [if_pos wait] at member
        rw [mem_singleton.mp member, wait]
      · simp [wait] at member
  queued := by
    intro other member
    by_cases wait : req.status = .wait
    · rw [if_pos wait] at member
      simp [split, mem_singleton.mp member]
    · simp [wait] at member
  divided := granted.divided
  settled := granted.settled
  answered := by
    rw [emitted, answers_append, granted.events, answers_map_yes]
    by_cases wait : req.status = .wait <;> simp [wait, answers, no]
  nextId := by rw [granted.nextId, nextId]; rfl
  done := by rw [granted.done, done]

end Moves

end SRPC.WoundDie
