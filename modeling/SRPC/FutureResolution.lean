import SRPC.FutureRace
import SRPC.IndexedLists

/-! # A future is resolved once -/

namespace SRPC.FutureRace

open TransitionRuns List

/-- What the future holds while the reply is at this point. -/
def ReplyFits (future : Future) : Option (ReplyPc × BitVec 32) → Prop
  | none => future.ready = false
  | some (.storing, _) => future.ready = false
  | some (.notifying, errorCode) => future.ready = false ∧
      (future.timedOut = false → future.errorCode = errorCode)
  | some (.testing, errorCode) =>
    future.ready = true → future.errorCode = errorCode
  | some (.calling, errorCode) => future.callback = true ∧
      future.ready = true ∧ future.errorCode = errorCode
  | some (.called, errorCode) =>
    future.ready = true ∧ future.errorCode = errorCode
  | some (.returned, errorCode) =>
    future.ready = true → future.errorCode = errorCode

/-- The callback has been called from there. -/
def Called (race : Race) : Caller → Prop
  | .reply => ∃ errorCode, race.reply = some (.called, errorCode)
  | .timedWait index => race.timedWaits[index]? = some .called

/-- The future is ready or timed out, and called at most once. -/
structure Orderly (log : List Caller) (race : Race) : Prop where
  exclusive : ¬ (race.future.ready = true ∧ race.future.timedOut = true)
  reply : ReplyFits race.future race.reply
  claimed : ∀ {index : Nat} {pc : TimedWaitPc},
    race.timedWaits[index]? = some pc → pc.claims = true → race.future.timedOut = true
  one : race.future.callback = true →
    ∀ {index other : Nat} {pc otherPc : TimedWaitPc},
      race.timedWaits[index]? = some pc → pc.claims = true →
        race.timedWaits[other]? = some otherPc → otherPc.claims = true → index = other
  called : ∀ caller ∈ log, race.future.callback = true ∧ Called race caller
  nodup : log.Nodup

theorem orderly_new (callback : Bool) : Orderly [] (new callback) where
  exclusive := by simp [new]
  reply := rfl
  claimed := by simp [new]
  one := by simp [new]
  called := by simp
  nodup := by simp

variable {log : List Caller} {race : Race} {future : Future} {reply : Option (ReplyPc × BitVec 32)}

theorem ReplyFits.kept (fits : ReplyFits future reply) (ready : future.ready = true) :
    ∃ pc, reply = some (pc, future.errorCode) := by
  match reply, fits with
  | none, unready => cases Eq.trans (Eq.symm ready) unready
  | some (.storing, _), unready => cases Eq.trans (Eq.symm ready) unready
  | some (.notifying, _), unready => cases ready.symm.trans unready.1
  | some (.testing, _), same => exact ⟨.testing, by rw [same ready]⟩
  | some (.calling, _), same => exact ⟨.calling, by rw [same.2.2]⟩
  | some (.called, _), same => exact ⟨.called, by rw [same.2]⟩
  | some (.returned, _), same => exact ⟨.returned, by rw [same ready]⟩

theorem ReplyFits.expire {later : Future} (fits : ReplyFits future reply)
    (unready : future.ready = false) (stillUnready : later.ready = false)
    (timedOut : later.timedOut = true) : ReplyFits later reply := by
  match reply, fits with
  | none, _ => exact stillUnready
  | some (.storing, _), _ => exact stillUnready
  | some (.notifying, _), _ => exact ⟨stillUnready, by simp [timedOut]⟩
  | some (.testing, _), _ => simp [ReplyFits, stillUnready]
  | some (.calling, _), isReady => cases unready.symm.trans isReady.2.1
  | some (.called, _), isReady => cases unready.symm.trans isReady.1
  | some (.returned, _), _ => simp [ReplyFits, stillUnready]

theorem Orderly.caller_eq (orderly : Orderly log race) {first second : Caller}
    (firstMember : first ∈ log) (secondMember : second ∈ log) :
    first = second := by
  obtain ⟨callback, firstCalled⟩ := orderly.called first firstMember
  obtain ⟨-, secondCalled⟩ := orderly.called second secondMember
  have excluded : ∀ {index : Nat}, (∃ errorCode, race.reply = some (.called, errorCode)) →
        race.timedWaits[index]? = some .called → False := by
    rintro index ⟨errorCode, replyEq⟩ found
    have fits := orderly.reply
    rw [replyEq] at fits
    exact orderly.exclusive ⟨fits.1, orderly.claimed found rfl⟩
  match first, second, firstCalled, secondCalled with
  | .reply, .reply, _, _ => rfl
  | .reply, .timedWait index, replied, found => exact (excluded replied found).elim
  | .timedWait index, .reply, found, replied => exact (excluded replied found).elim
  | .timedWait index, .timedWait other, found, otherFound =>
    rw [orderly.one callback found rfl otherFound rfl]

theorem Orderly.resolvedOnce (orderly : Orderly log race) : ResolvedOnce log race where
  exclusive := orderly.exclusive
  once := by
    match log, orderly.nodup, @orderly.caller_eq with
    | [], _, _ => simp
    | [_], _, _ => simp
    | first :: second :: _, nodup, same =>
      have equal : first = second := same (by simp) (by simp)
      simp [equal] at nodup
  kept := orderly.reply.kept

theorem Orderly.append_caller (orderly : Orderly log race) {caller : Caller}
    (before : ¬ Called race caller) : (log ++ [caller]).Nodup :=
  nodup_concat orderly.nodup fun member => before (orderly.called caller member).2

section Reply

variable {pc : ReplyPc} {errorCode : BitVec 32}

theorem Orderly.goOnReply (orderly : Orderly log race)
    (replyEq : race.reply = some (pc, errorCode)) (notCalled : pc ≠ .called)
    {future : Future} {next : ReplyPc} (timedOut : future.timedOut = race.future.timedOut)
    (callback : future.callback = race.future.callback)
    (exclusive : ¬ (future.ready = true ∧ future.timedOut = true))
    (fits : ReplyFits future (some (next, errorCode))) :
    Orderly log { race with future := future, reply := some (next, errorCode) }
    where
  exclusive := exclusive
  reply := fits
  claimed := fun found claims => timedOut ▸ orderly.claimed found claims
  one := fun isSet => orderly.one (callback ▸ isSet)
  called := by
    intro caller member
    obtain ⟨isSet, called⟩ := orderly.called caller member
    refine ⟨callback ▸ isSet, ?_⟩
    match caller, called with
    | .timedWait index, found => exact found
    | .reply, ⟨other, replied⟩ =>
      rw [replyEq] at replied
      cases replied
      exact absurd rfl notCalled
  nodup := orderly.nodup

theorem Orderly.notify (orderly : Orderly log race) (replyEq : race.reply = some (pc, errorCode)) :
    Orderly (log ++ (race.future.notify errorCode pc).1)
      { race with
        future := (race.future.notify errorCode pc).2.1
        reply := some ((race.future.notify errorCode pc).2.2, errorCode) } := by
  have fits := orderly.reply
  rw [replyEq] at fits
  cases pc with
  | storing =>
    rw [Future.notify, append_nil]
    exact orderly.goOnReply replyEq (by simp) rfl rfl orderly.exclusive ⟨fits, fun _ => rfl⟩
  | notifying =>
    rw [Future.notify, append_nil]
    cases timedOut : race.future.timedOut with
    | true =>
      rw [if_pos rfl]
      refine orderly.goOnReply replyEq (by simp) rfl rfl orderly.exclusive ?_
      intro ready
      rw [fits.1] at ready
      cases ready
    | false =>
      rw [if_neg (by simp)]
      exact orderly.goOnReply replyEq (by simp) timedOut.symm rfl (by simp) fun _ => fits.2 timedOut
  | testing =>
    rw [Future.notify, append_nil]
    refine orderly.goOnReply replyEq (by simp) rfl rfl orderly.exclusive ?_
    cases ready : race.future.ready with
    | false => simp [ReplyFits, ready]
    | true =>
      have same : race.future.errorCode = errorCode := fits ready
      cases callback : race.future.callback <;>
        simp [ReplyFits, ready, same, callback]
  | calling =>
    have before : ¬ Called race .reply := by
      rintro ⟨other, replied⟩
      rw [replyEq] at replied
      cases replied
    exact
      { exclusive := orderly.exclusive
        reply := fits.2
        claimed := orderly.claimed
        one := orderly.one
        called := by
          intro caller member
          obtain member | isNew := mem_append.mp member
          · obtain ⟨isSet, called⟩ := orderly.called caller member
            match caller, called with
            | .timedWait index, found => exact ⟨isSet, found⟩
            | .reply, replied => exact absurd replied before
          · rw [mem_singleton.mp isNew]
            exact ⟨fits.1, errorCode, rfl⟩
        nodup := orderly.append_caller before }
  | called | returned =>
    rw [Future.notify, append_nil, ← replyEq]
    exact orderly

end Reply

section TimedWait

variable {index : Nat} {pc : TimedWaitPc}

theorem Orderly.goOnTimedWait (orderly : Orderly log race)
    (found : race.timedWaits[index]? = some pc) (notCalled : pc ≠ .called)
    {future : Future} {next : TimedWaitPc} (callback : future.callback = race.future.callback)
    (exclusive : ¬ (future.ready = true ∧ future.timedOut = true))
    (fits : ReplyFits future race.reply)
    (timedOut : race.future.timedOut = true → future.timedOut = true)
    (claims : next.claims = true → future.timedOut = true)
    (alone : race.future.callback = true → next.claims = true →
      ∀ {other : Nat} {otherPc : TimedWaitPc},
        race.timedWaits[other]? = some otherPc → otherPc.claims = true →
          index = other) :
    Orderly log { race with
      future := future
      timedWaits := race.timedWaits.set index next } where
  exclusive := exclusive
  reply := fits
  claimed := by
    intro other otherPc otherFound otherClaims
    obtain ⟨-, rfl⟩ | ⟨-, old⟩ := getElem?_set_eq_some otherFound
    · exact claims otherClaims
    · exact timedOut (orderly.claimed old otherClaims)
  one := by
    intro isSet first second firstPc secondPc firstFound firstClaims secondFound secondClaims
    rw [callback] at isSet
    obtain ⟨rfl, rfl⟩ | ⟨-, firstOld⟩ := getElem?_set_eq_some firstFound
    · obtain ⟨rfl, -⟩ | ⟨-, secondOld⟩ := getElem?_set_eq_some secondFound
      · rfl
      · exact alone isSet firstClaims secondOld secondClaims
    · obtain ⟨rfl, rfl⟩ | ⟨-, secondOld⟩ := getElem?_set_eq_some secondFound
      · exact (alone isSet secondClaims firstOld firstClaims).symm
      · exact orderly.one isSet firstOld firstClaims secondOld secondClaims
  called := by
    intro caller member
    obtain ⟨isSet, called⟩ := orderly.called caller member
    refine ⟨callback ▸ isSet, ?_⟩
    match caller, called with
    | .reply, replied => exact replied
    | .timedWait other, otherFound =>
      have different : index ≠ other := by
        rintro rfl
        exact notCalled (Option.some.inj (found.symm.trans otherFound))
      exact (getElem?_set_ne different).trans otherFound
  nodup := orderly.nodup

theorem Orderly.timedWait (orderly : Orderly log race) {expires : Bool}
    (punctual : Punctual race (.goOnTimedWait index expires))
    (found : race.timedWaits[index]? = some pc) :
    Orderly (log ++ (race.future.timedWait index expires pc).1)
      { race with
        future := (race.future.timedWait index expires pc).2.1
        timedWaits := race.timedWaits.set index (race.future.timedWait index expires pc).2.2 } := by
  have unclaimed : ∀ future : Future, future.whileUnresolved.claims = false := by
    intro future
    rw [Future.whileUnresolved]
    split <;> rfl
  cases pc with
  | entering =>
    rw [Future.timedWait, append_nil]
    exact orderly.goOnTimedWait found (by simp) rfl orderly.exclusive
      orderly.reply id (by simp [unclaimed]) (by simp [unclaimed])
  | waiting =>
    rw [Future.timedWait, append_nil]
    cases expires with
    | false =>
      exact orderly.goOnTimedWait found (by simp) rfl orderly.exclusive
        orderly.reply id (by simp [unclaimed]) (by simp [unclaimed])
    | true =>
      have unready : race.future.ready = false := punctual.1 found rfl
      exact orderly.goOnTimedWait found (by simp) rfl (by simp [unready])
        (orderly.reply.expire unready unready rfl) (fun _ => rfl)
        (by simp [unclaimed]) (by simp [unclaimed])
  | left =>
    rw [Future.timedWait, append_nil]
    cases timedOut : race.future.timedOut with
    | false =>
      rw [if_neg (by simp)]
      exact orderly.goOnTimedWait found (by simp) rfl orderly.exclusive
        orderly.reply id (by simp [TimedWaitPc.claims]) (by simp [TimedWaitPc.claims])
    | true =>
      rw [if_pos rfl]
      refine orderly.goOnTimedWait found (by simp) rfl orderly.exclusive
        orderly.reply id (fun _ => timedOut) ?_
      intro callback _ other otherPc otherFound otherClaims
      have none := punctual.2 found timedOut callback otherPc (mem_of_getElem? otherFound)
      rw [none] at otherClaims
      cases otherClaims
  | expired =>
    rw [Future.timedWait, append_nil]
    have timedOut := orderly.claimed found rfl
    have unready : race.future.ready = false := by
      cases ready : race.future.ready with
      | false => rfl
      | true => exact absurd ⟨ready, timedOut⟩ orderly.exclusive
    exact orderly.goOnTimedWait found (by simp) rfl (by simp [unready])
      (orderly.reply.expire unready unready timedOut) id (fun _ => timedOut)
      fun callback _ => orderly.one callback found rfl
  | stored =>
    have timedOut := orderly.claimed found rfl
    have gone : Orderly log { race with
        timedWaits := race.timedWaits.set index .called } :=
      orderly.goOnTimedWait found (by simp) rfl orderly.exclusive
        orderly.reply id (fun _ => timedOut) fun callback _ => orderly.one callback found rfl
    rw [Future.timedWait]
    cases callback : race.future.callback with
    | false =>
      rw [if_neg (by simp), append_nil]
      exact gone
    | true =>
      rw [if_pos rfl]
      have before : ¬ Called race (.timedWait index) := by
        intro called
        cases found.symm.trans called
      refine { gone with called := ?_, nodup := orderly.append_caller before }
      refine forall_mem_concat gone.called ?_
      have inside := lt_of_getElem? found
      exact ⟨callback, getElem?_set_self inside⟩
  | called | returned =>
    rw [Future.timedWait, append_nil, set_of_getElem? found]
    exact orderly

end TimedWait

theorem Orderly.begin_timedWait (orderly : Orderly log race) :
    Orderly log { race with timedWaits := race.timedWaits ++ [.entering] } where
  exclusive := orderly.exclusive
  reply := orderly.reply
  claimed := by
    intro index pc found claims
    obtain old | ⟨-, rfl⟩ := getElem?_concat_eq_some found
    · exact orderly.claimed old claims
    · cases claims
  one := by
    intro isSet index other pc otherPc found claims otherFound otherClaims
    obtain old | ⟨-, rfl⟩ := getElem?_concat_eq_some found
    · obtain otherOld | ⟨-, rfl⟩ := getElem?_concat_eq_some otherFound
      · exact orderly.one isSet old claims otherOld otherClaims
      · cases otherClaims
    · cases claims
  called := by
    intro caller member
    obtain ⟨isSet, called⟩ := orderly.called caller member
    match caller, called with
    | .reply, replied => exact ⟨isSet, replied⟩
    | .timedWait index, found =>
      exact ⟨isSet, getElem?_append_of_some _ found⟩
  nodup := orderly.nodup

theorem Orderly.waits (orderly : Orderly log race) (waits : List WaitPc) :
    Orderly log { race with waits := waits } :=
  ⟨orderly.exclusive, orderly.reply, orderly.claimed, orderly.one, fun caller member => by
      obtain ⟨isSet, called⟩ := orderly.called caller member
      cases caller <;> exact ⟨isSet, called⟩,
    orderly.nodup⟩

theorem Orderly.reply_arrives (orderly : Orderly log race)
    (unanswered : race.reply = none) (errorCode : BitVec 32) :
    Orderly log { race with reply := some (.storing, errorCode) } where
  exclusive := orderly.exclusive
  reply := by
    have fits := orderly.reply
    rw [unanswered] at fits
    exact fits
  claimed := orderly.claimed
  one := orderly.one
  called := by
    intro caller member
    obtain ⟨isSet, called⟩ := orderly.called caller member
    match caller, called with
    | .timedWait index, found => exact ⟨isSet, found⟩
    | .reply, ⟨other, replied⟩ => cases unanswered.symm.trans replied
  nodup := orderly.nodup

/-- Every punctual step keeps the invariant. -/
theorem step_orderly (log : List Caller) (race : Race) (input : RaceInput)
    (orderly : Orderly log race) (punctual : Punctual race input) :
    ∃ callers next, step race input = some (callers, next) ∧
      Orderly (log ++ callers) next := by
  have same : Orderly (log ++ []) race := by rwa [append_nil]
  cases input with
  | reply errorCode =>
    rw [step]
    cases replyEq : race.reply with
    | none =>
      refine ⟨_, _, rfl, ?_⟩
      rw [append_nil]
      exact orderly.reply_arrives replyEq errorCode
    | some _ => exact ⟨_, _, rfl, same⟩
  | wait => exact ⟨_, _, rfl, same.waits _⟩
  | timedWait => exact ⟨_, _, rfl, same.begin_timedWait⟩
  | goOnReply =>
    rw [step]
    cases replyEq : race.reply with
    | none => exact ⟨_, _, rfl, same⟩
    | some found => exact ⟨_, _, rfl, orderly.notify replyEq⟩
  | goOnWait index =>
    rw [step]
    cases race.waits[index]? with
    | none => exact ⟨_, _, rfl, same⟩
    | some pc => exact ⟨_, _, rfl, same.waits _⟩
  | goOnTimedWait index expires =>
    rw [step]
    cases found : race.timedWaits[index]? with
    | none => exact ⟨_, _, rfl, same⟩
    | some pc => exact ⟨_, _, rfl, orderly.timedWait punctual found⟩

/-- Whatever the order, a future is resolved once as long as no time-out is
reported after the reply and one `timed_wait` at most goes on to the callback. -/
theorem future_resolves_once (callback : Bool) (inputs : List RaceInput)
    (punctual : Admissible step Punctual (new callback) inputs) :
    ∃ log race, run step (new callback) inputs = some (log, race) ∧ ResolvedOnce log race := by
  obtain ⟨log, race, runEq, orderly⟩ := run_of_admissible
    step_orderly [] (orderly_new callback) inputs punctual
  exact ⟨log, race, runEq, orderly.resolvedOnce⟩

/-- The reply wakes up a `timed_wait` and a `wait`. -/
def wokenByReply : List RaceInput :=
  [.timedWait, .wait, .goOnTimedWait 0 false, .goOnWait 0, .reply 7, .goOnReply,
    .goOnReply, .goOnTimedWait 0 false, .goOnWait 0, .goOnReply, .goOnReply, .goOnTimedWait 0 false]

/-- The `timed_wait` times out between the two stores of the reply. -/
def timesOut : List RaceInput :=
  [.timedWait, .wait, .goOnTimedWait 0 false, .goOnWait 0, .reply 7, .goOnReply,
    .goOnTimedWait 0 true, .goOnReply, .goOnTimedWait 0 false, .goOnTimedWait 0 false,
    .goOnTimedWait 0 false, .goOnReply, .goOnWait 0]

theorem future_resolves_once_sample :
    (∃ log race, run step (new true) wokenByReply = some (log, race) ∧
      ResolvedOnce log race) ∧
    ∃ log race, run step (new true) timesOut = some (log, race) ∧
      log = [.timedWait 0] ∧ race.future = ⟨etimedout, true, false, true⟩ ∧
      ResolvedOnce log race := by
  obtain ⟨log, race, runEq, resolved⟩ := future_resolves_once true timesOut (by decide +kernel)
  have final : (run step (new true) timesOut).map (fun result => (result.1, result.2.future)) =
        some ([.timedWait 0], ⟨etimedout, true, false, true⟩) := by
    decide +kernel
  rw [runEq, Option.map_some, Option.some_inj, Prod.mk.injEq] at final
  exact ⟨future_resolves_once true wokenByReply (by decide +kernel), log, race, runEq, final.1,
    final.2, resolved⟩

/-- `pthread_cond_timedwait` reports a time-out after the reply has made the
future ready. -/
def lateTimeout : List RaceInput :=
  [.timedWait, .goOnTimedWait 0 false, .reply 0, .goOnReply, .goOnReply,
    .goOnReply, .goOnReply, .goOnTimedWait 0 true, .goOnTimedWait 0 true,
    .goOnTimedWait 0 true, .goOnTimedWait 0 true]

def secondTimedWait : List RaceInput :=
  [.timedWait, .goOnTimedWait 0 false, .goOnTimedWait 0 true,
    .goOnTimedWait 0 true, .goOnTimedWait 0 true, .goOnTimedWait 0 true,
    .timedWait, .goOnTimedWait 1 true, .goOnTimedWait 1 true,
    .goOnTimedWait 1 true, .goOnTimedWait 1 true]

/-- A late timeout, and a second `timed_wait`, call the callback again. -/
theorem future_resolves_twice :
    (run step (new true) lateTimeout).map (fun result => (result.1, result.2.future)) =
      some ([.reply, .timedWait 0], ⟨etimedout, true, true, true⟩) ∧
    (run step (new true) secondTimedWait).map
        (fun result => result.1) = some [.timedWait 0, .timedWait 1] := by
  decide +kernel

end SRPC.FutureRace
