import Mathlib.Data.List.Basic

/-!
# A device that accepts a part of what it is offered

A call offers items and is answered by how many of them were accepted, which
may be none.
-/

namespace SRPC.PartialSends

variable {α : Type*}

/-- `accepts` is how many items each call accepts at most, `calls` how many
calls there were, and `sent` what was accepted. -/
structure Device (α : Type*) where
  accepts : Nat → Nat
  calls : Nat
  sent : List α

def Device.offer (device : Device α) (items : List α) : Nat × Device α :=
  let count := min (device.accepts device.calls) items.length
  (count,
    { device with
      calls := device.calls + 1
      sent := device.sent ++ items.take count })

/-- The device does not refuse for ever. -/
def Fair (accepts : Nat → Nat) : Prop := ∀ call, ∃ later, call ≤ later ∧ 0 < accepts later

theorem fair_of_pos {accepts : Nat → Nat} (always : ∀ call, 0 < accepts call) : Fair accepts :=
  fun call => ⟨call, Nat.le_refl call, always call⟩

/-- The rest is offered again until nothing is left, in a limited number of
calls. -/
def sendAll : Nat → List α → Device α → Option (Device α)
  | _, [], device => some device
  | 0, _ :: _, _ => none
  | fuel + 1, item :: items, device =>
    let (count, device) := device.offer (item :: items)
    sendAll fuel ((item :: items).drop count) device

@[simp] theorem sendAll_nil (fuel : Nat) (device : Device α) :
    sendAll fuel [] device = some device := by
  cases fuel <;> rfl

variable {items : List α}

theorem sendAll_zero (some : items ≠ []) (device : Device α) : sendAll 0 items device = none := by
  cases items with
  | nil => exact absurd rfl some
  | cons item items => rfl

theorem offer_le (device : Device α) (items : List α) : (device.offer items).1 ≤ items.length :=
  Nat.min_le_right _ _

theorem sendAll_succ (some : items ≠ []) (fuel : Nat) (device : Device α) :
    sendAll (fuel + 1) items device =
      sendAll fuel (items.drop (device.offer items).1) (device.offer items).2 := by
  cases items with
  | nil => exact absurd rfl some
  | cons item items => rfl

variable {device after : Device α} {fuel : Nat}

theorem sent_of_sendAll (sentAll : sendAll fuel items device = some after) :
    after.accepts = device.accepts ∧ after.sent = device.sent ++ items := by
  induction fuel generalizing items device with
  | zero =>
    cases items with
    | nil =>
      cases sentAll
      exact ⟨rfl, by simp⟩
    | cons item items => cases sentAll
  | succ fuel ih =>
    by_cases empty : items = []
    · subst empty
      cases sentAll
      exact ⟨rfl, by simp⟩
    · rw [sendAll_succ empty] at sentAll
      obtain ⟨accepts, sent⟩ := ih sentAll
      refine ⟨accepts, ?_⟩
      rw [sent]
      simp [Device.offer]

theorem sendAll_mono {more : Nat} (le : fuel ≤ more)
    (sentAll : sendAll fuel items device = some after) :
    sendAll more items device = some after := by
  induction fuel generalizing more items device with
  | zero =>
    cases items with
    | nil =>
      cases sentAll
      exact sendAll_nil more _
    | cons item items => cases sentAll
  | succ fuel ih =>
    obtain ⟨more, rfl⟩ : ∃ k, more = k + 1 := ⟨more - 1, by omega⟩
    by_cases empty : items = []
    · subst empty
      exact sentAll
    · rw [sendAll_succ empty] at sentAll ⊢
      exact ih (Nat.le_of_succ_le_succ le) sentAll

theorem offer_shortens (some : items ≠ []) (accepted : 0 < device.accepts device.calls) :
    (items.drop (device.offer items).1).length < items.length := by
  have positive := List.length_pos_iff.mpr some
  simp only [Device.offer, List.length_drop]
  omega

/-- Where fewer items are always sent, so are these: a call that accepts
something comes nearer with every call that does not. -/
theorem sendAll_ends_of_shorter (some : items ≠ [])
    (shorterEnds : ∀ (rest : List α) (device : Device α),
      rest.length < items.length → Fair device.accepts →
        ∃ fuel after, sendAll fuel rest device = .some after) (wait : Nat)
    (fair : Fair device.accepts) (accepted : 0 < device.accepts (device.calls + wait)) :
    ∃ fuel after, sendAll fuel items device = .some after := by
  have atOnce : ∀ device : Device α, Fair device.accepts →
      0 < device.accepts device.calls →
        ∃ fuel after, sendAll fuel items device = .some after := by
    intro device fair now
    obtain ⟨fuel, after, sentAll⟩ :=
      shorterEnds _ (device.offer items).2 (offer_shortens some now) fair
    exact ⟨fuel + 1, after, by rw [sendAll_succ some, sentAll]⟩
  induction wait generalizing device with
  | zero => exact atOnce device fair accepted
  | succ wait ih =>
    by_cases now : 0 < device.accepts device.calls
    · exact atOnce device fair now
    · have nothing : (device.offer items).1 = 0 := by
        simp only [Device.offer]
        omega
      have fairAfter : Fair (device.offer items).2.accepts := fair
      have nearer : 0 < (device.offer items).2.accepts ((device.offer items).2.calls + wait) := by
        rwa [← Nat.add_assoc, Nat.add_right_comm] at accepted
      obtain ⟨fuel, after, sentAll⟩ := ih fairAfter nearer
      refine ⟨fuel + 1, after, ?_⟩
      rw [sendAll_succ some, nothing, List.drop_zero, sentAll]

theorem sendAll_ends (items : List α) (fair : Fair device.accepts) :
    ∃ fuel after, sendAll fuel items device = some after := by
  induction size : items.length using Nat.strongRecOn generalizing items device with
  | _ size ih =>
    subst size
    by_cases empty : items = []
    · subst empty
      exact ⟨0, device, rfl⟩
    · obtain ⟨later, notBefore, accepted⟩ := fair device.calls
      obtain ⟨wait, rfl⟩ := Nat.exists_eq_add_of_le notBefore
      exact sendAll_ends_of_shorter empty
        (fun rest _ shorter fair => ih _ shorter rest fair rfl) wait fair accepted

theorem sendAll_fair (items : List α) (fair : Fair device.accepts) :
    ∃ enough after, after.accepts = device.accepts ∧
      after.sent = device.sent ++ items ∧
      ∀ fuel, enough ≤ fuel → sendAll fuel items device = some after := by
  obtain ⟨enough, after, sentAll⟩ := sendAll_ends items fair
  obtain ⟨accepts, sent⟩ := sent_of_sendAll sentAll
  exact ⟨enough, after, accepts, sent, fun fuel le => sendAll_mono le sentAll⟩

end SRPC.PartialSends
