import Subscription.Proofs.Activation
import Subscription.Proofs.Merging

/-! # When a plan counts as being in force

Three parts of an evaluation ask whether a plan is in force.  The plan itself says so by its
expiry, by a free limit, or while it is free for the time being (`Plan.isActive`).  The occasion
of an alteration lists reasons, of which the expiry and a free limit are some
(`Plan.isActive_occasion`).  The limit goes by the expiry alone (`Plan.goesByExpiry_iff`): a plan
that is in force for nothing has to be activated before it moves to a tier that costs something.
So what the limit counts as in force the occasion does, and what the occasion counts the plan
does, and they can only differ about a plan that is in force for nothing
(`Plan.isActive_iff_occasion`).
-/
namespace Subscription

/-- The plan is active by its expiry, whatever else it is active by. -/
def Occasion.GoesByExpiry (o : Occasion) : Prop :=
  o.isActiveOn .infinite = true ∨ o.isActiveOn .notExpired = true

namespace Limit

/-- The refusal to move to a tier that is paid for before the plan is activated. -/
def inactive : Status :=
  .unappropriated Status.Code.limitUnsupportedReplacement "plan must be activated first"

variable {l target : Limit} {t : Transition}

/-- The limit demands an activation only where there is none, the plan is not active by its
expiry, and the tier is paid for. -/
theorem of_refusal?_inactive (h : l.refusal? target t = some inactive) :
    t.request.isActivation = false ∧ ¬ t.occasion.GoesByExpiry ∧
      t.family.isFreeLimit target = false := by
  unfold refusal? at h
  dsimp only at h
  -- Every other refusal has another code or another message.
  repeat' split at h
  all_goals first
    | (rename_i hn
       obtain ⟨hinfinite, hexpired, hactivation, hfree⟩ := hn
       exact ⟨Bool.eq_false_iff.mpr hactivation, not_or.mpr ⟨hinfinite, hexpired⟩,
         Bool.eq_false_iff.mpr hfree⟩)
    | exact absurd (Option.some.inj h) (by decide)
    | cases h

/-- There it refuses, for want of an activation or for another reason that comes first. -/
theorem refusal?_ne_none (hactivation : t.request.isActivation = false)
    (hexpiry : ¬ t.occasion.GoesByExpiry) (hfree : t.family.isFreeLimit target = false) :
    l.refusal? target t ≠ none := by
  intro h
  obtain ⟨hinfinite, hexpired⟩ := not_or.mp hexpiry
  obtain ⟨-, -, -, -, -, hactive, -⟩ := (l.refusal?_eq_none_iff target t).mp h
  exact hactive ⟨hinfinite, hexpired, Bool.eq_false_iff.mp hactivation, Bool.eq_false_iff.mp hfree⟩

end Limit

namespace Plan
variable (p : Plan) (a : Alteration)

theorem outlasts_iff (time : Seconds) :
    p.activeUntil.Outlasts time ↔ p.current.isInfinite = true ∨ time < p.activeUntil := by
  unfold Seconds.Outlasts Snapshot.isInfinite
  rw [decide_eq_true_eq]
  rfl

/-- An occasion counts a plan as active by its expiry or by a free limit. -/
theorem isActive_occasion (method : Method) (time : Seconds) :
    (p.occasion method time).isActive = true ↔
      p.activeUntil.Outlasts time ∨ p.isLimitFree = true := by
  rw [outlasts_iff]
  unfold Occasion.isActive occasion Occasion.ofReasons activeReasons
  cases p.current.isInfinite <;> cases p.isLimitFree <;>
    by_cases ht : time < p.activeUntil <;> simp [Choice.ofList, ht]

/-- The limit counts a plan as in force until it expires. -/
theorem goesByExpiry_iff (method : Method) (time : Seconds) :
    (p.occasion method time).GoesByExpiry ↔ p.activeUntil.Outlasts time := by
  unfold Occasion.GoesByExpiry
  rw [(p.isActiveOn_occasion method time).1, (p.isActiveOn_occasion method time).2,
    decide_eq_true_eq, outlasts_iff]

/-- The plan demands an activation of what is extended without one, and is not in force. -/
theorem extension_mem_objections_iff :
    Check.extension.refusal ∈
        p.objections (p.normalise a.request) (p.occasion a.method a.time) ↔
      a.request.isActivation = false ∧ (p.normalise a.request).isExtension = true ∧
        p.isActive a.time = false := by
  rw [refusal_mem_objections_iff]
  simp [Check.passes, and_assoc]

/-- **Who counts a plan as being in force.**  The plan itself does when the occasion does or it
is free for the time being.  The limit does until the plan expires; the plan does besides when
it is in force for nothing, by its limit or for the time being, and so they can only differ about
an expired plan of that kind.  The plan as a whole demands an activation exactly of what is
extended without one while it is not in force.  The limit demands one only where there is none,
the plan has expired and the tier is paid for, and there it lets nothing pass. -/
theorem isActive_iff_occasion :
    (p.isActive a.time = true ↔
        (p.occasion a.method a.time).isActive = true ∨ a.time < p.freeActiveUntil) ∧
      (p.isActive a.time = true ↔ (p.occasion a.method a.time).GoesByExpiry ∨
        p.isLimitFree = true ∨ a.time < p.freeActiveUntil) ∧
      ((p.occasion a.method a.time).GoesByExpiry ↔ p.activeUntil.Outlasts a.time) ∧
      (Check.extension.refusal ∈
          p.objections (p.normalise a.request) (p.occasion a.method a.time) ↔
        a.request.isActivation = false ∧ (p.normalise a.request).isExtension = true ∧
          p.isActive a.time = false) ∧
      (∀ l target : Limit, l.refusal? target (p.transition a) = some Limit.inactive →
        a.request.isActivation = false ∧ ¬ p.activeUntil.Outlasts a.time ∧
          p.family.isFreeLimit target = false) ∧
      (∀ l target : Limit, a.request.isActivation = false →
        ¬ p.activeUntil.Outlasts a.time → p.family.isFreeLimit target = false →
          l.refusal? target (p.transition a) ≠ none) := by
  have hexpiry := p.goesByExpiry_iff a.method a.time
  have hactivation : (p.transition a).request.isActivation = a.request.isActivation :=
    p.isActivation_normalise a.request
  refine ⟨?_, ?_, hexpiry, p.extension_mem_objections_iff a, fun l target h => ?_,
    fun l target ha hexpired hfree => ?_⟩
  · rw [isActive_iff, isActive_occasion, or_left_comm, or_assoc]
  · rw [isActive_iff, hexpiry, or_left_comm]
  · obtain ⟨ha, hexpired, hfree⟩ := Limit.of_refusal?_inactive h
    exact ⟨hactivation ▸ ha, fun hlasts => hexpired (hexpiry.mpr hlasts), hfree⟩
  · exact Limit.refusal?_ne_none (hactivation.trans ha)
      (fun hlasts => hexpired (hexpiry.mp hlasts)) hfree

end Plan

namespace Seats

/-- Twenty seats that have expired at 2000 and are free until 5000. -/
def givenStored : StoredState := { stored with freeActiveUntil := 5000 }

/-- The plan of `givenStored`. -/
def givenPlan : Plan := .ofSnapshot family 1001 { plan.current with freeActiveUntil := 5000 }

/-- A month that is paid for after the expiry. -/
def lateMonth : Alteration := { month with time := 3000 }

/-- Twenty seats that are paid for after the expiry. -/
def lateTwenty : Alteration where
  method := .payment
  request := {
    availability := .detached
    actions := .ofList [.change]
    desired := { limit := some ⟨20⟩ } }
  circumstance := { occupancy := 5 }
  time := 3000

/-- **There is no one notion of being in force.**  A plan that is free for the time being is in
force, but the occasion knows of no reason for that.  A plan with a free limit is in force on
either account.  To extend the one and to change the other meets with no objection of the plan,
and yet the limit demands an activation. -/
theorem disagree_atNoCost :
    (Plan.ofStored family givenStored = .ok givenPlan ∧ givenPlan.isActive 3000 = true ∧
        (givenPlan.occasion .payment 3000).isActive = false ∧
        givenPlan.objections (givenPlan.normalise lateMonth.request)
          (givenPlan.occasion .payment 3000) = [] ∧
        (givenPlan.apply lateMonth).2 = .rejected Status.Code.limitUnsupportedReplacement
          "plan must be activated first") ∧
      Plan.ofStored family (storedAt 10) = .ok (planAt 10) ∧ (planAt 10).isActive 3000 = true ∧
        ((planAt 10).occasion .payment 3000).isActive = true ∧
        (planAt 10).objections ((planAt 10).normalise lateTwenty.request)
          ((planAt 10).occasion .payment 3000) = [] ∧
        ((planAt 10).apply lateTwenty).2 = .rejected Status.Code.limitUnsupportedReplacement
          "plan must be activated first" :=
  ⟨⟨rfl, by decide, by decide, by decide, by decide⟩,
    rfl, by decide, by decide, by decide, by decide⟩

end Seats
end Subscription
