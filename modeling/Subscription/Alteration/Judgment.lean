import Subscription.Alteration.Transition

/-! # Judgments

Each setting of a plan judges the move to the setting proposed for its facet.
The limit does so by an ordered list of rules, of which the first that applies
answers: first those that refuse (`Limit.refusal?`), then those that say what
the move costs (`Limit.charge`).  The extend policy refuses to move back.  The
other settings allow everything.
-/

namespace Subscription

namespace Limit

open Status in
/-- Why the move to `target` is refused, by the first rule that applies. -/
def refusal? (l target : Limit) (t : Transition) : Option Status :=
  let m := t.family
  let r := t.request
  let o := t.occasion
  let fits : Bool := t.circumstance.occupancy ≤ target.tier
  if l = target ∧ r.isChange ∧ ¬ r.isActivation then
    some ⟨.same, Code.limitUnsupportedReplacement, "limit is the same"⟩
  else if l ≠ target ∧ ¬ r.isChange then
    some (unappropriated Code.limitChangeWithoutChangeAction "change action required")
  else if ¬ fits ∧
      ¬ (m.limitRules.exceedAllowsPlainProlongation ∧ r.isProlongation ∧ ¬ r.isActivation) then
    some (unappropriated Code.limitExceeded "limit exceeded")
  else if t.prospective.isInfinite ∧ m.isFreeLimit l then
    some (unappropriated Code.limitUnsupportedReplacement "limit can not be infinite")
  else if m.limitRules.blockUntilTrialStarted ∧ o.isTrialAvailable ∧ ¬ r.isActivation then
    some (unappropriated Code.limitUnsupportedReplacement "trial must be started first")
  else if ¬ o.isActiveOn .infinite ∧ ¬ o.isActiveOn .notExpired ∧ ¬ r.isActivation ∧
      ¬ m.isFreeLimit target then
    some (unappropriated Code.limitUnsupportedReplacement "plan must be activated first")
  else if target.tier < l.tier ∧ o.hasReason ∧ ¬ r.isActivation then
    some (unappropriated Code.limitUnsupportedReplacement
      "limit can not be decreased with a reason")
  else if m.limitRules.exceedAllowsPlainProlongation ∧ r.isChange ∧ ¬ fits then
    some (unappropriated Code.limitExceeded "limit exceeded")
  else none

/-- What a move to `target` that is not refused costs. -/
def charge (l target : Limit) (t : Transition) : Status :=
  let m := t.family
  let r := t.request
  let o := t.occasion
  if ¬ r.isProlongation ∧
      (target.tier < l.tier ∨ (m.limitRules.freeChangesDuringTrial ∧ o.isTrialActive)) then
    .free
  else if m.isFreeLimit target ∧ ¬ r.isExtension ∧ ¬ r.isProlongationSet then
    .free
  else if (r.trialBehaviour .freeWhileActive ∧ o.isTrialActive) ∨
      (r.trialBehaviour .freeWhileAvailable ∧ o.isTrialAvailable) then
    .whileTrial
  else .reasonRequired

/-- The judgment of the move to the proposed limit. -/
def judge (l : Limit) (t : Transition) : Status :=
  match t.prospective.settings.limit with
  | none => .detached
  | some target => (l.refusal? target t).getD (l.charge target t)

end Limit

namespace ExtendPolicy

/-- Why the move from one rule to another is refused. -/
def refusal? (rule target : ExtendRule) : Option Status :=
  if rule = .never ∧ target ≠ .never then
    some (.unappropriated Status.Code.extendPolicyNotAllowed
      "never extend policy can not be changed")
  else if rule ≠ .free ∧ target = .free then
    some (.unappropriated Status.Code.extendPolicyNotAllowed
      "free extend policy is not available")
  else if target = .trial ∧ .trial < rule then
    some (.unappropriated Status.Code.extendPolicyNotAllowed
      "trial is only available after free")
  else none

/-- The judgment of the move to the proposed extend policy. -/
def judge (p : ExtendPolicy) (t : Transition) : Status :=
  match t.prospective.settings.extendPolicy with
  | none => .detached
  | some target => (refusal? p.rule target.rule).getD .detached

end ExtendPolicy

/-- The judgment of the move to the setting proposed for the same facet. -/
def Setting.judge (t : Transition) : Setting → Status
  | limit l => l.judge t
  | extendPolicy p => p.judge t
  | restrictPolicy _ => .detached
  | demo _ => .detached

end Subscription
