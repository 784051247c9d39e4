import Subscription.Alteration.Judgment
import Subscription.Alteration.Proposal

/-! # Arranging an alteration

An alteration is previewed by arranging it: the request is normalised, and its
status is narrowed by what the plan as a whole objects to, by the judgment of
each facet in family order, and by the caller's own conditions (`verdicts`).
-/

namespace Subscription

/-- A request at a time, under circumstances, funded in some way. -/
structure Alteration where
  method : Method
  request : Request
  circumstance : Circumstance
  time : Seconds

namespace Plan

open Status in
/-- What the plan as a whole objects to, in order. -/
def objections (p : Plan) (r : Request) (o : Occasion) : List Status :=
  let isActive := p.isActive o.time
  let changed := r.expectedPrior.toList.any fun expected =>
    !(p.current.settings.get? expected.facet).any (·.isSame expected)
  (if changed then [unappropriated Code.planWasChanged "plan was changed"] else []) ++
  (if r.expectedExpiry.isDeclared ∧ isActive ∧ ¬ r.expectedExpiry.holds p.activeUntil then
    [unappropriated Code.unexpectedExpirationDate "expiration date not equal to expected"]
  else []) ++
  (if ¬ r.isActivation ∧ r.isExtension ∧ ¬ isActive then
    [unappropriated Code.activationRequired "plan must be activated first"]
  else []) ++
  (if r.isActivation ∧ isActive ∧ ¬ p.isFree o.time then
    [unappropriated Code.planIsActive "plan is already active"]
  else []) ++
  (if r.trialBehaviour .requireAvailable ∧ ¬ o.isTrialAvailable then
    [unappropriated Code.trialUnavailable "trial is not available"]
  else [])

/-- The judgments of the plan's settings in family order. -/
def judgments (p : Plan) (t : Transition) : List Status :=
  p.family.facets.filterMap fun f => (p.current.settings.get? f).map (Setting.judge t)

/-- Every answer that narrows the status of a normalised request, in order. -/
def verdicts (p : Plan) (r : Request) (c : Circumstance) (o : Occasion) : List Status :=
  p.objections r o ++
  p.judgments ⟨p.family, c, o, r, p.proposal r c o⟩ ++
  r.extraConditions.map (· p)

/-- The request of an alteration, normalised and narrowed. -/
def arrange (p : Plan) (a : Alteration) : Request :=
  let r := p.normalise a.request
  { r with
    availability :=
      r.availability.narrowAll (p.verdicts r a.circumstance (p.occasion a.method a.time)) }

end Plan
end Subscription
