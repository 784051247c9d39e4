import Subscription.Alteration.Transition

/-! # Replacements

A facet for which no setting is desired gets a replacement of the setting it
has.  Every replacement is found from the new dates alone, so the order of the
facets does not matter.
-/

namespace Subscription

/-- A limit that no longer suffices gives way to the least tier that does. -/
def Limit.replacement (l : Limit) (t : Transition) : Limit :=
  if t.circumstance.occupancy ≤ l.tier then l
  else
    match t.family.catalog with
    | some c => ⟨c.smallestFitting t.circumstance.occupancy⟩
    | none => l

/-- Free extension ends with a payment or promo, or when the trial's deadline has
passed.  The trial starts when the occupancy rises above the threshold, and then
its deadline is the plan's new expiry. -/
def ExtendPolicy.replacement (p : ExtendPolicy) (t : Transition) : ExtendPolicy :=
  if t.occasion.hasReason then { p with rule := .never }
  else if p.rule = .trial ∧ p.trialUntil < t.occasion.time then { p with rule := .never }
  else if p.rule = .free ∧ t.family.trialThreshold.any (· < t.circumstance.occupancy) then
    { rule := .trial
      trialUntil :=
        if t.prospective.isInfinite then .unbounded else t.prospective.activeUntil }
  else p

/-- Access is restricted from the plan's new expiry on. -/
def RestrictPolicy.replacement (_ : RestrictPolicy) (t : Transition) : RestrictPolicy :=
  ⟨t.prospective.activeUntil⟩

def Setting.replacement (t : Transition) : Setting → Setting
  | limit l => limit (l.replacement t)
  | extendPolicy p => extendPolicy (p.replacement t)
  | restrictPolicy p => restrictPolicy (p.replacement t)
  | demo w => demo w

theorem Setting.facet_replacement (a : Setting) (t : Transition) :
    (a.replacement t).facet = a.facet := by
  cases a <;> rfl

/-- The replacement of every setting. -/
def Settings.replacement (s : Settings) (t : Transition) : Settings where
  limit := s.limit.map (·.replacement t)
  extendPolicy := s.extendPolicy.map (·.replacement t)
  restrictPolicy := s.restrictPolicy.map (·.replacement t)
  demo := s.demo

theorem Settings.get?_replacement (s : Settings) (t : Transition) (f : Facet) :
    (s.replacement t).get? f = (s.get? f).map (Setting.replacement t) := by
  rcases s with ⟨a, b, c, d⟩
  cases f <;> simp only [get?, replacement]
  · cases a <;> rfl
  · cases b <;> rfl
  · cases c <;> rfl
  · cases d <;> rfl

end Subscription
