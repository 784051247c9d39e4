import Subscription.Alteration.Replacement

/-! # Proposals

The state that a request would lead to: new dates, the desired settings, and a
replacement of every other one.  The facets of the family are gone through twice,
for the desired settings first; no facet is looked at for another, so each round
comes to one operation on all settings (`outline_eq`, `proposal_eq`).
-/

namespace Subscription
namespace Plan

/-- Moving to a free tier makes the plan infinite. -/
def normalise (p : Plan) (r : Request) : Request :=
  if r.desired.limit.any p.family.isFreeLimit then
    { r with prolongation := .infinite, actions := r.actions.insert .prolong }
  else r

/-- The expiry of the plan, and of its being free, after a request.  Only a promo
moves the latter. -/
def dates (p : Plan) (r : Request) (o : Occasion) : Seconds × Seconds :=
  if r.isProlongation then
    match r.prolongation with
    | .infinite => (.infinite, .infinite)
    | .set expiry => (expiry, if o.isPromo then expiry else p.freeActiveUntil)
    | .extend delta =>
      (max o.time p.activeUntil + delta,
        if o.isPromo then max o.time p.freeActiveUntil + delta else p.freeActiveUntil)
    | .none => (p.activeUntil, p.freeActiveUntil)
  else (p.activeUntil, p.freeActiveUntil)

/-- The dates and desired settings after a request. -/
def outline (p : Plan) (r : Request) (o : Occasion) : Snapshot :=
  let (activeUntil, freeActiveUntil) := p.dates r o
  ⟨activeUntil, freeActiveUntil, Settings.putAll {} p.family.facets r.desired.get?⟩

/-- The state after a request.  Every replacement is found from the outline. -/
def proposal (p : Plan) (r : Request) (c : Circumstance) (o : Occasion) : Snapshot :=
  let outline := p.outline r o
  { outline with
    settings := outline.settings.putAll p.family.facets fun f =>
      if (r.desired.get? f).isSome then none
      else (p.current.settings.get? f).map (Setting.replacement ⟨p.family, c, o, r, outline⟩) }

variable (p : Plan) (r : Request) (c : Circumstance) (o : Occasion)

/-- The desired settings are taken as far as they are for facets of the family. -/
theorem outline_eq :
    p.outline r o = ⟨(p.dates r o).1, (p.dates r o).2, r.desired.within p.family.facets⟩ := by
  have hdesired : Settings.putAll {} p.family.facets r.desired.get? =
      r.desired.within p.family.facets := by
    refine Settings.ext_get? fun f => ?_
    rw [Settings.get?_putAll fun _ _ => Settings.facet_of_get?, Settings.get?_within]
    split
    · cases f <;> exact Option.or_none
    · cases f <;> rfl
  rw [← hdesired]
  rfl

/-- What is not desired is replaced, as far as it is for facets of the family. -/
theorem proposal_eq :
    p.proposal r c o =
      { p.outline r o with
        settings := (p.outline r o).settings.orElse
          ((p.current.settings.replacement ⟨p.family, c, o, r, p.outline r o⟩).within
            p.family.facets) } := by
  have hnew : ∀ f a, (if (r.desired.get? f).isSome then none
      else (p.current.settings.get? f).map
        (Setting.replacement ⟨p.family, c, o, r, p.outline r o⟩)) = some a → a.facet = f := by
    intro f a ha
    split at ha
    · cases ha
    · obtain ⟨b, hb, rfl⟩ := Option.map_eq_some_iff.mp ha
      rw [Setting.facet_replacement, Settings.facet_of_get? hb]
  have hsettings : (p.proposal r c o).settings = (p.outline r o).settings.orElse
      ((p.current.settings.replacement ⟨p.family, c, o, r, p.outline r o⟩).within
        p.family.facets) := by
    refine Settings.ext_get? fun f => ?_
    unfold proposal
    dsimp only
    rw [Settings.get?_putAll hnew, Settings.get?_orElse, Settings.get?_within,
      Settings.get?_replacement]
    have houtline : (p.outline r o).settings.get? f =
        if f ∈ p.family.facets then r.desired.get? f else none := by
      rw [outline_eq]
      exact r.desired.get?_within p.family.facets f
    rw [houtline]
    -- A facet has a desired setting, or else none in the outline.
    split
    · cases r.desired.get? f with
      | none => exact Option.or_none
      | some a => rfl
    · rfl
  rw [← hsettings]
  rfl

end Plan
end Subscription
