import Subscription.LoadError
import Subscription.Plan.Basic

/-! # Plans from stored states -/

namespace Subscription

/-- The family admits the variant. -/
def Family.checkVariant (m : Family) (variant : UInt32) : Except LoadError Unit :=
  if m.admits variant then .ok () else .error (.variantMismatch m.name variant)

namespace Plan

/-- The plan of a stored state.  Facets that are not stored take the family's
defaults, and stored facets that the family lacks are passed over. -/
def ofStored (m : Family) (s : StoredState) : Except LoadError Plan := do
  if s.planType ≠ m.id then throw (.familyMismatch m.name m.id s.planType)
  m.checkVariant s.variant
  let settings ← (m.decodeAll s.facet?).mapError .facet
  return ofSnapshot m s.variant ⟨s.activeUntil, s.freeActiveUntil, settings⟩

end Plan
end Subscription
