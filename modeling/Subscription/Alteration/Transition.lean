import Subscription.Alteration.Occasion
import Subscription.Alteration.Request

/-! # Transitions -/

namespace Subscription

/-- What a rule looks at when it proposes or judges a setting. -/
structure Transition where
  family : Family
  circumstance : Circumstance
  occasion : Occasion
  request : Request
  /-- The state that is proposed.  While replacements are sought it has the new
  dates and the desired settings only. -/
  prospective : Snapshot

end Subscription
