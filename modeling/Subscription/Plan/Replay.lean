import Subscription.Plan.Loading
import Subscription.Replay.Fold

/-! # Plans from histories -/

namespace Subscription

/-- The plan that a history amounts to. -/
def Plan.ofHistory (m : Family) (records : List Record) : Except LoadError Plan := do
  let replayed ← replay m records
  m.checkVariant replayed.variant
  return ofSnapshot m replayed.variant replayed.snapshot

end Subscription
