import Subscription.Stored

/-! # Circumstances of an evaluation -/

namespace Subscription

/-- What is true outside the plan when an alteration is evaluated. -/
structure Circumstance where
  /-- How many seats are taken. -/
  occupancy : UInt32 := 0
  /-- Seconds of grace after access becomes restricted. -/
  postpaymentPeriod : Seconds := 0
deriving DecidableEq, Inhabited

instance : Stored Circumstance where
  encode c := .object ⟨[
    ("occupancy", Stored.encode c.occupancy),
    ("postpayment_period", Stored.encode c.postpaymentPeriod)]⟩
  decode? v := do
    let t ← v.struct? ["occupancy", "postpayment_period"] 2
    return {
      occupancy := ← t.required "occupancy"
      postpaymentPeriod := ← t.required "postpayment_period" }

end Subscription
