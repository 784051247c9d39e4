import Subscription.Stored

/-! # Spans of tiers

A catalog document writes tiers as arithmetic runs rather than one by one.
-/

namespace Subscription

/-- The run `first, first + step, …` of tiers not above `last`. -/
structure Span where
  first : UInt32
  last : UInt32
  step : UInt32 := 1
deriving DecidableEq

namespace Span

/-- The distance between neighbours; a step of zero counts as one. -/
def stride (s : Span) : Nat := max s.step.toNat 1

/-- How many tiers the span covers. -/
def count (s : Span) : Nat :=
  if s.first ≤ s.last then (s.last.toNat - s.first.toNat) / s.stride + 1 else 0

/-- The tiers of the span, ascending. -/
def values (s : Span) : List UInt32 :=
  (List.range s.count).map fun i => UInt32.ofNat (s.first.toNat + i * s.stride)

instance : Stored Span where
  encode s := .object ⟨[
    ("from", Stored.encode s.first),
    ("to", Stored.encode s.last),
    ("step", Stored.encode s.step)]⟩
  decode? v := do
    let t ← v.closedStruct? ["from", "to", "step"] 2
    return {
      first := ← t.required "from"
      last := ← t.required "to"
      step := ← t.defaulted "step" 1 }

end Span
end Subscription
