import Subscription.Setting.Settings

/-! # Plan states

A snapshot is what a plan is at one moment: two dates and its settings.  A
stored state is the flat form in which a snapshot is kept outside.
-/

namespace Subscription

/-- The dates and settings of a plan at one moment. -/
structure Snapshot where
  /-- When the plan expires; `Seconds.infinite` if never. -/
  activeUntil : Seconds
  /-- Until when the plan costs nothing. -/
  freeActiveUntil : Seconds
  settings : Settings := {}
deriving DecidableEq, Inhabited

namespace Snapshot

/-- Whether the plan never expires. -/
def isInfinite (s : Snapshot) : Bool := s.activeUntil = .infinite

/-- Whether dates and settings say the same; deadlines of trials may differ. -/
def isSame (s t : Snapshot) : Bool :=
  s.activeUntil = t.activeUntil && s.freeActiveUntil = t.freeActiveUntil &&
    s.settings.isSame t.settings

end Snapshot

/-- The expiry written for the validity of a stored state. -/
def StoredState.validForever : Seconds := ⟨2147483647, by decide, by decide⟩

/-- The flat form of a plan's state. -/
structure StoredState where
  /-- The number of the plan's family. -/
  planType : UInt32
  variant : UInt32
  validUntil : Seconds := StoredState.validForever
  activeUntil : Seconds
  freeActiveUntil : Seconds
  /-- Stored fields by facet name. -/
  facets : Table Fields := {}

namespace StoredState

/-- The stored fields of a facet. -/
def facet? (s : StoredState) (f : Facet) : Option Fields := s.facets.get? f.name

instance [Medium] : Stored StoredState where
  encode s := .object ⟨[
    ("plan_type", Stored.encode s.planType),
    ("plan_id", Stored.encode s.variant),
    ("valid_till", Stored.encode s.validUntil),
    ("active_till", Stored.encode s.activeUntil),
    ("free_active_till", Stored.encode s.freeActiveUntil),
    ("option_list", Stored.encode s.facets)]⟩
  decode? v := do
    let t ← v.struct? ["plan_type", "plan_id", "valid_till", "active_till", "free_active_till",
      "option_list"] 5
    return {
      planType := ← t.required "plan_type"
      variant := ← t.required "plan_id"
      validUntil := ← t.required "valid_till"
      activeUntil := ← t.required "active_till"
      freeActiveUntil := ← t.required "free_active_till"
      facets := ← t.defaulted "option_list" {} }

end StoredState
end Subscription
