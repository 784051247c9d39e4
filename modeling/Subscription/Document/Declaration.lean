import Subscription.Setting.Reading
import Subscription.Tier.Span

/-! # Declared families

A family as a catalog document writes it: tiers as spans, and every switch and
default optional.  Nothing is checked here beyond the form of the fields, of
which there may be no others.
-/

namespace Subscription

/-- Limit rules as declared; an unset switch is off. -/
structure DeclaredRules where
  exceedAllowsPlainProlongation : Option Bool := none
  blockUntilTrialStarted : Option Bool := none
  freeChangesDuringTrial : Option Bool := none
deriving DecidableEq, Inhabited

/-- Facet defaults as declared, the extend rule by its name. -/
structure DeclaredDefaults where
  limit : Option UInt32 := none
  extendPolicy : Option String := none
  restrictActiveFrom : Option Seconds := none
  demoActiveUntil : Option Seconds := none
deriving DecidableEq, Inhabited

/-- A family as declared. -/
structure Declaration where
  name : String
  id : UInt32
  variants : List UInt32
  facets : List Facet
  spans : List Span := []
  freeTiers : List UInt32 := []
  trialThreshold : Option UInt32 := none
  rules : DeclaredRules := {}
  defaults : DeclaredDefaults := {}
deriving DecidableEq

instance : Stored DeclaredRules where
  encode r := .object ⟨[
    ("exceed_allows_plain_prolongation", Stored.encode r.exceedAllowsPlainProlongation),
    ("block_until_trial_started", Stored.encode r.blockUntilTrialStarted),
    ("free_changes_during_trial", Stored.encode r.freeChangesDuringTrial)]⟩
  decode? v := do
    let t ← v.closedStruct? ["exceed_allows_plain_prolongation", "block_until_trial_started",
      "free_changes_during_trial"] 0
    return {
      exceedAllowsPlainProlongation := ← t.optional "exceed_allows_plain_prolongation"
      blockUntilTrialStarted := ← t.optional "block_until_trial_started"
      freeChangesDuringTrial := ← t.optional "free_changes_during_trial" }

instance : Stored DeclaredDefaults where
  encode d := .object ⟨[
    ("limit", Stored.encode d.limit),
    ("extend_policy", Stored.encode d.extendPolicy),
    ("restrict_active_from", Stored.encode d.restrictActiveFrom),
    ("demo_active_until", Stored.encode d.demoActiveUntil)]⟩
  decode? v := do
    let t ← v.closedStruct? ["limit", "extend_policy", "restrict_active_from",
      "demo_active_until"] 0
    return {
      limit := ← t.optional "limit"
      extendPolicy := ← t.optional "extend_policy"
      restrictActiveFrom := ← t.optional "restrict_active_from"
      demoActiveUntil := ← t.optional "demo_active_until" }

instance : Stored Declaration where
  encode d := .object ⟨[
    ("name", Stored.encode d.name),
    ("id", Stored.encode d.id),
    ("variants", Stored.encode d.variants),
    ("facets", Stored.encode d.facets),
    ("tiers", Stored.encode d.spans),
    ("free_tiers", Stored.encode d.freeTiers),
    ("trial_threshold", Stored.encode d.trialThreshold),
    ("limit_rules", Stored.encode d.rules),
    ("defaults", Stored.encode d.defaults)]⟩
  decode? v := do
    -- The trial threshold has no default, so an array must hold it, as null at least.
    let t ← v.closedStruct? ["name", "id", "variants", "facets", "tiers", "free_tiers",
      "trial_threshold", "limit_rules", "defaults"] 7
    return {
      name := ← t.required "name"
      id := ← t.required "id"
      variants := ← t.required "variants"
      facets := ← t.required "facets"
      spans := ← t.defaulted "tiers" []
      freeTiers := ← t.defaulted "free_tiers" []
      trialThreshold := ← t.optional "trial_threshold"
      rules := ← t.defaulted "limit_rules" {}
      defaults := ← t.defaulted "defaults" {} }

end Subscription
