import Subscription.LoadError

/-! # The family that a declaration describes -/

namespace Subscription

/-- An unset switch is off. -/
def LimitRules.ofDeclared (r : DeclaredRules) : LimitRules where
  exceedAllowsPlainProlongation := r.exceedAllowsPlainProlongation.getD false
  blockUntilTrialStarted := r.blockUntilTrialStarted.getD false
  freeChangesDuringTrial := r.freeChangesDuringTrial.getD false

/-- The rule that a family's plans start from, `free` when none is declared. -/
def DeclaredDefaults.rule (d : DeclaredDefaults) : Except LoadError ExtendRule :=
  match d.extendPolicy with
  | none => .ok .free
  | some name => (ExtendRule.parse name).mapError .facet

namespace Family

/-- The catalog of a declaration, which only a family with a limit has. -/
def declaredCatalog (d : Declaration) : Except LoadError (Option Catalog) :=
  if .limit ∈ d.facets then
    match d.catalog with
    | .ok c => .ok (some c)
    | .error fault => .error (.config (.invalid fault))
  else .ok none

/-- The family of a sound declaration. -/
def ofDeclaration (d : Declaration) : Except LoadError Family := do
  d.validate.mapError fun fault => .config (.invalid fault)
  let catalog ← declaredCatalog d
  let rule ← d.defaults.rule
  let family ← (ofFacets d.name d.id d.facets catalog).mapError .invalidFamily
  return { family with
    limitRules := .ofDeclared d.rules
    trialThreshold := d.trialThreshold
    defaults := {
      limit := d.defaults.limit
      extendRule := rule
      restrictActiveFrom := d.defaults.restrictActiveFrom.getD 0
      demoActiveUntil := d.defaults.demoActiveUntil.getD 0 }
    variants := d.variants }

end Family
end Subscription
