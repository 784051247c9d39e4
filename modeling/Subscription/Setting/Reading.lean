import Subscription.Setting.Basic
import Subscription.Tier.Catalog

/-! # Reading settings from stored fields

Each kind of setting is read from the fields it is stored under; other fields
are ignored.  A field of the wrong form makes the whole setting malformed, and
only well-formed fields are looked up in the catalog or among the rules.
-/

namespace Subscription

/-- Why a setting cannot be built or read. -/
inductive FacetError where
  /-- A field is missing or not of its type. -/
  | malformed (f : Facet)
  | notInFamily (f : Facet)
  | unknownRule (name : String)
  | catalog (e : CatalogError)
deriving DecidableEq

def FacetError.message : FacetError → String
  | malformed f => "malformed '" ++ f.name ++ "' data"
  | notInFamily f => "facet '" ++ f.name ++ "' is not part of the plan family"
  | unknownRule s => "unknown extend policy rule: " ++ s
  | catalog e => "limit: " ++ e.message

/-- The rule of a name. -/
def ExtendRule.parse (s : String) : Except FacetError ExtendRule :=
  match ofName? s with
  | some r => .ok r
  | none => .error (.unknownRule s)

/-- A limit at one of the catalog's tiers. -/
def Limit.ofTier (tier : UInt32) (c : Catalog) : Except FacetError Limit :=
  match c.require tier with
  | .ok t => .ok ⟨t⟩
  | .error e => .error (.catalog e)

def Limit.ofFields (fields : Fields) (c : Catalog) : Except FacetError Limit :=
  match fields.required "value" with
  | some tier => Limit.ofTier tier c
  | none => .error (.malformed .limit)

def ExtendPolicy.ofFields (fields : Fields) : Except FacetError ExtendPolicy :=
  match fields.required "rule", fields.optional "trial_till" with
  | some name, some deadline =>
    (ExtendRule.parse name).map fun rule => ⟨rule, deadline.getD .unbounded⟩
  | _, _ => .error (.malformed .extendPolicy)

def RestrictPolicy.ofFields (fields : Fields) : Except FacetError RestrictPolicy :=
  match fields.required "active_from" with
  | some t => .ok ⟨t⟩
  | none => .error (.malformed .restrictPolicy)

def DemoWindow.ofFields (fields : Fields) : Except FacetError DemoWindow :=
  match fields.required "active_till" with
  | some t => .ok ⟨t⟩
  | none => .error (.malformed .demo)

end Subscription
