import Subscription.Distinct
import Subscription.Setting.Settings
import Subscription.Setting.Reading

/-! # Plan families

A family says which facets its plans have, which tiers they may take, which
rules apply to their limit, and what a facet is when nothing is stored for it.
Facets are listed in the order in which they are judged, each once, and a
family with a limit has a catalog; `ofFacets` makes a family from facets
exactly when they are so.
-/

namespace Subscription

/-- Switches of the limit's rules. -/
structure LimitRules where
  /-- A prolongation without activation may go on while the limit is exceeded. -/
  exceedAllowsPlainProlongation : Bool := false
  /-- Nothing but activation is allowed while a trial can still be started. -/
  blockUntilTrialStarted : Bool := false
  /-- Changes that do not prolong are free while a trial runs. -/
  freeChangesDuringTrial : Bool := false
deriving DecidableEq, Inhabited

/-- The values of facets for which nothing is stored. -/
structure FacetDefaults where
  /-- The least tier of the catalog when absent. -/
  limit : Option UInt32 := none
  extendRule : ExtendRule := .free
  restrictActiveFrom : Seconds := 0
  demoActiveUntil : Seconds := 0
deriving DecidableEq, Inhabited

/-- A family of plan variants that share their rules. -/
structure Family where
  name : String
  /-- The number that stored states give as their plan type. -/
  id : UInt32
  /-- The facets in order of judgment. -/
  facets : List Facet
  catalog : Option Catalog
  limitRules : LimitRules := {}
  /-- A free extend policy enters its trial above this occupancy. -/
  trialThreshold : Option UInt32 := none
  defaults : FacetDefaults := {}
  /-- The variants of the family; when none is listed, every variant is. -/
  variants : List UInt32 := []
  facets_ne_nil : facets ≠ []
  facets_nodup : facets.Nodup
  catalog_of_limit : .limit ∈ facets → catalog.isSome
deriving DecidableEq

/-- Why facets and a catalog do not make a family. -/
inductive FamilyFault where
  | noFacets (family : String)
  | repeatedFacet (family : String) (f : Facet)
  | noCatalog (family : String)
deriving DecidableEq

def FamilyFault.message : FamilyFault → String
  | noFacets n => "family '" ++ n ++ "' has no facets"
  | repeatedFacet n f => "family '" ++ n ++ "' lists facet '" ++ f.name ++ "' twice"
  | noCatalog n => "family '" ++ n ++ "' has a limit facet but no tier catalog"

namespace Family

/-- A family with no rule switched on and every default at its plainest. -/
def ofFacets (name : String) (id : UInt32) (facets : List Facet) (catalog : Option Catalog) :
    Except FamilyFault Family :=
  if hne : facets = [] then .error (.noFacets name)
  else match hnd : firstRepeated [] facets with
    | some f => .error (.repeatedFacet name f)
    | none =>
      if hcat : .limit ∈ facets ∧ catalog = none then .error (.noCatalog name)
      else .ok {
        name, id, facets, catalog
        facets_ne_nil := hne
        facets_nodup := (firstRepeated_eq_none_iff.mp hnd).1
        catalog_of_limit := fun hl => by
          cases hc : catalog with
          | none => exact absurd ⟨hl, hc⟩ hcat
          | some _ => rfl }

def hasFacet (m : Family) (f : Facet) : Bool := f ∈ m.facets

/-- Whether stored data of a variant may be loaded into the family. -/
def admits (m : Family) (variant : UInt32) : Bool :=
  m.variants.isEmpty || m.variants.contains variant

/-- Whether a limit is at a free tier of the family's catalog. -/
def isFreeLimit (m : Family) (l : Limit) : Bool :=
  m.catalog.any fun c => c.isFree l.tier

/-- A limit at one of the family's tiers. -/
def limitOf (m : Family) (tier : UInt32) : Except FacetError Setting :=
  match m.catalog with
  | some c =>
    if m.hasFacet .limit then (Limit.ofTier tier c).map .limit
    else .error (.notInFamily .limit)
  | none => .error (.notInFamily .limit)

/-! ## Stored facets of a family -/

/-- The stored fields of a facet for which nothing is stored. -/
def defaultFields (m : Family) : Facet → Fields
  | .limit =>
    let least := (m.catalog.map Catalog.min).getD 0
    ⟨[("value", Stored.encode (m.defaults.limit.getD least))]⟩
  | .extendPolicy => ⟨[("rule", Stored.encode m.defaults.extendRule)]⟩
  | .restrictPolicy => ⟨[("active_from", Stored.encode m.defaults.restrictActiveFrom)]⟩
  | .demo => ⟨[("active_till", Stored.encode m.defaults.demoActiveUntil)]⟩

/-- The setting of a facet from its stored fields, laid over the defaults. -/
def decode (m : Family) (f : Facet) (stored : Option Fields) : Except FacetError Setting :=
  if m.hasFacet f then
    let fields := (m.defaultFields f).overlay (stored.getD .empty)
    match f with
    | .limit =>
      match m.catalog with
      | some c => (Limit.ofFields fields c).map .limit
      | none => .error (.notInFamily .limit)
    | .extendPolicy => (ExtendPolicy.ofFields fields).map .extendPolicy
    | .restrictPolicy => (RestrictPolicy.ofFields fields).map .restrictPolicy
    | .demo => (DemoWindow.ofFields fields).map .demo
  else .error (.notInFamily f)

/-- The setting of every facet of the family, from fields stored for some of
them.  Of several errors the first in the family's order is reported. -/
def decodeAll (m : Family) (stored : Facet → Option Fields) : Except FacetError Settings :=
  m.facets.foldlM (fun s f => (m.decode f (stored f)).map s.set) {}

end Family
end Subscription
