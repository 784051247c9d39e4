import Subscription.Stored

/-! # Facets

A plan's state has four independently negotiable parts.  Their order here is
the one used wherever no family order is given.
-/

namespace Subscription

inductive Facet where
  /-- The capacity ceiling. -/
  | limit
  /-- Whether the plan may still be extended for free. -/
  | extendPolicy
  /-- The moment from which access is restricted. -/
  | restrictPolicy
  /-- The end of the demo period. -/
  | demo
deriving DecidableEq, Inhabited

/-- A facet name that names no facet. -/
structure UnknownFacet where
  name : String
deriving DecidableEq

def UnknownFacet.message (e : UnknownFacet) : String :=
  "unknown facet: " ++ e.name

namespace Facet

instance : Named Facet where
  all := [limit, extendPolicy, restrictPolicy, demo]
  name
    | limit => "limit"
    | extendPolicy => "extend_policy"
    | restrictPolicy => "restrict_policy"
    | demo => "demo"

def all : List Facet := Named.all

def name (f : Facet) : String := Named.name f

theorem mem_all (f : Facet) : f ∈ all := by cases f <;> decide

/-- The facet of a name. -/
def parse (s : String) : Except UnknownFacet Facet :=
  match Named.ofName? s with
  | some f => .ok f
  | none => .error ⟨s⟩

/-- A facet is stored as its name and in no other way. -/
instance : Stored Facet where
  encode := Named.encode
  decode? v := v.string?.bind Named.ofName?

end Facet
end Subscription
