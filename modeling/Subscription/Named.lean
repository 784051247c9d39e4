/-! # Kinds with stored names

A closed set of alternatives, each stored under a fixed name.
-/

namespace Subscription

/-- A type whose members are listed and named. -/
class Named (α : Type) where
  /-- Every member, in the order of the set. -/
  all : List α
  name : α → String

namespace Named

variable {α : Type} [Named α]

/-- The member stored under a name. -/
def ofName? (s : String) : Option α :=
  (all : List α).find? fun a => name a == s

theorem name_of_ofName? {s : String} {a : α} (h : ofName? s = some a) : name a = s := by
  simpa using List.find?_some h

end Named
end Subscription
