import Subscription.Document.Declaration

/-! # Catalog documents -/

namespace Subscription

/-- The declarations of a document, in order. -/
structure Document where
  families : List Declaration := []
deriving DecidableEq, Inhabited

namespace Document

instance : Stored Document where
  encode d := .object ⟨[("family", Stored.encode d.families)]⟩
  decode? v := do
    let t ← v.closedStruct? ["family"] 0
    return { families := ← t.defaulted "family" [] }

/-- The first declaration of a name. -/
def find? (d : Document) (name : String) : Option Declaration :=
  d.families.find? (·.name = name)

end Document
end Subscription
