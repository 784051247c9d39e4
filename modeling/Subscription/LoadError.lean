import Subscription.Document.ConfigError
import Subscription.Family.Basic

/-! # Why a family or a plan cannot be loaded -/

namespace Subscription

inductive LoadError where
  /-- There is no record to load from. -/
  | emptyHistory
  | unknownVariant (variant : UInt32)
  /-- The stored plan type is not the family's. -/
  | familyMismatch (family : String) (expected found : UInt32)
  /-- The family does not admit the stored variant. -/
  | variantMismatch (family : String) (variant : UInt32)
  | invalidFamily (fault : FamilyFault)
  | facet (e : FacetError)
  | config (e : ConfigError)
deriving DecidableEq

def LoadError.message : LoadError → String
  | emptyHistory => "empty record list"
  | unknownVariant v => "unknown plan variant: " ++ toString v.toNat
  | familyMismatch n expected found =>
    "plan type " ++ toString found.toNat ++ " does not match family '" ++ n ++ "' (" ++
      toString expected.toNat ++ ")"
  | variantMismatch n v =>
    "plan variant " ++ toString v.toNat ++ " does not belong to family '" ++ n ++ "'"
  | invalidFamily fault => "invalid plan family: " ++ fault.message
  | facet e => "facet error: " ++ e.message
  | config e => "config error: " ++ e.message

end Subscription
