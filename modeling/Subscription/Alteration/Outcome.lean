import Subscription.Alteration.Arrangement

/-! # Carrying out an alteration

An alteration is carried out when the arranged request is available and, if it
needs a reason, the method is one.  A forced alteration is carried out without
being judged.  Otherwise the plan stays as it is.
-/

namespace Subscription

/-- What became of an alteration. -/
inductive Outcome where
  | applied (forced : Bool)
  | rejected (code : UInt32) (message : String)
deriving DecidableEq

namespace Outcome

def isSuccess : Outcome → Bool
  | applied _ => true
  | rejected _ _ => false

/-- The code of a rejection; zero otherwise. -/
def code : Outcome → UInt32
  | applied _ => 0
  | rejected c _ => c

/-- The message of a rejection; empty otherwise. -/
def message : Outcome → String
  | applied _ => ""
  | rejected _ m => m

end Outcome

namespace Plan

/-- What an alteration would make of the plan. -/
def altered (p : Plan) (a : Alteration) : Plan :=
  { p with
    current := p.proposal (p.normalise a.request) a.circumstance (p.occasion a.method a.time) }

/-- Carries out an alteration if it is allowed. -/
def apply (p : Plan) (a : Alteration) : Plan × Outcome :=
  if a.method = .force then (p.altered a, .applied true)
  else
    let status := (p.arrange a).availability
    if ¬ status.isAvailable then (p, .rejected status.code status.message)
    else if status.requiresReason ∧ ¬ a.method.hasReason then
      (p, .rejected Status.Code.reasonRequired "payment required")
    else (p.altered a, .applied false)

end Plan
end Subscription
