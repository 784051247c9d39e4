import Subscription.Choice
import Subscription.Plan.Basic

/-! # The occasion of an alteration

When an alteration is attempted, how it is funded, and why the plan counts as
active at that moment.
-/

namespace Subscription

/-- How an alteration is funded. -/
inductive Method where
  | payment
  | promo
  /-- Nothing funds it. -/
  | detached
  /-- It is carried out whatever the rules say. -/
  | force
deriving DecidableEq, Inhabited

namespace Method

instance : Named Method where
  all := [payment, promo, detached, force]
  name
    | payment => "payment"
    | promo => "promo"
    | detached => "detached"
    | force => "force"

instance : Stored Method := ⟨Named.encode, Named.decode?⟩

/-- Whether the method funds the alteration. -/
def hasReason (m : Method) : Bool := m = payment || m = promo

end Method

/-- Why a plan counts as active. -/
inductive ActiveReason where
  /-- The plan never expires. -/
  | infinite
  /-- The plan expires in the future. -/
  | notExpired
  /-- The plan's limit is a free tier. -/
  | freeLimit
  /-- The plan is not active. -/
  | none
deriving DecidableEq, Inhabited

namespace ActiveReason

instance : Named ActiveReason where
  all := [infinite, notExpired, freeLimit, none]
  name
    | infinite => "infinite"
    | notExpired => "not_expired"
    | freeLimit => "free_limit"
    | none => "none"

instance : Stored ActiveReason := ⟨Named.encode, Named.decode?⟩

end ActiveReason

/-- The facts under which an alteration is attempted. -/
structure Occasion where
  method : Method
  trialState : TrialState
  reasons : Choice ActiveReason
  time : Seconds

namespace Occasion

/-- An occasion for the given reasons; without any the reason is `none`. -/
def ofReasons (method : Method) (trialState : TrialState) (reasons : List ActiveReason)
    (time : Seconds) : Occasion :=
  ⟨method, trialState, .ofList (if reasons.isEmpty then [.none] else reasons), time⟩

/-- Whether the plan counts as active. -/
def isActive (o : Occasion) : Bool :=
  o.reasons .infinite || o.reasons .notExpired || o.reasons .freeLimit

/-- Whether the plan counts as active for a reason. -/
def isActiveOn (o : Occasion) (r : ActiveReason) : Bool := o.isActive && o.reasons r

def hasReason (o : Occasion) : Bool := o.method.hasReason

def isPromo (o : Occasion) : Bool := o.method = .promo

def isForced (o : Occasion) : Bool := o.method = .force

def isTrialActive (o : Occasion) : Bool := o.trialState = .active

def isTrialAvailable (o : Occasion) : Bool := o.trialState = .available

end Occasion

namespace Plan

/-- Why the plan counts as active at `time`.  A plan that is only free for the
time being has no reason. -/
def activeReasons (p : Plan) (time : Seconds) : List ActiveReason :=
  (if p.current.isInfinite then [.infinite] else []) ++
  (if time < p.activeUntil then [.notExpired] else []) ++
  (if p.isLimitFree then [.freeLimit] else [])

/-- The occasion of altering the plan at `time`. -/
def occasion (p : Plan) (method : Method) (time : Seconds) : Occasion :=
  .ofReasons method (p.trialState time) (p.activeReasons time) time

end Plan
end Subscription
