import Subscription.Choice
import Subscription.Plan.Basic
import Subscription.Status

/-! # Requests

A request says what is wanted of a plan: which actions, how to prolong, which
settings to have and which to find.  It carries the status that the evaluation
starts from and that the rules narrow.
-/

namespace Subscription

/-- What an alteration does. -/
inductive ActionKind where
  /-- It changes settings. -/
  | change
  /-- It moves the expiry. -/
  | prolong
  /-- It starts a plan that is not in force. -/
  | activate
deriving DecidableEq, Inhabited

namespace ActionKind

instance : Named ActionKind where
  all := [change, prolong, activate]
  name
    | change => "change"
    | prolong => "prolong"
    | activate => "activate"

instance : Stored ActionKind := ⟨Named.encode, Named.decode?⟩

end ActionKind

/-- How the expiry moves. -/
inductive Prolongation where
  /-- By so many seconds from the later of now and the expiry. -/
  | extend (delta : Seconds)
  /-- To the given expiry. -/
  | set (expiry : Seconds)
  /-- To no expiry at all. -/
  | infinite
  /-- Not at all. -/
  | none
deriving DecidableEq, Inhabited

/-- The rule is read from a name, and only a rule with a value has one.  The two stand in an
object or in an array. -/
instance : Stored Prolongation where
  encode
    | .extend delta => .object ⟨[("rule", .string "extend"), ("value", Stored.encode delta)]⟩
    | .set expiry => .object ⟨[("rule", .string "set"), ("value", Stored.encode expiry)]⟩
    | .infinite => .object ⟨[("rule", .string "infinite")]⟩
    | .none => .object ⟨[("rule", .string "none")]⟩
  decode? v := do
    let t ← v.struct? ["rule", "value"] 2
    let rule ← match ← t.get? "rule" with
      | .string s => some s
      | .object ⟨[(s, .null)]⟩ => some s
      | _ => Option.none
    let isBare := (t.get? "value").all Value.isNull
    match rule with
    | "extend" => return .extend (← t.required "value")
    | "set" => return .set (← t.required "value")
    | "infinite" => if isBare then return .infinite else failure
    | "none" => if isBare then return .none else failure
    | _ => failure

/-- What an alteration has to do with the trial. -/
inductive TrialBehaviour where
  /-- It is free while the trial runs. -/
  | freeWhileActive
  /-- It is free while the trial can still be started. -/
  | freeWhileAvailable
  /-- It needs a trial that can still be started. -/
  | requireAvailable
deriving DecidableEq, Inhabited

namespace TrialBehaviour

instance : Named TrialBehaviour where
  all := [freeWhileActive, freeWhileAvailable, requireAvailable]
  name
    | freeWhileActive => "free_while_active"
    | freeWhileAvailable => "free_while_available"
    | requireAvailable => "require_available"

instance : Stored TrialBehaviour := ⟨Named.encode, Named.decode?⟩

end TrialBehaviour

/-- Which expiry the plan is expected to have before the alteration. -/
inductive ExpectedExpiry where
  | none
  | strict (value : Seconds)
  /-- Any expiry at most `delta` away from `value`. -/
  | range (value delta : Seconds)
deriving DecidableEq, Inhabited

namespace ExpectedExpiry

def isDeclared (e : ExpectedExpiry) : Bool := e ≠ none

/-- Whether an expiry is as expected. -/
def holds : ExpectedExpiry → Seconds → Bool
  | none, _ => true
  | strict value, expiry => expiry = value
  | range value delta, expiry => value - delta.abs ≤ expiry && expiry ≤ value + delta.abs

instance [Medium] : Stored ExpectedExpiry where
  encode
    | none => .string "none"
    | strict value => .object ⟨[("strict", Stored.encode value)]⟩
    | range value delta => .object ⟨[("range", .object ⟨[
        ("value", Stored.encode value),
        ("delta", Stored.encode delta)]⟩)]⟩
  decode?
    | .string "none" => some none
    | .object ⟨[("none", .null)]⟩ => some none
    | .object ⟨[("strict", v)]⟩ => (Stored.decode? v).map strict
    | .object ⟨[("range", v)]⟩ => do
      let t ← v.case? ["value", "delta"] 2
      return range (← t.required "value") (← t.required "delta")
    | _ => Option.none

end ExpectedExpiry

/-- What is wanted of a plan. -/
structure Request where
  /-- The status so far. -/
  availability : Status
  actions : Choice ActionKind := .ofList [.prolong]
  prolongation : Prolongation := .none
  trialBehaviour : Choice TrialBehaviour := .ofList []
  expectedExpiry : ExpectedExpiry := .none
  /-- The settings to have afterwards. -/
  desired : Settings := {}
  /-- The settings to find before. -/
  expectedPrior : Settings := {}
  /-- Rules of the caller, asked after all others. -/
  extraConditions : List (Plan → Status) := []

namespace Request

def isChange (r : Request) : Bool := r.actions .change

def isActivation (r : Request) : Bool := r.actions .activate

def isProlongation (r : Request) : Bool := r.actions .prolong

/-- Prolonging by an amount. -/
def isExtension (r : Request) : Bool :=
  r.isProlongation && match r.prolongation with | .extend _ => true | _ => false

/-- Prolonging to a date. -/
def isProlongationSet (r : Request) : Bool :=
  r.isProlongation && match r.prolongation with | .set _ => true | _ => false

/-- Prolonging without end. -/
def isProlongationInfinite (r : Request) : Bool :=
  r.isProlongation && r.prolongation = .infinite

end Request
end Subscription
