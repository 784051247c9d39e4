import Subscription.Circumstance
import Subscription.Family.Basic
import Subscription.Snapshot

/-! # Plans

A plan is a variant of a family with two states: the one it was loaded with and
the one it has now.
-/

namespace Subscription

/-- Where a plan stands with its trial. -/
inductive TrialState where
  /-- There is no trial, or it is used up. -/
  | none
  /-- The trial can be started. -/
  | available
  /-- The trial is running. -/
  | active
deriving DecidableEq, Inhabited

namespace TrialState

instance : Named TrialState where
  all := [none, available, active]
  name
    | none => "none"
    | available => "available"
    | active => "active"

instance : Stored TrialState := ⟨Named.encode, Named.decode?⟩

end TrialState

/-- A variant of a family with the state it was loaded with and the state it has now. -/
structure Plan where
  variant : UInt32
  family : Family
  loaded : Snapshot
  current : Snapshot
deriving DecidableEq

namespace Plan

/-- A plan as it is just loaded. -/
def ofSnapshot (family : Family) (variant : UInt32) (s : Snapshot) : Plan :=
  ⟨variant, family, s, s⟩

/-- The tier of the plan's limit. -/
def limit (p : Plan) : Option UInt32 := p.current.settings.limit.map Limit.tier

def activeUntil (p : Plan) : Seconds := p.current.activeUntil

def freeActiveUntil (p : Plan) : Seconds := p.current.freeActiveUntil

/-- Whether the plan's limit is a free tier. -/
def isLimitFree (p : Plan) : Bool := p.current.settings.limit.any p.family.isFreeLimit

/-- Whether the plan costs nothing at `time`. -/
def isFree (p : Plan) (time : Seconds) : Bool :=
  p.current.isInfinite || p.isLimitFree || time < p.freeActiveUntil

/-- Whether the plan is in force at `time`. -/
def isActive (p : Plan) (time : Seconds) : Bool :=
  p.current.isInfinite || time < p.activeUntil || p.isFree time

/-- Whether every setting suffices for the circumstances. -/
def isFit (p : Plan) (c : Circumstance) : Bool :=
  p.current.settings.toList.all (·.isFit c.occupancy)

/-- Whether access is restricted at `time`, with `grace` seconds allowed. -/
def isRestricted (p : Plan) (time grace : Seconds) : Bool :=
  p.current.settings.restrictPolicy.any (·.isRestricted time grace)

/-- Where the plan stands with its trial at `time`. -/
def trialState (p : Plan) (time : Seconds) : TrialState :=
  match p.current.settings.extendPolicy with
  | some policy =>
    if policy.isTrialAvailable then .available
    else if policy.isTrial time then .active
    else .none
  | none => .none

def isTrial (p : Plan) (time : Seconds) : Bool := p.trialState time = .active

def isTrialAvailable (p : Plan) (time : Seconds) : Bool := p.trialState time = .available

def extendRule (p : Plan) : Option ExtendRule :=
  p.current.settings.extendPolicy.map ExtendPolicy.rule

def restrictedFrom (p : Plan) : Option Seconds :=
  p.current.settings.restrictPolicy.map RestrictPolicy.activeFrom

def demoUntil (p : Plan) : Option Seconds :=
  p.current.settings.demo.map DemoWindow.activeUntil

/-- Whether the plan is no longer what it was loaded as. -/
def hasChanges (p : Plan) : Bool := !p.current.isSame p.loaded

/-- The plan's current state in its stored form. -/
def stored (p : Plan) : StoredState where
  planType := p.family.id
  variant := p.variant
  activeUntil := p.activeUntil
  freeActiveUntil := p.freeActiveUntil
  facets := p.current.settings.fields

end Plan
end Subscription
