import Subscription.Facet

/-! # Settings

A setting is the value that one facet of a plan has.  Each kind of setting is
an immutable value of its own type; `Setting` is their sum, and `Settings`
(in `Subscription.Setting.Settings`) holds at most one of each kind.
-/

namespace Subscription

/-- How far the extend policy has moved, from `free` to `never`. -/
inductive ExtendRule where
  /-- The trial has not started yet. -/
  | free
  /-- The trial runs until its deadline. -/
  | trial
  /-- There is no more free extension. -/
  | never
deriving DecidableEq, Inhabited

namespace ExtendRule

instance : Named ExtendRule where
  all := [free, trial, never]
  name
    | free => "free"
    | trial => "trial"
    | never => "never"

instance : Stored ExtendRule := ⟨Named.encode, Named.decode?⟩

def name (r : ExtendRule) : String := Named.name r

def ofName? (s : String) : Option ExtendRule := Named.ofName? s

def rank : ExtendRule → Nat
  | free => 0
  | trial => 1
  | never => 2

instance : LE ExtendRule := ⟨fun a b => a.rank ≤ b.rank⟩
instance : LT ExtendRule := ⟨fun a b => a.rank < b.rank⟩
instance (a b : ExtendRule) : Decidable (a ≤ b) := inferInstanceAs (Decidable (a.rank ≤ b.rank))
instance (a b : ExtendRule) : Decidable (a < b) := inferInstanceAs (Decidable (a.rank < b.rank))

end ExtendRule

/-- The capacity ceiling: a tier of the family's catalog. -/
structure Limit where
  tier : UInt32
deriving DecidableEq

/-- Whether and until when the plan may be extended for free. -/
structure ExtendPolicy where
  rule : ExtendRule
  trialUntil : Seconds := .unbounded
deriving DecidableEq

namespace ExtendPolicy

/-- Whether a trial is running at `time`. -/
def isTrial (p : ExtendPolicy) (time : Seconds) : Bool :=
  p.rule = .trial && time ≤ p.trialUntil

/-- Whether a trial can still be started. -/
def isTrialAvailable (p : ExtendPolicy) : Bool := p.rule = .free

/-- Whether two policies have one rule.  The deadline is bookkeeping that
callers do not know. -/
def isSame (p q : ExtendPolicy) : Bool := p.rule = q.rule

end ExtendPolicy

/-- The moment after which access is restricted; zero stands for never. -/
structure RestrictPolicy where
  activeFrom : Seconds
deriving DecidableEq

/-- Whether access is restricted at `time`, with `grace` seconds allowed. -/
def RestrictPolicy.isRestricted (p : RestrictPolicy) (time grace : Seconds) : Bool :=
  p.activeFrom ≠ 0 && p.activeFrom + grace < time

/-- The end of the demo period. -/
structure DemoWindow where
  activeUntil : Seconds
deriving DecidableEq

/-- The setting of one facet. -/
inductive Setting where
  | limit (l : Limit)
  | extendPolicy (p : ExtendPolicy)
  | restrictPolicy (p : RestrictPolicy)
  | demo (w : DemoWindow)
deriving DecidableEq

namespace Setting

/-- The facet that the setting belongs to. -/
def facet : Setting → Facet
  | limit _ => .limit
  | extendPolicy _ => .extendPolicy
  | restrictPolicy _ => .restrictPolicy
  | demo _ => .demo

/-- Whether two settings are of one kind and say the same. -/
def isSame : Setting → Setting → Bool
  | limit a, limit b => a = b
  | extendPolicy a, extendPolicy b => a.isSame b
  | restrictPolicy a, restrictPolicy b => a = b
  | demo a, demo b => a = b
  | _, _ => false

/-- Whether the setting suffices for the number of occupied seats. -/
def isFit : Setting → UInt32 → Bool
  | limit l, occupancy => occupancy ≤ l.tier
  | _, _ => true

/-- The stored fields of the setting.  A deadline that never passes is left out. -/
def fields : Setting → Fields
  | limit l => ⟨[("value", Stored.encode l.tier)]⟩
  | extendPolicy p =>
    if p.trialUntil = .unbounded then ⟨[("rule", Stored.encode p.rule)]⟩
    else ⟨[("rule", Stored.encode p.rule), ("trial_till", Stored.encode p.trialUntil)]⟩
  | restrictPolicy p => ⟨[("active_from", Stored.encode p.activeFrom)]⟩
  | demo w => ⟨[("active_till", Stored.encode w.activeUntil)]⟩

end Setting
end Subscription
