import Subscription.Stored

/-! # How available an alteration is

An alteration is judged by several rules, each of which answers a status.  The
statuses are ranked, and merging them keeps the first one of the greatest rank
(`narrow`, `narrowAll`), so a later answer can only be more restrictive.  The
four lower ranks let the alteration proceed, the three upper ones refuse it
with a code and a message.
-/

namespace Subscription

/-- The rank of a status, from least to most restrictive. -/
inductive Availability where
  /-- Available at any moment. -/
  | detached
  /-- Needs a payment or a promo. -/
  | reasonRequired
  /-- Available because a trial applies. -/
  | whileTrial
  /-- Available whatever the reason. -/
  | free
  /-- The plan's state does not allow it. -/
  | unappropriated
  /-- The offer has expired. -/
  | outdated
  /-- What is asked for already holds. -/
  | same
deriving DecidableEq, Inhabited

namespace Availability

instance : Named Availability where
  all := [detached, reasonRequired, whileTrial, free, unappropriated, outdated, same]
  name
    | detached => "detached"
    | reasonRequired => "reason_required"
    | whileTrial => "while_trial"
    | free => "free"
    | unappropriated => "unavailable_unappropriated"
    | outdated => "unavailable_outdated"
    | same => "unavailable_same"

instance : Stored Availability := ⟨Named.encode, Named.decode?⟩

def name (a : Availability) : String := Named.name a

/-- Position in the order of precedence. -/
def rank : Availability → Nat
  | detached => 0
  | reasonRequired => 1
  | whileTrial => 2
  | free => 3
  | unappropriated => 4
  | outdated => 5
  | same => 6

/-- Whether the rank lets the alteration proceed. -/
def isAvailable (a : Availability) : Bool :=
  a.rank < unappropriated.rank

theorem rank_injective {a b : Availability} (h : a.rank = b.rank) : a = b := by
  cases a <;> cases b <;> simp [rank] at h ⊢

end Availability

/-- A rank, with the code and message of a refusal. -/
structure Status where
  availability : Availability
  code : UInt32 := 0
  message : String := ""
deriving DecidableEq, Inhabited

/-- Why a rank does not go with a code and message. -/
inductive StatusError where
  | missingCode (a : Availability)
  | unexpectedCode (a : Availability)
deriving DecidableEq

def StatusError.message : StatusError → String
  | .missingCode a => "availability '" ++ a.name ++ "' requires a non-zero code and a message"
  | .unexpectedCode a => "availability '" ++ a.name ++ "' must not carry an error code or message"

namespace Status

/-- A refusal carries a non-zero code and a message; nothing else carries either. -/
def make (a : Availability) (code : UInt32) (message : String) : Except StatusError Status :=
  if a.isAvailable then
    if code ≠ 0 ∨ message ≠ "" then .error (.unexpectedCode a) else .ok ⟨a, code, message⟩
  else
    if code = 0 ∨ message = "" then .error (.missingCode a) else .ok ⟨a, code, message⟩

def detached : Status := { availability := .detached }
def reasonRequired : Status := { availability := .reasonRequired }
def whileTrial : Status := { availability := .whileTrial }
def free : Status := { availability := .free }

def rank (s : Status) : Nat := s.availability.rank

def isAvailable (s : Status) : Bool := s.availability.isAvailable

/-- Whether a payment or promo is needed. -/
def requiresReason (s : Status) : Bool := s.availability = .reasonRequired

/-- Merges one candidate: it is kept only if its rank is strictly greater. -/
def narrow (s candidate : Status) : Status :=
  if s.rank < candidate.rank then candidate else s

/-- Merges candidates from left to right. -/
def narrowAll (s : Status) (candidates : List Status) : Status :=
  candidates.foldl narrow s

theorem rank_narrow (s c : Status) : (s.narrow c).rank = max s.rank c.rank := by
  unfold narrow
  split <;> omega

@[simp] theorem narrowAll_nil (s : Status) : s.narrowAll [] = s := rfl

@[simp] theorem narrowAll_cons (s c : Status) (cs : List Status) :
    s.narrowAll (c :: cs) = (s.narrow c).narrowAll cs := rfl

theorem narrowAll_append (s : Status) (cs ds : List Status) :
    s.narrowAll (cs ++ ds) = (s.narrowAll cs).narrowAll ds :=
  List.foldl_append

instance : Stored Status where
  encode s := .object ⟨[
    ("availability", Stored.encode s.availability),
    ("code", Stored.encode s.code),
    ("message", Stored.encode s.message)]⟩
  decode? v := do
    let t ← v.struct? ["availability", "code", "message"] 3
    return {
      availability := ← t.required "availability"
      code := ← t.required "code"
      message := ← t.required "message" }

/-! ## Refusal codes -/

namespace Code

def notArranged : UInt32 := 1
def reasonRequired : UInt32 := 2
def planWasChanged : UInt32 := 10010
def unexpectedExpirationDate : UInt32 := 10011
def activationRequired : UInt32 := 10012
def planIsActive : UInt32 := 10013
def trialUnavailable : UInt32 := 10014
def extendPolicyNotAllowed : UInt32 := 11010
def limitExceeded : UInt32 := 12010
def limitChangeWithoutChangeAction : UInt32 := 12030
def limitUnsupportedReplacement : UInt32 := 12090

/-- Every code with its name. -/
def all : Table UInt32 := ⟨[
  ("not_arranged", notArranged),
  ("reason_required", reasonRequired),
  ("plan_was_changed", planWasChanged),
  ("unexpected_expiration_date", unexpectedExpirationDate),
  ("activation_required", activationRequired),
  ("plan_is_active", planIsActive),
  ("trial_unavailable", trialUnavailable),
  ("extend_policy_not_allowed", extendPolicyNotAllowed),
  ("limit_exceeded", limitExceeded),
  ("limit_change_without_change_action", limitChangeWithoutChangeAction),
  ("limit_unsupported_replacement", limitUnsupportedReplacement)]⟩

end Code

/-- A refusal because the plan's state does not allow what is asked. -/
def unappropriated (code : UInt32) (message : String) : Status :=
  ⟨.unappropriated, code, message⟩

/-- The seed that refuses whatever the rules would allow. -/
def notArranged : Status :=
  unappropriated Code.notArranged "alteration was not arranged"

end Status
end Subscription
