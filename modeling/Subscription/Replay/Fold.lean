import Subscription.LoadError
import Subscription.Replay.Record

/-! # Replaying a history

A plan's state is folded from its records, each part by itself.  The record of
the greatest id gives the variant and the dates; of several that have it, the
last gives the one and the first gives the others.  A facet's fields are those of
the records that mention it, taken in list order and skipping any record whose
id is not above all that came before.  The extend policy only moves forward
(`free`, then `trial`, then `never`), and keeps the earliest deadline.
-/

namespace Subscription

/-- What a history amounts to. -/
structure Replayed where
  variant : UInt32
  snapshot : Snapshot
deriving DecidableEq

/-- The dates of the record of the greatest id. -/
structure DatesFold where
  /-- The greatest id so far. -/
  seen : Option UInt64 := none
  activeUntil : Seconds := 0
  freeActiveUntil : Seconds := 0

/-- Takes the dates of a record of a greater id. -/
def DatesFold.step (acc : DatesFold) (r : Record) : DatesFold :=
  if acc.seen.any (r.id ≤ ·) then acc else ⟨some r.id, r.activeUntil, r.freeActiveUntil⟩

/-- The dates after a history. -/
def foldDates (records : List Record) : DatesFold := records.foldl DatesFold.step {}

/-- Fields laid over one another in the order of growing ids. -/
structure FacetFold where
  /-- The greatest id so far. -/
  seen : Option UInt64 := none
  fields : Fields := {}

namespace FacetFold

/-- Takes the fields that a record of a greater id mentions. -/
def step (f : Facet) (acc : FacetFold) (r : Record) : FacetFold :=
  match r.facet? f with
  | none => acc
  | some fields =>
    if acc.seen.any (r.id ≤ ·) then acc
    else ⟨some r.id, acc.fields.overlay fields⟩

end FacetFold

/-- A facet's fields after a history, before the defaults. -/
def foldFacet (f : Facet) (records : List Record) : Fields :=
  (records.foldl (FacetFold.step f) {}).fields

/-- The extend policy so far. -/
structure ExtendFold where
  rule : ExtendRule
  fields : Fields := {}
  /-- The earliest deadline. -/
  trialUntil : Seconds := .unbounded
  /-- The first name that is no rule. -/
  unknown : Option String := none

namespace ExtendFold

/-- The deadline that a record sets: its own, or else the expiry of the plan if
the rule is `trial`. -/
def deadline (rule : ExtendRule) (fields : Fields) (r : Record) : Option Seconds :=
  match fields.required "trial_till" with
  | some deadline => some deadline
  | none => if rule = .trial then some r.activeUntil else none

/-- Takes a record under a known rule.  An infinite deadline is no deadline. -/
def accept (acc : ExtendFold) (r : Record) (rule : ExtendRule) (fields : Fields) : ExtendFold :=
  let trialUntil :=
    match deadline rule fields r with
    | some d => if d = .infinite then acc.trialUntil else min acc.trialUntil d
    | none => acc.trialUntil
  if acc.rule ≠ .never ∧ acc.rule ≤ rule then
    { acc with rule, trialUntil, fields := acc.fields.overlay fields }
  else { acc with trialUntil }

/-- Takes a record that mentions the extend policy.  Without a rule of its own
it continues the rule so far; the name of an unknown rule is kept for the
reading of the fields to refuse. -/
def step (acc : ExtendFold) (r : Record) : ExtendFold :=
  match r.facet? .extendPolicy with
  | none => acc
  | some fields =>
    match (fields.get? "rule").bind Value.string? with
    | none => acc.accept r acc.rule fields
    | some name =>
      match ExtendRule.ofName? name with
      | some rule => acc.accept r rule fields
      | none => { acc with unknown := acc.unknown.or (some name) }

/-- The fields in which the fold is stored. -/
def finish (acc : ExtendFold) : Fields :=
  let fields := acc.fields.insert "rule" (.string (acc.unknown.getD acc.rule.name))
  if acc.trialUntil = .unbounded then fields.erase "trial_till"
  else fields.insert "trial_till" (Stored.encode acc.trialUntil)

end ExtendFold

/-- The extend policy's fields after a history, before the defaults. -/
def foldExtendPolicy (m : Family) (records : List Record) : Fields :=
  (records.foldl ExtendFold.step { rule := m.defaults.extendRule }).finish

/-- The fields of any facet after a history, before the defaults. -/
def replayedFields (m : Family) (records : List Record) : Facet → Fields
  | .extendPolicy => foldExtendPolicy m records
  | f => foldFacet f records

/-- What a history amounts to for a family. -/
def replay (m : Family) (records : List Record) : Except LoadError Replayed :=
  match Record.last? records with
  | some last => do
    let dates := foldDates records
    let settings ← (m.decodeAll fun f => some (replayedFields m records f)).mapError .facet
    return ⟨last.variant, ⟨dates.activeUntil, dates.freeActiveUntil, settings⟩⟩
  | none => .error .emptyHistory

end Subscription
