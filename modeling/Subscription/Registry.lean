import Subscription.Family.OfDeclaration
import Subscription.Plan.Replay

/-! # Registries

Stored states and records know only the number of a variant.  A registry gives
the family of each, and a plan whose variant it does not know is not loaded.
-/

namespace Subscription

/-- Families by variant; the latest registration stands first. -/
structure Registry where
  entries : List (UInt32 × Family) := []

namespace Registry

/-- Registers a variant, in place of any earlier registration of it. -/
def register (r : Registry) (variant : UInt32) (m : Family) : Registry :=
  ⟨(variant, m) :: r.entries.filter (·.1 ≠ variant)⟩

/-- Registers every variant of a list. -/
def registerAll (r : Registry) (variants : List UInt32) (m : Family) : Registry :=
  variants.foldl (fun r v => r.register v m) r

/-- The families of a document's declarations under their variants. -/
def ofDocument (d : Document) : Except LoadError Registry :=
  d.families.foldlM (fun r declaration => do
    let m ← Family.ofDeclaration declaration
    return r.registerAll declaration.variants m) {}

/-- How many variants are registered. -/
def size (r : Registry) : Nat := r.entries.length

/-- The family of a variant. -/
def family? (r : Registry) (variant : UInt32) : Option Family := r.entries.lookup variant

def resolve (r : Registry) (variant : UInt32) : Except LoadError Family :=
  match r.family? variant with
  | some m => .ok m
  | none => .error (.unknownVariant variant)

/-- The plan of a history, in the family of the variant its last record names. -/
def loadHistory (r : Registry) (records : List Record) : Except LoadError Plan :=
  match Record.last? records with
  | none => .error .emptyHistory
  | some last => do Plan.ofHistory (← r.resolve last.variant) records

/-- The plan of a stored state, in the family of its variant. -/
def loadStored (r : Registry) (s : StoredState) : Except LoadError Plan := do
  Plan.ofStored (← r.resolve s.variant) s

private theorem lookup_filter_ne {variant other : UInt32} (h : other ≠ variant)
    (entries : List (UInt32 × Family)) :
    (entries.filter (·.1 ≠ variant)).lookup other = entries.lookup other := by
  induction entries with
  | nil => rfl
  | cons e rest ih =>
    rcases e with ⟨v, m⟩
    by_cases hv : v = variant
    · have hov : (other == v) = false := by simpa [hv] using h
      rw [List.filter_cons_of_neg (by simpa using hv), List.lookup_cons, hov, ih]
    · rw [List.filter_cons_of_pos (by simpa using hv), List.lookup_cons, List.lookup_cons, ih]

theorem family?_register (r : Registry) (variant other : UInt32) (m : Family) :
    (r.register variant m).family? other =
      if other = variant then some m else r.family? other := by
  unfold family? register
  by_cases h : other = variant
  · subst other
    simp
  · have hb : (other == variant) = false := by simpa using h
    rw [List.lookup_cons, hb, if_neg h]
    exact lookup_filter_ne h r.entries

end Registry
end Subscription
