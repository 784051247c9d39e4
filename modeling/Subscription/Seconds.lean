/-! # Whole seconds

Dates are seconds since the epoch and durations are seconds, both in the range
of a signed 64-bit word, from -2⁶³ to 2⁶³ - 1.  Arithmetic stops at the ends of
that range: a sum or difference is the exact one, moved to the nearest
representable value (`clamp`).  Two dates carry a meaning of their own: an expiry
at `infinite` never comes, and a deadline at `unbounded` never passes.
-/

namespace Subscription

/-- A number of seconds that fits a signed 64-bit word. -/
structure Seconds where
  val : Int
  lower : -9223372036854775808 ≤ val
  upper : val ≤ 9223372036854775807
deriving DecidableEq

namespace Seconds

theorem ext {a b : Seconds} (h : a.val = b.val) : a = b := by
  cases a
  cases b
  simpa using h

/-- The representable value nearest to `n`. -/
def clamp (n : Int) : Seconds :=
  ⟨max (-9223372036854775808) (min 9223372036854775807 n), by omega, by omega⟩

/-- The value `n` itself, when it is representable. -/
def ofInt? (n : Int) : Option Seconds :=
  if h : -9223372036854775808 ≤ n ∧ n ≤ 9223372036854775807 then some ⟨n, h.1, h.2⟩ else none

instance (n : Nat) : OfNat Seconds n := ⟨clamp n⟩

/-- The expiry of a plan that does not expire. -/
def infinite : Seconds := ⟨0, by decide, by decide⟩

/-- The deadline that never passes. -/
def unbounded : Seconds := ⟨9223372036854775807, by decide, by decide⟩

instance : Inhabited Seconds := ⟨infinite⟩
instance : LE Seconds := ⟨fun a b => a.val ≤ b.val⟩
instance : LT Seconds := ⟨fun a b => a.val < b.val⟩

theorem le_def {a b : Seconds} : a ≤ b ↔ a.val ≤ b.val := Iff.rfl
theorem lt_def {a b : Seconds} : a < b ↔ a.val < b.val := Iff.rfl

instance (a b : Seconds) : Decidable (a ≤ b) := inferInstanceAs (Decidable (a.val ≤ b.val))
instance (a b : Seconds) : Decidable (a < b) := inferInstanceAs (Decidable (a.val < b.val))

instance : Max Seconds := ⟨fun a b => if a ≤ b then b else a⟩
instance : Min Seconds := ⟨fun a b => if a ≤ b then a else b⟩

instance : Add Seconds := ⟨fun a b => clamp (a.val + b.val)⟩
instance : Sub Seconds := ⟨fun a b => clamp (a.val - b.val)⟩

/-- Distance from zero; that of the least value is the greatest value. -/
def abs (a : Seconds) : Seconds := clamp a.val.natAbs

@[simp] theorem val_clamp (n : Int) :
    (clamp n).val = max (-9223372036854775808) (min 9223372036854775807 n) := rfl

theorem val_add (a b : Seconds) :
    (a + b).val = max (-9223372036854775808) (min 9223372036854775807 (a.val + b.val)) := rfl

theorem val_sub (a b : Seconds) :
    (a - b).val = max (-9223372036854775808) (min 9223372036854775807 (a.val - b.val)) := rfl

theorem val_abs (a : Seconds) : a.abs.val = min 9223372036854775807 (a.val.natAbs : Int) := by
  simp only [abs, val_clamp]
  omega

theorem val_max (a b : Seconds) : (max a b).val = max a.val b.val := by
  show (if a ≤ b then b else a).val = _
  split <;> rename_i h <;> rw [le_def] at h <;> omega

theorem ofInt?_eq_some_iff {n : Int} {a : Seconds} : ofInt? n = some a ↔ a.val = n := by
  unfold ofInt?
  split
  · rename_i h
    rw [Option.some.injEq]
    exact ⟨fun e => e ▸ rfl, fun e => ext e.symm⟩
  · rename_i h
    constructor
    · intro e
      exact absurd e (by simp)
    · intro e
      exact absurd ⟨e ▸ a.lower, e ▸ a.upper⟩ h

@[simp] theorem ofInt?_val (a : Seconds) : ofInt? a.val = some a :=
  ofInt?_eq_some_iff.mpr rfl

end Seconds
end Subscription
