import Mathlib.Algebra.Order.Group.Unbundled.Int
import Subscription.Proofs.LimitSafety
import Subscription.Proofs.Merging
import Subscription.Proofs.Order

/-! # Expiries expected within a range

A request may expect the expiry to lie about some date, at most so far away from it.  Three
operations that stop at the ends of the 64-bit range decide that: the size of the distance, and the
two bounds.  A bound that stops there is passed by no date, so neither shows in the answer
(`Seconds.le_add_iff`, `Seconds.sub_le_iff`); the size shows for the least number only, whose
opposite is one above the greatest.  The answer is so the exact one for a distance of at most
2⁶³ - 1 (`ExpectedExpiry.holds_range_iff`), and a plan in force objects to a request exactly when
its expiry is farther away (`ExpectedExpiry.range_exact`).
-/
namespace Subscription

theorem Seconds.abs_nonneg (a : Seconds) : 0 ≤ a.abs := by
  have hzero : (0 : Seconds).val = 0 := rfl
  rw [le_def, hzero, val_abs]
  omega

namespace ExpectedExpiry
variable (value delta expiry : Seconds)

/-- **A range is exact**: it holds the dates that are within reach, counted without a bound. -/
theorem holds_range_iff :
    (range value delta).holds expiry = true ↔
      |expiry.val - value.val| ≤ min |delta.val| (2 ^ 63 - 1) := by
  have hbounds : (range value delta).holds expiry = true ↔
      value - delta.abs ≤ expiry ∧ expiry ≤ value + delta.abs := by
    simp only [holds, Bool.and_eq_true, decide_eq_true_eq]
  rw [hbounds, Seconds.sub_le_iff delta.abs_nonneg, Seconds.le_add_iff delta.abs_nonneg,
    Seconds.val_abs, Int.abs_eq_natAbs, Int.abs_eq_natAbs]
  omega

/-- Only the size of the distance matters. -/
theorem holds_range_congr {delta delta' : Seconds} (h : |delta'.val| = |delta.val|) :
    (range value delta').holds expiry = (range value delta).holds expiry := by
  rw [Bool.eq_iff_iff, holds_range_iff, holds_range_iff, h]

/-- **The guard of an expected range is exact.**  For every date, distance and expiry, the ends of
the 64-bit range among them, the expiry is as expected exactly when it is no farther from the date
than the distance, or than 2⁶³ - 1 if that is less, counted without a bound.  The sign of the
distance does not matter.  A plan objects to an alteration for this reason exactly when it is in
force and its expiry is farther away. -/
theorem range_exact :
    (∀ expiry : Seconds, (range value delta).holds expiry = true ↔
        |expiry.val - value.val| ≤ min |delta.val| (2 ^ 63 - 1)) ∧
      (∀ delta' expiry : Seconds, |delta'.val| = |delta.val| →
        (range value delta').holds expiry = (range value delta).holds expiry) ∧
      ∀ (p : Plan) (a : Alteration), a.request.expectedExpiry = range value delta →
        (Check.expiry.refusal ∈
            p.objections (p.normalise a.request) (p.occasion a.method a.time) ↔
          p.isActive a.time = true ∧
            min |delta.val| (2 ^ 63 - 1) < |p.activeUntil.val - value.val|) := by
  refine ⟨holds_range_iff value delta, fun _ expiry => holds_range_congr value expiry, ?_⟩
  intro p a hexpected
  rw [p.refusal_mem_objections_iff, Check.passes, hexpected, Bool.or_eq_false_iff,
    Bool.not_eq_false', and_comm, ← Bool.not_eq_true, holds_range_iff, Int.not_le]

end ExpectedExpiry

namespace Seats

/-- A paid month that expects an expiry at most 500 seconds away from `value`; the distance is
written with a minus. -/
def monthAround (value : Seconds) : Alteration :=
  { month with request := { month.request with expectedExpiry := .range value (0 - 500) } }

/-- The first of all dates. -/
def firstDate : Seconds := 0 - .unbounded - 1

/-- The expiry at 2000 is within 500 seconds of 2500, whatever their sign, and the plan objects
when it is expected about 2501.  Zero is one second too far from the first of all dates even for
the least number as a distance. -/
theorem range_aroundExpiry :
    |(500 : Seconds).val| = |(0 - 500 : Seconds).val| ∧
      (ExpectedExpiry.range 2500 500).holds 2000 = true ∧
      (monthAround 2501).request.expectedExpiry = .range 2501 (0 - 500) ∧
      Check.expiry.refusal ∈ plan.objections (plan.normalise (monthAround 2501).request)
        (plan.occasion (monthAround 2501).method (monthAround 2501).time) ∧
      (ExpectedExpiry.range firstDate firstDate).holds 0 = false ∧
      (ExpectedExpiry.range firstDate firstDate).holds (0 - 1) = true := by
  have hsize : |(500 : Seconds).val| = |(0 - 500 : Seconds).val| := by decide
  obtain ⟨hexact, hsign, -⟩ := ExpectedExpiry.range_exact 2500 (0 - 500)
  obtain ⟨-, -, hguard⟩ := ExpectedExpiry.range_exact 2501 (0 - 500)
  obtain ⟨hfirst, -, -⟩ := ExpectedExpiry.range_exact firstDate firstDate
  refine ⟨hsize, ?_, rfl, (hguard plan (monthAround 2501) rfl).mpr ⟨by decide, by decide⟩, ?_, ?_⟩
  · rw [hsign 500 2000 hsize]
    exact (hexact 2000).mpr (by decide)
  · exact Bool.eq_false_iff.mpr fun h => absurd ((hfirst 0).mp h) (by decide)
  · exact (hfirst (0 - 1)).mpr (by decide)

end Seats
end Subscription
