import Subscription.Proofs.Extension

/-! # What makes a plan infinite

An expiry that never comes is written as the date zero, and dates are added as plain numbers.
Saturation never leads to zero, so the sum of a date and an amount is that marker only when it is
exactly zero (`Seconds.add_eq_infinite_iff`).  It may be, and then a plan that is extended by an
amount, be that negative or counted from a date before zero, never expires again.  This is, beside
a free tier, a prolongation without end and one to the date zero, the only way for a plan to
become infinite (`Plan.infinite_apply_iff`).
-/
namespace Subscription

/-- Saturation leads to the ends of the range and never to zero. -/
theorem Seconds.add_eq_infinite_iff {a b : Seconds} : a + b = .infinite ↔ a.val + b.val = 0 := by
  have hzero : Seconds.infinite.val = 0 := rfl
  constructor
  · intro h
    have hval : (a + b).val = 0 := by rw [h, hzero]
    rw [Seconds.val_add] at hval
    omega
  · intro h
    apply Seconds.ext
    rw [Seconds.val_add, hzero]
    omega

/-- Counted from `date`, the prolongation leads to the expiry that never comes. -/
def Prolongation.MakesInfinite (date : Seconds) : Prolongation → Prop
  | .extend delta => date.val + delta.val = 0
  | .set expiry => expiry = .infinite
  | .infinite => True
  | .none => False

namespace Plan
variable {p : Plan} {a : Alteration}

/-- The dates of a plan that expires are infinite when a prolongation makes them so. -/
theorem dates_infinite_iff (hfinite : p.activeUntil ≠ .infinite) (r : Request) (o : Occasion) :
    (p.dates r o).1 = .infinite ↔
      r.isProlongation = true ∧ r.prolongation.MakesInfinite (max o.time p.activeUntil) := by
  unfold dates
  by_cases hp : r.isProlongation = true
  · rw [if_pos hp, and_iff_right hp]
    cases r.prolongation with
    | extend delta => exact Seconds.add_eq_infinite_iff
    | set expiry => exact Iff.rfl
    | infinite => exact iff_of_true rfl trivial
    | none => exact iff_of_false hfinite id
  · rw [if_neg hp]
    exact iff_of_false hfinite fun h => hp h.1

/-- **What makes a plan infinite.**  Let an alteration be carried out, in whatever way, on a plan
that has an expiry.  The plan is infinite afterwards exactly when the request desires a free tier,
or prolongs without end, to the date zero, or by the amount that leads from the later of the time
and the expiry to the date zero.  So a plan that is extended by an amount, with no limit desired,
keeps an expiry exactly when the two dates do not add up to zero or the request does not declare to
prolong. -/
theorem infinite_apply_iff (hfinite : p.activeUntil ≠ .infinite)
    (hs : (p.apply a).2.isSuccess = true) :
    ((p.apply a).1.activeUntil = .infinite ↔
        a.request.desired.limit.any p.family.isFreeLimit = true ∨
          a.request.isProlongation = true ∧
            a.request.prolongation.MakesInfinite (max a.time p.activeUntil)) ∧
      ∀ delta, a.request.prolongation = .extend delta → a.request.desired.limit = none →
        ((p.apply a).1.activeUntil ≠ .infinite ↔
          (a.request.isProlongation = true → max a.time.val p.activeUntil.val + delta.val ≠ 0)) := by
  have hiff : (p.apply a).1.activeUntil = .infinite ↔
      a.request.desired.limit.any p.family.isFreeLimit = true ∨
        a.request.isProlongation = true ∧
          a.request.prolongation.MakesInfinite (max a.time p.activeUntil) := by
    rw [p.apply_fst_of_isSuccess a hs]
    refine (p.dates_infinite_iff hfinite _ (p.occasion a.method a.time)).trans ?_
    by_cases hfree : a.request.desired.limit.any p.family.isFreeLimit = true
    -- The request for a free tier is one to prolong without end.
    · rw [p.normalise_of_free hfree]
      refine iff_of_true ⟨?_, trivial⟩ (Or.inl hfree)
      simp [Request.isProlongation, Choice.insert_apply]
    · rw [p.normalise_of_not_free hfree]
      exact (or_iff_right hfree).symm
  refine ⟨hiff, fun delta hextends hlimit => ?_⟩
  have hnofree : ¬ a.request.desired.limit.any p.family.isFreeLimit = true := by simp [hlimit]
  rw [ne_eq, hiff, or_iff_right hnofree, hextends, not_and]
  simp only [Prolongation.MakesInfinite, Seconds.val_max, ne_eq]

end Plan

namespace Seats

/-- The paid month leaves the plan with an expiry. -/
theorem finite_month :
    plan.activeUntil ≠ .infinite ∧ (plan.apply month).2.isSuccess = true ∧
      month.request.prolongation = .extend 500 ∧ month.request.desired.limit = none ∧
      (plan.apply month).1.activeUntil ≠ .infinite := by
  have hfinite : plan.activeUntil ≠ .infinite := by decide
  have hs : (plan.apply month).2.isSuccess = true := by decide
  obtain ⟨-, hextension⟩ := Plan.infinite_apply_iff hfinite hs
  exact ⟨hfinite, hs, rfl, rfl, (hextension 500 rfl rfl).mpr fun _ => by decide⟩

/-- The plan is paid to end two thousand seconds earlier. -/
def shortened : Alteration where
  method := .payment
  request := { availability := .detached, prolongation := .extend (.clamp (-2000)) }
  circumstance := { occupancy := 12 }
  time := 1000

/-- **A plan that is cut back to the date zero never expires**: it ended at 2000 and was not in force
at 5000, and afterwards it is infinite, and in force then. -/
theorem infinite_shortened :
    plan.Reachable family ∧ plan.activeUntil = 2000 ∧ plan.isActive 5000 = false ∧
      shortened.request.prolongation = .extend (.clamp (-2000)) ∧
      shortened.request.desired.limit = none ∧
      (plan.apply shortened).2 = .applied false ∧
      (plan.apply shortened).1.activeUntil = .infinite ∧
      (plan.apply shortened).1.isActive 5000 = true :=
  ⟨reachable_run [], rfl, by decide, rfl, rfl, by decide, by decide, by decide⟩

end Seats
end Subscription
