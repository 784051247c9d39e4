import Subscription.Proofs.Activation

/-! # Extending by an amount

To extend a plan is to add an amount to the later of now and its expiry
(`Plan.activeUntil_apply_extension`), and the sum stays where dates end.  A date is so never
moved back.  But the expiry that never comes is written as the date zero, which is before any
time an alteration is made at, and the sum treats it as that date.  So extending keeps every
moment at which the plan was in force by its dates exactly when the plan had an expiry
(`Plan.outlasts_apply_extension_iff`), and an infinite plan is cut short by it.
-/
namespace Subscription

/-- A date that is counted from a positive time, by an amount that is not negative, is positive
and not before what it is counted from. -/
theorem Seconds.extended_spec {time delta : Seconds} (htime : 0 < time) (hdelta : 0 ≤ delta)
    (expiry : Seconds) :
    0 < max time expiry + delta ∧ expiry ≤ max time expiry + delta := by
  have hzero : (0 : Seconds).val = 0 := rfl
  have hupper := expiry.upper
  rw [lt_def, hzero] at htime
  rw [le_def, hzero] at hdelta
  rw [lt_def, le_def, hzero, val_add, val_max]
  omega

/-- **An extension keeps all moments before an expiry exactly when there is one.** -/
theorem Seconds.outlasts_extended_iff {time delta : Seconds} (htime : 0 < time)
    (hdelta : 0 ≤ delta) (expiry : Seconds) :
    (∀ t, expiry.Outlasts t → (max time expiry + delta).Outlasts t) ↔ expiry ≠ .infinite := by
  obtain ⟨hpos, hle⟩ := Seconds.extended_spec htime hdelta expiry
  constructor
  · intro hkeeps hinfinite
    -- No date is after the last one, and the new one is not the date that never comes.
    rcases hkeeps .unbounded (Or.inl hinfinite) with hnew | hlast
    · rw [hnew] at hpos
      exact absurd hpos (by decide)
    · exact absurd (max time expiry + delta).upper (Int.not_le.mpr hlast)
  · intro hfinite t hbefore
    rcases hbefore with hinfinite | hlt
    · exact absurd hinfinite hfinite
    · exact Or.inr (Int.lt_of_lt_of_le hlt hle)

namespace Plan
variable {p : Plan} {a : Alteration} {delta : Seconds}

/-- The expiry after a plan was extended. -/
theorem activeUntil_apply_extension (hs : (p.apply a).2.isSuccess = true)
    (hprolongs : a.request.isProlongation = true) (hextends : a.request.prolongation = .extend delta)
    (hlimit : a.request.desired.limit = none) :
    (p.apply a).1.activeUntil = max a.time p.activeUntil + delta := by
  rw [p.apply_fst_of_isSuccess a hs]
  show (p.dates (p.normalise a.request) (p.occasion a.method a.time)).1 = _
  rw [p.normalise_of_undesired hlimit]
  unfold dates
  rw [if_pos hprolongs, hextends]
  rfl

/-- **When extending does not shorten a plan.**  Let a plan be extended at a positive time by an
amount that is not negative, in whatever way, with no limit desired.  Its expiry is then by that
amount after the later of the time and the old expiry.  It is still in force by its dates at
every moment at which it was so before if it had an expiry, and only then. -/
theorem outlasts_apply_extension_iff (hs : (p.apply a).2.isSuccess = true)
    (hprolongs : a.request.isProlongation = true) (hextends : a.request.prolongation = .extend delta)
    (hlimit : a.request.desired.limit = none) (hdelta : 0 ≤ delta) (htime : 0 < a.time) :
    (p.apply a).1.activeUntil = max a.time p.activeUntil + delta ∧
      ((∀ t, p.activeUntil.Outlasts t → (p.apply a).1.activeUntil.Outlasts t) ↔
        p.activeUntil ≠ .infinite) := by
  have hnew := activeUntil_apply_extension hs hprolongs hextends hlimit
  rw [hnew]
  exact ⟨rfl, Seconds.outlasts_extended_iff htime hdelta p.activeUntil⟩

end Plan

namespace Seats

/-- The month keeps what there was until 2000. -/
theorem outlasts_month :
    plan.Reachable family ∧ (plan.apply month).2.isSuccess = true ∧
      month.request.isProlongation = true ∧ month.request.prolongation = .extend 500 ∧
      month.request.desired.limit = none ∧ (0 : Seconds) ≤ 500 ∧ 0 < month.time ∧
      plan.activeUntil ≠ .infinite ∧
      ∀ t, plan.activeUntil.Outlasts t → (plan.apply month).1.activeUntil.Outlasts t := by
  have hs : (plan.apply month).2.isSuccess = true := by decide
  have hextends : month.request.prolongation = .extend 500 := rfl
  have hdelta : (0 : Seconds) ≤ 500 := by decide
  have htime : 0 < month.time := by decide
  have hfinite : plan.activeUntil ≠ .infinite := by decide
  obtain ⟨-, hiff⟩ := Plan.outlasts_apply_extension_iff hs rfl hextends rfl hdelta htime
  exact ⟨reachable_run [], hs, rfl, hextends, rfl, hdelta, htime, hfinite, hiff.mpr hfinite⟩

/-- Twenty seats without end. -/
def endless : Plan := .ofSnapshot family 1001 { plan.current with activeUntil := .infinite }

theorem reachable_endless : endless.Reachable family :=
  Plan.Loaded.reachable (Or.inl ⟨{ stored with activeUntil := .infinite }, rfl⟩)

/-- **A paid month shortens a plan without end**: it was in force at 5000, and afterwards it
expires at 1500. -/
theorem not_outlasts_month :
    endless.Reachable family ∧ (endless.apply month).2 = .applied false ∧
      month.request.isActivation = false ∧ month.request.prolongation = .extend 500 ∧
      month.request.desired.limit = none ∧ month.time = 1000 ∧
      endless.activeUntil.Outlasts 5000 ∧
      (endless.apply month).1.activeUntil = 1500 ∧
      ¬ (endless.apply month).1.activeUntil.Outlasts 5000 := by
  have hnew : (endless.apply month).1.activeUntil = 1500 := by decide
  refine ⟨reachable_endless, by decide, rfl, rfl, rfl, rfl, Or.inl rfl, hnew, ?_⟩
  rw [hnew]
  rintro (hinfinite | hlt)
  · exact absurd hinfinite (by decide)
  · exact absurd hlt (by decide)

end Seats
end Subscription
