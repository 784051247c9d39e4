import Subscription.Proofs.Guards

/-! # What an activation leaves in force

An activation may be carried out on a plan that is not in force, where other alterations are
refused, and on one that is in force for nothing.  It does not move the dates by itself: only
the prolongation that goes with it does, and that may be none, or lead to a date in the past.
So an activation that is carried out leaves the plan in force exactly when its limit is then a
free tier or the new dates reach past the time (`Plan.isActive_altered_iff`).  For a plan that
had lapsed, the dates do so exactly when the prolongation would, were it counted from that time
(`Plan.Lapsed.dates_iff`, `Plan.isActive_apply_activation`).
-/
namespace Subscription

/-- A plan that expires then is in force at `time`: the expiry never comes, or comes later. -/
def Seconds.Outlasts (expiry time : Seconds) : Prop := expiry = .infinite ∨ time < expiry

/-- Counted from `time`, the prolongation leads past it. -/
def Prolongation.Outlasts (time : Seconds) : Prolongation → Prop
  | .extend delta => (time + delta).Outlasts time
  | .set expiry => expiry.Outlasts time
  | .infinite => True
  | .none => False

namespace Plan
variable {p : Plan} {a : Alteration}

/-- A plan is in force by its expiry, by a free limit, or while it is free. -/
theorem isActive_iff (time : Seconds) :
    p.isActive time = true ↔
      p.isLimitFree = true ∨ p.activeUntil.Outlasts time ∨ time < p.freeActiveUntil := by
  unfold isActive isFree Snapshot.isInfinite Seconds.Outlasts
  simp only [Bool.or_eq_true, decide_eq_true_eq]
  show (p.activeUntil = .infinite ∨ _) ∨ (p.activeUntil = .infinite ∨ _) ∨ _ ↔ _
  constructor
  · rintro ((h | h) | (h | h) | h)
    · exact Or.inr (Or.inl (Or.inl h))
    · exact Or.inr (Or.inl (Or.inr h))
    · exact Or.inr (Or.inl (Or.inl h))
    · exact Or.inl h
    · exact Or.inr (Or.inr h)
  · rintro (h | (h | h) | h)
    · exact Or.inr (Or.inl (Or.inr h))
    · exact Or.inl (Or.inl h)
    · exact Or.inl (Or.inr h)
    · exact Or.inr (Or.inr h)

/-! ## Plans that have lapsed -/

/-- The plan has no date that is still to come. -/
structure Lapsed (p : Plan) (time : Seconds) : Prop where
  expired : p.activeUntil ≤ time
  finite : p.activeUntil ≠ .infinite
  charged : p.freeActiveUntil ≤ time

theorem lapsed_of_not_isActive {time : Seconds} (h : p.isActive time = false) :
    p.Lapsed time := by
  have hn : ¬ (p.isLimitFree = true ∨ p.activeUntil.Outlasts time ∨ time < p.freeActiveUntil) := by
    rw [← isActive_iff, h]
    exact Bool.false_ne_true
  simp only [Seconds.Outlasts, not_or, Seconds.lt_def, Int.not_lt] at hn
  obtain ⟨-, ⟨hfinite, hexpired⟩, hcharged⟩ := hn
  exact ⟨hexpired, hfinite, hcharged⟩

/-- The later of `time` and a date that has passed is `time`. -/
theorem max_eq_of_passed {time date : Seconds} (h : date ≤ time) : max time date = time := by
  refine Seconds.ext ?_
  rw [Seconds.le_def] at h
  rw [Seconds.val_max]
  omega

/-- **The dates of a lapsed plan** reach past the time exactly when there is a prolongation that
does, whoever pays for it. -/
theorem Lapsed.dates_iff {o : Occasion} (h : p.Lapsed o.time) (r : Request) :
    ((p.dates r o).1.Outlasts o.time ∨ o.time < (p.dates r o).2) ↔
      r.isProlongation = true ∧ r.prolongation.Outlasts o.time := by
  have hexpiry : ¬ p.activeUntil.Outlasts o.time := by
    rintro (hi | hlt)
    · exact h.finite hi
    · exact absurd h.expired (Int.not_le.mpr hlt)
  have hfree : ¬ o.time < p.freeActiveUntil := Int.not_lt.mpr h.charged
  unfold dates
  by_cases hp : r.isProlongation = true
  · rw [if_pos hp, and_iff_right hp]
    cases r.prolongation with
    | extend delta =>
      -- Both dates are counted from the time of the alteration.
      simp only [max_eq_of_passed h.expired, max_eq_of_passed h.charged, Prolongation.Outlasts]
      by_cases hpromo : o.isPromo = true
      · rw [if_pos hpromo]
        exact or_iff_left_of_imp Or.inr
      · rw [if_neg hpromo]
        exact or_iff_left hfree
    | set expiry =>
      simp only [Prolongation.Outlasts]
      by_cases hpromo : o.isPromo = true
      · rw [if_pos hpromo]
        exact or_iff_left_of_imp Or.inr
      · rw [if_neg hpromo]
        exact or_iff_left hfree
    | infinite => exact iff_of_true (Or.inl (Or.inl rfl)) trivial
    | none => exact iff_of_false (not_or.mpr ⟨hexpiry, hfree⟩) id
  · rw [if_neg hp]
    exact iff_of_false (not_or.mpr ⟨hexpiry, hfree⟩) fun hr => hp hr.1

/-! ## Activations -/

/-- An activation that is allowed finds the plan not in force, or in force for nothing. -/
theorem Allows.isFree_of_activation (h : p.Allows a) (ha : a.request.isActivation = true)
    (hactive : p.isActive a.time = true) : p.isFree a.time = true :=
  h.guarded.free_of_activation ha hactive

/-- The state that is proposed is in force by its limit or by the new dates. -/
theorem isActive_altered_iff (p : Plan) (a : Alteration) :
    (p.altered a).isActive a.time = true ↔
      (p.altered a).isLimitFree = true ∨
        (p.dates (p.normalise a.request) (p.occasion a.method a.time)).1.Outlasts a.time ∨
        a.time < (p.dates (p.normalise a.request) (p.occasion a.method a.time)).2 :=
  isActive_iff a.time

/-- **When an activation leaves the plan in force.**  It is carried out without force on a plan
that is not in force, or is in force for nothing.  Afterwards the plan is in force exactly when
its limit is a free tier, or the dates of the normalised request reach past the time.  If the
plan was not in force before, the dates do so exactly when the request prolongs without end, to
a date that never comes or comes later, or by an amount that leads from the time to such a
date. -/
theorem isActive_apply_activation (ha : a.request.isActivation = true) (hf : a.method ≠ .force)
    (hs : (p.apply a).2.isSuccess = true) :
    (p.isActive a.time = true → p.isFree a.time = true) ∧
      ((p.apply a).1.isActive a.time = true ↔
        (p.apply a).1.isLimitFree = true ∨
          (p.dates (p.normalise a.request) (p.occasion a.method a.time)).1.Outlasts a.time ∨
          a.time < (p.dates (p.normalise a.request) (p.occasion a.method a.time)).2) ∧
      (p.isActive a.time = false →
        ((p.apply a).1.isActive a.time = true ↔
          (p.apply a).1.isLimitFree = true ∨
            (p.normalise a.request).isProlongation = true ∧
              (p.normalise a.request).prolongation.Outlasts a.time)) := by
  have hallows := (p.isSuccess_iff_allows a hf).mp hs
  rw [p.apply_fst_of_isSuccess a hs]
  refine ⟨hallows.isFree_of_activation ha, p.isActive_altered_iff a, fun hlapsed => ?_⟩
  have hdates : (p.occasion a.method a.time).time = a.time := rfl
  have hp : p.Lapsed (p.occasion a.method a.time).time := lapsed_of_not_isActive hlapsed
  exact (p.isActive_altered_iff a).trans (or_congr Iff.rfl (hp.dates_iff _))

end Plan

namespace Seats

/-- An activation that is paid after the plan has expired, with a prolongation or without. -/
def activation (prolongation : Prolongation) : Alteration where
  method := .payment
  request := {
    availability := .detached
    actions := .ofList [.activate, .prolong]
    prolongation := prolongation }
  circumstance := { occupancy := 12 }
  time := 3000

/-- An activation by a month leaves the expired plan in force. -/
theorem isActive_activation_month :
    (activation (.extend 500)).request.isActivation = true ∧
      (activation (.extend 500)).method ≠ .force ∧
      (plan.apply (activation (.extend 500))).2.isSuccess = true ∧
      plan.isActive 3000 = false ∧
      (plan.apply (activation (.extend 500))).1.isActive 3000 = true := by
  have ha : (activation (.extend 500)).request.isActivation = true := by decide
  have hf : (activation (.extend 500)).method ≠ .force := by decide
  have hs : (plan.apply (activation (.extend 500))).2.isSuccess = true := by decide
  have hlapsed : plan.isActive 3000 = false := by decide
  refine ⟨ha, hf, hs, hlapsed, ?_⟩
  refine ((Plan.isActive_apply_activation ha hf hs).2.2 hlapsed).mpr (Or.inr ⟨by decide, ?_⟩)
  exact Or.inr (by decide)

/-- **An activation alone does not bring a plan back into force**: it is paid and carried out,
and the plan is as expired as before. -/
theorem not_isActive_activation :
    plan.Reachable family ∧ (activation .none).request.isActivation = true ∧
      (plan.apply (activation .none)).2 = .applied false ∧
      (plan.apply (activation .none)).1.isActive 3000 = false :=
  ⟨reachable_run [], by decide, by decide, by decide⟩

end Seats
end Subscription
