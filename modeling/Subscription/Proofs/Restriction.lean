import Subscription.Proofs.Activation
import Subscription.Proofs.Order

/-! # Restricted access follows the expiry

Where no restriction is desired, an alteration that is carried out restricts access from the
plan's new expiry on, whether the expiry moved or not (`Plan.restrictPolicy_apply`).  The zero
that stands for no restriction and the zero of an expiry that never comes are one date, so a plan
without end is not restricted.  A sum of an expiry and a grace that is not negative stops at the
last date, after which there is none, so the restriction begins where the exact sum says
(`RestrictPolicy.isRestricted_iff`).
-/
namespace Subscription

namespace RestrictPolicy
variable {p : RestrictPolicy} {time grace grace' : Seconds}

/-- Access is restricted after the policy's date and the grace, counted exactly. -/
theorem isRestricted_iff (hgrace : 0 ≤ grace) :
    p.isRestricted time grace = true ↔
      p.activeFrom ≠ .infinite ∧ p.activeFrom.val + grace.val < time.val := by
  have hzero : (0 : Seconds) = .infinite := rfl
  simp only [isRestricted, hzero, Bool.and_eq_true, decide_eq_true_eq]
  exact and_congr_right fun _ => Seconds.add_lt_iff hgrace

/-- What is restricted in spite of a grace is so with a smaller one. -/
theorem isRestricted_of_le (h : grace ≤ grace') (hr : p.isRestricted time grace' = true) :
    p.isRestricted time grace = true := by
  simp only [isRestricted, Bool.and_eq_true, decide_eq_true_eq] at hr ⊢
  obtain ⟨hfinite, hlt⟩ := hr
  exact ⟨hfinite, Int.lt_of_le_of_lt (Seconds.add_le_add_of_le h) hlt⟩

end RestrictPolicy

namespace Plan
variable {m : Family} {p : Plan} {a : Alteration}

/-- A restriction that is not desired is replaced by one from the new expiry on. -/
theorem restrictPolicy_apply (hc : p.current.settings.Covers p.family.facets)
    (hf : .restrictPolicy ∈ p.family.facets) (hs : (p.apply a).2.isSuccess = true)
    (hd : a.request.desired.restrictPolicy = none) :
    (p.apply a).1.current.settings.restrictPolicy = some ⟨(p.apply a).1.activeUntil⟩ := by
  obtain ⟨x, hx⟩ := hc.exists_get? hf
  have hproposed := p.get?_altered_of_undesired hf (Option.map_eq_none_iff.mpr hd) hx
  obtain ⟨q, -, rfl⟩ := Option.map_eq_some_iff.mp hx
  rw [p.apply_fst_of_isSuccess a hs]
  exact Settings.get?_restrictPolicy_iff.mp hproposed

/-- **When access to a plan is restricted.**  Let an alteration of a reachable plan be carried
out, by force or not, with no restriction desired.  Access is then restricted from the plan's
expiry on: with a grace that is not negative it is so exactly after the expiry and the grace,
counted without a bound, and never if the plan does not expire.  So it is not restricted while
the plan is in force by its expiry, nor with a larger grace where it is not with a smaller one. -/
theorem Reachable.isRestricted_apply_iff (h : p.Reachable m) (hf : .restrictPolicy ∈ m.facets)
    (hs : (p.apply a).2.isSuccess = true) (hd : a.request.desired.restrictPolicy = none) :
    (p.apply a).1.restrictedFrom = some (p.apply a).1.activeUntil ∧
      ∀ time grace, 0 ≤ grace →
        ((p.apply a).1.isRestricted time grace = true ↔
          (p.apply a).1.activeUntil ≠ .infinite ∧
            (p.apply a).1.activeUntil.val + grace.val < time.val) ∧
        ((p.apply a).1.activeUntil.Outlasts time →
          (p.apply a).1.isRestricted time grace = false) ∧
        ∀ grace', grace ≤ grace' → (p.apply a).1.isRestricted time grace' = true →
          (p.apply a).1.isRestricted time grace = true := by
  obtain ⟨rfl, hc⟩ := h.spec
  have hpolicy := restrictPolicy_apply hc hf hs hd
  have hrestricted (time grace : Seconds) : (p.apply a).1.isRestricted time grace =
      RestrictPolicy.isRestricted ⟨(p.apply a).1.activeUntil⟩ time grace := by
    rw [isRestricted, hpolicy]
    rfl
  refine ⟨by rw [restrictedFrom, hpolicy]; rfl, fun time grace hgrace => ?_⟩
  simp only [hrestricted]
  have hiff : RestrictPolicy.isRestricted ⟨(p.apply a).1.activeUntil⟩ time grace = true ↔ _ :=
    RestrictPolicy.isRestricted_iff hgrace
  refine ⟨hiff, fun houtlasts => ?_, fun grace' hle => RestrictPolicy.isRestricted_of_le hle⟩
  refine Bool.eq_false_iff.mpr fun hr => ?_
  obtain ⟨hfinite, hlt⟩ := hiff.mp hr
  change (p.apply a).1.activeUntil.val + grace.val < time.val at hlt
  rcases houtlasts with hinfinite | hbefore
  · exact hfinite hinfinite
  · have hzero : (0 : Seconds).val = 0 := rfl
    rw [Seconds.le_def, hzero] at hgrace
    rw [Seconds.lt_def] at hbefore
    omega

end Plan

namespace Seats

/-- After a paid month access is restricted from 2500 on; with the longest grace, not even at the
last date. -/
theorem isRestricted_afterMonth :
    plan.Reachable family ∧ Facet.restrictPolicy ∈ family.facets ∧
      (plan.apply month).2.isSuccess = true ∧
      month.request.desired.restrictPolicy = none ∧
      (plan.apply month).1.restrictedFrom = some 2500 ∧
      (plan.apply month).1.isRestricted 2600 50 = true ∧
      (plan.apply month).1.isRestricted 2600 100 = false ∧
      (plan.apply month).1.isRestricted .unbounded .unbounded = false := by
  have hreach : plan.Reachable family := reachable_run []
  have hf : Facet.restrictPolicy ∈ family.facets := by decide
  have hs : (plan.apply month).2.isSuccess = true := by decide
  have hnew : (plan.apply month).1.activeUntil = 2500 := by decide
  obtain ⟨hfrom, hall⟩ := hreach.isRestricted_apply_iff hf hs rfl
  rw [hnew] at hfrom hall
  refine ⟨hreach, hf, hs, rfl, hfrom, (hall 2600 50 (by decide)).1.mpr ⟨by decide, by decide⟩,
    Bool.eq_false_iff.mpr fun hr => ?_, Bool.eq_false_iff.mpr fun hr => ?_⟩
  · exact absurd ((hall 2600 100 (by decide)).1.mp hr).2 (by decide)
  · exact absurd ((hall .unbounded .unbounded (by decide)).1.mp hr).2 (by decide)

end Seats
end Subscription
