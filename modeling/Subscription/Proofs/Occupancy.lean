import Mathlib.Data.List.Basic
import Subscription.Proofs.OneWay
import Subscription.Proofs.PlainProlongation

/-! # Fewer occupied seats

Where a limit is desired, the occupied seats are looked at in two places.  The limit refuses what
has no room for them, and what it does not refuse for some seats it does not refuse for fewer
(`Limit.refusal?_of_fewer`).  A free extend policy starts its trial above a threshold, which is no
move that it refuses (`Plan.extendPolicy_judge_under`).  So an alteration that is carried
out is carried out for fewer seats, and nothing but the extend policy can come out differently
(`Plan.apply_under_fewer`).
-/
namespace Subscription

/-- Only the limit and the extend policy look at the occupied seats for their replacement. -/
theorem Setting.replacement_under {x : Setting} (t : Transition) (c : Circumstance)
    (hlimit : x.facet ≠ .limit) (hpolicy : x.facet ≠ .extendPolicy) :
    x.replacement { t with circumstance := c } = x.replacement t := by
  cases x with
  | limit l => exact absurd rfl hlimit
  | extendPolicy q => exact absurd rfl hpolicy
  | restrictPolicy q => rfl
  | demo w => rfl

namespace Limit
variable {l target : Limit} {t : Transition} {c : Circumstance} {s : Snapshot}

/-- A move that is not refused is not refused for fewer seats. -/
theorem refusal?_of_fewer (hc : c.occupancy ≤ t.circumstance.occupancy)
    (hs : s.isInfinite = t.prospective.isInfinite) (h : l.refusal? target t = none) :
    l.refusal? target { t with circumstance := c, prospective := s } = none := by
  have hfits : t.circumstance.occupancy ≤ target.tier → c.occupancy ≤ target.tier :=
    UInt32.le_trans hc
  rw [refusal?_eq_none_iff] at h ⊢
  obtain ⟨hsame, hchange, hroom, hinfinite, htrial, hactive, hlower, hexceed⟩ := h
  refine ⟨hsame, hchange, ?_, ?_, htrial, hactive, hlower, ?_⟩
  · rintro ⟨hover, hplain⟩
    exact hroom ⟨fun hle => hover (hfits hle), hplain⟩
  · rw [hs]
    exact hinfinite
  · rintro ⟨hrule, hdeclared, hover⟩
    exact hexceed ⟨hrule, hdeclared, fun hle => hover (hfits hle)⟩

end Limit

namespace Plan
variable {p : Plan} {a : Alteration} {l target : Limit} {q : ExtendPolicy} {c : Circumstance}

/-- Where a limit is desired, the occupied seats decide over the extend policy only. -/
theorem get?_altered_under (hd : a.request.desired.limit = some target) {f : Facet}
    (hf : f ≠ .extendPolicy) :
    (p.altered (a.under c)).current.settings.get? f = (p.altered a).current.settings.get? f := by
  have hproposed : (a.request.desired.get? f).or
        ((p.current.settings.get? f).map (Setting.replacement (p.replacing (a.under c)))) =
      (a.request.desired.get? f).or
        ((p.current.settings.get? f).map (Setting.replacement (p.replacing a))) := by
    by_cases hlimit : f = .limit
    · -- The limit that is desired is not replaced.
      subst hlimit
      rw [Settings.get?_limit_iff.mpr hd]
      rfl
    · refine congrArg _ (Option.map_congr fun x hx => ?_)
      have hfacet := Settings.facet_of_get? hx
      exact x.replacement_under (p.replacing a) c (hfacet ▸ hlimit) (hfacet ▸ hf)
  by_cases hmem : f ∈ p.family.facets
  · rw [get?_altered p (a.under c) hmem, get?_altered p a hmem]
    exact hproposed
  · have hnone (b : Alteration) : (p.altered b).current.settings.get? f = none :=
      (p.get?_proposal _ _ _ f).trans (if_neg hmem)
    rw [hnone, hnone]

/-- The extend policy judges alike whatever seats are occupied. -/
theorem extendPolicy_judge_under (hf : .extendPolicy ∈ p.family.facets)
    (hq : p.current.settings.extendPolicy = some q) :
    q.judge (p.transition (a.under c)) = q.judge (p.transition a) := by
  -- A replacement is allowed above the threshold and below it; a desired policy is the same one.
  cases hd : a.request.desired.extendPolicy with
  | none =>
    have hdetached (b : Alteration) (hb : b.request = a.request) :
        q.judge (p.transition b) = .detached :=
      judge_eq_detached_of_undesired (by rw [hb, hd]) (Settings.get?_extendPolicy_iff.mpr hq)
        (by decide)
    rw [hdetached a rfl, hdetached (a.under c) rfl]
  | some q' =>
    have htarget (b : Alteration) (hb : b.request = a.request) :
        (p.transition b).prospective.settings.extendPolicy = some q' := by
      refine Settings.get?_extendPolicy_iff.mp (p.get?_altered_of_desired hf ?_)
      rw [hb]
      exact Settings.get?_extendPolicy_iff.mpr hd
    rw [ExtendPolicy.judge_eq (htarget a rfl), ExtendPolicy.judge_eq (htarget (a.under c) rfl)]

/-- A limit that allows a desired one charges the same for fewer seats. -/
theorem Allows.limit_judge_under (h : p.Allows a) (hf : .limit ∈ p.family.facets)
    (hl : p.current.settings.limit = some l) (hd : a.request.desired.limit = some target)
    (hle : c.occupancy ≤ a.circumstance.occupancy) :
    l.judge (p.transition (a.under c)) = l.judge (p.transition a) := by
  have hrefusal := h.limit_refusal hf hl (limit_altered_of_desired hf hd)
  have hrefusal' : l.refusal? target (p.transition (a.under c)) = none :=
    Limit.refusal?_of_fewer (t := p.transition a) hle rfl hrefusal
  have hcharge : l.charge target (p.transition (a.under c)) =
      l.charge target (p.transition a) := rfl
  rw [l.judge_eq target (p.transition a) (limit_altered_of_desired hf hd), hrefusal,
    l.judge_eq target (p.transition (a.under c)) (limit_altered_of_desired hf hd), hrefusal',
    hcharge]

/-- What is carried out is answered alike for fewer seats. -/
theorem Allows.answers_under (h : p.Allows a) (hd : a.request.desired.limit = some target)
    (hle : c.occupancy ≤ a.circumstance.occupancy) : p.answers (a.under c) = p.answers a := by
  have hjudgments : p.judgments (p.transition (a.under c)) = p.judgments (p.transition a) := by
    refine List.filterMap_congr fun f hf => Option.map_congr fun x hx => ?_
    obtain rfl := Settings.facet_of_get? hx
    cases x with
    | limit l => exact h.limit_judge_under hf (Settings.get?_limit_iff.mp hx) hd hle
    | extendPolicy q => exact extendPolicy_judge_under hf (Settings.get?_extendPolicy_iff.mp hx)
    | restrictPolicy q => rfl
    | demo w => rfl
  unfold answers
  rw [hjudgments]
  rfl

/-- **Fewer occupied seats are no obstacle.**  Let an alteration that desires a limit be carried
out without force, whatever its method, time, seed, guards, trial behaviour and conditions.  Then
it is carried out with any smaller number of occupied seats, and comes to the same dates and the
same setting of every facet but the extend policy. -/
theorem apply_under_fewer (hforce : a.method ≠ .force)
    (hd : a.request.desired.limit = some target) (hs : (p.apply a).2.isSuccess = true)
    (hle : c.occupancy ≤ a.circumstance.occupancy) :
    (p.apply (a.under c)).2.isSuccess = true ∧
      (p.apply (a.under c)).1.activeUntil = (p.apply a).1.activeUntil ∧
      (p.apply (a.under c)).1.freeActiveUntil = (p.apply a).1.freeActiveUntil ∧
      ∀ f, f ≠ .extendPolicy → (p.apply (a.under c)).1.current.settings.get? f =
        (p.apply a).1.current.settings.get? f := by
  have hallows := (p.isSuccess_iff_allows a hforce).mp hs
  have hanswers := hallows.answers_under hd hle
  have hallows' := (allows_iff_of_answers hanswers rfl rfl).mpr hallows
  have hs' := (p.isSuccess_iff_allows (a.under c) hforce).mpr hallows'
  rw [p.apply_fst_of_isSuccess a hs, p.apply_fst_of_isSuccess (a.under c) hs']
  exact ⟨hs', rfl, rfl, fun f hf => get?_altered_under hd hf⟩

end Plan

namespace Seats

/-- The fifty seats that twelve occupied ones are granted are granted with five, which do not
start the trial. -/
theorem fiftyOnTrial_fewer :
    fiftyOnTrial.method ≠ .force ∧ fiftyOnTrial.request.desired.limit = some ⟨50⟩ ∧
      (plan.apply fiftyOnTrial).2.isSuccess = true ∧
      (plan.apply (fiftyOnTrial.under { occupancy := 5 })).2.isSuccess = true ∧
      (plan.apply (fiftyOnTrial.under { occupancy := 5 })).1.current.settings.get? .limit =
        (plan.apply fiftyOnTrial).1.current.settings.get? .limit ∧
      (plan.apply (fiftyOnTrial.under { occupancy := 5 })).1.extendRule = some .free ∧
      (plan.apply fiftyOnTrial).1.extendRule = some .trial := by
  have hforce : fiftyOnTrial.method ≠ .force := by decide
  have hs : (plan.apply fiftyOnTrial).2.isSuccess = true := by decide
  obtain ⟨hs', -, -, hsettings⟩ := plan.apply_under_fewer (c := { occupancy := 5 }) hforce rfl hs
    (by decide)
  exact ⟨hforce, rfl, hs, hs', hsettings .limit (by decide), by decide, by decide⟩

end Seats
end Subscription
