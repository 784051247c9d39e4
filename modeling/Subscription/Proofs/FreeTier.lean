import Subscription.Proofs.Activation
import Subscription.Proofs.OneWay

/-! # Moving to a free tier

To ask for a free tier is to ask for a plan without end: the request is normalised into an
infinite prolongation.  If nothing else is asked and nobody pays, only the limit has anything to
say (`Plan.judge_eq_detached_of_undesired`), and what it says depends on the tier that is left.
A paid one may be left at any time, whether the plan is in force or not, and at no cost.  A free
one may not, since a plan that leaves it must not become infinite, and this is asked without a
look at where the plan goes.  So the move is carried out from every paid tier and refused from
every free one (`Plan.Reachable.apply_toFreeTier`).
-/
namespace Subscription

/-- The alteration declares a change to a limit and nothing else, and nobody pays for it. -/
structure Alteration.OnlyChangesTo (a : Alteration) (target : Limit) : Prop where
  unpaid : a.method = .detached
  seed : a.request.availability = .detached
  actions : a.request.actions = .ofList [.change]
  desired : a.request.desired = { limit := some target }
  priorless : a.request.expectedPrior = {}
  dateless : a.request.expectedExpiry = .none
  trialless : a.request.trialBehaviour = .ofList []
  conditionless : a.request.extraConditions = []

/-- The refusal to make a plan infinite that leaves a free tier. -/
def Limit.infinite : Status :=
  .unappropriated Status.Code.limitUnsupportedReplacement "limit can not be infinite"

namespace Plan
variable {p : Plan} {a : Alteration} {l target : Limit}

section FreeTier
variable (ha : a.OnlyChangesTo target) (hfree : p.family.isFreeLimit target = true)
include ha hfree

/-- The request as it is judged. -/
theorem normalise_toFreeTier :
    p.normalise a.request =
      { a.request with
        prolongation := .infinite
        actions := (Choice.ofList [.change]).insert .prolong } := by
  rw [← ha.actions]
  refine p.normalise_of_free ?_
  rw [ha.desired]
  exact hfree

/-- The plan as a whole has no objection. -/
theorem guarded_toFreeTier : Guarded p a where
  prior f x hx := by
    rw [ha.priorless, Settings.get?_none] at hx
    cases hx
  expiry hdeclared := by
    rw [ha.dateless] at hdeclared
    cases hdeclared
  active_of_extension _ hextends := by
    rw [normalise_toFreeTier ha hfree] at hextends
    cases hextends
  free_of_activation hactivates := by
    have hnot : a.request.isActivation = false := by
      unfold Request.isActivation
      rw [ha.actions]
      rfl
    rw [hnot] at hactivates
    cases hactivates
  trial hrequires := by
    rw [ha.trialless] at hrequires
    cases hrequires

/-- **The limit lets a plan go to a free tier from a paid one, at no cost**, and does not from a
free one. -/
theorem judge_toFreeTier (hf : .limit ∈ p.family.facets) (hne : target ≠ l)
    (hroom : a.circumstance.occupancy ≤ target.tier)
    (hblock : p.family.limitRules.blockUntilTrialStarted = false) :
    l.judge (p.transition a) = if p.family.isFreeLimit l then Limit.infinite else .free := by
  have hrequest : (p.transition a).request = _ := normalise_toFreeTier ha hfree
  have htarget : (p.transition a).prospective.settings.limit = some target :=
    limit_altered_of_desired hf (by rw [ha.desired])
  have hinfinite : (p.transition a).prospective.isInfinite = true :=
    isInfinite_proposal (by rw [normalise_toFreeTier ha hfree]; rfl) _ _
  have hreason : (p.transition a).occasion.hasReason = false := by
    show a.method.hasReason = false
    rw [ha.unpaid]
    rfl
  have hchange : (p.transition a).request.isChange = true := by rw [hrequest]; rfl
  have hprolongs : (p.transition a).request.isProlongation = true := by rw [hrequest]; rfl
  have hactivation : (p.transition a).request.isActivation = false := by rw [hrequest]; rfl
  have hextends : (p.transition a).request.isExtension = false := by rw [hrequest]; rfl
  have hsets : (p.transition a).request.isProlongationSet = false := by rw [hrequest]; rfl
  have hfamily : (p.transition a).family = p.family := rfl
  have hcircumstance : (p.transition a).circumstance = a.circumstance := rfl
  rw [l.judge_eq target _ htarget]
  unfold Limit.refusal? Limit.charge
  simp only [hfamily, hcircumstance, hinfinite, hreason, hchange, hprolongs, hactivation, hextends,
    hsets, hfree, hblock, hroom, hne.symm]
  cases p.family.isFreeLimit l <;> simp [Limit.infinite]

/-- What the limit says is what a preview shows. -/
theorem availability_toFreeTier (hf : .limit ∈ p.family.facets)
    (hl : p.current.settings.limit = some l)
    (hrank : Status.detached.rank < (l.judge (p.transition a)).rank) :
    (p.arrange a).availability = l.judge (p.transition a) := by
  have hobjections := (p.objections_eq_nil_iff a).mpr (guarded_toFreeTier ha hfree)
  rw [availability_arrange, ha.seed]
  refine Status.narrowAll_eq_of_above
    (judge_mem_verdicts hf (Settings.get?_limit_iff.mpr hl)) hrank fun s hs => ?_
  unfold verdicts at hs
  rw [hobjections, normalise_extraConditions, ha.conditionless, List.map_nil, List.append_nil,
    List.nil_append] at hs
  obtain ⟨f, -, hj⟩ := List.mem_filterMap.mp hs
  obtain ⟨x, hx, rfl⟩ := Option.map_eq_some_iff.mp hj
  by_cases hlimit : f = .limit
  · subst hlimit
    rw [Settings.get?_limit_iff.mpr hl, Option.some.injEq] at hx
    exact Or.inl (hx ▸ rfl)
  · right
    have hdetached := judge_eq_detached_of_undesired (a := a) (by rw [ha.desired]) hx hlimit
    exact lt_of_eq_of_lt (congrArg Status.rank hdetached) hrank

end FreeTier

/-- **Moving to a free tier without a payment.**  A reachable plan, in whatever state, is asked to
change to a free tier of its catalog that has room and is not the one it has, and nothing else is
asked; no trial has to come first.  From a paid tier this is carried out: the plan has the free
tier and is infinite.  From another free tier it is refused and the plan stays as it is, because
what leaves a free tier must not become infinite. -/
theorem Reachable.apply_toFreeTier {m : Family} (h : p.Reachable m) (hf : .limit ∈ m.facets)
    (hblock : m.limitRules.blockUntilTrialStarted = false) (hfree : m.isFreeLimit target = true)
    (hother : p.current.settings.limit ≠ some target) (ha : a.OnlyChangesTo target)
    (hroom : a.circumstance.occupancy ≤ target.tier) :
    (p.isLimitFree = false →
        (p.apply a).2 = .applied false ∧
          (p.apply a).1.current.settings.limit = some target ∧
          (p.apply a).1.activeUntil = .infinite) ∧
      (p.isLimitFree = true →
        p.apply a = (p, .rejected Status.Code.limitUnsupportedReplacement
          "limit can not be infinite")) := by
  obtain ⟨rfl, hcovers⟩ := h.spec
  obtain ⟨l, hl⟩ := hcovers.exists_limit hf
  have hne : target ≠ l := fun he => hother (he ▸ hl)
  have hforce : a.method ≠ .force := by
    rw [ha.unpaid]
    decide
  have hleft : p.isLimitFree = p.family.isFreeLimit l := by
    unfold isLimitFree
    rw [hl]
    rfl
  have hjudge := judge_toFreeTier ha hfree hf hne hroom hblock
  have hshown := availability_toFreeTier ha hfree hf hl
  rw [hjudge] at hshown
  rw [hleft]
  constructor
  · intro hpaid
    rw [if_neg (by rw [hpaid]; decide)] at hshown
    have hallows : p.Allows a := by
      unfold Allows
      rw [hshown (by decide)]
      exact ⟨rfl, fun hreason => absurd hreason (by decide)⟩
    rw [apply_of_allows hforce hallows]
    refine ⟨rfl, limit_altered_of_desired hf (by rw [ha.desired]), ?_⟩
    have hinfinite := isInfinite_proposal (p := p) (r := p.normalise a.request)
      (by rw [normalise_toFreeTier ha hfree]; rfl) a.circumstance (p.occasion a.method a.time)
    exact of_decide_eq_true hinfinite
  · intro hfreely
    rw [if_pos hfreely] at hshown
    rw [apply_of_unavailable hforce (by rw [hshown (by decide)]; rfl), hshown (by decide)]
    rfl

end Plan

namespace Seats

/-- The wish for a tier, after every plan here has expired and without a payment. -/
def toTier (tier : UInt32) : Alteration where
  method := .detached
  request := {
    availability := .detached
    actions := .ofList [.change]
    desired := { limit := some ⟨tier⟩ } }
  circumstance := { occupancy := 5 }
  time := 3000

theorem onlyChangesTo_toTier (tier : UInt32) : (toTier tier).OnlyChangesTo ⟨tier⟩ :=
  ⟨rfl, rfl, rfl, rfl, rfl, rfl, rfl, rfl⟩

/-- An expired plan of thirty seats goes to the ten that are free. -/
theorem apply_toTen :
    (planAt 30).Reachable family ∧ Facet.limit ∈ family.facets ∧
      family.limitRules.blockUntilTrialStarted = false ∧ family.isFreeLimit ⟨10⟩ = true ∧
      (planAt 30).current.settings.limit ≠ some ⟨10⟩ ∧ (toTier 10).OnlyChangesTo ⟨10⟩ ∧
      (toTier 10).circumstance.occupancy ≤ 10 ∧ (planAt 30).isActive 3000 = false ∧
      ((planAt 30).apply (toTier 10)).2 = .applied false ∧
      ((planAt 30).apply (toTier 10)).1.current.settings.limit = some ⟨10⟩ ∧
      ((planAt 30).apply (toTier 10)).1.activeUntil = .infinite := by
  have hreach : (planAt 30).Reachable family := Plan.Loaded.reachable (Or.inl ⟨storedAt 30, rfl⟩)
  have hfree : family.isFreeLimit ⟨10⟩ = true := by decide
  have hother : (planAt 30).current.settings.limit ≠ some ⟨10⟩ := by decide
  have hroom : (toTier 10).circumstance.occupancy ≤ 10 := by decide
  obtain ⟨hpaid, -⟩ :=
    hreach.apply_toFreeTier (by decide) rfl hfree hother (onlyChangesTo_toTier 10) hroom
  exact ⟨hreach, by decide, rfl, hfree, hother, onlyChangesTo_toTier 10, hroom, by decide,
    hpaid (by decide)⟩

/-- The family with a second tier that is free. -/
def familyTwiceFree : Family :=
  { family with
    catalog := some { catalog with free := [10, 20], free_mem := by simp [catalog] }
    facets_ne_nil := by decide
    facets_nodup := by decide
    catalog_of_limit := fun _ => rfl }

/-- **Between free tiers there is no way**: twenty free seats in place of ten are refused, although
nothing stands against them but that the ten were free. -/
theorem refused_betweenFreeTiers :
    (Plan.ofSnapshot familyTwiceFree 1001 (planAt 10).current).Reachable familyTwiceFree ∧
      Facet.limit ∈ familyTwiceFree.facets ∧
      familyTwiceFree.limitRules.blockUntilTrialStarted = false ∧
      familyTwiceFree.isFreeLimit ⟨20⟩ = true ∧ (planAt 10).current.settings.limit = some ⟨10⟩ ∧
      (toTier 20).OnlyChangesTo ⟨20⟩ ∧ (toTier 20).circumstance.occupancy ≤ 20 ∧
      ((Plan.ofSnapshot familyTwiceFree 1001 (planAt 10).current).apply (toTier 20)).2 =
        .rejected Status.Code.limitUnsupportedReplacement "limit can not be infinite" :=
  ⟨Plan.Loaded.reachable (Or.inl ⟨storedAt 10, rfl⟩), by decide, rfl, by decide, rfl,
    onlyChangesTo_toTier 20, by decide, by decide⟩

end Seats
end Subscription
