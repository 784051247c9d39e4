import Subscription.Proofs.LimitSafety
import Subscription.Proofs.Merging
import Subscription.Proofs.Tiers

/-! # Plain prolongations over the limit

A family may let a prolongation go on while its limit is exceeded.  Where nothing is desired,
the limit is exchanged before it is judged: for more seats than it has room for, the least
fitting tier is proposed, and the exchange is refused for want of a change.  Only at the top of
the catalog is the limit proposed again (`Plan.limit_altered_iff`), and there the occupied seats
have no part in the judgment (`Setting.judge_under`).  So what is carried out for as many seats
as fit is carried out for more exactly at the top of the catalog
(`Plan.Reachable.prolongs_under_iff`).
-/
namespace Subscription

/-- The alteration under other circumstances. -/
def Alteration.under (a : Alteration) (c : Circumstance) : Alteration :=
  { a with circumstance := c }

/-- The alteration is funded, prolongs the plan, and does and desires nothing else. -/
structure Alteration.PlainlyProlongs (a : Alteration) : Prop where
  funded : a.method.hasReason = true
  prolongs : a.request.isProlongation = true
  changeless : a.request.isChange = false
  activationless : a.request.isActivation = false
  undesired : a.request.desired = {}

/-- A limit is proposed again when it has room, or when it is the greatest tier. -/
theorem Limit.replacement_eq_self_iff {l : Limit} {t : Transition} {c : Catalog}
    (hc : t.family.catalog = some c) :
    l.replacement t = l ↔ t.circumstance.occupancy ≤ l.tier ∨ c.max = l.tier := by
  unfold replacement
  rw [hc]
  by_cases hfits : t.circumstance.occupancy ≤ l.tier
  · rw [if_pos hfits]
    exact iff_of_true rfl (Or.inl hfits)
  · rw [if_neg hfits, or_iff_right hfits,
      ← c.smallestFitting_eq_iff (UInt32.not_le.mp hfits)]
    constructor
    · exact fun h => congrArg Limit.tier h
    · exact fun h => congrArg Limit.mk h

/-- Of an alteration with a reason, only the limit's replacement looks at the occupied seats. -/
theorem Settings.replacement_under {s : Settings} {t : Transition} (c : Circumstance)
    (hreason : t.occasion.hasReason = true)
    (hlimit : ∀ l, s.limit = some l →
      l.replacement { t with circumstance := c } = l.replacement t) :
    s.replacement { t with circumstance := c } = s.replacement t := by
  have hpolicy (q : ExtendPolicy) :
      q.replacement { t with circumstance := c } = q.replacement t := by
    unfold ExtendPolicy.replacement
    rw [if_pos hreason, if_pos hreason]
  have hlimits : s.limit.map (·.replacement { t with circumstance := c }) =
      s.limit.map (·.replacement t) := Option.map_congr hlimit
  unfold replacement
  simp only [hlimits, hpolicy]
  rfl

/-- Where the limit may be exceeded and nothing is changed, the occupied seats have no part in a
judgment. -/
theorem Setting.judge_under {t : Transition} (c : Circumstance)
    (hrule : t.family.limitRules.exceedAllowsPlainProlongation = true)
    (hprolongs : t.request.isProlongation = true) (hchange : t.request.isChange = false)
    (hactivation : t.request.isActivation = false) (x : Setting) :
    x.judge { t with circumstance := c } = x.judge t := by
  cases x with
  | limit l =>
    have hrefusal (target : Limit) :
        l.refusal? target { t with circumstance := c } = l.refusal? target t := by
      unfold Limit.refusal?
      simp [hrule, hprolongs, hchange, hactivation]
    show l.judge _ = l.judge t
    unfold Limit.judge
    simp only [hrefusal]
    rfl
  | extendPolicy p => rfl
  | restrictPolicy p => rfl
  | demo w => rfl

namespace Plan
variable {p : Plan} {a : Alteration} {l : Limit} {catalog : Catalog}

/-- Where no limit is desired, it stays when it has room or is the greatest tier. -/
theorem limit_altered_of_undesired_iff (hf : .limit ∈ p.family.facets)
    (hc : p.family.catalog = some catalog) (hl : p.current.settings.limit = some l)
    (hd : a.request.desired.limit = none) :
    (p.altered a).current.settings.limit = some l ↔
      a.circumstance.occupancy ≤ l.tier ∨ catalog.max = l.tier := by
  have hproposed : (p.altered a).current.settings.get? .limit =
      some (.limit (l.replacement (p.replacing a))) :=
    p.get?_altered_of_undesired hf (Option.map_eq_none_iff.mpr hd) (Settings.get?_limit_iff.mpr hl)
  rw [Settings.get?_limit_iff.mp hproposed, Option.some.injEq]
  exact Limit.replacement_eq_self_iff hc

/-- It is so where nothing is desired at all. -/
theorem limit_altered_iff (hf : .limit ∈ p.family.facets) (hc : p.family.catalog = some catalog)
    (hl : p.current.settings.limit = some l) (hd : a.request.desired = {}) :
    (p.altered a).current.settings.limit = some l ↔
      a.circumstance.occupancy ≤ l.tier ∨ catalog.max = l.tier :=
  limit_altered_of_undesired_iff hf hc hl (by rw [hd])

/-- What an alteration with a reason would make of the plan is the same wherever the limit
stays. -/
theorem altered_under (c : Circumstance) (hc : p.family.catalog = some catalog)
    (hl : p.current.settings.limit = some l) (hreason : a.method.hasReason = true)
    (hkept : a.circumstance.occupancy ≤ l.tier ∨ catalog.max = l.tier)
    (hkept' : c.occupancy ≤ l.tier ∨ catalog.max = l.tier) :
    p.altered (a.under c) = p.altered a := by
  have haltered (b : Alteration) : p.altered b =
      { p with current := { (p.replacing b).prospective with
          settings := (p.replacing b).prospective.settings.orElse
            ((p.current.settings.replacement (p.replacing b)).within p.family.facets) } } :=
    congrArg (fun current => { p with current := current }) (p.proposal_eq ..)
  have hreplaced : p.current.settings.replacement { p.replacing a with circumstance := c } =
      p.current.settings.replacement (p.replacing a) := by
    refine Settings.replacement_under c hreason fun l' hl' => ?_
    obtain rfl : l = l' := Option.some.inj (hl.symm.trans hl')
    rw [(Limit.replacement_eq_self_iff (t := p.replacing a) hc).mpr hkept]
    exact (Limit.replacement_eq_self_iff hc).mpr hkept'
  have hunder : p.replacing (a.under c) = { p.replacing a with circumstance := c } := rfl
  rw [haltered, haltered, hunder, hreplaced]

/-- A plain prolongation is answered alike wherever the limit stays, if it may be exceeded. -/
theorem answers_under (c : Circumstance) (ha : a.PlainlyProlongs)
    (hrule : p.family.limitRules.exceedAllowsPlainProlongation = true)
    (haltered : p.altered (a.under c) = p.altered a) : p.answers (a.under c) = p.answers a := by
  have hrequest : (p.transition a).request = a.request := p.normalise_of_undesired (by rw [ha.undesired])
  have htransition : p.transition (a.under c) = { p.transition a with circumstance := c } := by
    unfold transition
    rw [haltered]
    rfl
  have hjudge : Setting.judge (p.transition (a.under c)) = Setting.judge (p.transition a) := by
    rw [htransition]
    refine funext (Setting.judge_under c hrule ?_ ?_ ?_)
    · rw [hrequest, ha.prolongs]
    · rw [hrequest, ha.changeless]
    · rw [hrequest, ha.activationless]
  unfold answers judgments
  rw [hjudge]
  rfl

/-- Where the limit stays, a plain prolongation is allowed for any number of seats if it is for
one, once the limit may be exceeded. -/
theorem Allows.under (h : p.Allows a) (c : Circumstance) (ha : a.PlainlyProlongs)
    (hrule : p.family.limitRules.exceedAllowsPlainProlongation = true)
    (haltered : p.altered (a.under c) = p.altered a) : p.Allows (a.under c) := by
  have hanswers := answers_under c ha hrule haltered
  exact (allows_iff_of_answers hanswers rfl rfl).mpr h

/-- **Plain prolongations over the limit.**  Let the family allow a plain prolongation without
room, and let one that is funded be carried out while the seats fit, whatever its seed, its
guards and its time.  Then it is carried out for any other number of seats that fit, and for one
that does not exactly if the plan is at the top of its family's catalog.  Wherever it is carried
out, the limit stays. -/
theorem Reachable.prolongs_under_iff {m : Family} (hp : p.Reachable m)
    (hrule : m.limitRules.exceedAllowsPlainProlongation = true) (ha : a.PlainlyProlongs)
    (hl : p.current.settings.limit = some l) (hfits : a.circumstance.occupancy ≤ l.tier)
    (hs : (p.apply a).2.isSuccess = true) :
    ∃ catalog, m.catalog = some catalog ∧ ∀ c : Circumstance,
      ((p.apply (a.under c)).2.isSuccess = true ↔
        c.occupancy ≤ l.tier ∨ catalog.max = l.tier) ∧
      ((p.apply (a.under c)).2.isSuccess = true →
        (p.apply (a.under c)).1.current.settings.limit = some l) := by
  obtain ⟨rfl, hcovers⟩ := hp.spec
  have hf : Facet.limit ∈ p.family.facets := hcovers.mem (Settings.get?_limit_iff.mpr hl)
  obtain ⟨catalog, hc⟩ := Option.isSome_iff_exists.mp (p.family.catalog_of_limit hf)
  have hforce : a.method ≠ .force := by
    intro h
    have hfunded := ha.funded
    rw [h] at hfunded
    exact absurd hfunded (by decide)
  have hallows := (p.isSuccess_iff_allows a hforce).mp hs
  refine ⟨catalog, hc, fun c => ?_⟩
  -- Without a declared change, what is allowed leaves the limit where it is.
  have hkeeps (h : p.Allows (a.under c)) :
      (p.altered (a.under c)).current.settings.limit = some l := by
    obtain ⟨l', hl'⟩ := (p.covers_proposal _ _ _ hcovers).exists_limit hf
    have hmove := limitMove_of_allows h hf hl hl'
    have hne : ¬ l' ≠ l := fun hne =>
      Bool.false_ne_true (ha.changeless.symm.trans (hmove.change_of_ne hne))
    rw [← Decidable.not_not.mp hne]
    exact hl'
  have hiff := limit_altered_iff (a := a.under c) hf hc hl ha.undesired
  constructor
  · rw [p.isSuccess_iff_allows (a.under c) hforce]
    constructor
    · exact fun h => hiff.mp (hkeeps h)
    · exact fun hkept => hallows.under c ha hrule
        (altered_under c hc hl ha.funded (Or.inl hfits) hkept)
  · intro h
    rw [p.apply_fst_of_isSuccess (a.under c) h]
    exact hkeeps ((p.isSuccess_iff_allows (a.under c) hforce).mp h)

end Plan

namespace Seats

theorem plainlyProlongs_month : month.PlainlyProlongs := ⟨rfl, rfl, rfl, rfl, rfl⟩

/-- At the top of the catalog a paid month goes on for sixty seats as it does for twelve. -/
theorem prolongs_monthAtTop :
    (planAt 50).Reachable family ∧ family.limitRules.exceedAllowsPlainProlongation = true ∧
      month.PlainlyProlongs ∧ (planAt 50).current.settings.limit = some ⟨50⟩ ∧
      month.circumstance.occupancy ≤ 50 ∧ ((planAt 50).apply month).2.isSuccess = true ∧
      ((planAt 50).apply (month.under { occupancy := 60 })).2.isSuccess = true ∧
      ((planAt 50).apply (month.under { occupancy := 60 })).1.current.settings.limit =
        some ⟨50⟩ := by
  have hreach : (planAt 50).Reachable family := Plan.Loaded.reachable (Or.inl ⟨storedAt 50, rfl⟩)
  have hs : ((planAt 50).apply month).2.isSuccess = true := by decide
  obtain ⟨c, hc, hall⟩ := hreach.prolongs_under_iff (l := ⟨50⟩) rfl plainlyProlongs_month rfl
    (by decide) hs
  obtain ⟨hiff, hlimit⟩ := hall { occupancy := 60 }
  cases hc
  have hover := hiff.mpr (Or.inr rfl)
  exact ⟨hreach, rfl, plainlyProlongs_month, rfl, by decide, hs, hover, hlimit hover⟩

/-- **A plain prolongation may stop where the limit is exceeded**, although the family allows it
to go on: at twenty seats a paid month is carried out for twelve and refused for twenty-five, for
want of a change that was not asked for. -/
theorem refused_monthOverLimit :
    plan.Reachable family ∧ family.limitRules.exceedAllowsPlainProlongation = true ∧
      month.PlainlyProlongs ∧ month.method = .payment ∧
      month.request.prolongation = .extend 500 ∧ plan.limit = some 20 ∧
      (plan.apply month).2 = .applied false ∧
      (plan.apply (month.under { occupancy := 25 })).2 =
        .rejected Status.Code.limitChangeWithoutChangeAction "change action required" :=
  ⟨reachable_run [], rfl, plainlyProlongs_month, rfl, rfl, rfl, by decide, by decide⟩

end Seats
end Subscription
