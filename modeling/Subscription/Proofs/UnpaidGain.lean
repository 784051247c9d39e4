import Subscription.Proofs.LimitSafety

/-! # What can be had without a payment

An alteration that nothing funds is carried out only if some verdict says that it costs
nothing (`Status.Costless`).  No objection says so, and of the settings only the limit
does (`Plan.costless_verdict`); so unless the caller says it, the limit's charge waives
the payment (`Plan.Allows.costless_charge`).  Outside a trial it does that only for a
lower limit without a prolongation and for a free tier (`Limit.charge_cases`), and
neither moves the expiry to a later date (`Plan.Reachable.unpaid_of_detached`).
-/
namespace Subscription

namespace Status

/-- The status says that nothing has to be paid: a trial covers it, or it is free. -/
def Costless (s : Status) : Prop := s.availability = .whileTrial ∨ s.availability = .free

theorem costless_of_permits {s : Status} (h : s.Permits false)
    (hrank : reasonRequired.rank ≤ s.rank) : s.Costless := by
  obtain ⟨havail, hreason⟩ := h
  revert havail hreason hrank
  unfold Costless isAvailable requiresReason rank
  cases s.availability <;> decide

theorem not_costless_of_rank_le {s : Status} (h : s.rank ≤ reasonRequired.rank) :
    ¬ s.Costless := by
  revert h
  unfold Costless rank
  cases s.availability <;> decide

theorem isAvailable_of_costless {s : Status} (h : s.Costless) : s.isAvailable = true := by
  unfold isAvailable
  rcases h with h | h <;> rw [h] <;> rfl

end Status

namespace Limit
variable (l target : Limit) (t : Transition)

/-- What a move has to be for it to cost less than a payment: a lower limit, or any
during a trial, without a prolongation; a free tier with no date asked for; one that a
trial covers. -/
theorem charge_cases :
    l.charge target t = .reasonRequired ∨
      (t.request.isProlongation = false ∧ (target.tier < l.tier ∨ t.occasion.isTrialActive = true)) ∨
      (t.family.isFreeLimit target = true ∧ t.request.isExtension = false ∧
        t.request.isProlongationSet = false) ∨
      t.occasion.isTrialActive = true ∨ t.occasion.isTrialAvailable = true := by
  unfold charge
  dsimp only
  split
  · rename_i h
    obtain ⟨hp, hlt | ⟨-, htrial⟩⟩ := h
    · exact Or.inr (Or.inl ⟨Bool.eq_false_iff.mpr hp, Or.inl hlt⟩)
    · exact Or.inr (Or.inl ⟨Bool.eq_false_iff.mpr hp, Or.inr htrial⟩)
  · split
    · rename_i h
      obtain ⟨hfree, hext, hset⟩ := h
      exact Or.inr (Or.inr (Or.inl ⟨hfree, Bool.eq_false_iff.mpr hext, Bool.eq_false_iff.mpr hset⟩))
    · split
      · rename_i h
        rcases h with ⟨-, hact⟩ | ⟨-, hav⟩
        · exact Or.inr (Or.inr (Or.inr (Or.inl hact)))
        · exact Or.inr (Or.inr (Or.inr (Or.inr hav)))
      · exact Or.inl rfl

/-- Without a trial, only a lower limit and a free tier are had for nothing. -/
theorem lower_or_free_of_costless (h : (l.charge target t).Costless)
    (hnone : t.occasion.trialState = .none) :
    (t.request.isProlongation = false ∧ target.tier < l.tier) ∨
      (t.family.isFreeLimit target = true ∧ t.request.isExtension = false ∧
        t.request.isProlongationSet = false) := by
  have hactive : t.occasion.isTrialActive = false := by
    unfold Occasion.isTrialActive
    rw [hnone]
    rfl
  have havailable : t.occasion.isTrialAvailable = false := by
    unfold Occasion.isTrialAvailable
    rw [hnone]
    rfl
  rcases l.charge_cases target t with hreason | ⟨hprol, hlt | ht⟩ | hfree | ht | ht
  · rw [hreason] at h
    exact absurd h (Status.not_costless_of_rank_le (Nat.le_refl _))
  · exact Or.inl ⟨hprol, hlt⟩
  · rw [hactive] at ht
    cases ht
  · exact Or.inr hfree
  · rw [hactive] at ht
    cases ht
  · rw [havailable] at ht
    cases ht

theorem rank_le_charge : Status.reasonRequired.rank ≤ (l.charge target t).rank := by
  unfold charge
  dsimp only
  repeat' split
  all_goals decide

end Limit

namespace Plan
variable {p : Plan} {a : Alteration}

theorem dates_of_not_prolongation {r : Request} (o : Occasion) (h : r.isProlongation = false) :
    p.dates r o = (p.activeUntil, p.freeActiveUntil) := by
  unfold dates
  rw [if_neg (by simp [h])]

/-- A prolongation that is neither by an amount nor to a date leaves the dates where
they are, or is without end. -/
theorem dates_of_undated {r : Request} (o : Occasion) (hext : r.isExtension = false)
    (hset : r.isProlongationSet = false) :
    p.dates r o = (p.activeUntil, p.freeActiveUntil) ∨ p.dates r o = (.infinite, .infinite) := by
  by_cases hp : r.isProlongation = true
  · unfold Request.isExtension at hext
    unfold Request.isProlongationSet at hset
    rw [hp] at hext hset
    unfold dates
    rw [if_pos hp]
    cases hr : r.prolongation with
    | extend delta =>
      rw [hr] at hext
      cases hext
    | set expiry =>
      rw [hr] at hset
      cases hset
    | infinite => exact Or.inr rfl
    | none => exact Or.inl rfl
  · exact Or.inl (dates_of_not_prolongation o (Bool.eq_false_iff.mpr hp))

/-- **Who can say that an alteration costs nothing**: the limit, or the caller. -/
theorem costless_verdict {r : Request} {c : Circumstance} {o : Occasion} {s : Status}
    (h : s ∈ p.verdicts r c o) (hs : s.Costless) :
    (∃ l, p.current.settings.limit = some l ∧
        s = l.judge ⟨p.family, c, o, r, p.proposal r c o⟩) ∨
      ∃ e ∈ r.extraConditions, s = e p := by
  have hav := Status.isAvailable_of_costless hs
  rcases verdict_cases h with h | ⟨x, hx, rfl⟩ | ⟨e, he, rfl⟩
  · rw [(refuses_of_mem_objections h).unavailable] at hav
    cases hav
  · rcases Setting.judge_cases ⟨p.family, c, o, r, p.proposal r c o⟩ x with
      ⟨l, rfl⟩ | hdetached | hrefused
    · exact Or.inl ⟨l, Settings.get?_limit_iff.mp hx, rfl⟩
    · rw [hdetached] at hs
      exact absurd hs (Status.not_costless_of_rank_le (Nat.zero_le _))
    · rw [hrefused.unavailable] at hav
      cases hav
  · exact Or.inr ⟨e, he, rfl⟩

section Allows
variable (h : p.Allows a) (hf : .limit ∈ p.family.facets) {l l' : Limit}
  (hl : p.current.settings.limit = some l)
  (hl' : (p.altered a).current.settings.limit = some l')
include h hf hl hl'

/-- The limit judges an allowed alteration by what it costs. -/
theorem Allows.judge_limit : l.judge (p.transition a) = l.charge l' (p.transition a) := by
  rw [l.judge_eq l' (p.transition a) hl', h.limit_refusal hf hl hl', Option.getD_none]

/-- What has no funds has to cost nothing: unless the seed or a condition of the caller
says so, the charge for the limit does. -/
theorem Allows.costless_charge (hm : a.method.hasReason = false)
    (hseed : a.request.availability.rank ≤ Status.reasonRequired.rank)
    (hconds : ∀ e ∈ a.request.extraConditions, ¬ (e p).Costless) :
    (l.charge l' (p.transition a)).Costless := by
  have hjudge := h.judge_limit hf hl hl'
  have hmem := judge_mem_verdicts (a := a) hf (Settings.get?_limit_iff.mpr hl)
  have hallows := h
  unfold Allows at hallows
  rw [hm, availability_arrange] at hallows
  -- The charge alone lifts the rank to that of a demand for a reason.
  have hrank : Status.reasonRequired.rank ≤ (l.judge (p.transition a)).rank :=
    hjudge ▸ l.rank_le_charge l' (p.transition a)
  have hcost := Status.costless_of_permits hallows
    (Nat.le_trans hrank (Status.rank_le_narrowAll_of_mem a.request.availability hmem))
  rcases Status.narrowAll_eq_or_mem a.request.availability (p.verdicts (p.normalise a.request)
    a.circumstance (p.occasion a.method a.time)) with he | hverdict
  · rw [he] at hcost
    exact absurd hcost (Status.not_costless_of_rank_le hseed)
  · rcases costless_verdict hverdict hcost with ⟨l₁, hl₁, hj⟩ | ⟨e, he, hj⟩
    · obtain rfl : l₁ = l := Option.some.inj (hl₁.symm.trans hl)
      rw [hj] at hcost
      exact hjudge ▸ hcost
    · rw [normalise_extraConditions] at he
      rw [hj] at hcost
      exact absurd hcost (hconds e he)

end Allows

/-- **Outside a trial nothing is gained without a payment.**  A detached alteration of
a reachable plan, whose seed and conditions do not say by themselves that it costs
nothing, leaves the limit where it is, lowers it or makes it a free tier; and it leaves
both dates where they are, or makes the plan infinite at a free tier. -/
theorem Reachable.unpaid_of_detached {m : Family} {p : Plan} (h : p.Reachable m)
    (hf : .limit ∈ m.facets) {a : Alteration} (hm : a.method = .detached)
    (htrial : p.trialState a.time = .none)
    (hseed : a.request.availability.rank ≤ Status.reasonRequired.rank)
    (hconds : ∀ e ∈ a.request.extraConditions, ¬ (e p).Costless)
    (hs : (p.apply a).2.isSuccess = true) :
    ∃ l l', p.current.settings.limit = some l ∧
      (p.apply a).1.current.settings.limit = some l' ∧
      (l'.tier ≤ l.tier ∨ m.isFreeLimit l' = true) ∧
      ((p.apply a).1.activeUntil = p.activeUntil ∧
          (p.apply a).1.freeActiveUntil = p.freeActiveUntil ∨
        (p.apply a).1.activeUntil = .infinite ∧ (p.apply a).1.freeActiveUntil = .infinite ∧
          m.isFreeLimit l' = true) := by
  obtain ⟨rfl, hcovers⟩ := h.spec
  have hallows := (p.isSuccess_iff_allows a (by rw [hm]; decide)).mp hs
  obtain ⟨l, hl⟩ := hcovers.exists_limit hf
  obtain ⟨l', hl'⟩ := (p.covers_proposal (p.normalise a.request) a.circumstance
    (p.occasion a.method a.time) hcovers).exists_limit hf
  have hcost := hallows.costless_charge hf hl hl' (by rw [hm]; rfl) hseed hconds
  have hdates : p.dates (p.normalise a.request) (p.occasion a.method a.time) =
      ((p.altered a).activeUntil, (p.altered a).freeActiveUntil) := rfl
  rw [p.apply_fst_of_isSuccess a hs]
  refine ⟨l, l', hl, hl', ?_⟩
  rcases l.lower_or_free_of_costless l' _ hcost htrial with ⟨hprol, hlt⟩ | ⟨hfree, hext, hset⟩
  · have hkept := hdates.symm.trans (dates_of_not_prolongation _ hprol)
    exact ⟨Or.inl (UInt32.le_of_lt hlt), Or.inl (Prod.mk.inj hkept)⟩
  · refine ⟨Or.inr hfree, ?_⟩
    rcases dates_of_undated (p.occasion a.method a.time) hext hset with hd | hd
    · exact Or.inl (Prod.mk.inj (hdates.symm.trans hd))
    · obtain ⟨hexpiry, hfreeExpiry⟩ := Prod.mk.inj (hdates.symm.trans hd)
      exact Or.inr ⟨hexpiry, hfreeExpiry, hfree⟩

end Plan

namespace Seats

/-- The least tier, for eight seats and for nothing; the caller asks for a reason while
the plan has more seats than that. -/
def downToTen : Alteration where
  method := .detached
  request := {
    availability := .reasonRequired
    actions := .ofList [.change]
    desired := { limit := some ⟨10⟩ }
    extraConditions := [fun p => if p.limit = some 10 then .detached else .reasonRequired] }
  circumstance := { occupancy := 8 }
  time := 1000

/-- A paid month ends the trial.  The plan may then go down to the free tier without a
payment, and it is infinite there. -/
theorem unpaid_downToTen :
    (plan.run [month]).Reachable family ∧ Facet.limit ∈ family.facets ∧
      downToTen.method = .detached ∧ (plan.run [month]).trialState downToTen.time = .none ∧
      downToTen.request.availability.rank ≤ Status.reasonRequired.rank ∧
      (∀ e ∈ downToTen.request.extraConditions, ¬ (e (plan.run [month])).Costless) ∧
      ((plan.run [month]).apply downToTen).2.isSuccess = true ∧
      ∃ l l', (plan.run [month]).current.settings.limit = some l ∧
        ((plan.run [month]).apply downToTen).1.current.settings.limit = some l' ∧
        (l'.tier ≤ l.tier ∨ family.isFreeLimit l' = true) ∧
        (((plan.run [month]).apply downToTen).1.activeUntil = (plan.run [month]).activeUntil ∧
            ((plan.run [month]).apply downToTen).1.freeActiveUntil =
              (plan.run [month]).freeActiveUntil ∨
          ((plan.run [month]).apply downToTen).1.activeUntil = .infinite ∧
            ((plan.run [month]).apply downToTen).1.freeActiveUntil = .infinite ∧
            family.isFreeLimit l' = true) := by
  have hreach : (plan.run [month]).Reachable family :=
    ⟨plan, [month], Or.inl ⟨stored, ofStored_stored⟩, rfl⟩
  have hlimit : Facet.limit ∈ family.facets := by decide
  have htrial : (plan.run [month]).trialState downToTen.time = .none := by decide
  have hseed : downToTen.request.availability.rank ≤ Status.reasonRequired.rank := by decide
  have hconds : ∀ e ∈ downToTen.request.extraConditions, ¬ (e (plan.run [month])).Costless := by
    intro e he
    rw [List.mem_singleton.mp he]
    exact Status.not_costless_of_rank_le (by decide)
  have hs : ((plan.run [month]).apply downToTen).2.isSuccess = true := by decide
  exact ⟨hreach, hlimit, rfl, htrial, hseed, hconds, hs,
    hreach.unpaid_of_detached hlimit rfl htrial hseed hconds hs⟩

end Seats
end Subscription
