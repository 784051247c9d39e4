import Subscription.Proofs.Judging

/-! # What an alteration may do to the limit

A family with a limit has, for every carried-out alteration that is not forced,
the guarantees of `LimitMove`: the limit changes only on request, has room for
the occupied seats, is not lowered by a payment, and costs nothing if the plan
has run out; and neither a free tier nor an unused trial is passed by.  They hold
whatever the seed, the caller's conditions, and the history of the plan
(`Plan.Reachable.limitMove_of_isSuccess`).
-/
namespace Subscription

/-- What becomes of the limit `l` of a plan `p` whose alteration `a` is carried
out without force, leaving the limit at `l'` and the expiry at `expiry`. -/
structure LimitMove (p : Plan) (a : Alteration) (l l' : Limit) (expiry : Seconds) : Prop where
  /-- Only a declared change moves the limit. -/
  change_of_ne : l' ≠ l → a.request.isChange = true
  /-- A change that does not activate moves it indeed. -/
  ne_of_change : a.request.isChange = true → a.request.isActivation = false → l' ≠ l
  /-- There is room, unless the family lets a plain prolongation go on without. -/
  room : a.circumstance.occupancy ≤ l'.tier ∨
    (p.family.limitRules.exceedAllowsPlainProlongation = true ∧
      a.request.isProlongation = true ∧ a.request.isChange = false ∧
      a.request.isActivation = false ∧ l' = l)
  /-- A plan without end does not come from a free tier. -/
  paid_of_infinite : expiry = .infinite → p.family.isFreeLimit l = false
  /-- A plan that has run out, and is not activated, goes to a free tier. -/
  free_of_expired : p.activeUntil ≠ .infinite → ¬ a.time < p.activeUntil →
    a.request.isActivation = false → p.family.isFreeLimit l' = true
  /-- A payment or promo without activation does not lower the limit. -/
  le_of_reason : a.method.hasReason = true → a.request.isActivation = false → l.tier ≤ l'.tier
  /-- Where a trial comes first, only an activation passes while it is unused. -/
  activation_of_trial : p.family.limitRules.blockUntilTrialStarted = true →
    p.isTrialAvailable a.time = true → a.request.isActivation = true

namespace Plan
variable {p : Plan} {a : Alteration}

/-- The plan counts as active on a reason when that reason holds. -/
theorem isActiveOn_occasion (p : Plan) (method : Method) (time : Seconds) :
    (p.occasion method time).isActiveOn .infinite = p.current.isInfinite ∧
      (p.occasion method time).isActiveOn .notExpired = decide (time < p.activeUntil) := by
  unfold Occasion.isActiveOn Occasion.isActive occasion Occasion.ofReasons activeReasons
  cases p.current.isInfinite <;> cases p.isLimitFree <;>
    by_cases ht : time < p.activeUntil <;> simp [Choice.ofList, ht]

/-- A request that prolongs without end leads to a plan without end. -/
theorem isInfinite_proposal {r : Request} (h : r.isProlongationInfinite = true)
    (c : Circumstance) (o : Occasion) : (p.proposal r c o).isInfinite = true := by
  obtain ⟨hp, hi⟩ := Bool.and_eq_true_iff.mp h
  have hdates : p.dates r o = (.infinite, .infinite) := by
    unfold dates
    rw [if_pos hp, of_decide_eq_true hi]
  have hexpiry : (p.proposal r c o).activeUntil = (p.dates r o).1 := rfl
  unfold Snapshot.isInfinite
  rw [hexpiry, hdates]
  rfl

/-- The limit proposed when a limit is desired. -/
theorem limit_altered_of_desired (hf : .limit ∈ p.family.facets) {l : Limit}
    (hl : a.request.desired.limit = some l) :
    (p.altered a).current.settings.limit = some l :=
  Settings.get?_limit_iff.mp (p.get?_altered_of_desired hf (Settings.get?_limit_iff.mpr hl))

/-- A limit that stays where it is has not been asked to become free, so the
request is judged as it was made. -/
theorem normalise_eq_of_limit_kept (hf : .limit ∈ p.family.facets) {l : Limit}
    (ht : (p.altered a).current.settings.limit = some l)
    (hpaid : ¬ ((p.altered a).current.isInfinite = true ∧ p.family.isFreeLimit l = true)) :
    p.normalise a.request = a.request := by
  rcases p.normalise_cases a.request with h | ⟨⟨l', hl', hfree⟩, hinf⟩
  · exact h
  · rw [limit_altered_of_desired hf hl', Option.some.injEq] at ht
    exact absurd ⟨isInfinite_proposal hinf _ _, ht ▸ hfree⟩ hpaid

/-- The guarantees follow from no refusal of the limit being in the way. -/
theorem limitMove_of_allows (h : p.Allows a) (hf : .limit ∈ p.family.facets) {l l' : Limit}
    (hl : p.current.settings.limit = some l)
    (hl' : (p.altered a).current.settings.limit = some l') :
    LimitMove p a l l' (p.altered a).activeUntil := by
  -- One fact for each refusal that does not apply, in the order of the judgment.
  obtain ⟨hsame, hchange, hroom, hinf, htrial, hactive, hlower, hexceed⟩ :=
    (l.refusal?_eq_none_iff l' _).mp (h.limit_refusal hf hl hl')
  have hreq : (p.transition a).request = p.normalise a.request := rfl
  have hocc : (p.transition a).occasion = p.occasion a.method a.time := rfl
  simp only [hreq, isChange_normalise, isActivation_normalise] at hsame hchange hroom htrial
  simp only [hreq, isChange_normalise, isActivation_normalise] at hactive hlower hexceed
  rw [hocc] at hactive
  rw [(p.isActiveOn_occasion a.method a.time).1,
    (p.isActiveOn_occasion a.method a.time).2] at hactive
  have hne : l' ≠ l → a.request.isChange = true := by
    intro hne
    exact Decidable.not_not.mp fun hc => hchange ⟨fun he => hne he.symm, hc⟩
  constructor
  case change_of_ne => exact hne
  case ne_of_change =>
    rintro hc hact rfl
    exact hsame ⟨rfl, hc, by simp [hact]⟩
  case room =>
    by_cases hfit : a.circumstance.occupancy ≤ l'.tier
    · exact Or.inl hfit
    · obtain ⟨hrule, hprol, hact⟩ := Decidable.not_not.mp fun hn => hroom ⟨hfit, hn⟩
      have hc : a.request.isChange = false :=
        Bool.eq_false_iff.mpr fun hc => hexceed ⟨hrule, hc, hfit⟩
      have hkept : l' = l := Decidable.not_not.mp fun hn => by
        rw [hne hn] at hc
        cases hc
      subst hkept
      -- The prolongation is that of the request as made, not one that normalisation adds.
      rw [normalise_eq_of_limit_kept hf hl' hinf] at hprol
      exact Or.inr ⟨hrule, hprol, hc, Bool.eq_false_iff.mpr hact, rfl⟩
  case paid_of_infinite =>
    intro he
    exact Bool.eq_false_iff.mpr fun hfree => hinf ⟨decide_eq_true he, hfree⟩
  case free_of_expired =>
    intro hfin hexp hact
    refine Decidable.not_not.mp fun hn => hactive ⟨?_, ?_, by simp [hact], hn⟩
    · exact fun hi => hfin (of_decide_eq_true hi)
    · exact fun hi => hexp (of_decide_eq_true hi)
  case le_of_reason =>
    intro hr hact
    rcases UInt32.lt_or_le l'.tier l.tier with hlt | hle
    · exact absurd ⟨hlt, hr, by simp [hact]⟩ hlower
    · exact hle
  case activation_of_trial =>
    intro hrule hav
    exact Decidable.not_not.mp fun hact => htrial ⟨hrule, hav, hact⟩

/-- **Every carried-out alteration of a reachable plan keeps to the rules of the
limit**, unless it is forced: the plan had a limit, has one still, and the move
from the one to the other is as `LimitMove` says. -/
theorem Reachable.limitMove_of_isSuccess {m : Family} {p : Plan} (h : p.Reachable m)
    (hf : .limit ∈ m.facets) {a : Alteration} (hforce : a.method ≠ .force)
    (hs : (p.apply a).2.isSuccess = true) :
    p.family = m ∧ ∃ l l', p.current.settings.limit = some l ∧
      (p.apply a).1.current.settings.limit = some l' ∧
      LimitMove p a l l' (p.apply a).1.activeUntil := by
  obtain ⟨rfl, hcovers⟩ := h.spec
  have hallows := (p.isSuccess_iff_allows a hforce).mp hs
  obtain ⟨l, hl⟩ := hcovers.exists_limit hf
  obtain ⟨l', hl'⟩ := (p.covers_proposal _ _ _ hcovers).exists_limit hf
  rw [p.apply_fst_of_isSuccess a hs]
  exact ⟨rfl, l, l', hl, hl', limitMove_of_allows hallows hf hl hl'⟩

end Plan

namespace Seats

/-- A paid month for twelve seats. -/
def month : Alteration where
  method := .payment
  request := { availability := .detached, prolongation := .extend 500 }
  circumstance := { occupancy := 12 }
  time := 1000

/-- Ten seats more, by a promo that expects the plan as it is. -/
def tenMore : Alteration where
  method := .promo
  request := {
    availability := .detached
    actions := .ofList [.change]
    desired := { limit := some ⟨30⟩ }
    expectedPrior := { limit := some ⟨20⟩ }
    extraConditions := [fun p => if p.isActive 1000 then .detached else .notArranged] }
  circumstance := { occupancy := 25 }
  time := 1000

/-- After a paid month the promo is carried out, and moves the limit as it may. -/
theorem limitMove_tenMore :
    (plan.run [month]).Reachable family ∧ Facet.limit ∈ family.facets ∧
      tenMore.method ≠ .force ∧ ((plan.run [month]).apply tenMore).2.isSuccess = true ∧
      ∃ l l', (plan.run [month]).current.settings.limit = some l ∧
        ((plan.run [month]).apply tenMore).1.current.settings.limit = some l' ∧
        LimitMove (plan.run [month]) tenMore l l'
          ((plan.run [month]).apply tenMore).1.activeUntil := by
  have hreach : (plan.run [month]).Reachable family :=
    ⟨plan, [month], Or.inl ⟨stored, ofStored_stored⟩, rfl⟩
  have hlimit : Facet.limit ∈ family.facets := by decide
  have hforce : tenMore.method ≠ .force := by decide
  have hs : ((plan.run [month]).apply tenMore).2.isSuccess = true := by decide
  exact ⟨hreach, hlimit, hforce, hs, (hreach.limitMove_of_isSuccess hlimit hforce hs).2⟩

end Seats
end Subscription
