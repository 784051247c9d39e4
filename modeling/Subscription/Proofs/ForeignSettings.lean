import Subscription.Proofs.Fulfilment
import Subscription.Proofs.InitialSettings
import Subscription.Proofs.Intent
import Subscription.Proofs.Judging

/-! # Settings for facets that the family lacks

A request may desire settings for facets that the plan's family lacks.  They are not placed in the
state that is proposed, and no judgment sees them (`Plan.proposal_agreeWithin`,
`Plan.verdicts_agreeWithin`).  Normalisation does see one: a desired limit is looked up in the
catalog of the family whether or not the family has limits, and a free tier turns the request into
one to prolong without end.  So two requests that differ in such settings only are treated alike
exactly when the family has limits, or both of them ask for a plan without end, or neither does
(`Plan.takesAlike_iff`).
-/
namespace Subscription

/-- The requests differ at most in the settings that they desire for facets that the family
lacks. -/
structure Request.AgreeWithin (m : Family) (r s : Request) : Prop where
  rest : s = { r with desired := s.desired }
  desired : ∀ f ∈ m.facets, s.desired.get? f = r.desired.get? f

/-- The request asks for a plan without end, by a free tier or by its prolongation. -/
def Request.AsksWithoutEnd (m : Family) (r : Request) : Prop :=
  r.desired.limit.any m.isFreeLimit = true ∨ r.isProlongationInfinite = true

instance (m : Family) (r : Request) : Decidable (r.AsksWithoutEnd m) :=
  inferInstanceAs (Decidable (_ ∨ _))

namespace Request.AgreeWithin
variable {m : Family} {r s : Request} (h : r.AgreeWithin m s)
include h

theorem desired_within : s.desired.within m.facets = r.desired.within m.facets := by
  apply Settings.ext_get?
  intro f
  rw [Settings.get?_within, Settings.get?_within]
  split
  · rename_i hf
    exact h.desired f hf
  · rfl

theorem isProlongationInfinite : s.isProlongationInfinite = r.isProlongationInfinite := by
  rw [h.rest]
  rfl

/-- A family with limits sees the limit that either desires. -/
theorem asksWithoutEnd_iff (hlimit : .limit ∈ m.facets) :
    r.AsksWithoutEnd m ↔ s.AsksWithoutEnd m := by
  have heq : s.desired.limit = r.desired.limit := by
    have hget := h.desired .limit hlimit
    refine Option.ext fun l => ?_
    rw [← Settings.get?_limit_iff, hget, Settings.get?_limit_iff]
  simp only [Request.AsksWithoutEnd, heq, h.isProlongationInfinite]

end Request.AgreeWithin

/-- Every family admits some variant. -/
theorem Family.exists_admits (m : Family) : ∃ v, m.admits v = true := by
  cases hv : m.variants with
  | nil => exact ⟨0, by simp [admits, hv]⟩
  | cons v vs => exact ⟨v, by simp [admits, hv]⟩

namespace Plan
variable {m : Family} {p : Plan} {r s : Request}

/-! ## Normalisation -/

/-- A request for a plan without end is normalised to a prolongation without end. -/
theorem normalise_of_asksWithoutEnd (h : r.AsksWithoutEnd p.family) :
    p.normalise r = { r with prolongation := .infinite, actions := r.actions.insert .prolong } := by
  by_cases hfree : r.desired.limit.any p.family.isFreeLimit = true
  · exact p.normalise_of_free hfree
  · have hinfinite := h.resolve_left hfree
    simp only [Request.isProlongationInfinite, Request.isProlongation, Bool.and_eq_true,
      decide_eq_true_eq] at hinfinite
    obtain ⟨hprolongs, hrule⟩ := hinfinite
    -- Neither the action nor the rule is new to the request.
    have hactions : r.actions.insert .prolong = r.actions := by
      funext b
      rw [Choice.insert_apply]
      by_cases hb : b = .prolong
      · simp [hb, hprolongs]
      · simp [hb]
    rw [p.normalise_of_not_free hfree, hactions, ← hrule]

theorem isProlongationInfinite_normalise_iff :
    (p.normalise r).isProlongationInfinite = true ↔ r.AsksWithoutEnd p.family := by
  by_cases h : r.AsksWithoutEnd p.family
  · rw [p.normalise_of_asksWithoutEnd h]
    simp [h, Request.isProlongationInfinite, Request.isProlongation, Choice.insert_apply]
  · have hfree : ¬ r.desired.limit.any p.family.isFreeLimit = true := fun hf => h (Or.inl hf)
    rw [p.normalise_of_not_free hfree]
    exact (or_iff_right hfree).symm

/-- Requests that both ask for a plan without end, or neither, still agree when normalised. -/
theorem normalise_agreeWithin (h : r.AgreeWithin p.family s)
    (hend : r.AsksWithoutEnd p.family ↔ s.AsksWithoutEnd p.family) :
    (p.normalise r).AgreeWithin p.family (p.normalise s) := by
  have hdesired : ∀ f ∈ p.family.facets,
      (p.normalise s).desired.get? f = (p.normalise r).desired.get? f := by
    intro f hf
    rw [normalise_desired, normalise_desired]
    exact h.desired f hf
  refine ⟨?_, hdesired⟩
  rw [normalise_desired]
  by_cases hr : r.AsksWithoutEnd p.family
  · rw [p.normalise_of_asksWithoutEnd hr, p.normalise_of_asksWithoutEnd (hend.mp hr)]
    rw [h.rest]
  · have hs : ¬ s.AsksWithoutEnd p.family := fun hs => hr (hend.mpr hs)
    rw [p.normalise_of_not_free fun hfree => hr (Or.inl hfree),
      p.normalise_of_not_free fun hfree => hs (Or.inl hfree)]
    exact h.rest

/-! ## What is proposed, and how it is judged -/

theorem outline_agreeWithin (h : r.AgreeWithin p.family s) (o : Occasion) :
    p.outline s o = p.outline r o := by
  have hwithin := h.desired_within
  have hdates : p.dates s o = p.dates r o := by
    rw [h.rest]
    rfl
  rw [outline_eq, outline_eq, hdates, hwithin]

/-- The state that is proposed has nothing of the settings for other facets. -/
theorem proposal_agreeWithin (h : r.AgreeWithin p.family s) (c : Circumstance) (o : Occasion) :
    p.proposal s c o = p.proposal r c o := by
  have houtline := p.outline_agreeWithin h o
  have hbasis : Transition.SameBasis ⟨p.family, c, o, s, p.outline s o⟩
      ⟨p.family, c, o, r, p.outline r o⟩ := ⟨rfl, rfl, rfl, .refl o, houtline⟩
  have hreplaced := p.current.settings.replacement_congr hbasis
  rw [proposal_eq, proposal_eq, hreplaced, houtline]

/-- No verdict sees the settings for other facets. -/
theorem verdicts_agreeWithin (h : r.AgreeWithin p.family s) (c : Circumstance) (o : Occasion) :
    p.verdicts s c o = p.verdicts r c o := by
  have hproposal := p.proposal_agreeWithin h c o
  obtain ⟨d, rfl⟩ : ∃ d, s = { r with desired := d } := ⟨_, h.rest⟩
  have hjudged := p.judgments_congr (t := ⟨p.family, c, o, r, p.proposal r c o⟩)
    (r := { r with desired := d }) rfl rfl rfl
  rw [verdicts, hproposal, hjudged]
  rfl

/-- The plan does not tell the requests apart, by whatever method, under whatever circumstances and
at whatever time. -/
def TakesAlike (p : Plan) (r s : Request) : Prop :=
  ∀ method c time, p.apply ⟨method, r, c, time⟩ = p.apply ⟨method, s, c, time⟩

theorem takesAlike_of_agreeWithin (h : r.AgreeWithin p.family s)
    (hend : r.AsksWithoutEnd p.family ↔ s.AsksWithoutEnd p.family) : p.TakesAlike r s := by
  intro method c time
  have hnormal := normalise_agreeWithin h hend
  have haltered : p.altered ⟨method, s, c, time⟩ = p.altered ⟨method, r, c, time⟩ := by
    rw [altered, altered, p.proposal_agreeWithin hnormal]
  have hstatus : (p.arrange ⟨method, s, c, time⟩).availability =
      (p.arrange ⟨method, r, c, time⟩).availability := by
    have hseed : s.availability = r.availability := by rw [h.rest]
    rw [availability_arrange, availability_arrange]
    dsimp only
    rw [p.verdicts_agreeWithin hnormal, hseed]
  rw [apply, apply, haltered, hstatus]

/-! ## Plans that tell them apart -/

/-- Without a promo, only a prolongation without end moves the date until which a plan is free. -/
theorem dates_snd {o : Occasion} (ho : o.isPromo = false) :
    (p.dates r o).2 = if r.isProlongationInfinite then .infinite else p.freeActiveUntil := by
  unfold dates
  by_cases hp : r.isProlongation = true
  · rw [if_pos hp]
    cases hrule : r.prolongation <;> simp [Request.isProlongationInfinite, hp, hrule, ho]
  · rw [if_neg hp]
    simp [Request.isProlongationInfinite, hp]

/-- A plan that is free for some time and takes the requests alike by force shows that both ask for
a plan without end, or neither. -/
theorem TakesAlike.asksWithoutEnd_iff (h : p.TakesAlike r s)
    (hfree : p.freeActiveUntil ≠ .infinite) :
    r.AsksWithoutEnd p.family ↔ s.AsksWithoutEnd p.family := by
  have hdates (q : Request) : (p.apply ⟨.force, q, {}, 0⟩).1.freeActiveUntil =
      if (p.normalise q).isProlongationInfinite then .infinite else p.freeActiveUntil := by
    rw [p.apply_of_force _ rfl]
    exact dates_snd rfl
  have heq := hdates r
  rw [h .force {} 0, hdates s] at heq
  rw [← isProlongationInfinite_normalise_iff, ← isProlongationInfinite_normalise_iff]
  cases hr : (p.normalise r).isProlongationInfinite <;>
    cases hs : (p.normalise s).isProlongationInfinite <;> simp_all

/-- A family without limits has a plan that is free for some time. -/
theorem exists_loaded_of_no_limit (hlimit : .limit ∉ m.facets) :
    ∃ p : Plan, p.Loaded m ∧ p.freeActiveUntil ≠ .infinite := by
  obtain ⟨v, hv⟩ := m.exists_admits
  have hdefaults : m.DefaultsToTier := fun hl => absurd hl hlimit
  have hload := ofStored_initial hdefaults
    (s := { planType := m.id, variant := v, activeUntil := 1, freeActiveUntil := 1 })
    rfl hv fun _ _ => rfl
  have hfree : (1 : Seconds) ≠ .infinite := by decide
  exact ⟨_, Or.inl ⟨_, hload⟩, hfree⟩

/-- **When settings for other facets do not matter.**  Let two requests differ at most in the
settings that they desire for facets that the family lacks.  Every plan of the family takes them
alike, with one result and one plan afterwards, exactly when the family has limits or both requests
ask for a plan without end or neither does.  If not, some plan tells them apart just as it was
loaded. -/
theorem takesAlike_iff (h : r.AgreeWithin m s) :
    ((∀ p : Plan, p.family = m → p.TakesAlike r s) ↔
        .limit ∈ m.facets ∨ (r.AsksWithoutEnd m ↔ s.AsksWithoutEnd m)) ∧
      ((∀ p : Plan, p.Loaded m → p.TakesAlike r s) ↔
        .limit ∈ m.facets ∨ (r.AsksWithoutEnd m ↔ s.AsksWithoutEnd m)) := by
  have halike (hcond : .limit ∈ m.facets ∨ (r.AsksWithoutEnd m ↔ s.AsksWithoutEnd m)) :
      ∀ p : Plan, p.family = m → p.TakesAlike r s := by
    rintro p rfl
    exact takesAlike_of_agreeWithin h (hcond.elim h.asksWithoutEnd_iff id)
  have hloaded (hall : ∀ p : Plan, p.Loaded m → p.TakesAlike r s) :
      .limit ∈ m.facets ∨ (r.AsksWithoutEnd m ↔ s.AsksWithoutEnd m) := by
    by_cases hlimit : .limit ∈ m.facets
    · exact Or.inl hlimit
    · obtain ⟨p, hp, hfree⟩ := exists_loaded_of_no_limit hlimit
      obtain ⟨rfl, -⟩ := hp.spec
      exact Or.inr ((hall p hp).asksWithoutEnd_iff hfree)
  constructor
  · exact ⟨fun hall => hloaded fun p hp => hall p hp.spec.1, halike⟩
  · exact ⟨hloaded, fun hcond p hp => halike hcond p hp.spec.1⟩

end Plan

namespace Seats

/-- Thirty seats are paid for, without a demo period. -/
def moreSeats : Request where
  availability := .detached
  actions := .ofList [.change]
  desired := { limit := some ⟨30⟩ }

/-- In the family of plain seats it does not matter that a demo period is desired besides. -/
theorem takesAlike_moreSeats :
    moreSeats.AgreeWithin plainFamily moreSeatsAndDemo.request ∧ plainPlan.Loaded plainFamily ∧
      (plainPlan.apply ⟨.payment, moreSeats, { occupancy := 12 }, 1000⟩).1.limit = some 30 ∧
      plainPlan.TakesAlike moreSeats moreSeatsAndDemo.request := by
  have hagree : moreSeats.AgreeWithin plainFamily moreSeatsAndDemo.request := by
    refine ⟨rfl, fun f hf => ?_⟩
    obtain rfl := List.mem_singleton.mp hf
    rfl
  have hloaded : plainPlan.Loaded plainFamily :=
    Or.inl ⟨{ stored with planType := 2000, variant := 2001 }, rfl⟩
  obtain ⟨-, hiff⟩ := Plan.takesAlike_iff hagree
  exact ⟨hagree, hloaded, by decide, hiff.mpr (Or.inl (by decide)) plainPlan hloaded⟩

/-- A family that has tiers and no limits. -/
def openFamily : Family where
  name := "open"
  id := 3000
  facets := [.restrictPolicy]
  catalog := some catalog
  facets_ne_nil := by decide
  facets_nodup := by decide
  catalog_of_limit := by decide

/-- Access until 2000. -/
def openPlan : Plan := .ofSnapshot openFamily 3001 ⟨2000, 0, { restrictPolicy := some ⟨0⟩ }⟩

/-- A request that changes nothing, and the same one for ten seats. -/
def nothing (limit : Option Limit) : Request where
  availability := .detached
  actions := .ofList []
  desired := { limit }

/-- **A limit that the family does not have makes the plan infinite.**  The request leaves the
plan to expire at 2000.  With a limit of ten, which the family's plans cannot have, it is applied
as well, without a payment, and the plan never expires. -/
theorem not_takesAlike_nothing :
    Family.ofFacets "open" 3000 [.restrictPolicy] (some catalog) = .ok openFamily ∧
      openPlan.Loaded openFamily ∧ (nothing none).AgreeWithin openFamily (nothing (some ⟨10⟩)) ∧
      (openPlan.apply ⟨.detached, nothing none, {}, 1000⟩).2 = .applied false ∧
      (openPlan.apply ⟨.detached, nothing none, {}, 1000⟩).1.activeUntil = 2000 ∧
      (openPlan.apply ⟨.detached, nothing (some ⟨10⟩), {}, 1000⟩).2 = .applied false ∧
      (openPlan.apply ⟨.detached, nothing (some ⟨10⟩), {}, 1000⟩).1.activeUntil = .infinite ∧
      ¬ openPlan.TakesAlike (nothing none) (nothing (some ⟨10⟩)) := by
  have hloaded : openPlan.Loaded openFamily :=
    Or.inl ⟨{ planType := 3000, variant := 3001, activeUntil := 2000, freeActiveUntil := 0 }, rfl⟩
  have hagree : (nothing none).AgreeWithin openFamily (nothing (some ⟨10⟩)) := by
    refine ⟨rfl, fun f hf => ?_⟩
    obtain rfl := List.mem_singleton.mp hf
    rfl
  have hwithout : (openPlan.apply ⟨.detached, nothing none, {}, 1000⟩).1.activeUntil = 2000 := by
    decide
  have hwith : (openPlan.apply ⟨.detached, nothing (some ⟨10⟩), {}, 1000⟩).1.activeUntil =
      .infinite := by decide
  refine ⟨rfl, hloaded, hagree, by decide, hwithout, by decide, hwith, fun halike => ?_⟩
  rw [halike .detached {} 1000, hwith] at hwithout
  exact absurd hwithout (by decide)

end Seats
end Subscription
