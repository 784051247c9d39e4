import Subscription.Proofs.Run

/-! # Which desired settings a plan gets

A request may desire a setting for any facet, while a plan has settings for the facets of its
family and for no other.  An alteration that is carried out, by force or not, gives the plan each
desired setting whose facet is in the family, and passes the others over, as loading passes over
what is stored for them.  So a success means that the request is fulfilled exactly when it keeps
to the facets of the family (`Plan.fulfils_apply_iff`).
-/
namespace Subscription

/-- The settings are desired for facets of the family only. -/
def Request.KeepsTo (r : Request) (m : Family) : Prop :=
  ∀ f x, r.desired.get? f = some x → f ∈ m.facets

namespace Plan
variable {p : Plan} {a : Alteration}

/-- The plan has every setting that the request desires. -/
def Fulfils (p : Plan) (r : Request) : Prop :=
  ∀ f x, r.desired.get? f = some x → p.current.settings.get? f = some x

/-- For a facet that the family lacks nothing is proposed, whatever is desired. -/
theorem get?_altered_of_not_mem (p : Plan) (a : Alteration) {f : Facet}
    (hf : f ∉ p.family.facets) : (p.altered a).current.settings.get? f = none := by
  refine (p.get?_proposal _ _ _ f).trans ?_
  rw [if_neg hf]

/-- **What becomes of the desired settings when an alteration is carried out.**  The plan has
each one that is desired for a facet of its family, and none for another facet, whether one is
desired or not.  So it has all that the request desires exactly when the request keeps to the
family. -/
theorem fulfils_apply_iff (hs : (p.apply a).2.isSuccess = true) :
    (∀ f x, a.request.desired.get? f = some x → f ∈ p.family.facets →
        (p.apply a).1.current.settings.get? f = some x) ∧
      (∀ f, f ∉ p.family.facets → (p.apply a).1.current.settings.get? f = none) ∧
      ((p.apply a).1.Fulfils a.request ↔ a.request.KeepsTo p.family) := by
  rw [p.apply_fst_of_isSuccess a hs]
  have hheld : ∀ f x, a.request.desired.get? f = some x → f ∈ p.family.facets →
      (p.altered a).current.settings.get? f = some x :=
    fun f x hx hf => p.get?_altered_of_desired hf hx
  have hpassed : ∀ f, f ∉ p.family.facets → (p.altered a).current.settings.get? f = none :=
    fun f hf => p.get?_altered_of_not_mem a hf
  refine ⟨hheld, hpassed, ?_, ?_⟩
  · intro hall f x hx
    refine Decidable.not_not.mp fun hf => ?_
    have hnone := hpassed f hf
    rw [hall f x hx] at hnone
    cases hnone
  · exact fun hkeeps f x hx => hheld f x hx (hkeeps f x hx)

end Plan

namespace Seats

/-- A family of the same seats without a demo period. -/
def plainFamily : Family where
  name := "plain seats"
  id := 2000
  facets := [.limit]
  catalog := some catalog
  facets_ne_nil := by decide
  facets_nodup := by decide
  catalog_of_limit := fun _ => rfl

/-- Twenty plain seats until 2000. -/
def plainPlan : Plan := .ofSnapshot plainFamily 2001 ⟨2000, 0, { limit := some ⟨20⟩ }⟩

theorem reachable_plainPlan : plainPlan.Reachable plainFamily :=
  Plan.Loaded.reachable (Or.inl ⟨{ stored with planType := 2000, variant := 2001 }, rfl⟩)

/-- Thirty seats and a demo period are paid for. -/
def moreSeatsAndDemo : Alteration where
  method := .payment
  request := {
    availability := .detached
    actions := .ofList [.change]
    desired := { limit := some ⟨30⟩, demo := some ⟨5000⟩ } }
  circumstance := { occupancy := 12 }
  time := 1000

/-- In a family that has both facets the plan gets both. -/
theorem fulfils_moreSeatsAndDemo :
    (plan.apply moreSeatsAndDemo).2.isSuccess = true ∧
      moreSeatsAndDemo.request.KeepsTo plan.family ∧
      (plan.apply moreSeatsAndDemo).1.Fulfils moreSeatsAndDemo.request := by
  have hs : (plan.apply moreSeatsAndDemo).2.isSuccess = true := by decide
  have hkeeps : moreSeatsAndDemo.request.KeepsTo plan.family := by
    intro f x _
    cases f <;> decide
  exact ⟨hs, hkeeps, (Plan.fulfils_apply_iff hs).2.2.mpr hkeeps⟩

/-- **A success need not fulfil the request**: the family has no demo period, the payment is
taken, the plan gets its thirty seats, and it has no demo period afterwards. -/
theorem not_fulfils_moreSeatsAndDemo :
    plainPlan.Reachable plainFamily ∧
      (plainPlan.apply moreSeatsAndDemo).2 = .applied false ∧
      moreSeatsAndDemo.request.desired.get? .demo = some (.demo ⟨5000⟩) ∧
      (plainPlan.apply moreSeatsAndDemo).1.limit = some 30 ∧
      (plainPlan.apply moreSeatsAndDemo).1.current.settings.get? .demo = none :=
  ⟨reachable_plainPlan, by decide, rfl, by decide, by decide⟩

end Seats
end Subscription
