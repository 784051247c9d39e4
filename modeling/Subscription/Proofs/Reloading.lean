import Subscription.Proofs.Conditions
import Subscription.Proofs.LimitSafety
import Subscription.Proofs.Storing

/-! # Reloading a plan after a run

As long as the limits that are desired are tiers of the family, the settings of a plan
conform to the family: they do so when the plan is loaded (`Plan.Loaded.conforms`), a
replacement is a tier again (`Limit.hasTier_replacement`), and an alteration proposes
nothing else (`Plan.conforms_proposal`).  So after any run the plan can be stored, and
what is loaded from there is the state it had (`Plan.Loaded.reload_run`).
-/
namespace Subscription

/-- The limit that the alteration desires, if any, is one of the family's tiers. -/
def Alteration.DesiresTiers (a : Alteration) (m : Family) : Prop :=
  ∀ l, a.request.desired.limit = some l → m.HasTier l.tier

/-- A tier of the family is replaced by a tier of the family. -/
theorem Limit.hasTier_replacement {m : Family} {l : Limit} {t : Transition}
    (ht : t.family = m) (h : m.HasTier l.tier) : m.HasTier (l.replacement t).tier := by
  subst ht
  obtain ⟨c, hc, hl⟩ := h
  unfold replacement
  rw [hc]
  split
  · exact ⟨c, hc, hl⟩
  · exact ⟨c, hc, c.smallestFitting_mem t.circumstance.occupancy⟩

namespace Plan
variable {m : Family} {p : Plan}

theorem conforms_proposal {r : Request} {c : Circumstance} {o : Occasion}
    (h : p.current.settings.Conforms p.family)
    (hr : ∀ l, r.desired.limit = some l → p.family.HasTier l.tier) :
    (p.proposal r c o).settings.Conforms p.family := by
  refine ⟨p.covers_proposal r c o h.covers, fun l' hl' => ?_⟩
  rcases p.get?_proposal_cases (Settings.get?_limit_iff.mpr hl') with hd | ⟨-, x, hx, he⟩
  · exact hr l' (Settings.get?_limit_iff.mp hd)
  · obtain ⟨l, hl, rfl⟩ := Option.map_eq_some_iff.mp hx
    obtain rfl := Setting.limit.inj he
    exact Limit.hasTier_replacement rfl (h.tier l hl)

theorem conforms_apply {a : Alteration} (h : p.current.settings.Conforms p.family)
    (ha : a.DesiresTiers p.family) : (p.apply a).1.current.settings.Conforms p.family := by
  rcases p.apply_fst_cases a with he | he <;> rw [he]
  · exact h
  · refine conforms_proposal h fun l hl => ha l ?_
    rwa [normalise_desired] at hl

theorem conforms_run {as : List Alteration} (h : p.current.settings.Conforms p.family)
    (has : ∀ a ∈ as, a.DesiresTiers p.family) :
    (p.run as).current.settings.Conforms p.family := by
  have step (q : Plan) (hm : q.family = p.family) (hq : q.current.settings.Conforms p.family)
      (a : Alteration) (ha : a ∈ as) : (q.apply a).1.current.settings.Conforms p.family := by
    rw [← hm] at hq has ⊢
    exact conforms_apply hq (has a ha)
  exact run_preserves_in_family step h

theorem Loaded.conforms (h : p.Loaded m) : p.current.settings.Conforms m := by
  rcases h with ⟨s, hs⟩ | ⟨records, hr⟩
  · obtain ⟨-, -, settings, hd, rfl⟩ := ofStored_eq_ok_iff.mp hs
    exact Family.conforms_of_decodeAll hd
  · obtain ⟨r, hrep, -, rfl⟩ := ofHistory_eq_ok_iff.mp hr
    obtain ⟨last, first, settings, -, -, hd, rfl⟩ := replay_eq_ok_iff.mp hrep
    exact Family.conforms_of_decodeAll hd

/-- **A loaded plan can be stored after any run and loaded again**, if the limits that
are desired are tiers of the family.  Whatever became of the alterations, forced ones
among them, the plan is of the family, the variant and the loaded state that it was; it
has one setting for each facet of the family, of the facet's kind, and none for another;
its limit is a tier; and what is loaded from its stored state is its current state. -/
theorem Loaded.reload_run (h : p.Loaded m) {as : List Alteration}
    (has : ∀ a ∈ as, a.DesiresTiers m) :
    ((p.run as).family = m ∧ (p.run as).variant = p.variant ∧
        (p.run as).loaded = p.loaded ∧ p.loaded = p.current) ∧
      (p.run as).current.settings.Covers m.facets ∧
      (∀ f x, (p.run as).current.settings.get? f = some x → x.facet = f) ∧
      (∀ tier, (p.run as).limit = some tier → m.HasTier tier) ∧
      ofStored m (p.run as).stored = .ok (ofSnapshot m p.variant (p.run as).current) := by
  obtain ⟨rfl, hv, hloaded, -⟩ := h.spec
  have hs := conforms_run h.conforms has
  have hfamily : (p.run as).family = p.family := by rw [run_frame]
  have hvariant : (p.run as).variant = p.variant := by rw [run_frame]
  refine ⟨⟨hfamily, hvariant, by rw [run_frame], hloaded⟩, hs.covers, ?_, ?_, ?_⟩
  · exact fun f x hx => Settings.facet_of_get? hx
  · intro tier ht
    obtain ⟨l, hl, rfl⟩ := Option.map_eq_some_iff.mp ht
    exact hs.tier l hl
  · rw [← hfamily] at hs
    have hload := ofStored_stored_of_conforms (by rwa [hfamily, hvariant]) hs
    rwa [hfamily, hvariant] at hload

end Plan

namespace Seats

/-- The plan is put back on trial by force, at the greatest tier. -/
def backOnTrial : Alteration where
  method := .force
  request := {
    availability := .detached
    actions := .ofList [.change]
    desired := { limit := some ⟨50⟩, extendPolicy := some ⟨.trial, 1500⟩ } }
  circumstance := {}
  time := 1000

/-- A month is paid, another refused, and then the trial begins again by force: the
plan is loaded with its new deadline. -/
theorem reload_backOnTrial :
    plan.Loaded family ∧ (∀ a ∈ [month, unpaidMonth, backOnTrial], a.DesiresTiers family) ∧
      (plan.run [month, unpaidMonth, backOnTrial]).current =
        ⟨2500, 0, ⟨some ⟨50⟩, some ⟨.trial, 1500⟩, some ⟨2500⟩, some ⟨0⟩⟩⟩ ∧
      Plan.ofStored family (plan.run [month, unpaidMonth, backOnTrial]).stored =
        .ok (.ofSnapshot family 1001 (plan.run [month, unpaidMonth, backOnTrial]).current) := by
  have hload : plan.Loaded family := Or.inl ⟨stored, ofStored_stored⟩
  have hdesired : ∀ a ∈ [month, unpaidMonth, backOnTrial], a.DesiresTiers family := by
    intro a ha l hl
    simp only [List.mem_cons, List.not_mem_nil, or_false] at ha
    rcases ha with rfl | rfl | rfl
    · cases hl
    · cases hl
    · cases hl
      exact ⟨catalog, rfl, by simp [catalog]⟩
  exact ⟨hload, hdesired, by decide, (hload.reload_run hdesired).2.2.2.2⟩

end Seats
end Subscription
