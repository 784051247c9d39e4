import Subscription.Proofs.Reloading

/-! # Limits of another catalog

A limit is built against a catalog and does not say which.  The one that an alteration desires
is compared with the plan's own limit and with the seats in use, but not with the tiers of the
plan's family.  So an alteration that is carried out leaves the plan at a tier of its family
exactly when none was desired or a tier was (`Plan.Reachable.hasTier_apply_iff`).  What is
stored with a limit that is no tier is refused when it is loaded again, with the error that
names the limit (`Plan.ofStored_stored_of_not_hasTier`).
-/
namespace Subscription

/-- A stored limit that is not a tier of the family cannot be read. -/
theorem Family.decode_limit_of_not_hasTier {m : Family} (hm : .limit ∈ m.facets) {l : Limit}
    (h : ¬ m.HasTier l.tier) :
    m.decode .limit (some (Setting.limit l).fields) =
      .error (.catalog (.unknownTier l.tier)) := by
  obtain ⟨c, hc⟩ := Option.isSome_iff_exists.mp (m.catalog_of_limit hm)
  have hvalue : (m.laidOver .limit (some (Setting.limit l).fields)).required "value" =
      some l.tier := by
    rw [Table.required_eq_some_iff decode?_uint32_eq_some_iff, m.get?_laidOver]
    rfl
  have htier : c.contains l.tier ≠ true := fun ht => h (hasTier_iff_contains.mpr ⟨c, hc, ht⟩)
  unfold decode
  rw [if_pos (m.hasFacet_iff.mpr hm), hc]
  show (Limit.ofFields (m.laidOver .limit (some (Setting.limit l).fields)) c).map _ = _
  unfold Limit.ofFields Limit.ofTier Catalog.require
  rw [hvalue]
  dsimp only
  rw [if_neg htier]
  rfl

namespace Plan
variable {m : Family} {p : Plan} {a : Alteration}

/-- What is stored of a plan whose limit is not a tier of its family cannot be loaded: its
other facets are read, and the limit is not. -/
theorem ofStored_stored_of_not_hasTier (hv : p.family.admits p.variant = true)
    (hc : p.current.settings.Covers p.family.facets) {l : Limit}
    (hl : p.current.settings.limit = some l) (ht : ¬ p.family.HasTier l.tier) :
    ofStored p.family p.stored = .error (.facet (.catalog (.unknownTier l.tier))) := by
  have hget := Settings.get?_limit_iff.mpr hl
  have hm : Facet.limit ∈ p.family.facets := hc.mem hget
  obtain ⟨before, after, hsplit⟩ := List.append_of_mem hm
  have hfields (f : Facet) : p.stored.facet? f = (p.current.settings.get? f).map Setting.fields :=
    p.current.settings.get?_fields f
  refine ofStored_eq_error_of_facet rfl hv ?_
  refine (p.family.decodeAll_eq_error_iff _).mpr ⟨before, .limit, after, hsplit, ?_, ?_⟩
  · intro g hg
    have hgm : g ∈ p.family.facets := by
      rw [hsplit]
      exact List.mem_append_left _ hg
    -- The limit stands in one place only, so a facet before it is another one.
    have hne : g ≠ .limit := by
      rintro rfl
      have hnodup := p.family.facets_nodup
      rw [hsplit] at hnodup
      exact (List.nodup_append.mp hnodup).2.2 .limit hg .limit List.mem_cons_self rfl
    obtain ⟨x, hx⟩ := hc.exists_get? hgm
    obtain rfl : x.facet = g := Settings.facet_of_get? hx
    refine ⟨x, ?_⟩
    rw [hfields, hx]
    refine Family.decode_fields hgm ?_
    rintro l rfl
    exact absurd rfl hne
  · rw [hfields, hget]
    exact Family.decode_limit_of_not_hasTier hm ht

/-- **When the limit stays in the catalog.**  A reachable plan whose limit is a tier of its
family, and an alteration of it that is carried out: the new limit is a tier again exactly when
the alteration desires none or a tier.  Then what is stored of the plan is loaded as the state
it has; otherwise it is refused for the limit, which is an unknown tier. -/
theorem Reachable.hasTier_apply_iff (h : p.Reachable m) {l : Limit}
    (hl : p.current.settings.limit = some l) (ht : m.HasTier l.tier)
    (hs : (p.apply a).2.isSuccess = true) :
    ∃ l', (p.apply a).1.current.settings.limit = some l' ∧
      (m.HasTier l'.tier ↔ a.DesiresTiers m) ∧
      (m.HasTier l'.tier → ofStored m (p.apply a).1.stored =
        .ok (ofSnapshot m p.variant (p.apply a).1.current)) ∧
      (¬ m.HasTier l'.tier → ofStored m (p.apply a).1.stored =
        .error (.facet (.catalog (.unknownTier l'.tier)))) := by
  have hv := h.admits
  obtain ⟨rfl, hc⟩ := h.spec
  have hm : Facet.limit ∈ p.family.facets := hc.mem (Settings.get?_limit_iff.mpr hl)
  have hc' := p.covers_apply a hc
  obtain ⟨l', hl'⟩ := hc'.exists_limit hm
  have hfamily : (p.apply a).1.family = p.family := p.apply_family a
  have hvariant : (p.apply a).1.variant = p.variant := by rw [apply_frame]
  rw [← hfamily] at hc'
  have hv' : (p.apply a).1.family.admits (p.apply a).1.variant = true := by
    rwa [hfamily, hvariant]
  refine ⟨l', hl', ⟨fun ht' => ?_, fun hd => ?_⟩, fun ht' => ?_, fun ht' => ?_⟩
  · -- A limit that is desired is the one the plan gets.
    intro d hd
    have hget := limit_altered_of_desired hm hd
    rw [← p.apply_fst_of_isSuccess a hs, hl', Option.some.injEq] at hget
    exact hget ▸ ht'
  · exact (conforms_apply (hc.conforms hl ht) hd).tier l' hl'
  · have hload := ofStored_stored_of_conforms hv' (hc'.conforms hl' (by rwa [hfamily]))
    rwa [hfamily, hvariant] at hload
  · have hload := ofStored_stored_of_not_hasTier hv' hc' hl' (by rwa [hfamily])
    rwa [hfamily] at hload

end Plan

namespace Seats

/-- A paid change to the limit, whatever catalog it is from. -/
def moved (l : Limit) : Alteration where
  method := .payment
  request := {
    availability := .detached
    actions := .ofList [.change]
    desired := { limit := some l } }
  circumstance := { occupancy := 12 }
  time := 1000

/-- The change to a tier of the family can be stored and loaded. -/
theorem hasTier_moved :
    plan.Reachable family ∧ plan.current.settings.limit = some ⟨20⟩ ∧ family.HasTier 20 ∧
      (plan.apply (moved ⟨30⟩)).2.isSuccess = true ∧ (moved ⟨30⟩).DesiresTiers family ∧
      Plan.ofStored family (plan.apply (moved ⟨30⟩)).1.stored =
        .ok (.ofSnapshot family 1001 (plan.apply (moved ⟨30⟩)).1.current) := by
  have hreach : plan.Reachable family := reachable_run []
  have htier : family.HasTier 20 := by decide
  have hs : (plan.apply (moved ⟨30⟩)).2.isSuccess = true := by decide
  have hdesired : (moved ⟨30⟩).DesiresTiers family := by
    intro l hl
    cases hl
    decide
  obtain ⟨l', -, hiff, hload, -⟩ := hreach.hasTier_apply_iff rfl htier hs
  exact ⟨hreach, rfl, htier, hs, hdesired, hload (hiff.mpr hdesired)⟩

/-- **A limit of another catalog is carried out**: twenty-five seats are no tier of the family,
the change to them is paid and applied, and the plan cannot be loaded from what it is stored
as. -/
theorem unknownTier_moved :
    plan.Reachable family ∧ plan.current.settings.limit = some ⟨20⟩ ∧ family.HasTier 20 ∧
      ¬ family.HasTier 25 ∧ (moved ⟨25⟩).method ≠ .force ∧
      (plan.apply (moved ⟨25⟩)).2 = .applied false ∧
      (plan.apply (moved ⟨25⟩)).1.current.settings.limit = some ⟨25⟩ ∧
      Plan.ofStored family (plan.apply (moved ⟨25⟩)).1.stored =
        .error (.facet (.catalog (.unknownTier 25))) :=
  ⟨reachable_run [], rfl, by decide, by decide, by decide, by decide, by decide, rfl⟩

end Seats
end Subscription
