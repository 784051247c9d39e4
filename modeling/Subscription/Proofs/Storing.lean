import Subscription.Proofs.FieldReading
import Subscription.Proofs.Loading
import Subscription.Proofs.Tiers

/-! # Storing a plan and loading it again

Settings are stored facet by facet, under the names of the facets
(`Settings.get?_fields`).  A setting is read back from its own fields whatever the
family's defaults are, and so are all settings of a plan together, as long as the
limit is one of the family's tiers (`Settings.Conforms`, `Family.decodeAll_fields`).
The plan is then loaded from what it is stored as (`Plan.ofStored_stored_of_conforms`).
-/
namespace Subscription

theorem Facet.name_injective {f g : Facet} (h : f.name = g.name) : f = g := by
  revert h
  cases f <;> cases g <;> decide

theorem Setting.get?_fields_rule (p : ExtendPolicy) :
    (extendPolicy p).fields.get? "rule" = some (.string p.rule.name) := by
  unfold fields
  dsimp only
  split <;> rfl

theorem Setting.get?_fields_deadline (p : ExtendPolicy) :
    (extendPolicy p).fields.get? "trial_till" =
      if p.trialUntil = .unbounded then none else some (Stored.encode p.trialUntil) := by
  unfold fields
  dsimp only
  split <;> rfl

/-- The field that a setting's facet is read from is one of those it is stored in. -/
theorem Setting.exists_get?_field (x : Setting) : ∃ v, x.fields.get? x.facet.field = some v := by
  cases x with
  | extendPolicy p => exact ⟨_, get?_fields_rule p⟩
  | _ => exact ⟨_, rfl⟩

namespace Settings
variable (s : Settings)

/-- What is found under a facet's name when the settings of `facets` are stored. -/
theorem lookup_fields (facets : List Facet) (f : Facet) :
    ((facets.filterMap s.get?).map fun x => (x.facet.name, x.fields)).lookup f.name =
      if f ∈ facets then (s.get? f).map Setting.fields else none := by
  induction facets with
  | nil => rfl
  | cons g facets ih =>
    cases hg : s.get? g with
    | none =>
      rw [List.filterMap_cons_none hg, ih]
      by_cases hfg : f = g
      · subst hfg
        simp [hg]
      · simp [hfg]
    | some x =>
      rw [List.filterMap_cons_some hg, List.map_cons, facet_of_get? hg]
      by_cases hfg : f = g
      · subst hfg
        simp [hg]
      · have hname : (f.name == g.name) = false := by
          simpa using fun h => hfg (Facet.name_injective h)
        simp [List.lookup_cons, hname, ih, hfg]

/-- A facet is stored under its name, in the fields of its setting. -/
theorem get?_fields (f : Facet) : s.fields.get? f.name = (s.get? f).map Setting.fields := by
  have h := s.lookup_fields Facet.all f
  rw [if_pos (Facet.mem_all f)] at h
  exact h

/-- The settings that a plan of the family may have: one for each of the family's
facets, the limit being at a tier of its catalog. -/
structure Conforms (s : Settings) (m : Family) : Prop where
  covers : s.Covers m.facets
  tier : ∀ l, s.limit = some l → m.HasTier l.tier

theorem Covers.conforms {s : Settings} {m : Family} (hc : s.Covers m.facets) {l : Limit}
    (hl : s.limit = some l) (ht : m.HasTier l.tier) : s.Conforms m :=
  ⟨hc, fun _ hk => Option.some.inj (hl.symm.trans hk) ▸ ht⟩

theorem Conforms.tier_of_get? {s : Settings} {m : Family} (h : s.Conforms m) {f : Facet}
    {x : Setting} (hx : s.get? f = some x) : ∀ l, x = .limit l → m.HasTier l.tier := by
  rintro l rfl
  obtain rfl : Facet.limit = f := facet_of_get? hx
  exact h.tier l (get?_limit_iff.mp hx)

end Settings

namespace Family
variable {m : Family} {f : Facet}

/-- A facet with one field is read as the setting that has the stored field as its
own, whatever else is stored beside it. -/
theorem decode_of_get?_field (hf : f ≠ .extendPolicy) (hm : f ∈ m.facets) {x : Setting}
    (hx : x.facet = f) (htier : ∀ l, x = .limit l → m.HasTier l.tier) {fields : Fields}
    (h : fields.get? f.field = x.fields.get? f.field) : m.decode f (some fields) = .ok x := by
  obtain ⟨v, hv⟩ := x.exists_get?_field
  rw [hx] at hv
  refine (decode_eq_ok_iff hf hm).mpr ⟨hx, ?_, fun l hl => hasTier_iff_contains.mp (htier l hl)⟩
  rw [get?_laidOver, Option.getD_some, h, hv]
  rfl

theorem decode_extendPolicy_fields (hm : .extendPolicy ∈ m.facets) (p : ExtendPolicy) :
    m.decode .extendPolicy (some (Setting.extendPolicy p).fields) = .ok (.extendPolicy p) :=
  decode_extendPolicy_of_get? hm (Setting.get?_fields_rule p) (Setting.get?_fields_deadline p)

/-- **A setting is read back from the fields it is stored in.** -/
theorem decode_fields {x : Setting} (hm : x.facet ∈ m.facets)
    (htier : ∀ l, x = .limit l → m.HasTier l.tier) :
    m.decode x.facet (some x.fields) = .ok x := by
  by_cases hf : x.facet = .extendPolicy
  · cases x with
    | extendPolicy p => exact decode_extendPolicy_fields hm p
    | _ => cases hf
  · exact decode_of_get?_field hf hm rfl htier rfl

/-- **Conforming settings are read back together.** -/
theorem decodeAll_fields {s : Settings} (hs : s.Conforms m) :
    (m.decodeAll fun f => s.fields.get? f.name) = .ok s := by
  refine (m.decodeAll_eq_ok_iff _).mpr fun f => ⟨fun hf => ?_, fun hf => ?_⟩
  · obtain ⟨x, hx⟩ := hs.covers.exists_get? hf
    have hfacet : x.facet = f := Settings.facet_of_get? hx
    refine ⟨x, ?_, hx⟩
    rw [s.get?_fields, hx, Option.map_some, ← hfacet]
    exact decode_fields (hfacet ▸ hf) (hs.tier_of_get? hx)
  · exact hs.covers.get?_eq_none hf

/-- What a family reads conforms to it. -/
theorem conforms_of_decodeAll {stored : Facet → Option Fields} {s : Settings}
    (h : m.decodeAll stored = .ok s) : s.Conforms m := by
  have hcovers := m.covers_of_decodeAll stored h
  refine ⟨hcovers, fun l hl => ?_⟩
  have hget := Settings.get?_limit_iff.mpr hl
  have hm : Facet.limit ∈ m.facets := hcovers.mem hget
  obtain ⟨x, hx, hsome⟩ := ((m.decodeAll_eq_ok_iff stored).mp h .limit).1 hm
  obtain rfl : x = .limit l := Option.some.inj (hsome.symm.trans hget)
  obtain ⟨-, -, hc⟩ := (decode_eq_ok_iff (by decide) hm).mp hx
  exact hasTier_iff_contains.mpr (hc l rfl)

end Family

/-- **A plan is loaded from what it is stored as**, if its settings conform to its
family and its variant is admitted. -/
theorem Plan.ofStored_stored_of_conforms {p : Plan} (hv : p.family.admits p.variant = true)
    (hs : p.current.settings.Conforms p.family) :
    ofStored p.family p.stored = .ok (ofSnapshot p.family p.variant p.current) :=
  ofStored_eq_ok_iff.mpr ⟨rfl, hv, p.current.settings, Family.decodeAll_fields hs, rfl⟩

end Subscription
