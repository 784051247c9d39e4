import Subscription.Family.OfDeclaration
import Subscription.Proofs.InitialSettings
import Subscription.Proofs.SoundDocuments

/-! # The family that a sound declaration describes

A family is made from a declaration in stages, each of which could fail.  None does when
the declaration is sound, and the family is then the one that the declaration describes
(`Declaration.Describes`, `Family.ofDeclaration_eq_ok_iff`).  Its initial settings are the
declared defaults, and the least tier where no default limit is declared
(`Declaration.Defaults`, `Declaration.Describes.defaults_initial`).
-/
namespace Subscription

namespace Declaration

/-- What the declaration says about a family, an unset switch being off and an unset date
zero. -/
structure Describes (d : Declaration) (m : Family) : Prop where
  name : m.name = d.name
  id : m.id = d.id
  facets : m.facets = d.facets
  variants : m.variants = d.variants
  /-- A family with a limit has the declared tiers, and the declared free ones. -/
  catalog : .limit ∈ d.facets →
    ∃ c, m.catalog = some c ∧ c.tiers.toList = d.tiers ∧ c.free = d.freeTiers
  no_catalog : .limit ∉ d.facets → m.catalog = none
  limitRules : m.limitRules = {
    exceedAllowsPlainProlongation := d.rules.exceedAllowsPlainProlongation.getD false
    blockUntilTrialStarted := d.rules.blockUntilTrialStarted.getD false
    freeChangesDuringTrial := d.rules.freeChangesDuringTrial.getD false }
  trialThreshold : m.trialThreshold = d.trialThreshold
  defaultLimit : m.defaults.limit = d.defaults.limit
  extendRule : m.defaults.extendRule.name = d.defaults.extendPolicy.getD "free"
  restrictActiveFrom : m.defaults.restrictActiveFrom = d.defaults.restrictActiveFrom.getD 0
  demoActiveUntil : m.defaults.demoActiveUntil = d.defaults.demoActiveUntil.getD 0

/-- The settings that the declaration gives to a plan for which nothing is stored. -/
structure Defaults (d : Declaration) (s : Settings) : Prop where
  covers : s.Covers d.facets
  /-- The declared tier, or the least one. -/
  limit : ∀ l, s.limit = some l → l.tier ∈ d.tiers ∧
    (d.defaults.limit = some l.tier ∨ d.defaults.limit = none ∧ ∀ t ∈ d.tiers, l.tier ≤ t)
  extendPolicy : ∀ p, s.extendPolicy = some p →
    p.rule.name = d.defaults.extendPolicy.getD "free" ∧ p.trialUntil = .unbounded
  restrictPolicy : ∀ p, s.restrictPolicy = some p →
    p.activeFrom = d.defaults.restrictActiveFrom.getD 0
  demo : ∀ w, s.demo = some w → w.activeUntil = d.defaults.demoActiveUntil.getD 0

end Declaration

/-! ## The stages -/

theorem ExtendRule.name_injective {a b : ExtendRule} (h : a.name = b.name) : a = b :=
  Option.some.inj ((ofName?_eq_some_iff.mpr rfl).symm.trans (ofName?_eq_some_iff.mpr h))

theorem DeclaredDefaults.rule_eq_ok_iff {d : DeclaredDefaults} {rule : ExtendRule} :
    d.rule = .ok rule ↔ rule.name = d.extendPolicy.getD "free" := by
  have hfree : ExtendRule.free.name = "free" := rfl
  unfold DeclaredDefaults.rule
  cases d.extendPolicy with
  | none =>
    rw [Option.getD_none, ← hfree, Except.ok.injEq]
    exact ⟨fun h => h ▸ rfl, fun h => (ExtendRule.name_injective h).symm⟩
  | some name =>
    dsimp only
    rw [mapError_eq_ok_iff, Option.getD_some, eq_comm (a := rule.name),
      ← ExtendRule.ofName?_eq_some_iff]
    unfold ExtendRule.parse
    cases ExtendRule.ofName? name with
    | none => exact ⟨nofun, nofun⟩
    | some rule' => rw [Except.ok.injEq, Option.some.injEq]

namespace Family
variable {d : Declaration} {m : Family}

theorem declaredCatalog_eq_ok_iff {catalog : Option Catalog} :
    declaredCatalog d = .ok catalog ↔
      (.limit ∈ d.facets →
        ∃ c, catalog = some c ∧ c.tiers.toList = d.tiers ∧ c.free = d.freeTiers) ∧
      (.limit ∉ d.facets → catalog = none) := by
  unfold declaredCatalog
  by_cases hl : .limit ∈ d.facets
  · rw [if_pos hl]
    simp only [hl, forall_const, not_true, false_imp_iff, and_true, ← Declaration.catalog_eq_ok_iff]
    cases d.catalog with
    | error e => exact ⟨nofun, fun ⟨_, _, h⟩ => nomatch h⟩
    | ok c =>
      constructor
      · intro h
        exact ⟨c, (Except.ok.inj h).symm, rfl⟩
      · rintro ⟨c', rfl, h⟩
        rw [Except.ok.inj h]
  · rw [if_neg hl]
    simp only [hl, false_imp_iff, true_and, not_false_iff, forall_const, Except.ok.injEq]
    exact eq_comm

/-- What is made from facets has just these, and nothing else set. -/
theorem ofFacets_eq_ok_iff {name : String} {id : UInt32} {facets : List Facet}
    {catalog : Option Catalog} :
    ofFacets name id facets catalog = .ok m ↔
      m.name = name ∧ m.id = id ∧ m.facets = facets ∧ m.catalog = catalog ∧
        m.limitRules = {} ∧ m.trialThreshold = none ∧ m.defaults = {} ∧ m.variants = [] := by
  constructor
  · intro h
    unfold ofFacets at h
    split at h
    · cases h
    · split at h
      · cases h
      · split at h
        · cases h
        · cases h
          exact ⟨rfl, rfl, rfl, rfl, rfl, rfl, rfl, rfl⟩
  · rcases m with ⟨name', id', facets', catalog', rules, threshold, defaults, variants, hne, hnd,
      hc⟩
    rintro ⟨rfl, rfl, rfl, rfl, rfl, rfl, rfl, rfl⟩
    have hrepeated : firstRepeated [] facets' = none :=
      firstRepeated_eq_none_iff.mpr ⟨hnd, fun _ _ => List.not_mem_nil⟩
    unfold ofFacets
    rw [dif_neg hne]
    split
    · rename_i f hf
      rw [hrepeated] at hf
      cases hf
    · rw [dif_neg]
      rintro ⟨hl, hnone⟩
      have hsome := hc hl
      rw [show catalog' = none from hnone] at hsome
      cases hsome

/-- The family of a declaration with a catalog and a rule that fit it. -/
theorem ofDeclaration_eq_ok_iff_stages :
    ofDeclaration d = .ok m ↔
      d.Sound ∧ ∃ catalog rule base, declaredCatalog d = .ok catalog ∧ d.defaults.rule = .ok rule ∧
        ofFacets d.name d.id d.facets catalog = .ok base ∧
        m = { base with
          limitRules := .ofDeclared d.rules
          trialThreshold := d.trialThreshold
          defaults := {
            limit := d.defaults.limit
            extendRule := rule
            restrictActiveFrom := d.defaults.restrictActiveFrom.getD 0
            demoActiveUntil := d.defaults.demoActiveUntil.getD 0 }
          variants := d.variants } := by
  unfold ofDeclaration
  simp only [bind_eq_ok_iff, mapError_eq_ok_iff, ← Declaration.validate_eq_ok_iff]
  constructor
  · rintro ⟨_, hd, catalog, hc, rule, hr, base, hb, hm⟩
    exact ⟨hd, catalog, rule, base, hc, hr, hb, (Except.ok.inj hm).symm⟩
  · rintro ⟨hd, catalog, rule, base, hc, hr, hb, rfl⟩
    exact ⟨(), hd, catalog, hc, rule, hr, base, hb, rfl⟩

/-- **A family is made from exactly the sound declarations, and it is the one that the
declaration describes.** -/
theorem ofDeclaration_eq_ok_iff : ofDeclaration d = .ok m ↔ d.Sound ∧ d.Describes m := by
  rw [ofDeclaration_eq_ok_iff_stages]
  refine and_congr_right fun hd => ?_
  constructor
  · rintro ⟨catalog, rule, base, hc, hr, hb, rfl⟩
    obtain ⟨hname, hid, hfacets, rfl, -⟩ := ofFacets_eq_ok_iff.mp hb
    obtain ⟨hcatalog, hnone⟩ := declaredCatalog_eq_ok_iff.mp hc
    exact {
      name := hname
      id := hid
      facets := hfacets
      variants := rfl
      catalog := hcatalog
      no_catalog := hnone
      limitRules := rfl
      trialThreshold := rfl
      defaultLimit := rfl
      extendRule := DeclaredDefaults.rule_eq_ok_iff.mp hr
      restrictActiveFrom := rfl
      demoActiveUntil := rfl }
  · intro h
    refine ⟨m.catalog, m.defaults.extendRule,
      { m with limitRules := {}, trialThreshold := none, defaults := {}, variants := [] },
      declaredCatalog_eq_ok_iff.mpr ⟨h.catalog, h.no_catalog⟩,
      DeclaredDefaults.rule_eq_ok_iff.mpr h.extendRule,
      ofFacets_eq_ok_iff.mpr ⟨h.name, h.id, h.facets, rfl, rfl, rfl, rfl, rfl⟩, ?_⟩
    unfold LimitRules.ofDeclared
    rw [← h.limitRules, ← h.trialThreshold, ← h.defaultLimit, ← h.restrictActiveFrom,
      ← h.demoActiveUntil, ← h.variants]

end Family

namespace Declaration
variable {d : Declaration} {m : Family}

/-- A sound declaration describes a family. -/
theorem Sound.exists_describes (hd : d.Sound) : ∃ m, d.Describes m := by
  obtain ⟨catalog, hcatalog⟩ : ∃ catalog, Family.declaredCatalog d = .ok catalog := by
    by_cases hl : .limit ∈ d.facets
    · obtain ⟨hne, hasc, hfree, -⟩ := hd.limit hl
      obtain ⟨c, hc⟩ := exists_catalog_iff.mpr ⟨hne, hasc, hfree⟩
      exact ⟨some c, Family.declaredCatalog_eq_ok_iff.mpr
        ⟨fun _ => ⟨c, rfl, catalog_eq_ok_iff.mp hc⟩, fun h => absurd hl h⟩⟩
    · exact ⟨none, Family.declaredCatalog_eq_ok_iff.mpr ⟨fun h => absurd h hl, fun _ => rfl⟩⟩
  obtain ⟨rule, hrule⟩ : ∃ rule : ExtendRule, rule.name = d.defaults.extendPolicy.getD "free" := by
    cases hp : d.defaults.extendPolicy with
    | none => exact ⟨.free, rfl⟩
    | some name =>
      obtain ⟨rule, hname⟩ := hd.rule name hp
      exact ⟨rule, hname.symm⟩
  obtain ⟨hsome, hnone⟩ := Family.declaredCatalog_eq_ok_iff.mp hcatalog
  exact ⟨{
    name := d.name
    id := d.id
    facets := d.facets
    catalog := catalog
    limitRules := .ofDeclared d.rules
    trialThreshold := d.trialThreshold
    defaults := {
      limit := d.defaults.limit
      extendRule := rule
      restrictActiveFrom := d.defaults.restrictActiveFrom.getD 0
      demoActiveUntil := d.defaults.demoActiveUntil.getD 0 }
    variants := d.variants
    facets_ne_nil := hd.facets
    facets_nodup := hd.facets_nodup
    catalog_of_limit := fun hl => by
      obtain ⟨c, hc, -⟩ := hsome hl
      rw [hc]
      rfl },
    ⟨rfl, rfl, rfl, rfl, hsome, hnone, rfl, rfl, rfl, hrule, rfl, rfl⟩⟩

/-- A sound declaration describes one family. -/
theorem Sound.describes_unique (hd : d.Sound) {m' : Family} (h : d.Describes m)
    (h' : d.Describes m') : m = m' :=
  Except.ok.inj ((Family.ofDeclaration_eq_ok_iff.mpr ⟨hd, h⟩).symm.trans
    (Family.ofDeclaration_eq_ok_iff.mpr ⟨hd, h'⟩))

/-! ## The declared defaults -/

/-- With a limit, the tiers of the family are those declared. -/
theorem Describes.hasTier_iff (h : d.Describes m) (hl : .limit ∈ d.facets) {t : UInt32} :
    m.HasTier t ↔ t ∈ d.tiers := by
  obtain ⟨c, hc, htiers, -⟩ := h.catalog hl
  unfold Family.HasTier
  rw [hc, ← htiers]
  simp

/-- The family of a sound declaration admits just the declared variants. -/
theorem Describes.admits_iff (h : d.Describes m) (hd : d.Sound) {v : UInt32} :
    m.admits v = true ↔ v ∈ d.variants := by
  unfold Family.admits
  rw [h.variants, Bool.or_eq_true, List.isEmpty_iff, List.contains_iff_mem]
  exact or_iff_right hd.variants

theorem Describes.initialTier_spec (h : d.Describes m) (hd : d.Sound) (hl : .limit ∈ d.facets) :
    m.initialTier ∈ d.tiers ∧ (d.defaults.limit = some m.initialTier ∨
      d.defaults.limit = none ∧ ∀ t ∈ d.tiers, m.initialTier ≤ t) := by
  obtain ⟨c, hc, htiers, -⟩ := h.catalog hl
  unfold Family.initialTier
  rw [h.defaultLimit, hc, ← htiers]
  cases ht : d.defaults.limit with
  | some t => exact ⟨htiers ▸ (hd.limit hl).default t ht, Or.inl rfl⟩
  | none =>
    obtain ⟨hmem, hle⟩ := c.min_spec
    refine ⟨Array.mem_toList_iff.mpr hmem, Or.inr ⟨rfl, fun t ht => hle t ?_⟩⟩
    exact Array.mem_toList_iff.mp ht

theorem Describes.defaultsToTier (h : d.Describes m) (hd : d.Sound) : m.DefaultsToTier := by
  intro hl t ht
  rw [h.facets] at hl
  rw [h.defaultLimit] at ht
  exact (h.hasTier_iff hl).mpr ((hd.limit hl).default t ht)

/-- **The initial settings are the declared defaults.** -/
theorem Describes.defaults_initial (h : d.Describes m) (hd : d.Sound) : d.Defaults m.initial := by
  have hcovers : m.initial.Covers d.facets := h.facets ▸ m.covers_initial
  refine ⟨hcovers, fun l hl => ?_, fun p hp => ?_, fun p hp => ?_, fun w hw => ?_⟩
  · have hm : .limit ∈ d.facets := hcovers.mem (Settings.get?_limit_iff.mpr hl)
    obtain ⟨-, ⟨⟩⟩ := Option.ite_none_right_eq_some.mp hl
    exact h.initialTier_spec hd hm
  · obtain ⟨-, ⟨⟩⟩ := Option.ite_none_right_eq_some.mp hp
    exact ⟨h.extendRule, rfl⟩
  · obtain ⟨-, ⟨⟩⟩ := Option.ite_none_right_eq_some.mp hp
    exact h.restrictActiveFrom
  · obtain ⟨-, ⟨⟩⟩ := Option.ite_none_right_eq_some.mp hw
    exact h.demoActiveUntil

end Declaration
end Subscription
