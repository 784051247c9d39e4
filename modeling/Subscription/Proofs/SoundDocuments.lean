import Subscription.Document.Validity
import Subscription.Proofs.FieldReading
import Subscription.Proofs.Tiers

/-! # What a sound document is

The checks of a declaration stop at the first fault.  That they find none is a statement
about its fields without any order (`Declaration.Sound`, `Declaration.validate_eq_ok_iff`),
and so it is for a document: every declaration is sound, and names, ids and variants are
all different, variants also within one declaration (`Document.Sound`,
`Document.validate_eq_ok_iff`).
-/
namespace Subscription

/-! ## One declaration -/

/-- The span has a step and does not end before it starts. -/
structure Span.Sound (s : Span) : Prop where
  step : s.step ≠ 0
  bounds : s.first ≤ s.last

theorem Span.validate_eq_ok_iff {s : Span} : s.validate = .ok () ↔ s.Sound := by
  unfold validate
  split
  · rename_i h
    exact ⟨nofun, fun hs => absurd h hs.step⟩
  · rename_i hstep
    split
    · rename_i h
      exact ⟨nofun, fun hs => absurd h (UInt32.not_lt.mpr hs.bounds)⟩
    · rename_i hbounds
      exact ⟨fun _ => ⟨hstep, UInt32.not_lt.mp hbounds⟩, fun _ => rfl⟩

namespace Declaration
variable {d : Declaration}

/-- The tiers that the spans write out. -/
def tiers (d : Declaration) : List UInt32 := d.spans.flatMap Span.values

/-- The tiers and the defaults that a limit needs. -/
structure SoundLimit (d : Declaration) : Prop where
  nonempty : d.tiers ≠ []
  ascending : d.tiers.Pairwise (· < ·)
  free : ∀ t ∈ d.freeTiers, t ∈ d.tiers
  default : ∀ t, d.defaults.limit = some t → t ∈ d.tiers

/-- A declaration that describes a family. -/
structure Sound (d : Declaration) : Prop where
  name : d.name ≠ ""
  variants : d.variants ≠ []
  facets : d.facets ≠ []
  facets_nodup : d.facets.Nodup
  spans : ∀ s ∈ d.spans, s.Sound
  limit : .limit ∈ d.facets → d.SoundLimit
  /-- Only a limit has tiers. -/
  no_spans : .limit ∉ d.facets → d.spans = []
  rule : ∀ name, d.defaults.extendPolicy = some name → ∃ rule : ExtendRule, name = rule.name

theorem catalog_eq_ok_iff {c : Catalog} :
    d.catalog = .ok c ↔ c.tiers.toList = d.tiers ∧ c.free = d.freeTiers := by
  rw [← Catalog.ofTiers_eq_ok_iff]
  unfold catalog tiers
  cases Catalog.ofTiers (d.spans.flatMap Span.values) d.freeTiers with
  | error e => exact ⟨nofun, nofun⟩
  | ok c' => rw [Except.ok.injEq, Except.ok.injEq]

theorem exists_catalog_iff :
    (∃ c, d.catalog = .ok c) ↔
      d.tiers ≠ [] ∧ d.tiers.Pairwise (· < ·) ∧ ∀ t ∈ d.freeTiers, t ∈ d.tiers := by
  simp only [catalog_eq_ok_iff, ← Catalog.exists_ofTiers_iff, Catalog.ofTiers_eq_ok_iff]

theorem validateLimit_eq_ok_iff : d.validateLimit = .ok () ↔ d.SoundLimit := by
  -- With a catalog, only the default limit is left to check.
  have hdefault {c : Catalog} (hc : d.catalog = .ok c) :
      d.validateLimit = .ok () ↔ ∀ t, d.defaults.limit = some t → t ∈ d.tiers := by
    have hmem (t : UInt32) : t ∈ d.tiers ↔ t ∈ c.tiers := by
      rw [← (catalog_eq_ok_iff.mp hc).1, Array.mem_toList_iff]
    unfold validateLimit
    rw [hc]
    dsimp only [bind, Except.bind]
    cases d.defaults.limit with
    | none => exact ⟨fun _ t h => absurd h (Option.some_ne_none t).symm, fun _ => rfl⟩
    | some t =>
      simp only [Option.some.injEq, forall_eq', hmem]
      cases hr : c.require t with
      | error e =>
        refine ⟨nofun, fun ht => ?_⟩
        rw [c.require_eq_ok_iff.mpr ⟨rfl, ht⟩] at hr
        cases hr
      | ok t' => exact ⟨fun _ => (c.require_eq_ok_iff.mp hr).2, fun _ => rfl⟩
  constructor
  · intro h
    obtain ⟨c, hc, -⟩ := bind_eq_ok_iff.mp h
    obtain ⟨hne, hasc, hfree⟩ := exists_catalog_iff.mp ⟨c, hc⟩
    exact ⟨hne, hasc, hfree, (hdefault hc).mp h⟩
  · intro h
    obtain ⟨c, hc⟩ := exists_catalog_iff.mpr ⟨h.nonempty, h.ascending, h.free⟩
    exact (hdefault hc).mpr h.default

theorem validateRule_eq_ok_iff :
    d.validateRule = .ok () ↔
      ∀ name, d.defaults.extendPolicy = some name → ∃ rule : ExtendRule, name = rule.name := by
  unfold validateRule
  cases d.defaults.extendPolicy with
  | none => exact ⟨fun _ _ => nofun, fun _ => rfl⟩
  | some name =>
    simp only [Option.some.injEq, forall_eq', ← ExtendRule.ofName?_eq_some_iff,
      ← Option.isSome_iff_exists]
    split
    · rename_i h
      exact ⟨fun _ => h, fun _ => rfl⟩
    · rename_i h
      exact ⟨nofun, fun hs => absurd hs h⟩

/-- The checks in the order they are made, each of which has to let through. -/
theorem validate_eq_ok_iff_checks :
    d.validate = .ok () ↔
      d.name ≠ "" ∧ d.variants ≠ [] ∧ d.facets ≠ [] ∧ firstRepeated [] d.facets = none ∧
        d.spans.forM Span.validate = .ok () ∧
        (if .limit ∈ d.facets then d.validateLimit = .ok () else d.spans = []) ∧
        d.validateRule = .ok () := by
  unfold validate
  dsimp only
  rw [guarded_eq_ok_iff, guarded_eq_ok_iff, guarded_eq_ok_iff]
  refine and_congr_right fun _ => and_congr_right fun _ => and_congr_right fun _ => ?_
  cases firstRepeated [] d.facets with
  | some f => exact ⟨nofun, fun h => nomatch h.1⟩
  | none =>
    rw [and_iff_right rfl, bind_eq_ok_iff]
    constructor
    · rintro ⟨_, hspans, h⟩
      refine ⟨hspans, ?_⟩
      split at h
      · rename_i hl
        rw [if_pos hl]
        obtain ⟨_, hlimit, hrule⟩ := bind_eq_ok_iff.mp h
        exact ⟨hlimit, hrule⟩
      · rename_i hl
        rw [if_neg hl]
        obtain ⟨hnone, hrule⟩ := guarded_eq_ok_iff.mp h
        exact ⟨Decidable.not_not.mp hnone, hrule⟩
    · rintro ⟨hspans, hlimit, hrule⟩
      refine ⟨(), hspans, ?_⟩
      split at hlimit
      · rename_i hl
        rw [if_pos hl]
        exact bind_eq_ok_iff.mpr ⟨(), hlimit, hrule⟩
      · rename_i hl
        rw [if_neg hl]
        exact guarded_eq_ok_iff.mpr ⟨not_not_intro hlimit, hrule⟩

/-- **The checks let through exactly the sound declarations.** -/
theorem validate_eq_ok_iff : d.validate = .ok () ↔ d.Sound := by
  rw [validate_eq_ok_iff_checks, firstRepeated_eq_none_iff, forM_eq_ok_iff,
    validateLimit_eq_ok_iff, validateRule_eq_ok_iff]
  simp only [Span.validate_eq_ok_iff]
  constructor
  · rintro ⟨hname, hvariants, hfacets, ⟨hnodup, -⟩, hspans, hlimit, hrule⟩
    refine ⟨hname, hvariants, hfacets, hnodup, hspans, fun hl => ?_, fun hl => ?_, hrule⟩
    · rwa [if_pos hl] at hlimit
    · rwa [if_neg hl] at hlimit
  · intro h
    refine ⟨h.name, h.variants, h.facets, ⟨h.facets_nodup, fun _ _ => List.not_mem_nil⟩,
      h.spans, ?_, h.rule⟩
    split
    · rename_i hl
      exact h.limit hl
    · rename_i hl
      exact h.no_spans hl

end Declaration

/-! ## The whole document -/

theorem firstRepeated_cons_eq_none_iff {α : Type} [DecidableEq α] {seen xs : List α} {x : α} :
    firstRepeated seen (x :: xs) = none ↔ x ∉ seen ∧ firstRepeated (x :: seen) xs = none := by
  rw [firstRepeated]
  by_cases hx : x ∈ seen
  · simp [hx]
  · rw [if_neg hx, and_iff_right hx]

/-- A list with another after it repeats nothing when neither does, the second not what
the first has either. -/
theorem firstRepeated_append_eq_none_iff {α : Type} [DecidableEq α] {seen xs ys : List α} :
    firstRepeated seen (xs ++ ys) = none ↔
      firstRepeated seen xs = none ∧ firstRepeated (xs ++ seen) ys = none := by
  rw [firstRepeated_eq_none_iff, firstRepeated_eq_none_iff, firstRepeated_eq_none_iff,
    List.nodup_append, List.forall_mem_append]
  simp only [List.mem_append, not_or]
  constructor
  · rintro ⟨⟨hx, hy, hxy⟩, hseen, hseen'⟩
    exact ⟨⟨hx, hseen⟩, hy, fun y hm => ⟨fun hmx => hxy y hmx y hm rfl, hseen' y hm⟩⟩
  · rintro ⟨⟨hx, hseen⟩, hy, hall⟩
    refine ⟨⟨hx, hy, ?_⟩, hseen, fun y hm => (hall y hm).2⟩
    rintro x hmx y hm rfl
    exact (hall x hm).1 hmx

namespace Document

/-- A document whose declarations describe families that have nothing in common. -/
structure Sound (d : Document) : Prop where
  declarations : ∀ e ∈ d.families, e.Sound
  names : (d.families.map Declaration.name).Nodup
  ids : (d.families.map Declaration.id).Nodup
  variants : (d.families.flatMap Declaration.variants).Nodup

/-- What the checks of declarations find after names, ids and variants have been used. -/
theorem validateAfter_eq_ok_iff {names : List String} {ids variants : List UInt32}
    {ds : List Declaration} :
    validateAfter names ids variants ds = .ok () ↔
      (∀ e ∈ ds, e.Sound) ∧ firstRepeated names (ds.map Declaration.name) = none ∧
        firstRepeated ids (ds.map Declaration.id) = none ∧
        firstRepeated variants (ds.flatMap Declaration.variants) = none := by
  induction ds generalizing names ids variants with
  | nil => exact ⟨fun _ => ⟨fun _ h => absurd h List.not_mem_nil, rfl, rfl, rfl⟩, fun _ => rfl⟩
  | cons d rest ih =>
    have hstep : validateAfter names ids variants (d :: rest) = .ok () ↔
        d.Sound ∧ d.name ∉ names ∧ d.id ∉ ids ∧ firstRepeated variants d.variants = none ∧
          validateAfter (d.name :: names) (d.id :: ids) (d.variants ++ variants) rest = .ok () := by
      rw [validateAfter]
      dsimp only
      rw [bind_eq_ok_iff, ← Declaration.validate_eq_ok_iff]
      simp only [guarded_eq_ok_iff]
      cases firstRepeated variants d.variants with
      | some v =>
        constructor
        · rintro ⟨_, _, _, _, h⟩
          cases h
        · rintro ⟨_, _, _, h, _⟩
          cases h
      | none =>
        constructor
        · rintro ⟨_, hd, hn, hi, h⟩
          exact ⟨hd, hn, hi, rfl, h⟩
        · rintro ⟨hd, hn, hi, -, h⟩
          exact ⟨(), hd, hn, hi, h⟩
    rw [hstep, ih, List.forall_mem_cons, List.map_cons, List.map_cons, List.flatMap_cons,
      firstRepeated_cons_eq_none_iff, firstRepeated_cons_eq_none_iff,
      firstRepeated_append_eq_none_iff]
    constructor
    · rintro ⟨hd, hn, hi, hv, hrest, hns, his, hvs⟩
      exact ⟨⟨hd, hrest⟩, ⟨hn, hns⟩, ⟨hi, his⟩, hv, hvs⟩
    · rintro ⟨⟨hd, hrest⟩, ⟨hn, hns⟩, ⟨hi, his⟩, hv, hvs⟩
      exact ⟨hd, hn, hi, hv, hrest, hns, his, hvs⟩

/-- **The checks let through exactly the sound documents.** -/
theorem validate_eq_ok_iff {d : Document} : d.validate = .ok () ↔ d.Sound := by
  have hnil {α : Type} [DecidableEq α] (xs : List α) : firstRepeated [] xs = none ↔ xs.Nodup :=
    firstRepeated_eq_none_iff.trans (and_iff_left fun _ _ => List.not_mem_nil)
  unfold validate
  rw [validateAfter_eq_ok_iff, hnil, hnil, hnil]
  exact ⟨fun ⟨hd, hn, hi, hv⟩ => ⟨hd, hn, hi, hv⟩, fun h => ⟨h.1, h.2, h.3, h.4⟩⟩

end Document
end Subscription
