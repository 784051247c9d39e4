import Subscription.Alteration.Replacement
import Subscription.Proofs.Order
import Subscription.Proofs.LimitSafety
import Subscription.Proofs.Tiers

/-! # The least tier that will do

For any number of seats a catalog has one tier to offer: the least that has room for them, or the
greatest where none has (`Catalog.IsTierFor`).  The ascending search for a fitting tier finds
it (`Catalog.isTierFor_smallestFitting`), since whatever stands before the first fitting tier is
too small and whatever stands after it is greater.  A limit that is a tier is replaced by the tier
for what it is or for the occupied seats, whichever is more (`Limit.isTierFor_replacement`), and
from this one fact follows everything about a replacement: it is a tier, it is not lower, it has
room if any tier has, and it needs no replacement itself (`Limit.replacement_leastTier`).
-/
namespace Subscription
open scoped TierOrder

namespace Catalog
variable {c : Catalog} {required required' tier tier' : UInt32}

/-- The tier that the catalog has for a requirement: the least that is not below it, or else the
greatest. -/
def IsTierFor (c : Catalog) (required tier : UInt32) : Prop :=
  IsLeast {t | t ∈ c.tiers ∧ required ≤ t} tier ∨
    (∀ t ∈ c.tiers, t < required) ∧ IsGreatest {t | t ∈ c.tiers} tier

theorem isGreatest_max (c : Catalog) : IsGreatest {t | t ∈ c.tiers} c.max := c.max_spec

/-- The first fitting tier of an ascending catalog is the least. -/
theorem isLeast_of_find? {t : UInt32} (h : c.tiers.toList.find? (required ≤ ·) = some t) :
    IsLeast {t | t ∈ c.tiers ∧ required ≤ t} t := by
  obtain ⟨hfits, before, after, htiers, hbefore⟩ := List.find?_eq_some_iff_append.mp h
  have hasc := c.ascending
  rw [htiers, List.pairwise_append] at hasc
  refine ⟨⟨Array.mem_toList_iff.mp (List.mem_of_find?_eq_some h), of_decide_eq_true hfits⟩, ?_⟩
  rintro t' ⟨ht', hfits'⟩
  rw [← Array.mem_toList_iff, htiers, List.mem_append] at ht'
  rcases ht' with hsmall | hrest
  · have hnot := hbefore t' hsmall
    simp [hfits'] at hnot
  · rcases List.mem_cons.mp hrest with rfl | hafter
    · exact le_rfl
    · exact (List.rel_of_pairwise_cons hasc.2.1 hafter).le

/-- **The search finds the tier for any requirement.** -/
theorem isTierFor_smallestFitting (c : Catalog) (required : UInt32) :
    c.IsTierFor required (c.smallestFitting required) := by
  unfold smallestFitting
  cases hfind : c.tiers.toList.find? (required ≤ ·) with
  | some t => exact Or.inl (isLeast_of_find? hfind)
  | none =>
    refine Or.inr ⟨fun t ht => ?_, c.isGreatest_max⟩
    have hsmall := List.find?_eq_none.mp hfind t (Array.mem_toList_iff.mpr ht)
    simpa using hsmall

/-- A tier is the one for itself. -/
theorem isTierFor_self (h : tier ∈ c.tiers) : c.IsTierFor tier tier :=
  Or.inl ⟨⟨h, le_rfl⟩, fun _ ht => ht.2⟩

namespace IsTierFor

theorem mem (h : c.IsTierFor required tier) : tier ∈ c.tiers := by
  rcases h with h | ⟨-, h⟩
  · exact h.1.1
  · exact h.1

/-- The tier for a requirement meets it as soon as any tier does. -/
theorem fits_iff (h : c.IsTierFor required tier) :
    required ≤ tier ↔ ∃ t ∈ c.tiers, required ≤ t := by
  refine ⟨fun hle => ⟨tier, h.mem, hle⟩, fun ⟨t, ht, hle⟩ => ?_⟩
  rcases h with h | ⟨hsmall, -⟩
  · exact h.1.2
  · exact absurd hle (hsmall t ht).not_ge

/-- More is never met by a lower tier. -/
theorem mono (h : c.IsTierFor required tier) (h' : c.IsTierFor required' tier')
    (hle : required ≤ required') : tier ≤ tier' := by
  rcases h' with hleast | ⟨-, hgreatest⟩
  · have hfits : required ≤ tier' := hle.trans hleast.1.2
    rcases h with h | ⟨hsmall, -⟩
    · exact h.2 ⟨hleast.1.1, hfits⟩
    · exact absurd hfits (hsmall tier' hleast.1.1).not_ge
  · exact hgreatest.2 h.mem

/-- There is one tier for a requirement. -/
theorem unique (h : c.IsTierFor required tier) (h' : c.IsTierFor required tier') : tier = tier' :=
  le_antisymm (h.mono h' le_rfl) (h'.mono h le_rfl)

/-- No tier is given up for the tier of something greater. -/
theorem le (h : c.IsTierFor required tier) (ht : tier' ∈ c.tiers) (hle : tier' ≤ required) :
    tier' ≤ tier :=
  (isTierFor_self ht).mono h hle

/-- What a requirement has led to is kept for any smaller one. -/
theorem again (h : c.IsTierFor required tier) (hle : required' ≤ required) :
    c.IsTierFor (tier ⊔ required') tier := by
  rcases le_or_gt required' tier with hfits | hover
  · rw [max_eq_left hfits]
    exact isTierFor_self h.mem
  · -- Even the smaller requirement is above the tier, which is therefore the greatest.
    rcases h with h | ⟨-, hgreatest⟩
    · exact absurd (hle.trans h.1.2) hover.not_ge
    · rw [max_eq_right hover.le]
      exact Or.inr ⟨fun t ht => (hgreatest.2 ht).trans_lt hover, hgreatest⟩

end IsTierFor
end Catalog

namespace Limit
variable {c : Catalog} {l : Limit} {t : Transition}

/-- A limit gives way to the tier for itself or for the occupied seats, whichever is more. -/
theorem isTierFor_replacement (hc : t.family.catalog = some c) (hl : l.tier ∈ c.tiers) :
    c.IsTierFor (max l.tier t.circumstance.occupancy) (l.replacement t).tier := by
  unfold replacement
  by_cases hfits : t.circumstance.occupancy ≤ l.tier
  · rw [if_pos hfits, max_eq_left hfits]
    exact Catalog.isTierFor_self hl
  · rw [if_neg hfits, hc, max_eq_right (not_le.mp hfits).le]
    exact c.isTierFor_smallestFitting _

/-- There is room after the replacement exactly when some tier has room. -/
theorem fits_replacement_iff (hc : t.family.catalog = some c) (hl : l.tier ∈ c.tiers) :
    t.circumstance.occupancy ≤ (l.replacement t).tier ↔
      ∃ tier ∈ c.tiers, t.circumstance.occupancy ≤ tier := by
  have htier := isTierFor_replacement hc hl
  refine ⟨fun hfits => ⟨_, htier.mem, hfits⟩, fun ⟨tier, ht, hfits⟩ => ?_⟩
  -- Of the current limit and a tier with room, the greater is a tier that is both.
  have hsome : ∃ tier ∈ c.tiers, max l.tier t.circumstance.occupancy ≤ tier := by
    rcases le_total l.tier tier with hle | hle
    · exact ⟨tier, ht, max_le hle hfits⟩
    · exact ⟨l.tier, hl, max_le le_rfl (hfits.trans hle)⟩
  exact (le_max_right _ _).trans (htier.fits_iff.mpr hsome)

/-- **A limit is replaced by the least tier that will do, and never by a lower one.**  The
replacement of a limit that is a tier is the least tier that is neither below it nor below the
occupied seats, or the greatest tier if there is none.  So it is a tier itself, no lower than the
limit, with room for the seats if any tier has it; for no more seats a limit gets no higher
replacement, and the replacement itself stays as it is. -/
theorem replacement_leastTier (hc : t.family.catalog = some c) (hl : l.tier ∈ c.tiers) :
    c.IsTierFor (max l.tier t.circumstance.occupancy) (l.replacement t).tier ∧
      (l.replacement t).tier ∈ c.tiers ∧ l.tier ≤ (l.replacement t).tier ∧
      (t.circumstance.occupancy ≤ (l.replacement t).tier ↔
        ∃ tier ∈ c.tiers, t.circumstance.occupancy ≤ tier) ∧
      ∀ t' : Transition, t'.family.catalog = some c →
        t'.circumstance.occupancy ≤ t.circumstance.occupancy →
        (l.replacement t').tier ≤ (l.replacement t).tier ∧
          (l.replacement t).replacement t' = l.replacement t := by
  have htier := isTierFor_replacement hc hl
  refine ⟨htier, htier.mem, htier.le hl (le_max_left _ _), fits_replacement_iff hc hl, ?_⟩
  intro t' hc' hle
  have htier' := isTierFor_replacement hc' hl
  have hagain := isTierFor_replacement hc' htier.mem
  refine ⟨htier'.mono htier (max_le_max_left _ hle), congrArg mk ?_⟩
  exact hagain.unique (htier.again (hle.trans (le_max_right _ _)))

end Limit

namespace Seats

/-- The replacement for a number of occupied seats in a paid month. -/
def replacingFor (occupancy : UInt32) : Transition :=
  { plan.replacing month with circumstance := { occupancy } }

/-- For sixty seats no tier has room, so twenty are replaced by the fifty that are the most; for
twenty-five they are replaced by thirty, and the fifty are kept. -/
theorem replacement_ofTwenty :
    (replacingFor 60).family.catalog = some catalog ∧ (20 : UInt32) ∈ catalog.tiers ∧
      (replacingFor 25).family.catalog = some catalog ∧
      (replacingFor 25).circumstance.occupancy ≤ (replacingFor 60).circumstance.occupancy ∧
      Limit.replacement ⟨20⟩ (replacingFor 60) = ⟨50⟩ ∧ catalog.IsTierFor 60 50 ∧
      (¬ ∃ tier ∈ catalog.tiers, 60 ≤ tier) ∧
      Limit.replacement ⟨20⟩ (replacingFor 25) = ⟨30⟩ ∧
      Limit.replacement ⟨50⟩ (replacingFor 25) = ⟨50⟩ := by
  have hc (occupancy : UInt32) : (replacingFor occupancy).family.catalog = some catalog := rfl
  have htwenty : (20 : UInt32) ∈ catalog.tiers := by simp [catalog]
  have hfewer : (replacingFor 25).circumstance.occupancy ≤
      (replacingFor 60).circumstance.occupancy := by decide
  have hfifty : Limit.replacement ⟨20⟩ (replacingFor 60) = ⟨50⟩ := by decide
  obtain ⟨htier, -, -, hfits, hagain⟩ :=
    Limit.replacement_leastTier (l := ⟨20⟩) (t := replacingFor 60) (hc 60) htwenty
  obtain ⟨-, hkept⟩ := hagain (replacingFor 25) (hc 25) hfewer
  rw [hfifty] at htier hfits hkept
  refine ⟨hc 60, htwenty, hc 25, hfewer, hfifty, htier, fun h => ?_, by decide, hkept⟩
  exact absurd (hfits.mpr h) (by decide)

end Seats
end Subscription
